import DhtKad.Client

/-!
The verdict of `store`.

The loop over the results counts the requests that failed and keeps the last
error. A request fails by an I/O error or by an error code in its answer, where
a number that is not declared counts as `OK`. So `store` succeeds exactly if some
answer has a code that is not one of the declared errors, and otherwise, if it has
sent a request at all, reports a genuine error.
-/

namespace DhtKad.DHTClient

/-- The error of a result, if it counts as a failure. -/
def failure (r : Except IoError Message) : Option RPCError :=
  match validateStoreResult r with
  | .error e => some e
  | .ok () => none

/-- The numbers that `enum_value_or_default` reads as an error. -/
theorem enumValueOrDefault_eq_ok_iff (code : ProtobufEnumOrUnknown ErrorCode) :
    code.enumValueOrDefault = .ok ↔ code.value ≠ 1 ∧ code.value ≠ 2 ∧ code.value ≠ 3 := by
  obtain ⟨value⟩ := code
  show ((ErrorCode.fromI32 value).getD .ok) = .ok ↔ _
  rw [ErrorCode.fromI32]
  split_ifs <;> simp_all

theorem errorCode_of_failure {r : Except IoError Message} {e : RPCError}
    (h : failure r = some e) : e.errorCode ≠ .ok := by
  rw [failure] at h
  cases r with
  | error io =>
      obtain rfl := Option.some.inj h
      exact nofun
  | ok message =>
      by_cases hcode : message.code.enumValueOrDefault = .ok
      · simp [validateStoreResult, hcode] at h
      · simp only [validateStoreResult, ne_eq, hcode, not_false_eq_true, if_true,
          Option.some.injEq] at h
        obtain rfl := h
        exact hcode

theorem failure_eq_none_iff (r : Except IoError Message) :
    failure r = none ↔ ∃ message, r = .ok message ∧ message.code.enumValueOrDefault = .ok := by
  cases r with
  | error io => simp [failure, validateStoreResult]
  | ok message =>
      by_cases hcode : message.code.enumValueOrDefault = .ok
      · simp [failure, validateStoreResult, hcode]
      · simp [failure, validateStoreResult, hcode]

/-- The loop over the results: the number of failures and the last error. -/
def accumulate (acc : ℕ × RPCError) (r : Except IoError Message) : ℕ × RPCError :=
  match failure r with
  | some e => (acc.1 + 1, e)
  | none => acc

theorem storeResult_eq_foldl (results : List (Except IoError Message)) :
    storeResult results =
      if (results.foldl accumulate (0, { errorCode := .ok, message := "" })).1 =
          results.length then
        .error (results.foldl accumulate (0, { errorCode := .ok, message := "" })).2
      else .ok () := by
  have hbody : (fun (acc : ℕ × RPCError) (r : Except IoError Message) =>
      match validateStoreResult r with
      | .error e => (acc.1 + 1, e)
      | .ok () => (acc.1, acc.2)) = accumulate := by
    funext acc r
    rw [accumulate, failure]
    cases validateStoreResult r <;> rfl
  rw [← hbody]
  rfl

theorem foldl_accumulate (results : List (Except IoError Message)) (acc : ℕ × RPCError) :
    results.foldl accumulate acc =
      (acc.1 + (results.filterMap failure).length,
        (results.filterMap failure).getLastD acc.2) := by
  induction results generalizing acc with
  | nil => rfl
  | cons r results ih =>
      rw [List.foldl_cons, ih, List.filterMap_cons, accumulate]
      cases failure r with
      | none => rfl
      | some e =>
          simp only [List.getLastD_cons, List.length_cons]
          rw [Nat.add_assoc, Nat.add_comm 1]

/-- `store` fails exactly if every request does, with the last of the errors. -/
theorem storeResult_eq (results : List (Except IoError Message)) :
    storeResult results =
      if (∀ r ∈ results, (failure r).isSome) then
        .error ((results.filterMap failure).getLastD { errorCode := .ok, message := "" })
      else .ok () := by
  have hcount : (results.filterMap failure).length = results.length ↔
      ∀ r ∈ results, (failure r).isSome := by
    rw [List.length_filterMap_eq_countP, List.countP_eq_length]
  simp only [storeResult_eq_foldl, foldl_accumulate, Nat.zero_add, hcount]

theorem exists_failure_none_iff (results : List (Except IoError Message)) :
    (¬ ∀ r ∈ results, (failure r).isSome) ↔
      ∃ message, .ok message ∈ results ∧
        message.code.value ≠ 1 ∧ message.code.value ≠ 2 ∧ message.code.value ≠ 3 := by
  simp only [not_forall, Option.not_isSome_iff_eq_none, failure_eq_none_iff,
    enumValueOrDefault_eq_ok_iff]
  refine ⟨?_, ?_⟩
  · rintro ⟨_, hr, message, rfl, hcode⟩
    exact ⟨message, hr, hcode⟩
  · rintro ⟨message, hr, hcode⟩
    exact ⟨_, hr, message, rfl, hcode⟩

theorem errorCode_getLastD {results : List (Except IoError Message)} (hne : results ≠ [])
    (hall : ∀ r ∈ results, (failure r).isSome) (e : RPCError) :
    ((results.filterMap failure).getLastD e).errorCode ≠ .ok := by
  obtain ⟨r, hr⟩ := List.exists_mem_of_ne_nil results hne
  obtain ⟨e', he'⟩ := Option.isSome_iff_exists.mp (hall r hr)
  have hsome : results.filterMap failure ≠ [] :=
    List.ne_nil_of_mem (List.mem_filterMap.mpr ⟨r, hr, he'⟩)
  rw [List.getLastD_eq_getLast?, List.getLast?_eq_some_getLast hsome, Option.getD_some]
  obtain ⟨r', -, hr'⟩ := List.mem_filterMap.mp (List.getLast_mem hsome)
  exact errorCode_of_failure hr'

/-- **The verdict.** `store` returns `Ok` exactly if one of the results is an answer
whose code is `OK` or undeclared, and otherwise, if there are results at all, an
error that does not say `OK`. -/
theorem storeResult_isOk_iff (results : List (Except IoError Message)) :
    (storeResult results = .ok () ↔
        ∃ message, .ok message ∈ results ∧
          message.code.value ≠ 1 ∧ message.code.value ≠ 2 ∧ message.code.value ≠ 3) ∧
      (results ≠ [] → ∀ e, storeResult results = .error e → e.errorCode ≠ .ok) := by
  rw [← exists_failure_none_iff, storeResult_eq]
  by_cases hall : ∀ r ∈ results, (failure r).isSome
  · rw [if_pos hall]
    refine ⟨iff_of_false nofun (not_not.mpr hall), fun hne e he => ?_⟩
    obtain rfl := Except.error.inj he
    exact errorCode_getLastD hne hall _
  · rw [if_neg hall]
    exact ⟨iff_of_true rfl hall, nofun⟩

/-- The results of two requests, one answered with an error code, and those of two
that failed. -/
def mixedResults : List (Except IoError Message) :=
  [.ok (createStoreResponse false), .ok (createStoreResponse true)]

def failedResults : List (Except IoError Message) :=
  [.error { text := "" }, .ok (createStoreResponse false)]

theorem storeResult_isOk_iff_mixed : storeResult mixedResults = .ok () ∧
    ∀ e, storeResult failedResults = .error e → e.errorCode ≠ .ok :=
  ⟨(storeResult_isOk_iff mixedResults).1.mpr
      ⟨createStoreResponse true, by simp [mixedResults], by decide⟩,
    (storeResult_isOk_iff failedResults).2 nofun⟩

/-- The result of one request, answered with a code that is not declared. -/
def undeclaredResults : List (Except IoError Message) := [.ok { code := { value := 7 } }]

/-- It counts as a success, although no code on the wire is `OK`. -/
theorem undeclared_code_is_success :
    storeResult undeclaredResults = .ok () ∧
      ¬ ∃ message, .ok message ∈ undeclaredResults ∧ message.code.value = 0 := by
  refine ⟨by decide, ?_⟩
  rintro ⟨message, hmem, hzero⟩
  obtain rfl := Except.ok.inj (List.mem_singleton.mp hmem)
  exact absurd hzero (by decide)

end DhtKad.DHTClient
