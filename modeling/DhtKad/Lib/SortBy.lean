import Mathlib.Data.List.Destutter
import Mathlib.Data.List.Sort

/-!
Stable sorting by a key, and selecting the elements of least key.

A stable sort is determined by its key classes (`sortBy_unique`), so a list
that falls into blocks with separated keys is sorted block by block. The
selection lemma `take_sortBy_append_iff` says when searching only a part of a
collection finds the same least keys as searching all of it. Removing adjacent
duplicates after a stable sort by a key leaves a duplicate exactly if two
elements of one key alternated in the list (`nodup_destutter_sortBy_iff`).
-/

namespace SortBy

variable {α κ : Type*} [LinearOrder κ]

/-- The list sorted by ascending key, elements of equal key in their original
order. -/
def sortBy (key : α → κ) (l : List α) : List α :=
  l.insertionSort (fun a b => key a ≤ key b)

variable {key : α → κ}

@[simp] theorem sortBy_nil : sortBy key [] = [] := rfl

theorem sortBy_perm (l : List α) : (sortBy key l).Perm l :=
  List.perm_insertionSort _ l

@[simp] theorem mem_sortBy {l : List α} {a : α} : a ∈ sortBy key l ↔ a ∈ l :=
  (sortBy_perm l).mem_iff

@[simp] theorem length_sortBy (key : α → κ) (l : List α) : (sortBy key l).length = l.length :=
  (sortBy_perm l).length_eq

theorem pairwise_sortBy (key : α → κ) (l : List α) :
    (sortBy key l).Pairwise (fun a b => key a ≤ key b) := by
  have : Std.Total (fun a b : α => key a ≤ key b) := ⟨fun a b => le_total (key a) (key b)⟩
  have : IsTrans α (fun a b => key a ≤ key b) := ⟨fun _ _ _ => le_trans⟩
  exact List.pairwise_insertionSort _ l

theorem map_key_sortBy (l : List α) :
    (sortBy key l).map key = (l.map key).insertionSort (· ≤ ·) :=
  List.map_insertionSort (s := (· ≤ ·)) _ key l (fun _ _ _ _ => Iff.rfl)

theorem map_key_sortBy_of_perm {l l' : List α} (h : l.Perm l') :
    (sortBy key l).map key = (sortBy key l').map key := by
  apply List.Perm.eq_of_pairwise' (r := (· ≤ ·))
  · exact List.pairwise_map.mpr (pairwise_sortBy key l)
  · exact List.pairwise_map.mpr (pairwise_sortBy key l')
  · exact (((sortBy_perm l).trans h).trans (sortBy_perm l').symm).map key

/-! ### Stability -/

theorem filter_orderedInsert (v : κ) (a : α) {l : List α}
    (h : l.Pairwise (fun a b => key a ≤ key b)) :
    (l.orderedInsert (fun a b => key a ≤ key b) a).filter (key · = v) =
      (a :: l).filter (key · = v) := by
  induction l with
  | nil => simp
  | cons b l ih =>
      rw [List.pairwise_cons] at h
      by_cases hab : key a ≤ key b
      · rw [List.orderedInsert_cons_of_le (fun a b => key a ≤ key b) _ hab]
      · rw [List.orderedInsert_of_not_le (fun a b => key a ≤ key b) _ hab, List.filter_cons,
          ih h.2]
        -- `b` is passed over because its key is strictly smaller
        by_cases ha : key a = v
        · have hb : key b ≠ v := fun hb => hab (ha.trans hb.symm).le
          simp [ha, hb]
        · simp [List.filter_cons, ha]

theorem filter_sortBy (v : κ) (l : List α) :
    (sortBy key l).filter (key · = v) = l.filter (key · = v) := by
  induction l with
  | nil => rfl
  | cons a l ih =>
      have h := filter_orderedInsert v a (pairwise_sortBy key l)
      rw [List.filter_cons, ih] at h
      rw [List.filter_cons]
      exact h

theorem eq_of_filter_eq {s s' : List α}
    (hs : s.Pairwise (fun a b => key a ≤ key b))
    (hs' : s'.Pairwise (fun a b => key a ≤ key b))
    (h : ∀ v, s.filter (key · = v) = s'.filter (key · = v)) : s = s' := by
  induction s generalizing s' with
  | nil =>
      cases s' with
      | nil => rfl
      | cons b s' => simpa using h (key b)
  | cons a s ih =>
      cases s' with
      | nil => simpa using h (key a)
      | cons b s' =>
          rw [List.pairwise_cons] at hs hs'
          have hab : key a = key b := by
            apply le_antisymm
            · have hb : b ∈ (a :: s).filter (key · = key b) := by
                rw [h]
                simp
              rcases List.mem_cons.mp (List.mem_filter.mp hb).1 with rfl | hb
              · exact le_rfl
              · exact hs.1 b hb
            · have ha : a ∈ (b :: s').filter (key · = key a) := by
                rw [← h]
                simp
              rcases List.mem_cons.mp (List.mem_filter.mp ha).1 with rfl | ha
              · exact le_rfl
              · exact hs'.1 a ha
          have hhead := h (key a)
          rw [List.filter_cons_of_pos (by simp), List.filter_cons_of_pos (by simp [hab])]
            at hhead
          obtain ⟨rfl, -⟩ := List.cons.inj hhead
          rw [ih hs.2 hs'.2]
          intro v
          have hv := h v
          by_cases hav : key a = v
          · simpa [List.filter_cons, hav] using hv
          · simpa [List.filter_cons, hav] using hv

/-- The stable sort of a list is its only sorted rearrangement that keeps the
key classes. -/
theorem sortBy_unique {l s : List α} (hs : s.Pairwise (fun a b => key a ≤ key b))
    (h : ∀ v, s.filter (key · = v) = l.filter (key · = v)) : sortBy key l = s :=
  eq_of_filter_eq (pairwise_sortBy key l) hs
    (fun v => (filter_sortBy v l).trans (h v).symm)

theorem sortBy_append_of_lt {l₁ l₂ : List α}
    (h : ∀ a ∈ l₁, ∀ b ∈ l₂, key a < key b) :
    sortBy key (l₁ ++ l₂) = sortBy key l₁ ++ sortBy key l₂ := by
  apply sortBy_unique
  · refine List.pairwise_append.mpr ⟨pairwise_sortBy key l₁, pairwise_sortBy key l₂, ?_⟩
    intro a ha b hb
    exact (h a (mem_sortBy.mp ha) b (mem_sortBy.mp hb)).le
  · intro v
    simp only [List.filter_append, filter_sortBy]

theorem take_sortBy_append_of_lt {l₁ l₂ : List α} {n : ℕ}
    (h : ∀ a ∈ l₁, ∀ b ∈ l₂, key a < key b) (hn : n ≤ l₁.length) :
    (sortBy key (l₁ ++ l₂)).take n = (sortBy key l₁).take n := by
  rw [sortBy_append_of_lt h, List.take_append_of_le_length]
  rwa [length_sortBy]

/-- Blocks without a common key may be exchanged before sorting. -/
theorem sortBy_append_comm {l₁ l₂ : List α}
    (h : ∀ a ∈ l₁, ∀ b ∈ l₂, key a ≠ key b) :
    sortBy key (l₁ ++ l₂) = sortBy key (l₂ ++ l₁) := by
  apply sortBy_unique (pairwise_sortBy key _)
  intro v
  rw [filter_sortBy, List.filter_append, List.filter_append]
  by_cases hv : ∃ a ∈ l₁, key a = v
  · obtain ⟨a, ha, rfl⟩ := hv
    have hnil : l₂.filter (key · = key a) = [] := by
      simp only [List.filter_eq_nil_iff, decide_eq_true_eq]
      exact fun b hb hba => h a ha b hb hba.symm
    rw [hnil, List.nil_append, List.append_nil]
  · have hnil : l₁.filter (key · = v) = [] := by
      simp only [List.filter_eq_nil_iff, decide_eq_true_eq]
      exact fun a ha hav => hv ⟨a, ha, hav⟩
    rw [hnil, List.nil_append, List.append_nil]

theorem sortBy_append_congr {l₁ l₂ l₃ : List α} (h : sortBy key l₂ = sortBy key l₃) :
    sortBy key (l₁ ++ l₂) = sortBy key (l₁ ++ l₃) := by
  apply sortBy_unique (pairwise_sortBy key _)
  intro v
  have hv := congrArg (List.filter (key · = v)) h
  rw [filter_sortBy, filter_sortBy] at hv
  rw [filter_sortBy, List.filter_append, List.filter_append, hv]

/-! ### Selecting the least keys -/

theorem sortBy_filter_append (v : κ) (l : List α) :
    ((sortBy key l).map key) =
      (sortBy key (l.filter (key · < v)) ++ sortBy key (l.filter (v ≤ key ·))).map key := by
  have hperm : l.Perm (l.filter (key · < v) ++ l.filter (v ≤ key ·)) := by
    have h := (List.filter_append_perm (fun a => decide (key a < v)) l).symm
    refine h.trans (List.Perm.of_eq ?_)
    congr 1
    apply List.filter_congr
    intro a _
    simp [← not_lt]
  rw [map_key_sortBy_of_perm hperm, sortBy_append_of_lt]
  intro a ha b hb
  rw [List.mem_filter, decide_eq_true_eq] at ha hb
  exact ha.2.trans_le hb.2

theorem head_of_sortBy_eq_cons {l s : List α} {a : α} (h : sortBy key l = a :: s) :
    a ∈ l ∧ ∀ c ∈ l, key a ≤ key c := by
  have hsorted := pairwise_sortBy key l
  have hmem (c : α) : c ∈ a :: s ↔ c ∈ l := by rw [← h, mem_sortBy]
  rw [h, List.pairwise_cons] at hsorted
  refine ⟨(hmem a).mp List.mem_cons_self, fun c hc => ?_⟩
  rcases List.mem_cons.mp ((hmem c).mpr hc) with rfl | hc
  · exact le_rfl
  · exact hsorted.1 c hc

/-- The keys below `v` come first, and the next one is the least key from `v` on. -/
theorem getElem?_sortBy_countP (v : κ) (l : List α) :
    ((sortBy key l).map key)[l.countP (key · < v)]? =
      ((sortBy key (l.filter (v ≤ key ·))).map key)[0]? := by
  have hlen : ((sortBy key (l.filter (key · < v))).map key).length = l.countP (key · < v) := by
    rw [List.length_map, length_sortBy, List.countP_eq_length_filter]
  rw [sortBy_filter_append v, List.map_append, List.getElem?_append_right hlen.le, hlen,
    Nat.sub_self]

/-- The least `n` keys are those of a part if the part has `n` keys below `v`
and lacks none of the keys below `v`. -/
theorem take_sortBy_append_of_le {l r : List α} {n : ℕ} {v : κ}
    (hr : ∀ c ∈ r, v ≤ key c) (hn : n ≤ l.countP (key · < v)) :
    ((sortBy key l).take n).map key = ((sortBy key (l ++ r)).take n).map key := by
  have hnone : (l ++ r).filter (key · < v) = l.filter (key · < v) := by
    have hnil : r.filter (key · < v) = [] := by
      simp only [List.filter_eq_nil_iff, decide_eq_true_eq, not_lt]
      exact hr
    rw [List.filter_append, hnil, List.append_nil]
  have hlow : n ≤ (sortBy key (l.filter (key · < v))).length := by
    rwa [length_sortBy, ← List.countP_eq_length_filter]
  rw [List.map_take, List.map_take, sortBy_filter_append v l, sortBy_filter_append v (l ++ r),
    hnone, ← List.map_take, ← List.map_take, List.take_append_of_le_length hlow,
    List.take_append_of_le_length hlow]

/-- If the least `n` keys are those of a part, the part has `n` keys below any
key that is nowhere in it. -/
theorem le_countP_of_take_sortBy_append {l r : List α} {n : ℕ} {b : α}
    (hl : ∀ a ∈ l, key a ≠ key b) (hb : b ∈ r) (hr : ∀ c ∈ r, key b ≤ key c)
    (h : ((sortBy key l).take n).map key = ((sortBy key (l ++ r)).take n).map key) :
    n ≤ l.countP (key · < key b) := by
  by_contra hn
  push Not at hn
  have hcount : (l ++ r).countP (key · < key b) = l.countP (key · < key b) := by
    have hzero : r.countP (key · < key b) = 0 := by
      simp only [List.countP_eq_zero, decide_eq_true_eq, not_lt]
      exact hr
    rw [List.countP_append, hzero, Nat.add_zero]
  -- behind the keys below it the whole list has `key b`, the part has something else
  have hpos := congrArg (fun ks => ks[l.countP (key · < key b)]?) h
  simp only [List.map_take, List.getElem?_take_of_lt hn] at hpos
  rw [getElem?_sortBy_countP, ← hcount, getElem?_sortBy_countP] at hpos
  have hbmem : b ∈ (l ++ r).filter (key b ≤ key ·) := by simp [hb]
  cases hwhole : sortBy key ((l ++ r).filter (key b ≤ key ·)) with
  | nil =>
      have hlen := List.length_pos_of_mem hbmem
      rw [← length_sortBy key, hwhole] at hlen
      exact absurd hlen (lt_irrefl 0)
  | cons c u =>
      obtain ⟨hc, hmin⟩ := head_of_sortBy_eq_cons hwhole
      have hcb : key c = key b :=
        le_antisymm (hmin b hbmem) (of_decide_eq_true (List.mem_filter.mp hc).2)
      cases hpart : sortBy key (l.filter (key b ≤ key ·)) with
      | nil =>
          rw [hwhole, hpart] at hpos
          cases hpos
      | cons a s =>
          have ha := (List.mem_filter.mp (head_of_sortBy_eq_cons hpart).1).1
          rw [hwhole, hpart, List.map_cons, List.map_cons, List.getElem?_cons_zero,
            List.getElem?_cons_zero, Option.some.injEq] at hpos
          exact hl a ha (hpos.trans hcb)

/-- **The selection lemma.** Searching `l` instead of `l ++ r` for the `n` least
keys finds the same keys exactly if every element left out has `n` smaller
ones in `l`. -/
theorem take_sortBy_append_iff {l r : List α} (n : ℕ)
    (hlr : ∀ a ∈ l, ∀ b ∈ r, key a ≠ key b) :
    ((sortBy key l).take n).map key = ((sortBy key (l ++ r)).take n).map key ↔
      ∀ b ∈ r, n ≤ l.countP (key · < key b) := by
  cases hr : sortBy key r with
  | nil =>
      have hnil : r = [] := by
        have hlen := length_sortBy key r
        rw [hr] at hlen
        exact List.length_eq_zero_iff.mp hlen.symm
      simp [hnil]
  | cons b t =>
      -- the least key left out decides both sides
      obtain ⟨hb, hmin⟩ := head_of_sortBy_eq_cons hr
      constructor
      · intro h c hc
        refine (le_countP_of_take_sortBy_append (fun a ha => hlr a ha b hb) hb hmin h).trans ?_
        apply List.countP_mono_left
        intro a _ ha
        rw [decide_eq_true_eq] at ha ⊢
        exact ha.trans_le (hmin c hc)
      · intro hcount
        exact take_sortBy_append_of_le hmin (hcount b hb)

theorem mem_take_append_cons {l s r : List α} {b : α} {n : ℕ} (hn : l.length < n) :
    b ∈ (l ++ b :: s ++ r).take n := by
  obtain ⟨m, hm⟩ := Nat.exists_eq_succ_of_ne_zero (n := n - l.length) (by omega)
  rw [List.append_assoc, List.take_append, hm, List.cons_append, List.take_succ_cons]
  exact List.mem_append_right _ List.mem_cons_self

/-! ### Adjacent duplicates -/

theorem exists_between_of_isChain {l : List α} {a : α} (hl : l.IsChain (· ≠ ·))
    (h : [a, a].Sublist l) : ∃ b, a ≠ b ∧ [a, b, a].Sublist l := by
  induction l with
  | nil => cases h
  | cons x l ih =>
      cases h with
      | cons _ h =>
          obtain ⟨b, hab, hb⟩ := ih hl.tail h
          exact ⟨b, hab, hb.cons x⟩
      | cons_cons _ h =>
          cases l with
          | nil => cases h
          | cons y l =>
              have hay : a ≠ y := (List.isChain_cons_cons.mp hl).1
              cases h with
              | cons _ h => exact ⟨y, hay, (h.cons_cons y).cons_cons a⟩
              | cons_cons _ h => exact absurd rfl hay

section Destutter

variable [DecidableEq α]

theorem mem_destutter'_ne {l : List α} {a x : α} :
    x ∈ l.destutter' (· ≠ ·) a ↔ x = a ∨ x ∈ l := by
  induction l generalizing a with
  | nil => simp
  | cons b l ih =>
      by_cases hab : a ≠ b
      · rw [List.destutter'_cons_pos _ hab, List.mem_cons, ih, List.mem_cons]
      · rw [List.destutter'_cons_neg _ hab, ih, List.mem_cons]
        rw [not_not.mp hab]
        tauto

theorem mem_destutter_ne {l : List α} {x : α} : x ∈ l.destutter (· ≠ ·) ↔ x ∈ l := by
  cases l with
  | nil => simp
  | cons a l => rw [List.destutter_cons', mem_destutter'_ne, List.mem_cons]

theorem sublist_destutter' {c l : List α} {a : α} (hc : c.IsChain (· ≠ ·))
    (h : c.Sublist (a :: l)) : c.Sublist (l.destutter' (· ≠ ·) a) := by
  induction l generalizing a c with
  | nil => simpa using h
  | cons b l ih =>
      by_cases hab : a ≠ b
      · rw [List.destutter'_cons_pos _ hab]
        cases h with
        | cons _ h => exact (ih hc h).cons a
        | cons_cons _ h => exact (ih hc.tail h).cons_cons a
      · rw [List.destutter'_cons_neg _ hab]
        obtain rfl := not_not.mp hab
        cases h with
        | cons _ h => exact ih hc h
        | @cons_cons c _ _ h =>
            apply ih hc
            -- a chain goes on with another element, which is found further on
            cases h with
            | cons _ h => exact h.cons_cons a
            | cons_cons _ h => exact absurd rfl (List.isChain_cons_cons.mp hc).1

theorem sublist_destutter {c l : List α} (hc : c.IsChain (· ≠ ·)) (h : c.Sublist l) :
    c.Sublist (l.destutter (· ≠ ·)) := by
  cases l with
  | nil => simpa using h
  | cons a l => exact sublist_destutter' hc h

/-- Removing adjacent duplicates leaves a duplicate exactly if an element comes
again after another one. -/
theorem nodup_destutter_iff {l : List α} :
    (l.destutter (· ≠ ·)).Nodup ↔ ∀ a b, a ≠ b → ¬ [a, b, a].Sublist l := by
  refine ⟨fun h a b hab hsub => ?_, fun h => ?_⟩
  · have hchain : [a, b, a].IsChain (· ≠ ·) := by simp [hab, hab.symm]
    have hdup := h.sublist (sublist_destutter hchain hsub)
    simp at hdup
  · rw [List.nodup_iff_sublist]
    intro a ha
    obtain ⟨b, hab, hb⟩ := exists_between_of_isChain (List.isChain_destutter _ l) ha
    exact h a b hab (hb.trans (List.destutter_sublist _ l))

end Destutter

/-- What lies between two occurrences in a sorted list has the same key, and
stood there before. -/
theorem sublist_sortBy_iff {l : List α} {a b : α} :
    [a, b, a].Sublist (sortBy key l) ↔ key a = key b ∧ [a, b, a].Sublist l := by
  have hclass (s : List α) (hab : key a = key b) :
      [a, b, a].Sublist s ↔ [a, b, a].Sublist (s.filter (key · = key a)) := by
    refine ⟨fun h => ?_, fun h => h.trans List.filter_sublist⟩
    simpa [hab] using h.filter (key · = key a)
  refine ⟨fun h => ?_, fun ⟨hab, h⟩ => ?_⟩
  · have hsorted := (pairwise_sortBy key l).sublist h
    have hab : key a = key b := by
      simp only [List.pairwise_cons, List.mem_cons] at hsorted
      exact le_antisymm (hsorted.1 b (.inl rfl)) (hsorted.2.1 a (.inl rfl))
    rw [hclass _ hab, filter_sortBy] at h
    exact ⟨hab, (hclass l hab).mpr h⟩
  · rw [hclass _ hab, filter_sortBy]
    exact (hclass l hab).mp h

/-- After a sort by a key, removing adjacent duplicates leaves a duplicate
exactly if two elements of one key alternated. -/
theorem nodup_destutter_sortBy_iff [DecidableEq α] {l : List α} :
    ((sortBy key l).destutter (· ≠ ·)).Nodup ↔
      ∀ a b, key a = key b → a ≠ b → ¬ [a, b, a].Sublist l := by
  rw [nodup_destutter_iff]
  simp only [sublist_sortBy_iff, not_and]
  exact forall₂_congr fun a b => forall_comm

end SortBy
