import DhtKad.Client.Termination

/-!
Lookups that make one query at a time.

The loop gives up when it has no candidates left, whether or not queries are
under way. With `alpha = 1` none are by then, so a call of which no query fails
gives up only with a reply from everybody it has queried
(`Patient.exists_reply`).
-/

namespace DhtKad.DHTClient

/-- A call that has room for one query, and of which no query has failed. -/
structure Patient {SocketAddr : Type} (parse : String → Option SocketAddr) (client : DHTClient)
    (c : Call) : Prop where
  inv : CallInv parse c
  metered : Metered client c
  settled : ∀ e, c.status = .returned (.error e) → c.lookup.inProgress = 0
  answered : ∀ pr ∈ c.lookup.channel ++ c.lookup.received, ∃ reply, pr.2 = .ok reply

section Patient

variable {SocketAddr : Type} {parse : String → Option SocketAddr} {client : DHTClient}
  {key : U128} {l : Lookup} {c c' : Call} {event : Event}

theorem settled_loopHead (h : l.inProgress = 0) {e : RPCError}
    (hstatus : (client.loopHead key l).status = .returned (.error e)) :
    (client.loopHead key l).lookup.inProgress = 0 := by
  obtain ⟨-, -, -, hawait | ⟨-, heq⟩⟩ := loopHead_frame client key l
  · rw [hawait] at hstatus
    cases hstatus
  · rw [heq]
    exact h

theorem patient_start (halpha : client.alpha = 1) (key : U128) (candidates : List Peer) :
    Patient parse client (client.start key candidates) := by
  refine ⟨callInv_start parse client key candidates, metered_start halpha.ge key candidates,
    fun e => settled_loopHead rfl, ?_⟩
  obtain ⟨hchannel, hreceived, -⟩ := loopHead_frame client key { candidates := candidates }
  rw [start, hchannel, hreceived]
  simp

theorem patient_hit (v : Bytes) :
    Patient parse client { lookup := { candidates := [] }, status := .returned (.ok v) } :=
  ⟨callInv_hit parse v, ⟨Nat.zero_le _, by simp⟩, by simp, by simp⟩

/-- The results of a call are those that were under way, and those it had. -/
theorem answered_merge {p : Peer} {r : Except IoError Message}
    {rest : List (Peer × Except IoError Message)} (hch : l.channel = (p, r) :: rest)
    (h : ∀ pr ∈ l.channel ++ l.received, ∃ reply, pr.2 = .ok reply) (new : List Peer) :
    ∀ pr ∈ (merge l p r rest new).channel ++ (merge l p r rest new).received,
      ∃ reply, pr.2 = .ok reply := by
  intro pr hpr
  refine h pr ?_
  rw [hch]
  simp only [merge, List.mem_append, List.mem_cons, List.not_mem_nil, or_false] at hpr ⊢
  tauto

theorem Patient.step (h : Patient parse client c) (halpha : client.alpha = 1)
    (hsent : ∀ p r, event = .send p r → ∃ reply, r = .ok reply)
    (hstep : DHTClient.step parse client key c event = some c') : Patient parse client c' := by
  obtain ⟨hawait, hadvanced⟩ := h.inv.books.advanced hstep
  refine ⟨h.inv.step hstep, h.metered.step h.inv halpha.ge hstep, ?_, ?_⟩
  · intro e hstatus
    cases hadvanced with
    | sent p r hp hparse => cases hstatus
    | died p hp hparse => cases hstatus
    | returned hch hv => cases hstatus
    | panicked hch hv hd => cases hstatus
    | looped hch hv hd =>
        refine settled_loopHead ?_ hstatus
        -- the one query that was under way is the one that was received
        exact Nat.sub_eq_zero_of_le (h.metered.le_alpha.trans halpha.le)
  · cases hadvanced with
    | sent p r hp hparse =>
        intro pr hpr
        simp only [List.mem_append, List.mem_singleton] at hpr
        rcases hpr with (hpr | rfl) | hpr
        · exact h.answered pr (List.mem_append_left _ hpr)
        · exact hsent p r rfl
        · exact h.answered pr (List.mem_append_right _ hpr)
    | died p hp hparse => exact h.answered
    | returned hch hv => exact answered_merge hch h.answered []
    | panicked hch hv hd => exact h.answered
    | looped hch hv hd =>
        rename_i p r new rest
        obtain ⟨hchannel, hreceived, -⟩ := loopHead_frame client key (merge c.lookup p r rest new)
        rw [hchannel, hreceived]
        exact answered_merge hch h.answered new

theorem Patient.exists_reply (h : Patient parse client c) {e : RPCError}
    (hstatus : c.status = .returned (.error e)) :
    ∀ q ∈ c.lookup.queried, ∃ reply, (q, .ok reply) ∈ c.lookup.received := by
  intro q hq
  have hcount := h.inv.books.count
  rw [h.settled e hstatus] at hcount
  have htasks : c.lookup.tasks = [] := List.length_eq_zero_iff.mp (by omega)
  have hchannel : c.lookup.channel = [] := List.length_eq_zero_iff.mp (by omega)
  have hdead : c.lookup.dead = [] := List.length_eq_zero_iff.mp (by omega)
  have hqueried := h.inv.books.queried q
  simp only [htasks, hchannel, hdead, List.map_nil, List.count_nil, Nat.zero_add] at hqueried
  have hpos := List.count_pos_iff.mpr hq
  rw [hqueried, List.count_pos_iff] at hpos
  obtain ⟨⟨q', r⟩, hr, rfl⟩ := List.mem_map.mp hpos
  obtain ⟨reply, rfl⟩ := h.answered _ (List.mem_append_right _ hr)
  exact ⟨reply, hr⟩

end Patient

end DhtKad.DHTClient
