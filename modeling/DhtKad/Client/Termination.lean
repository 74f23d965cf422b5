import DhtKad.Client.Frontier
import Mathlib.Data.Finset.Card
import Mathlib.Data.Prod.Lex

/-!
`find_value` ends, and what its counter counts on the way.

Candidates come and go: a round takes some off the list, a reply puts new ones
on it, and one reply may list a peer any number of times. What cannot go on for
ever is that replies bring peers the loop has not seen before, if all of them
come from a finite set. While they do not, every event uses something up: a
candidate becomes a task, a task a result, and a result is taken. So the rank of
a call is the number of unseen peers first, and a weight of what is under way
second.
-/

namespace DhtKad.DHTClient

open RoutingTable

/-- The peers that a result lists lie in `U`. -/
def ReportsWithin (U : Finset Peer) (r : Except IoError Message) : Prop :=
  ∀ response, r = .ok response → ∀ mp ∈ response.closerPeers, ∀ q,
    protoPeerToPeer mp = .ok q → q ∈ U

/-- The peers that a task reports, if the event is one of a task, lie in `U`. -/
def SendsWithin (U : Finset Peer) : Event → Prop
  | .send _ r => ReportsWithin U r
  | .die _ => True
  | .recv => True

/-! ### The counter -/

/-- `in_progress` stays between one and `alpha` while the loop awaits. -/
structure Metered (client : DHTClient) (c : Call) : Prop where
  le_alpha : c.lookup.inProgress ≤ client.alpha
  pos : c.status = .awaiting → 1 ≤ c.lookup.inProgress

section Counter

variable {SocketAddr : Type} {parse : String → Option SocketAddr} {client : DHTClient}
  {key : U128} {l : Lookup} {c c' : Call} {event : Event}

theorem length_nextQueries (client : DHTClient) (key : U128) (l : Lookup) :
    (client.nextQueries key l).length =
      min (client.alpha - l.inProgress) l.candidates.length := by
  rw [nextQueries, List.length_take, List.length_reverse, sortCandidates,
    SortBy.length_sortBy]

theorem inProgress_loopHead_le (client : DHTClient) (key : U128)
    (h : l.inProgress ≤ client.alpha) :
    (client.loopHead key l).lookup.inProgress ≤ client.alpha := by
  by_cases hc : l.candidates = []
  · rw [loopHead_of_nil client key hc]
    exact h
  · have hlen := length_nextQueries client key l
    rw [loopHead_of_ne_nil client key hc]
    show l.inProgress + (client.nextQueries key l).length ≤ client.alpha
    omega

theorem metered_loopHead (halpha : 1 ≤ client.alpha) (h : l.inProgress ≤ client.alpha) :
    Metered client (client.loopHead key l) := by
  refine ⟨inProgress_loopHead_le client key h, ?_⟩
  by_cases hc : l.candidates = []
  · rw [loopHead_of_nil client key hc]
    exact nofun
  · have hlen := length_nextQueries client key l
    have hpos := List.length_pos_iff.mpr hc
    rw [loopHead_of_ne_nil client key hc]
    intro _
    show 1 ≤ l.inProgress + (client.nextQueries key l).length
    omega

theorem metered_start (halpha : 1 ≤ client.alpha) (key : U128) (candidates : List Peer) :
    Metered client (client.start key candidates) :=
  metered_loopHead halpha (Nat.zero_le _)

theorem CallInv.inProgress_le (hinv : CallInv parse c) (h : c.lookup.inProgress ≤ client.alpha)
    (hstep : DHTClient.step parse client key c event = some c') :
    c'.lookup.inProgress ≤ client.alpha := by
  have hless {p : Peer} {r : Except IoError Message}
      {rest : List (Peer × Except IoError Message)} (new : List Peer) :
      (merge c.lookup p r rest new).inProgress ≤ client.alpha :=
    (Nat.sub_le _ 1).trans h
  obtain ⟨-, hadvanced⟩ := hinv.books.advanced hstep
  cases hadvanced with
  | sent p r hp hparse => exact h
  | died p hp hparse => exact h
  | returned hch hv => exact hless []
  | panicked hch hv hd => exact h
  | looped hch hv hd => exact inProgress_loopHead_le client key (hless _)

theorem Metered.step (h : Metered client c) (hinv : CallInv parse c) (halpha : 1 ≤ client.alpha)
    (hstep : DHTClient.step parse client key c event = some c') : Metered client c' := by
  refine ⟨hinv.inProgress_le h.le_alpha hstep, ?_⟩
  obtain ⟨hawait, hadvanced⟩ := hinv.books.advanced hstep
  cases hadvanced with
  | sent p r hp hparse => exact fun _ => h.pos hawait
  | died p hp hparse => exact fun _ => h.pos hawait
  | returned hch hv => exact nofun
  | panicked hch hv hd => exact nofun
  | looped hch hv hd =>
      exact (metered_loopHead halpha ((Nat.sub_le _ 1).trans h.le_alpha)).pos

theorem metered_of_afterEvents (halpha : 1 ≤ client.alpha) {candidates : List Peer}
    {events : List Event} (hrun : afterEvents parse client key candidates events = some c) :
    Metered client c := by
  refine (Run.run_invariant (I := fun c => CallInv parse c ∧ Metered client c) ?_
    ⟨callInv_start parse client key candidates, metered_start halpha key candidates⟩ hrun).2
  rintro s event t ⟨hinv, hm⟩ hstep
  exact ⟨hinv.step hstep, hm.step hinv halpha hstep⟩

theorem Books.inProgress_add (h : Books l) :
    l.inProgress + l.received.length = l.queried.length := by
  have hperm : l.queried.Perm
      (l.tasks ++ l.channel.map Prod.fst ++ l.dead ++ l.received.map Prod.fst) := by
    rw [List.perm_iff_count]
    intro p
    simp only [List.count_append]
    exact h.queried p
  have hlen := hperm.length_eq
  have hcount := h.count
  simp only [List.length_append, List.length_map] at hlen
  omega

theorem Books.queried_of_tasks (h : Books l) {p : Peer} (hp : p ∈ l.tasks) : p ∈ l.queried := by
  have hcount := h.queried p
  have hpos := List.count_pos_iff.mpr hp
  rw [← List.count_pos_iff]
  omega

theorem Books.queried_of_dead (h : Books l) {p : Peer} (hp : p ∈ l.dead) : p ∈ l.queried := by
  have hcount := h.queried p
  have hpos := List.count_pos_iff.mpr hp
  rw [← List.count_pos_iff]
  omega

theorem discovered_ne_subtractOverflow {r : Except IoError Message} :
    discovered l r ≠ .error .subtractOverflow := by
  intro h
  cases r with
  | error e => cases h
  | ok response =>
      rw [discovered] at h
      cases hmap : response.closerPeers.mapM protoPeerToPeer with
      | ok peers => simp [hmap, bind, Except.bind, pure, Except.pure] at h
      | error e =>
          obtain rfl : e = .subtractOverflow := by
            simpa [hmap, bind, Except.bind] using h
          obtain ⟨mp, -, hmp⟩ := ExceptList.exists_of_mapM_error hmap
          rw [protoPeerToPeer, keyFromBytes] at hmp
          split at hmp
          · cases haddr : ByteString.fromUtf8 mp.addrs <;>
              simp [haddr, bind, Except.bind, pure, Except.pure, throw, throwThe,
                MonadExceptOf.throw] at hmp
          · cases hmp

theorem CallInv.not_subtractOverflow (h : CallInv parse c) :
    c.status ≠ .panicked .subtractOverflow := by
  intro hstatus
  have hinv := h.status
  rw [hstatus] at hinv
  obtain ⟨p, r, rest, -, -, hd⟩ := hinv
  exact discovered_ne_subtractOverflow hd

/-- If the loop is suspended, a result is in the channel or a task is left that
will not panic. -/
def Answerable (parse : String → Option SocketAddr) (c : Call) : Prop :=
  c.status = .awaiting →
    c.lookup.channel ≠ [] ∨ ∃ p ∈ c.lookup.tasks, (parse p.address).isSome

/-- If every queried peer delivers, a loop that awaits has something to wait
for. -/
theorem CallInv.answerable (h : CallInv parse c) (hm : Metered client c)
    (hdeliver : ∀ p ∈ c.lookup.queried, (parse p.address).isSome) : Answerable parse c := by
  intro hawait
  have hpos := hm.pos hawait
  have hcount := h.books.count
  have hdead : c.lookup.dead = [] := by
    rw [List.eq_nil_iff_forall_not_mem]
    intro p hp
    have hsome := hdeliver p (h.books.queried_of_dead hp)
    rw [Option.isNone_iff_eq_none.mp (h.dead p hp)] at hsome
    cases hsome
  by_cases hch : c.lookup.channel = []
  · have htasks : 0 < c.lookup.tasks.length := by
      simp only [hch, hdead, List.length_nil] at hcount
      omega
    obtain ⟨p, hp⟩ := List.exists_mem_of_length_pos htasks
    exact .inr ⟨p, hp, hdeliver p (h.books.queried_of_tasks hp)⟩
  · exact .inl hch

end Counter

/-! ### The rank -/

/-- What is under way: a candidate weighs three, a task two, a result one. -/
def weight (c : Call) : ℕ :=
  3 * c.lookup.candidates.length + 2 * c.lookup.tasks.length + c.lookup.channel.length +
    if c.status = .awaiting then 1 else 0

/-- The peers of `U` that the loop does not know of. -/
def unseen (U : Finset Peer) (l : Lookup) : Finset Peer := U \ (seen l).toFinset

def rank (U : Finset Peer) (c : Call) : ℕ ×ₗ ℕ := toLex ((unseen U c.lookup).card, weight c)

section Rank

variable {SocketAddr : Type} {parse : String → Option SocketAddr} {client : DHTClient}
  {key : U128} {U : Finset Peer} {l l' : Lookup} {c c' : Call} {event : Event}

theorem unseen_eq_of_perm (h : (seen l').Perm (seen l)) : unseen U l' = unseen U l := by
  rw [unseen, unseen, List.toFinset_eq_of_perm _ _ h]

theorem rank_lt_of_weight (hseen : unseen U c'.lookup = unseen U c.lookup)
    (hweight : weight c' < weight c) : rank U c' < rank U c :=
  Prod.Lex.toLex_lt_toLex.mpr (.inr ⟨by rw [hseen], hweight⟩)

/-- A round makes tasks of candidates. -/
theorem weight_loopHead (client : DHTClient) (key : U128) (l : Lookup) :
    weight (client.loopHead key l) ≤ weight { lookup := l, status := .awaiting } := by
  by_cases hc : l.candidates = []
  · rw [loopHead_of_nil client key hc]
    simp [weight]
  · have hlen := length_nextQueries client key l
    rw [loopHead_of_ne_nil client key hc]
    simp only [weight, List.length_reverse, List.length_drop, List.length_append, sortCandidates,
      SortBy.length_sortBy]
    omega

/-- A reply with a peer the loop did not know of leaves fewer that it does not. -/
theorem unseen_merge_lt {p : Peer} {r : Except IoError Message}
    {rest : List (Peer × Except IoError Message)} {new : List Peer}
    (hd : discovered l r = .ok new) (hwithin : ∀ q ∈ new, q ∈ U) (hnew : new ≠ []) :
    (unseen U (merge l p r rest new)).card < (unseen U l).card := by
  obtain ⟨q, hq⟩ := List.exists_mem_of_ne_nil new hnew
  have hU : q ∈ U := hwithin q hq
  have hunseen : q ∉ seen l := ((mem_discovered hd).mp hq).2
  have hassoc : seen (merge l p r rest new) = seen l ++ new := (List.append_assoc _ _ _).symm
  apply Finset.card_lt_card
  rw [Finset.ssubset_iff_of_subset]
  · refine ⟨q, ?_, ?_⟩
    · simp [unseen, hU, hunseen]
    · simp [unseen, hassoc, hq]
  · intro a ha
    simp only [unseen, hassoc, Finset.mem_sdiff, List.mem_toFinset, List.mem_append,
      not_or] at ha ⊢
    exact ⟨ha.1, ha.2.1⟩

/-- Every event lowers the rank, unless the loop comes to know of a peer that is
not in `U`. -/
theorem rank_step (hinv : CallInv parse c)
    (hwithin : ∀ q ∈ seen c'.lookup, q ∈ seen c.lookup ∨ q ∈ U)
    (hstep : DHTClient.step parse client key c event = some c') : rank U c' < rank U c := by
  obtain ⟨hawait, hadvanced⟩ := hinv.books.advanced hstep
  cases hadvanced with
  | sent p r hp hparse =>
      have hlen := List.length_erase_of_mem hp
      have hpos := List.length_pos_of_mem hp
      refine rank_lt_of_weight rfl ?_
      simp only [weight, hawait, List.length_append, List.length_singleton, hlen]
      omega
  | died p hp hparse =>
      have hlen := List.length_erase_of_mem hp
      have hpos := List.length_pos_of_mem hp
      refine rank_lt_of_weight rfl ?_
      simp only [weight, hawait, hlen]
      omega
  | returned hch hv =>
      refine rank_lt_of_weight (by simp [unseen, merge, seen]) ?_
      simp only [weight, merge, hawait, hch, List.append_nil, List.length_cons, reduceCtorEq,
        if_true, if_false]
      omega
  | panicked hch hv hd =>
      refine rank_lt_of_weight rfl ?_
      simp [weight, hawait]
  | looped hch hv hd =>
      rename_i p r new rest
      have hunseen : unseen U (client.loopHead key (merge c.lookup p r rest new)).lookup =
          unseen U (merge c.lookup p r rest new) :=
        unseen_eq_of_perm (seen_loopHead_perm client key _)
      by_cases hnew : new = []
      · subst hnew
        refine rank_lt_of_weight ?_ ?_
        · rw [hunseen]
          simp [unseen, merge, seen]
        · refine (weight_loopHead client key _).trans_lt ?_
          simp [weight, merge, hawait, hch]
      · refine Prod.Lex.toLex_lt_toLex.mpr (.inl ?_)
        show (unseen U (client.loopHead key _).lookup).card < _
        rw [hunseen]
        refine unseen_merge_lt hd (fun q hq => ?_) hnew
        refine (hwithin q ?_).resolve_left ((mem_discovered hd).mp hq).2
        rw [(seen_loopHead_perm client key _).mem_iff]
        simp [seen, merge, hq]

theorem SendsWithin.named (h : SendsWithin U event) {p : Peer} {r : Except IoError Message}
    (hevent : event = .send p r) {q : Peer} (hq : Named r q) : q ∈ U := by
  subst hevent
  obtain ⟨response, rfl, -, mp, hmp, hdecode⟩ := hq
  exact h response rfl mp hmp q hdecode

end Rank

/-- Whatever the replies, a call goes on only as long as it comes to know of ever
more peers. -/
theorem exists_seen_notMem {SocketAddr : Type} (parse : String → Option SocketAddr)
    (client : DHTClient) (key : U128) (candidates : List Peer) (U : Finset Peer)
    (events : ℕ → Event) :
    ∃ n, ∀ c, afterEvents parse client key candidates ((List.range n).map events) = some c →
      ∃ q ∈ seen c.lookup, q ∉ U := by
  obtain ⟨n, hn⟩ := Run.exists_run_leaves (P := fun _ => True)
    (B := fun c => ∀ q ∈ seen c.lookup, q ∈ U) (rank U)
    (fun c event c' hinv _ hstep hU =>
      ⟨CallInv.step hinv hstep, rank_step hinv (fun q hq => .inr (hU q hq)) hstep⟩)
    (callInv_start parse client key candidates) events (fun _ => trivial)
  refine ⟨n, fun c hrun => ?_⟩
  have hnot := hn c hrun
  push Not at hnot
  exact hnot

/-- **Termination.** If every query that is spawned delivers its result and all
replies list peers of a finite set, then no sequence of events goes on for
ever. On the way `in_progress` is the number of queries not heard from, it is
at most `alpha`, the subtraction does not overflow, and while the loop awaits
the counter is at least one and there is something to wait for. -/
theorem findValue_terminates {SocketAddr : Type} (parse : String → Option SocketAddr)
    (client : DHTClient) (halpha : 1 ≤ client.alpha) (key : U128) (candidates : List Peer)
    (U : Finset Peer)
    (hdeliver : ∀ events c, (∀ event ∈ events, SendsWithin U event) →
      afterEvents parse client key candidates events = some c →
      ∀ p ∈ c.lookup.queried, (parse p.address).isSome) :
    (∀ events : ℕ → Event, (∀ n, SendsWithin U (events n)) →
        ∃ n, afterEvents parse client key candidates ((List.range n).map events) = none) ∧
      ∀ events c, (∀ event ∈ events, SendsWithin U event) →
        afterEvents parse client key candidates events = some c →
        c.lookup.inProgress + c.lookup.received.length = c.lookup.queried.length ∧
          c.lookup.inProgress ≤ client.alpha ∧ c.status ≠ .panicked .subtractOverflow ∧
          (c.status = .awaiting → 1 ≤ c.lookup.inProgress) ∧ Answerable parse c := by
  refine ⟨fun events hevents => ?_, fun events c hevents hrun => ?_⟩
  · refine Run.exists_run_eq_none (rank U)
      (I := fun c => CallInv parse c ∧ ∀ pr ∈ c.lookup.channel, ∀ q, Named pr.2 q → q ∈ U)
      ?_ ⟨callInv_start parse client key candidates, ?_⟩ events hevents
    · rintro c event c' ⟨hinv, hwithin⟩ hevent hstep
      refine ⟨⟨hinv.step hstep, ?_⟩, rank_step hinv (fun q hq => ?_) hstep⟩
      · exact hinv.books.channel_step hwithin
          (fun p r hsend q hq => SendsWithin.named hevent hsend hq) hstep
      · refine (mem_seen_step hinv hstep hq).imp id ?_
        rintro ⟨pr, hpr, hnamed⟩
        exact hwithin pr hpr q hnamed
    · rw [start, (loopHead_frame client key _).1]
      simp
  · have hinv := afterEvents_callInv hrun
    have hm := metered_of_afterEvents halpha hrun
    exact ⟨hinv.books.inProgress_add, hm.le_alpha, hinv.not_subtractOverflow, hm.pos,
      hinv.answerable hm (hdeliver events c hevents hrun)⟩

/-- One query at a time, and replies that name two peers. -/
theorem findValue_terminates_echoed :
    (∀ events : ℕ → Event, (∀ n, SendsWithin {nearPeer, farPeer} (events n)) →
        ∃ n, afterEvents (some : String → Option String) oneClient 0 [nearPeer]
          ((List.range n).map events) = none) ∧
      ∀ events c, (∀ event ∈ events, SendsWithin {nearPeer, farPeer} event) →
        afterEvents (some : String → Option String) oneClient 0 [nearPeer] events = some c →
        c.lookup.inProgress + c.lookup.received.length = c.lookup.queried.length ∧
          c.lookup.inProgress ≤ oneClient.alpha ∧ c.status ≠ .panicked .subtractOverflow ∧
          (c.status = .awaiting → 1 ≤ c.lookup.inProgress) ∧
          Answerable (some : String → Option String) c :=
  findValue_terminates some oneClient (by decide) 0 [nearPeer] {nearPeer, farPeer}
    (fun _ _ _ _ _ _ => rfl)

end DhtKad.DHTClient
