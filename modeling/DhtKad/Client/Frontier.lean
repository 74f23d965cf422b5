import DhtKad.Client.GiveUp

/-!
The frontier of `find_value`: which peers the loop knows of, and which of them
it queries next.

The candidates and the queried peers together are a set that only a reply
makes grow. A query moves a peer from one list to the other, so at the head of
the loop the two hold exactly what the call started from and what the replies
reported (`Covers`). As lists they repeat a peer only if a single reply does:
the filter compares a reply with both lists, but not with itself.
-/

namespace DhtKad.DHTClient

open SortBy RoutingTable

/-- The peer is listed in a result that is a reply. -/
def Reported (received : List (Peer × Except IoError Message)) (q : Peer) : Prop :=
  ∃ p response, (p, Except.ok response) ∈ received ∧
    ∃ mp ∈ response.closerPeers, protoPeerToPeer mp = .ok q

/-- What the loop knows of is what it started from and what was reported. -/
def Covers (initial : List Peer) (l : Lookup) : Prop :=
  ∀ q, q ∈ l.candidates ∨ q ∈ l.queried ↔ q ∈ initial ∨ Reported l.received q

/-- The peers that the loop knows of, the queried ones first. -/
def seen (l : Lookup) : List Peer := l.queried ++ l.candidates

theorem mem_seen {l : Lookup} {q : Peer} : q ∈ seen l ↔ q ∈ l.candidates ∨ q ∈ l.queried := by
  rw [seen, List.mem_append, or_comm]

/-! ### A result that is merged -/

section Merge

variable {l l' : Lookup} {p q : Peer} {r : Except IoError Message}
  {rest : List (Peer × Except IoError Message)} {new : List Peer}

theorem reported_concat {received : List (Peer × Except IoError Message)} :
    Reported (received ++ [(p, r)]) q ↔
      Reported received q ∨ ∃ response, r = .ok response ∧
        ∃ mp ∈ response.closerPeers, protoPeerToPeer mp = .ok q := by
  rw [Reported, Reported]
  refine ⟨?_, ?_⟩
  · rintro ⟨p', response, hmem, hmp⟩
    rcases List.mem_append.mp hmem with hmem | hmem
    · exact .inl ⟨p', response, hmem, hmp⟩
    · obtain ⟨-, rfl⟩ := Prod.mk.inj (List.mem_singleton.mp hmem)
      exact .inr ⟨response, rfl, hmp⟩
  · rintro (⟨p', response, hmem, hmp⟩ | ⟨response, rfl, hmp⟩)
    · exact ⟨p', response, List.mem_append_left _ hmem, hmp⟩
    · exact ⟨p, response, List.mem_append_right _ (List.mem_singleton.mpr rfl), hmp⟩

/-- The new candidates are the peers of the reply that the loop does not know. -/
theorem mem_discovered (h : discovered l r = .ok new) :
    q ∈ new ↔ (∃ response, r = .ok response ∧
      ∃ mp ∈ response.closerPeers, protoPeerToPeer mp = .ok q) ∧ q ∉ seen l := by
  cases r with
  | error e =>
      obtain rfl := Except.ok.inj h
      simp
  | ok response =>
      obtain ⟨peers, hpeers, hnew⟩ := ExceptList.bind_eq_ok_iff.mp h
      obtain rfl := Except.ok.inj hnew
      rw [List.mem_filter, ExceptList.mem_of_mapM hpeers, mem_seen, decide_eq_true_eq]
      simp [not_or, and_comm]

theorem nodup_seen_merge (hnew : discovered l r = .ok new) :
    (seen (merge l p r rest new)).Nodup ↔ (seen l).Nodup ∧ new.Nodup := by
  have hassoc : seen (merge l p r rest new) = seen l ++ new :=
    (List.append_assoc _ _ _).symm
  rw [hassoc, List.nodup_append]
  refine ⟨fun h => ⟨h.1, h.2.1⟩, fun h => ⟨h.1, h.2, ?_⟩⟩
  rintro a ha b hb rfl
  exact ((mem_discovered hnew).mp hb).2 ha

/-- Nothing is lost by the filter: what it drops is known already. -/
theorem Covers.merge {initial : List Peer} (hl : Covers initial l)
    (h : discovered l r = .ok new) : Covers initial (merge l p r rest new) := by
  intro q
  have hq := hl q
  rw [← mem_seen] at hq
  rw [← mem_seen, DHTClient.merge, reported_concat, ← or_assoc, ← hq]
  show q ∈ l.queried ++ (l.candidates ++ new) ↔ _
  rw [← List.append_assoc]
  show q ∈ seen l ++ new ↔ _
  rw [List.mem_append, mem_discovered h]
  tauto

theorem handleResult_none_iff (hne : l.inProgress ≠ 0) :
    handleResult { l with channel := rest, received := l.received ++ [(p, r)] } r =
        .ok (l', none) ↔
      carriedValue r = none ∧ ∃ new, discovered l r = .ok new ∧ l' = merge l p r rest new := by
  rw [handleResult, if_neg hne]
  cases r with
  | error e => simp [carriedValue, discovered, DHTClient.merge, eq_comm]
  | ok response =>
      by_cases hv : response.value ≠ []
      · simp [carriedValue, hv]
      · simp only [carriedValue, if_neg hv, discovered, bind, Except.bind]
        cases response.closerPeers.mapM protoPeerToPeer with
        | error e => simp
        | ok peers => simp [pure, Except.pure, DHTClient.merge, eq_comm]

end Merge

/-! ### The queries of a round -/

section Round

variable (client : DHTClient) (key : U128) (l : Lookup)

/-- A round moves peers from the candidates to the queried ones. -/
theorem seen_loopHead_perm : (seen (client.loopHead key l).lookup).Perm (seen l) := by
  by_cases hc : l.candidates = []
  · rw [loopHead_of_nil client key hc]
  · rw [loopHead_of_ne_nil client key hc]
    show ((l.queried ++ client.nextQueries key l) ++ _).Perm (l.queried ++ l.candidates)
    rw [List.append_assoc]
    refine List.Perm.append_left _ (((List.reverse_perm _).append_left _).trans ?_)
    rw [nextQueries, List.take_append_drop]
    exact (List.reverse_perm _).trans (sortBy_perm _)

theorem Covers.loopHead {client : DHTClient} {key : U128} {l : Lookup} {initial : List Peer}
    (h : Covers initial l) : Covers initial (client.loopHead key l).lookup := by
  intro q
  rw [← mem_seen, (seen_loopHead_perm client key l).mem_iff, mem_seen,
    (loopHead_frame client key l).2.1]
  exact h q

end Round

/-! ### Whole runs -/

section Runs

variable {SocketAddr : Type} {parse : String → Option SocketAddr} {client : DHTClient}
  {key : U128} {initial : List Peer} {c c' : Call} {event : Event}

/-- A call that still runs knows what its start and its replies told it. -/
def CoversCall (initial : List Peer) (c : Call) : Prop :=
  c.status = .awaiting → Covers initial c.lookup

theorem covers_initial (initial : List Peer) : Covers initial { candidates := initial } := by
  intro q
  simp [Reported]

theorem CoversCall.step (h : CoversCall initial c) (hinv : CallInv parse c)
    (hstep : DHTClient.step parse client key c event = some c') : CoversCall initial c' := by
  obtain ⟨hawait, hadvanced⟩ := hinv.books.advanced hstep
  have hcovers := h hawait
  cases hadvanced with
  | sent p r hp hparse => exact fun _ => hcovers
  | died p hp hparse => exact fun _ => hcovers
  | returned hch hv => exact nofun
  | panicked hch hv hd => exact nofun
  | looped hch hv hd => exact fun _ => (hcovers.merge hd).loopHead

theorem coversCall_of_afterEvents {events : List Event}
    (hrun : afterEvents parse client key initial events = some c) : CoversCall initial c := by
  refine (Run.run_invariant (I := fun c => CallInv parse c ∧ CoversCall initial c) ?_
    ⟨callInv_start parse client key initial, fun _ => (covers_initial initial).loopHead⟩ hrun).2
  rintro s event t ⟨hinv, hcovers⟩ hstep
  exact ⟨hinv.step hstep, hcovers.step hinv hstep⟩

/-- The peer is listed in a result that the loop goes on with. -/
def Named (r : Except IoError Message) (q : Peer) : Prop :=
  ∃ response, r = .ok response ∧ response.value = [] ∧
    ∃ mp ∈ response.closerPeers, protoPeerToPeer mp = .ok q

theorem named_of_discovered {l : Lookup} {r : Except IoError Message} {new : List Peer}
    (hv : carriedValue r = none) (hd : discovered l r = .ok new) {q : Peer} (hq : q ∈ new) :
    Named r q := by
  obtain ⟨⟨response, rfl, hmp⟩, -⟩ := (mem_discovered hd).mp hq
  exact ⟨response, rfl, by simpa [carriedValue] using hv, hmp⟩

/-- What the loop comes to know of is named by a result that was under way. -/
theorem mem_seen_step (hinv : CallInv parse c)
    (hstep : DHTClient.step parse client key c event = some c') {q : Peer}
    (hq : q ∈ seen c'.lookup) :
    q ∈ seen c.lookup ∨ ∃ pr ∈ c.lookup.channel, Named pr.2 q := by
  obtain ⟨-, hadvanced⟩ := hinv.books.advanced hstep
  cases hadvanced with
  | sent p r hp hparse => exact .inl hq
  | died p hp hparse => exact .inl hq
  | returned hch hv => exact .inl (by simpa [seen, merge] using hq)
  | panicked hch hv hd => exact .inl hq
  | looped hch hv hd =>
      rename_i p r new rest
      have hmem : q ∈ seen (merge c.lookup p r rest new) :=
        (seen_loopHead_perm client key _).mem_iff.mp hq
      have hmem' : q ∈ seen c.lookup ++ new := by
        simpa [seen, merge, or_assoc] using hmem
      refine (List.mem_append.mp hmem').imp id fun hnew => ?_
      exact ⟨(p, r), by simp [hch], named_of_discovered hv hd hnew⟩

/-- A call that knows only of peers that meet `P` and is told of no others. -/
structure Confined (parse : String → Option SocketAddr) (P : Peer → Prop) (c : Call) : Prop where
  inv : CallInv parse c
  seen : ∀ q ∈ seen c.lookup, P q
  channel : ∀ pr ∈ c.lookup.channel, ∀ q, Named pr.2 q → P q

section Confined

variable {P : Peer → Prop}

theorem confined_start (client : DHTClient) (key : U128) {candidates : List Peer}
    (h : ∀ q ∈ candidates, P q) : Confined parse P (client.start key candidates) := by
  refine ⟨callInv_start parse client key candidates, fun q hq => h q ?_, ?_⟩
  · have hmem := (seen_loopHead_perm client key { candidates := candidates }).mem_iff.mp hq
    simpa [DHTClient.seen] using hmem
  · rw [start, (loopHead_frame client key _).1]
    simp

theorem confined_hit (v : Bytes) :
    Confined parse P { lookup := { candidates := [] }, status := .returned (.ok v) } :=
  ⟨callInv_hit parse v, by simp [DHTClient.seen], by simp⟩

theorem Confined.queried (h : Confined parse P c) {p : Peer} (hp : p ∈ c.lookup.queried) : P p :=
  h.seen p (mem_seen.mpr (.inr hp))

theorem Confined.tasks (h : Confined parse P c) {p : Peer} (hp : p ∈ c.lookup.tasks) : P p := by
  have hcount := h.inv.books.queried p
  have hpos := List.count_pos_iff.mpr hp
  exact h.queried (List.count_pos_iff.mp (by omega))

theorem Confined.step (h : Confined parse P c)
    (hsent : ∀ p r, event = .send p r → P p → ∀ q, Named r q → P q)
    (hstep : DHTClient.step parse client key c event = some c') : Confined parse P c' := by
  refine ⟨h.inv.step hstep, fun q hq => ?_, ?_⟩
  · rcases mem_seen_step h.inv hstep hq with hq | ⟨pr, hpr, hnamed⟩
    · exact h.seen q hq
    · exact h.channel pr hpr q hnamed
  · refine h.inv.books.channel_step h.channel ?_ hstep
    rintro p r rfl
    obtain ⟨-, hstepped⟩ := step_stepped hstep
    cases hstepped with
    | sent p r hp hparse => exact hsent p r rfl (h.tasks hp)

end Confined

/-! ### No query twice -/

/-- The result that is received next is a reply without a value that lists a
peer twice, one that the loop does not know yet. -/
def Repeats (c : Call) : Event → Prop
  | .recv => ∃ p r rest new, c.lookup.channel = (p, r) :: rest ∧ carriedValue r = none ∧
      discovered c.lookup r = .ok new ∧ ¬ new.Nodup
  | .send _ _ => False
  | .die _ => False

/-- A step repeats a peer exactly if the reply it takes does. -/
theorem nodup_seen_step (hinv : CallInv parse c)
    (hstep : DHTClient.step parse client key c event = some c') :
    (seen c'.lookup).Nodup ↔ (seen c.lookup).Nodup ∧ ¬ Repeats c event := by
  obtain ⟨-, hstepped⟩ := step_stepped hstep
  cases hstepped with
  | sent p r hp hparse => exact (and_iff_left not_false).symm
  | died p hp hparse => exact (and_iff_left not_false).symm
  | received p r rest hch =>
      have hrepeats : Repeats c .recv ↔ carriedValue r = none ∧
          ∃ new, discovered c.lookup r = .ok new ∧ ¬ new.Nodup := by
        refine ⟨?_, fun ⟨hv, new, hd, hdup⟩ => ⟨p, r, rest, new, hch, hv, hd, hdup⟩⟩
        rintro ⟨p', r', rest', new, hch', hv, hd, hdup⟩
        obtain ⟨rfl, rfl, rfl⟩ := channel_head_unique hch hch'
        exact ⟨hv, new, hd, hdup⟩
      rw [turn_eq client key (hinv.books.inProgress_ne_zero hch), hrepeats]
      cases hv : carriedValue r with
      | some v => simp [merge, seen]
      | none =>
          cases hd : discovered c.lookup r with
          | error e => simp
          | ok new =>
              show (seen (client.loopHead key (merge c.lookup p r rest new)).lookup).Nodup ↔ _
              rw [(seen_loopHead_perm client key _).nodup_iff, nodup_seen_merge hd]
              simp

/-- **No query twice.** From candidates without duplicates, the queried peers
and the candidates together stay without duplicates exactly as long as no reply
repeats a peer that is new; so then no peer is queried twice. -/
theorem queried_nodup_iff (parse : String → Option SocketAddr) (client : DHTClient)
    (key : U128) (candidates : List Peer) (hnodup : candidates.Nodup) (events : List Event)
    (c : Call) (hrun : afterEvents parse client key candidates events = some c) :
    ((c.lookup.queried ++ c.lookup.candidates).Nodup ↔
        Run.Along (step parse client key) (fun c event => ¬ Repeats c event)
          (client.start key candidates) events) ∧
      (Run.Along (step parse client key) (fun c event => ¬ Repeats c event)
          (client.start key candidates) events → c.lookup.queried.Nodup) := by
  have hstart : (seen (client.start key candidates).lookup).Nodup := by
    rw [start, (seen_loopHead_perm client key _).nodup_iff]
    exact hnodup
  have hiff : (seen c.lookup).Nodup ↔ (seen (client.start key candidates).lookup).Nodup ∧
      Run.Along (step parse client key) (fun c event => ¬ Repeats c event)
        (client.start key candidates) events :=
    Run.run_iff_along (I := CallInv parse) (D := fun c => (seen c.lookup).Nodup)
      (fun s event t hs hstep => ⟨hs.step hstep, nodup_seen_step hs hstep⟩)
      (callInv_start parse client key candidates) hrun
  rw [and_iff_right hstart] at hiff
  exact ⟨hiff, fun halong => (List.nodup_append.mp (hiff.mpr halong)).1⟩

end Runs

/-! ### A peer that is queried twice

One peer answers with a list that names another one once, or twice. -/

theorem discovered_createFindNodeResponse (l : Lookup) (peers : List Peer) :
    discovered l (.ok (createFindNodeResponse peers)) =
      .ok (peers.filter fun p => p ∉ l.queried ∧ p ∉ l.candidates) := by
  simp only [discovered, mapM_createFindNodeResponse, bind, Except.bind, pure, Except.pure]

def oneClient : DHTClient := { alpha := 1, myself := { id := 0, address := "0.0.0.0:1" } }

/-- The lookup while the nearer peer is asked. -/
def askedNear : Lookup :=
  { candidates := [], queried := [nearPeer], inProgress := 1, tasks := [nearPeer] }

/-- The lookup when its reply has arrived. -/
def heardNear (r : Except IoError Message) : Lookup :=
  { askedNear with tasks := [], channel := [(nearPeer, r)] }

def told : Except IoError Message := .ok (createFindNodeResponse [farPeer])

def echoed : Except IoError Message := .ok (createFindNodeResponse [farPeer, farPeer])

def refused : Except IoError Message := .error { text := "connection refused" }

def tells : List Event := [.send nearPeer told, .recv]

def echoes : List Event := [.send nearPeer echoed, .recv, .send farPeer refused, .recv]

/-- The call that was told of the farther peer once: it is asked. -/
def toldCall : Call :=
  { lookup :=
      { candidates := []
        queried := [nearPeer, farPeer]
        inProgress := 1
        tasks := [farPeer]
        received := [(nearPeer, told)] }
    status := .awaiting }

/-- The call after the farther peer failed, of which it was told twice: it is
asked once more. -/
def echoedCall : Call :=
  { lookup :=
      { candidates := []
        queried := [nearPeer, farPeer, farPeer]
        inProgress := 1
        tasks := [farPeer]
        received := [(nearPeer, echoed), (farPeer, refused)] }
    status := .awaiting }

/-- The head of the loop after the reply that names the farther peer twice. -/
def echoedHead : Lookup :=
  { candidates := [farPeer, farPeer]
    queried := [nearPeer]
    received := [(nearPeer, echoed)] }

theorem discovered_echoed : discovered (heardNear echoed) echoed = .ok [farPeer, farPeer] := by
  rw [echoed, discovered_createFindNodeResponse]
  rfl

section Echoes

variable {parse : String → Option String} (hnear : (parse nearPeer.address).isSome)
include hnear

theorem afterEvents_heard (r : Except IoError Message) :
    afterEvents parse oneClient 0 [nearPeer] [.send nearPeer r] =
      some { lookup := heardNear r, status := .awaiting } := by
  have hstart : oneClient.start 0 [nearPeer] =
      { lookup := askedNear, status := .awaiting } := by decide
  rw [afterEvents, hstart]
  simp [step, askedNear, heardNear, hnear]

theorem afterEvents_turn (r : Except IoError Message) (events : List Event) :
    afterEvents parse oneClient 0 [nearPeer] (.send nearPeer r :: .recv :: events) =
      Run.run (step parse oneClient 0) (oneClient.turn 0 (heardNear r) nearPeer r []) events := by
  have hheard := afterEvents_heard hnear r
  rw [afterEvents] at hheard ⊢
  rw [show Event.send nearPeer r :: .recv :: events = [.send nearPeer r] ++ .recv :: events from
    rfl, Run.run_append, hheard]
  rfl

theorem afterEvents_tells : afterEvents parse oneClient 0 [nearPeer] tells = some toldCall := by
  rw [tells, afterEvents_turn hnear, turn_eq oneClient 0 (by decide), told,
    discovered_createFindNodeResponse]
  rfl

theorem afterEvents_echoes (hfar : (parse farPeer.address).isSome) :
    afterEvents parse oneClient 0 [nearPeer] echoes = some echoedCall := by
  have hturn : oneClient.turn 0 (heardNear echoed) nearPeer echoed [] =
      { lookup :=
          { candidates := [farPeer]
            queried := [nearPeer, farPeer]
            inProgress := 1
            tasks := [farPeer]
            received := [(nearPeer, echoed)] }
        status := .awaiting } := by
    rw [turn_eq oneClient 0 (by decide), discovered_echoed]
    rfl
  rw [echoes, afterEvents_turn hnear, hturn]
  simp [step, hfar]
  rfl

end Echoes

/-- A reply that lists the farther peer once, and one that lists it twice. -/
theorem queried_nodup_iff_told :
    (Run.Along (step (some : String → Option String) oneClient 0)
        (fun c event => ¬ Repeats c event) (oneClient.start 0 [nearPeer]) tells ∧
      toldCall.lookup.queried.Nodup) ∧
    ¬ Run.Along (step (some : String → Option String) oneClient 0)
      (fun c event => ¬ Repeats c event) (oneClient.start 0 [nearPeer]) echoes := by
  obtain ⟨htold, hnodup⟩ := queried_nodup_iff (some : String → Option String) oneClient 0
    [nearPeer] (by decide) tells toldCall (afterEvents_tells rfl)
  have halong := htold.mp (by decide)
  obtain ⟨hechoed, -⟩ := queried_nodup_iff (some : String → Option String) oneClient 0
    [nearPeer] (by decide) echoes echoedCall (afterEvents_echoes rfl rfl)
  exact ⟨⟨halong, hnodup halong⟩, fun h => absurd (hechoed.mpr h) (by decide)⟩

/-- Every reply decodes and the candidates had no duplicates, but the farther
peer is queried twice. -/
theorem queries_peer_twice :
    [nearPeer].Nodup ∧
      afterEvents (some : String → Option String) oneClient 0 [nearPeer] echoes =
        some echoedCall ∧
      echoedCall.lookup.queried = [nearPeer, farPeer, farPeer] ∧
      ¬ echoedCall.lookup.queried.Nodup :=
  ⟨by decide, afterEvents_echoes rfl rfl, rfl, by decide⟩

end DhtKad.DHTClient
