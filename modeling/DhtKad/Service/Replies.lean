import DhtKad.Client.Waiting
import DhtKad.Service

/-!
The replies that a node takes from others.

No reply is checked before it is decoded, neither in a bootstrap nor in a
lookup, and the address of a decoded peer is parsed when it is contacted. A
bootstrap contacts every peer it is told of, so it ends only if all entries of
all replies can be decoded and parsed. A lookup may come to contact every peer
that it is told of, by its candidates, by those that they list, and so on
(`Told`): no order of replies makes it panic exactly if all entries that these
peers list can be decoded and parsed (`replies_defined_iff`).
-/

namespace DhtKad

open RoutingTable

/-- The entry can be decoded to a peer that can be contacted. -/
def Usable {SocketAddr : Type} (parse : String → Option SocketAddr) (e : MessagePeer) : Prop :=
  16 ≤ e.id.length ∧ ∃ a, ByteString.fromUtf8 e.addrs = some a ∧ (parse a).isSome

section Bootstrap

variable {SocketAddr : Type} {parse : String → Option SocketAddr}

theorem usable_iff {e : MessagePeer} :
    Usable parse e ↔ ∃ p, protoPeerToPeer e = .ok p ∧ (parse p.address).isSome := by
  constructor
  · rintro ⟨hid, a, ha, hparse⟩
    obtain ⟨p, hp⟩ := (protoPeerToPeer_isOk_iff e).mpr ⟨hid, by simp [ha]⟩
    obtain ⟨-, haddr⟩ := protoPeerToPeer_eq_ok_iff.mp hp
    obtain rfl := Option.some.inj (ha.symm.trans haddr)
    exact ⟨p, hp, hparse⟩
  · rintro ⟨p, hp, hparse⟩
    obtain ⟨hid, -⟩ := (protoPeerToPeer_isOk_iff e).mp ⟨p, hp⟩
    obtain ⟨-, haddr⟩ := protoPeerToPeer_eq_ok_iff.mp hp
    exact ⟨hid, p.address, haddr, hparse⟩

theorem Usable.decodes {e : MessagePeer} (h : Usable parse e) : Decodes e := by
  obtain ⟨hid, a, ha, -⟩ := h
  exact ⟨hid, by simp [ha]⟩

/-! ### Bootstrap -/

variable {bootstrapPeers : List Peer} {findNode ping : ℕ → Except IoError Message}

theorem reported_isOk_iff (bootstrapPeers : List Peer) (findNode : ℕ → Except IoError Message) :
    (∃ reported, ((answered bootstrapPeers findNode).mapM fun (_, resp) =>
      resp.closerPeers.mapM protoPeerToPeer) = .ok reported) ↔
      ∀ i < bootstrapPeers.length, ∀ resp, findNode i = .ok resp →
        ∀ e ∈ resp.closerPeers, ∃ p, protoPeerToPeer e = .ok p := by
  rw [ExceptList.mapM_isOk_iff]
  simp only [ExceptList.mapM_isOk_iff]
  constructor
  · intro h i hi resp hresp
    exact h (_, resp) (mem_answered.mpr ⟨i, List.getElem?_eq_getElem hi, hresp⟩)
  · rintro h ⟨p, resp⟩ hmem
    obtain ⟨i, hi, hresp⟩ := mem_answered.mp hmem
    exact h i (List.getElem?_eq_some_iff.mp hi).1 resp hresp

theorem mem_reported {reported : List (List Peer)}
    (h : ((answered bootstrapPeers findNode).mapM fun (_, resp) =>
      resp.closerPeers.mapM protoPeerToPeer) = .ok reported) {p : Peer} :
    p ∈ reported.flatten ↔ ∃ i < bootstrapPeers.length, ∃ resp, findNode i = .ok resp ∧
      ∃ e ∈ resp.closerPeers, protoPeerToPeer e = .ok p := by
  rw [List.mem_flatten]
  constructor
  · rintro ⟨ps, hps, hp⟩
    obtain ⟨⟨q, resp⟩, hmem, hdec⟩ := (ExceptList.mem_of_mapM h ps).mp hps
    obtain ⟨e, he, hep⟩ := (ExceptList.mem_of_mapM hdec p).mp hp
    obtain ⟨i, hi, hresp⟩ := mem_answered.mp hmem
    exact ⟨i, (List.getElem?_eq_some_iff.mp hi).1, resp, hresp, e, he, hep⟩
  · rintro ⟨i, hi, resp, hresp, e, he, hep⟩
    have hmem : (bootstrapPeers[i], resp) ∈ answered bootstrapPeers findNode :=
      mem_answered.mpr ⟨i, List.getElem?_eq_getElem hi, hresp⟩
    obtain ⟨ps, hps⟩ := ExceptList.mapM_isOk_iff.mp ⟨_, h⟩ _ hmem
    exact ⟨ps, (ExceptList.mem_of_mapM h ps).mpr ⟨_, hmem, hps⟩,
      (ExceptList.mem_of_mapM hps p).mpr ⟨e, he, hep⟩⟩

theorem bootstrap_isOk_iff {k : ℕ} {localPeer : Peer} {t : RoutingTable}
    (ht : Held k localPeer t) :
    (∃ t', bootstrap parse bootstrapPeers findNode ping t = .ok t') ↔
      (∀ p ∈ bootstrapPeers, (parse p.address).isSome) ∧
        (∀ i < bootstrapPeers.length, ∀ resp, findNode i = .ok resp →
          ∀ e ∈ resp.closerPeers, Usable parse e) ∧
        (0 < k ∨ ∀ i < bootstrapPeers.length, ∃ e, findNode i = .error e) := by
  simp only [bootstrap_eq_ok_iff]
  constructor
  · rintro ⟨t', hconf, reported, hrep, hcand, hadd⟩
    refine ⟨hconf, fun i hi resp hresp e he => ?_, ?_⟩
    · obtain ⟨p, hp⟩ := (reported_isOk_iff _ _).mp ⟨_, hrep⟩ i hi resp hresp e he
      refine usable_iff.mpr ⟨p, hp, ?_⟩
      by_cases hboot : p ∈ bootstrapPeers
      · exact hconf p hboot
      · refine hcand p (mem_selectCandidates.mpr ⟨?_, hboot⟩)
        exact (mem_reported hrep).mpr ⟨i, hi, resp, hresp, e, he, hp⟩
    · refine ((addAlive_isOk_iff ht).mp ⟨t', hadd⟩).imp id fun hnil => ?_
      obtain ⟨hnil, -⟩ := List.append_eq_nil_iff.mp hnil
      exact answered_eq_nil_iff.mp (List.map_eq_nil_iff.mp hnil)
  · rintro ⟨hconf, husable, hroom⟩
    obtain ⟨reported, hrep⟩ := (reported_isOk_iff bootstrapPeers findNode).mpr
      fun i hi resp hresp e he => (usable_iff.mp (husable i hi resp hresp e he)).imp
        fun p hp => hp.1
    have hcand : ∀ p ∈ selectCandidates bootstrapPeers reported.flatten,
        (parse p.address).isSome := by
      intro p hp
      obtain ⟨i, hi, resp, hresp, e, he, hep⟩ :=
        (mem_reported hrep).mp (mem_selectCandidates.mp hp).1
      obtain ⟨q, hq, hparse⟩ := usable_iff.mp (husable i hi resp hresp e he)
      obtain rfl := Except.ok.inj (hep.symm.trans hq)
      exact hparse
    have hadd : 0 < k ∨ (answered bootstrapPeers findNode).map Prod.fst ++
        (answered (selectCandidates bootstrapPeers reported.flatten) ping).map Prod.fst = [] := by
      refine hroom.imp id fun herr => ?_
      have hnil := answered_eq_nil_iff.mpr herr
      have hrep' : reported = [] := by
        rw [hnil] at hrep
        exact (Except.ok.inj hrep).symm
      rw [hnil, hrep']
      rfl
    obtain ⟨t', ht'⟩ := (addAlive_isOk_iff ht).mpr hadd
    exact ⟨t', hconf, reported, hrep, hcand, ht'⟩

end Bootstrap

/-! ### Lookups -/

namespace DHTClient

/-- The peers that a lookup from the candidates can be told of by `n` replies in
a row. -/
def Told (replies : Peer → Except IoError Message → Prop) (candidates : List Peer) :
    ℕ → Peer → Prop
  | 0, p => p ∈ candidates
  | n + 1, p => Told replies candidates n p ∨
      ∃ q r, Told replies candidates n q ∧ replies q r ∧ Named r p

/-- All that a lookup can be told can be used: the candidates can be contacted,
and so can every peer that is listed by one that the lookup can be told of. -/
structure ToldUsable {SocketAddr : Type} (parse : String → Option SocketAddr)
    (replies : Peer → Except IoError Message → Prop) (candidates : List Peer) : Prop where
  initial : ∀ p ∈ candidates, (parse p.address).isSome
  entries : ∀ n q, Told replies candidates n q → ∀ resp, replies q (.ok resp) →
    resp.value = [] → ∀ e ∈ resp.closerPeers, Usable parse e

/-- A task that sends a result sends one of its peer. -/
def Sends (replies : Peer → Except IoError Message → Prop) : Event → Prop
  | .send p r => replies p r
  | .die _ => True
  | .recv => True

section Lookup

variable {SocketAddr : Type} (parse : String → Option SocketAddr)

/-- The call has not panicked, and no query it spawned panics. -/
def NoPanic (c : Call) : Prop :=
  (∀ e, c.status ≠ .panicked e) ∧ ∀ p ∈ c.lookup.queried, (parse p.address).isSome

/-- Nothing goes wrong in the call: there is no panic, a query that is counted
is under way, and the only error returned is `NOT_FOUND`. -/
structure Defined (c : Call) : Prop where
  noPanic : NoPanic parse c
  underWay : c.status = .awaiting → c.lookup.inProgress ≠ 0 →
    c.lookup.tasks ≠ [] ∨ c.lookup.channel ≠ []
  result : ∀ e, c.status = .returned (.error e) → e = notFound

variable {parse} {client : DHTClient} {key : U128} {candidates : List Peer}
  {replies : Peer → Except IoError Message → Prop} {c c' : Call} {event : Event}

theorem CallInv.defined_iff (h : CallInv parse c) : Defined parse c ↔ NoPanic parse c := by
  refine ⟨Defined.noPanic, fun hno => ⟨hno, fun hawait hne => ?_, fun e he => ?_⟩⟩
  · have hdead : c.lookup.dead = [] := by
      rw [List.eq_nil_iff_forall_not_mem]
      intro p hp
      have hparse := hno.2 p (h.books.queried_of_dead hp)
      simp [Option.isNone_iff_eq_none.mp (h.dead p hp)] at hparse
    have hcount := h.books.count
    simp only [hdead, List.length_nil, Nat.add_zero] at hcount
    by_contra hnot
    rw [not_or, not_not, not_not] at hnot
    simp [hnot.1, hnot.2, hne] at hcount
  · have hstatus := h.status
    rw [he] at hstatus
    exact hstatus.1

/-! ### A lookup that is told of usable peers -/

/-- Every entry of a result that the loop goes on with can be decoded. -/
def Decodable (r : Except IoError Message) : Prop :=
  ∀ resp, r = .ok resp → resp.value = [] → ∀ e ∈ resp.closerPeers, Decodes e

theorem Decodable.discovered {r : Except IoError Message} (h : Decodable r)
    (hv : carriedValue r = none) (l : Lookup) : ∃ new, discovered l r = .ok new := by
  refine discovered_isOk_iff.mpr fun resp hresp => h resp hresp ?_
  simpa [hresp, carriedValue] using hv

/-- The lookup knows of peers that it can be told of, and all results that are
under way can be decoded. -/
structure WellTold (parse : String → Option SocketAddr)
    (replies : Peer → Except IoError Message → Prop) (candidates : List Peer) (c : Call) :
    Prop where
  confined : Confined parse (fun p => ∃ n, Told replies candidates n p) c
  channel : ∀ pr ∈ c.lookup.channel, Decodable pr.2

theorem wellTold_start (client : DHTClient) (key : U128) :
    WellTold parse replies candidates (client.start key candidates) := by
  refine ⟨confined_start client key fun p hp => ⟨0, hp⟩, ?_⟩
  rw [start, (loopHead_frame client key _).1]
  simp

section ToldUsable

variable (husable : ToldUsable parse replies candidates)
include husable

theorem ToldUsable.parse_of_told {n : ℕ} {p : Peer} (hp : Told replies candidates n p) :
    (parse p.address).isSome := by
  induction n with
  | zero => exact husable.initial p hp
  | succ n ih =>
      rcases hp with hp | ⟨q, r, hq, hr, resp, rfl, hvalue, e, he, hdecode⟩
      · exact ih hp
      · obtain ⟨p', hp', hparse⟩ := usable_iff.mp (husable.entries n q hq resp hr hvalue e he)
        obtain rfl := Except.ok.inj (hdecode.symm.trans hp')
        exact hparse

theorem ToldUsable.decodable {n : ℕ} {q : Peer} (hq : Told replies candidates n q)
    {r : Except IoError Message} (hr : replies q r) : Decodable r := by
  rintro resp rfl hvalue e he
  exact (husable.entries n q hq resp hr hvalue e he).decodes

theorem WellTold.step (h : WellTold parse replies candidates c) (hsends : Sends replies event)
    (hstep : DHTClient.step parse client key c event = some c') :
    WellTold parse replies candidates c' := by
  refine ⟨h.confined.step ?_ hstep, ?_⟩
  · rintro p r rfl ⟨n, hn⟩ q hq
    exact ⟨n + 1, .inr ⟨p, r, hn, hsends, hq⟩⟩
  · refine h.confined.inv.books.channel_step h.channel ?_ hstep
    rintro p r rfl
    obtain ⟨-, hstepped⟩ := step_stepped hstep
    cases hstepped with
    | sent p r hp hparse =>
        obtain ⟨n, hn⟩ := h.confined.tasks hp
        exact husable.decodable hn hsends

theorem WellTold.defined (h : WellTold parse replies candidates c) : Defined parse c := by
  refine h.confined.inv.defined_iff.mpr ⟨fun e he => ?_, fun p hp => ?_⟩
  · have hstatus := h.confined.inv.status
    rw [he] at hstatus
    obtain ⟨p, r, rest, hch, hv, hd⟩ := hstatus
    obtain ⟨new, hnew⟩ := (h.channel (p, r) (by simp [hch])).discovered hv c.lookup
    rw [hd] at hnew
    cases hnew
  · obtain ⟨n, hn⟩ := h.confined.queried hp
    exact husable.parse_of_told hn

theorem wellTold_of_sends {events : List Event} (hsends : ∀ event ∈ events, Sends replies event)
    (hrun : afterEvents parse client key candidates events = some c) :
    WellTold parse replies candidates c :=
  Run.run_invariant_along (fun _ _ _ hs he hstep => WellTold.step husable hs he hstep)
    (wellTold_start client key)
    (Run.along_of_forall_mem (fun event hevent _ => hsends event hevent) _) hrun

theorem ToldUsable.ended (hanswers : ∀ q, ∃ r, replies q r) (halpha : 1 ≤ client.alpha)
    {events : List Event} (hsends : ∀ event ∈ events, Sends replies event)
    (hrun : afterEvents parse client key candidates events = some c)
    (hstuck : ∀ event, Sends replies event → step parse client key c event = none) :
    (∃ v, c.status = .returned (.ok v)) ∨ GaveUp c := by
  have htold := wellTold_of_sends husable hsends hrun
  have hdefined := htold.defined husable
  have hmetered := metered_of_afterEvents halpha hrun
  cases hcase : c.status with
  | awaiting =>
      have hwaits := htold.confined.inv.answerable hmetered hdefined.noPanic.2 hcase
      rcases hwaits with hch | ⟨p, hp, hparse⟩
      · obtain ⟨⟨p, r⟩, rest, hch⟩ := List.exists_cons_of_ne_nil hch
        simpa [step, hcase, hch] using hstuck .recv trivial
      · obtain ⟨r, hr⟩ := hanswers p
        simpa [step, hcase, hp, hparse] using hstuck (.send p r) hr
  | returned result =>
      cases result with
      | ok v => exact .inl ⟨v, rfl⟩
      | error e => exact .inr (hcase.trans (by rw [hdefined.result e hcase]))
  | panicked e => exact absurd hcase (hdefined.noPanic.1 e)

end ToldUsable

/-! ### A lookup that asks everybody at once -/

/-- A lookup that has asked all the peers it knows of, the given one among them,
and has received what there is. -/
structure Asks (replies : Peer → Except IoError Message → Prop) (candidates : List Peer) (n : ℕ)
    (p : Peer) (bound : ℕ) (c : Call) : Prop where
  awaiting : c.status = .awaiting
  task : p ∈ c.lookup.tasks
  channel : c.lookup.channel = []
  exhausted : c.lookup.candidates = []
  inProgress_le : c.lookup.inProgress ≤ bound
  queried : ∀ q ∈ c.lookup.queried, Told replies candidates n q

/-- With room for all candidates the head of the loop asks them all. -/
theorem asks_loopHead {l : Lookup} {n bound : ℕ} {p : Peer} (hp : p ∈ l.candidates)
    (hchannel : l.channel = []) (hbound : l.inProgress + l.candidates.length ≤ bound)
    (halpha : bound ≤ client.alpha) (htold : ∀ q ∈ seen l, Told replies candidates n q) :
    Asks replies candidates n p bound (client.loopHead key l) := by
  have hall : client.nextQueries key l = (sortCandidates key l.candidates).reverse := by
    refine List.take_of_length_le ?_
    rw [List.length_reverse, sortCandidates, SortBy.length_sortBy]
    omega
  have hmem (q : Peer) : q ∈ client.nextQueries key l ↔ q ∈ l.candidates := by
    rw [hall, List.mem_reverse, sortCandidates, (SortBy.sortBy_perm _).mem_iff]
  have hlength : (client.nextQueries key l).length = l.candidates.length := by
    rw [hall, List.length_reverse, sortCandidates, SortBy.length_sortBy]
  rw [loopHead_of_ne_nil client key (List.ne_nil_of_mem hp)]
  refine ⟨rfl, List.mem_append_right _ ((hmem p).mpr hp), hchannel, ?_, ?_, ?_⟩
  · refine List.reverse_eq_nil_iff.mpr (List.drop_of_length_le ?_)
    rw [List.length_reverse, sortCandidates, SortBy.length_sortBy]
    omega
  · show l.inProgress + _ ≤ bound
    omega
  · intro q hq
    refine htold q (mem_seen.mpr ?_)
    rcases List.mem_append.mp hq with hq | hq
    · exact .inr hq
    · exact .inl ((hmem q).mp hq)

/-- The variables when a peer has answered. -/
def heardFrom (l : Lookup) (q : Peer) (r : Except IoError Message) : Lookup :=
  { l with tasks := l.tasks.erase q, channel := [(q, r)] }

theorem length_discovered_le {l : Lookup} {resp : Message} {new : List Peer}
    (h : discovered l (.ok resp) = .ok new) : new.length ≤ resp.closerPeers.length := by
  obtain ⟨peers, hpeers, hnew⟩ := ExceptList.bind_eq_ok_iff.mp h
  obtain rfl := Except.ok.inj hnew
  rw [(ExceptList.mapM_eq_ok_iff.mp hpeers).length_eq]
  exact List.length_filter_le _ _

/-- Every lookup with these replies is defined, whatever its `alpha` and the order
in which they come. -/
def AllDefined (parse : String → Option SocketAddr)
    (replies : Peer → Except IoError Message → Prop) (key : U128) (candidates : List Peer) :
    Prop :=
  ∀ client events c, (∀ event ∈ events, Sends replies event) →
    afterEvents parse client key candidates events = some c → Defined parse c

section AllDefined

variable (hall : AllDefined parse replies key candidates)
include hall

theorem AllDefined.answer {n bound : ℕ} {q : Peer} (hasks : Asks replies candidates n q bound c)
    {events : List Event} (hsends : ∀ event ∈ events, Sends replies event)
    (hrun : afterEvents parse client key candidates events = some c) {resp : Message}
    (hr : replies q (.ok resp)) (hvalue : resp.value = []) :
    ∃ new, discovered (heardFrom c.lookup q (.ok resp)) (.ok resp) = .ok new ∧
      afterEvents parse client key candidates (events ++ [.send q (.ok resp), .recv]) =
        some (client.loopHead key
          (merge (heardFrom c.lookup q (.ok resp)) q (.ok resp) [] new)) := by
  have hinv := afterEvents_callInv hrun
  have hparse := (hall client events c hsends hrun).noPanic.2 q
    (hinv.books.queried_of_tasks hasks.task)
  have hne : (heardFrom c.lookup q (.ok resp)).inProgress ≠ 0 := by
    have hcount := hinv.books.count
    have hpos := List.length_pos_of_mem hasks.task
    show c.lookup.inProgress ≠ 0
    omega
  have hnext : afterEvents parse client key candidates (events ++ [.send q (.ok resp), .recv]) =
      some (client.turn key (heardFrom c.lookup q (.ok resp)) q (.ok resp) []) := by
    rw [afterEvents] at hrun ⊢
    rw [Run.run_append, hrun, Option.bind_some]
    simp [DHTClient.step, heardFrom, hasks.awaiting, hasks.task, hasks.channel, hparse]
  have hdefined := hall client _ _ (by simpa [or_imp, forall_and, Sends, hr] using hsends) hnext
  have hv : carriedValue (.ok resp) = none := by simp [carriedValue, hvalue]
  rw [turn_eq client key hne, hv] at hnext hdefined
  cases hd : discovered (heardFrom c.lookup q (.ok resp)) (.ok resp) with
  | error e =>
      rw [hd] at hdefined
      exact absurd rfl (hdefined.noPanic.1 e)
  | ok new =>
      rw [hd] at hnext
      exact ⟨new, rfl, hnext⟩

/-- Every peer that the lookup can be told of is asked in some run, if there is
room enough. -/
theorem AllDefined.exists_asks {n : ℕ} {p : Peer} (hp : Told replies candidates n p) :
    ∃ bound, ∀ client : DHTClient, bound ≤ client.alpha → ∃ events c,
      (∀ event ∈ events, Sends replies event) ∧
        afterEvents parse client key candidates events = some c ∧
          Asks replies candidates n p bound c := by
  induction n generalizing p with
  | zero =>
      refine ⟨candidates.length, fun client halpha => ⟨[], _, by simp, rfl, ?_⟩⟩
      exact asks_loopHead hp rfl (by simp) halpha (fun q hq => by simpa [seen, Told] using hq)
  | succ n ih =>
      by_cases htold : Told replies candidates n p
      · obtain ⟨bound, hbound⟩ := ih htold
        refine ⟨bound, fun client halpha => ?_⟩
        obtain ⟨events, c, hsends, hrun, hasks⟩ := hbound client halpha
        exact ⟨events, c, hsends, hrun,
          { hasks with queried := fun q hq => .inl (hasks.queried q hq) }⟩
      · obtain ⟨q, r, hq, hr, resp, rfl, hvalue, mp, hmp, hdecode⟩ := hp.resolve_left htold
        obtain ⟨bound, hbound⟩ := ih hq
        refine ⟨bound + resp.closerPeers.length, fun client halpha => ?_⟩
        obtain ⟨events, c, hsends, hrun, hasks⟩ := hbound client (by omega)
        obtain ⟨new, hd, hnext⟩ := hall.answer hasks hsends hrun hr hvalue
        refine ⟨_, _, by simpa [or_imp, forall_and, Sends, hr] using hsends, hnext, ?_⟩
        have hnew : p ∈ new := by
          refine (mem_discovered hd).mpr ⟨⟨resp, rfl, mp, hmp, hdecode⟩, fun hseen => ?_⟩
          rcases mem_seen.mp hseen with hseen | hseen
          · simp [heardFrom, hasks.exhausted] at hseen
          · exact htold (hasks.queried p hseen)
        have hlength := length_discovered_le hd
        refine asks_loopHead (List.mem_append_right _ hnew) rfl ?_ halpha ?_
        · have := hasks.inProgress_le
          simp only [merge, heardFrom, hasks.exhausted, List.nil_append]
          omega
        · intro x hx
          rcases mem_seen.mp hx with hx | hx
          · simp only [merge, heardFrom, hasks.exhausted, List.nil_append] at hx
            have hv : carriedValue (.ok resp) = none := by simp [carriedValue, hvalue]
            exact .inr ⟨q, _, hq, hr, named_of_discovered hv hd hx⟩
          · exact .inl (hasks.queried x hx)

theorem AllDefined.parse_of_told {n : ℕ} {p : Peer} (hp : Told replies candidates n p) :
    (parse p.address).isSome := by
  obtain ⟨bound, hbound⟩ := hall.exists_asks hp
  obtain ⟨events, c, hsends, hrun, hasks⟩ :=
    hbound { alpha := bound, myself := { id := 0, address := "" } } le_rfl
  exact (hall _ events c hsends hrun).noPanic.2 p
    ((afterEvents_callInv hrun).books.queried_of_tasks hasks.task)

theorem AllDefined.toldUsable : ToldUsable parse replies candidates := by
  refine ⟨fun p hp => hall.parse_of_told (n := 0) hp, ?_⟩
  intro n q hq resp hr hvalue e he
  obtain ⟨bound, hbound⟩ := hall.exists_asks hq
  obtain ⟨events, c, hsends, hrun, hasks⟩ :=
    hbound { alpha := bound, myself := { id := 0, address := "" } } le_rfl
  obtain ⟨new, hd, -⟩ := hall.answer hasks hsends hrun hr hvalue
  obtain ⟨p, hp⟩ :=
    (protoPeerToPeer_isOk_iff e).mpr (discovered_isOk_iff.mp ⟨new, hd⟩ resp rfl e he)
  exact usable_iff.mpr ⟨p, hp, hall.parse_of_told (n := n + 1)
    (.inr ⟨q, _, hq, hr, resp, rfl, hvalue, e, he, hp⟩)⟩

end AllDefined

end Lookup

end DHTClient

open DHTClient

/-- **Replies.** Whatever the contacted nodes reply: a bootstrap ends exactly if
the configured addresses parse, every entry of every reply is usable and there
is room for the peers that answered. No lookup with some replies, in whatever
order they come, panics or leaves a query that is never answered exactly if all
that it can be told is usable. Then it can stop only with a value or with
`NOT_FOUND`, and it goes on only as long as it is told of ever more peers. -/
theorem replies_defined_iff {SocketAddr : Type} (parse : String → Option SocketAddr)
    (k : ℕ) (localPeer : Peer) (t : RoutingTable) (ht : Held k localPeer t)
    (bootstrapPeers : List Peer) (findNode ping : ℕ → Except IoError Message)
    (key : U128) (candidates : List Peer) (replies : Peer → Except IoError Message → Prop) :
    ((∃ t', bootstrap parse bootstrapPeers findNode ping t = .ok t') ↔
      (∀ p ∈ bootstrapPeers, (parse p.address).isSome) ∧
        (∀ i < bootstrapPeers.length, ∀ resp, findNode i = .ok resp →
          ∀ e ∈ resp.closerPeers, Usable parse e) ∧
        (0 < k ∨ ∀ i < bootstrapPeers.length, ∃ e, findNode i = .error e)) ∧
    (AllDefined parse replies key candidates ↔ ToldUsable parse replies candidates) ∧
    (ToldUsable parse replies candidates → (∀ q, ∃ r, replies q r) →
      ∀ (client : DHTClient) events c, 1 ≤ client.alpha →
        (∀ event ∈ events, Sends replies event) →
        afterEvents parse client key candidates events = some c →
        (∀ event, Sends replies event → step parse client key c event = none) →
        (∃ v, c.status = .returned (.ok v)) ∨ GaveUp c) ∧
    ∀ (client : DHTClient) (U : Finset Peer) (events : ℕ → Event), ∃ n, ∀ c,
      afterEvents parse client key candidates ((List.range n).map events) = some c →
        ∃ q ∈ seen c.lookup, q ∉ U := by
  refine ⟨bootstrap_isOk_iff ht, ⟨AllDefined.toldUsable, ?_⟩, ?_, ?_⟩
  · intro husable client events c hsends hrun
    exact (wellTold_of_sends husable hsends hrun).defined husable
  · intro husable hanswers client events c halpha hsends hrun hstuck
    exact husable.ended hanswers halpha hsends hrun hstuck
  · intro client U events
    exact exists_seen_notMem parse client key candidates U events

/-! ### A reply that cannot be decoded -/

/-- A reply that names one peer. -/
def replyWith (e : MessagePeer) : Except IoError Message := .ok { closerPeers := [e] }

/-- Replies by which a lookup is told of one peer more. -/
def tellsOfFar (p : Peer) (r : Except IoError Message) : Prop :=
  r = if p = nearPeer then replyWith (protoPeerFromPeer farPeer) else refused

theorem usable_of_tellsOfFar {q : Peer} {resp : Message} (h : tellsOfFar q (.ok resp))
    (e : MessagePeer) (he : e ∈ resp.closerPeers) : Usable parseNumbered e := by
  rw [tellsOfFar] at h
  split at h
  · obtain rfl := Except.ok.inj h
    obtain rfl := List.mem_singleton.mp he
    exact usable_iff.mpr ⟨farPeer, by simp, by decide⟩
  · cases h

/-- Good replies: the bootstrap ends, and so does the lookup that has received
them all. -/
theorem replies_defined_iff_good :
    (∃ t', bootstrap parseNumbered [nearPeer]
      (fun _ => replyWith (protoPeerFromPeer farPeer)) (fun _ => .ok createPingResponse)
      (new 20 { id := 0, address := "0.0.0.0:1" }) = .ok t') ∧
    AllDefined parseNumbered tellsOfFar 0 [nearPeer] ∧
    ∀ events c, (∀ event ∈ events, Sends tellsOfFar event) →
      afterEvents parseNumbered pairClient 0 [nearPeer] events = some c →
      (∀ event, Sends tellsOfFar event → step parseNumbered pairClient 0 c event = none) →
      (∃ v, c.status = .returned (.ok v)) ∨ GaveUp c := by
  obtain ⟨hboot, hlookup, hended, -⟩ := replies_defined_iff parseNumbered 20
    { id := 0, address := "0.0.0.0:1" } _ (held_new 20 _) [nearPeer]
    (fun _ => replyWith (protoPeerFromPeer farPeer)) (fun _ => .ok createPingResponse) 0
    [nearPeer] tellsOfFar
  have husable : ToldUsable parseNumbered tellsOfFar [nearPeer] :=
    ⟨by decide, fun n q _ resp hr _ e he => usable_of_tellsOfFar hr e he⟩
  refine ⟨hboot.mpr ⟨by decide, ?_, .inl (by decide)⟩, hlookup.mpr husable, ?_⟩
  · intro i _ resp hresp e he
    obtain rfl := Except.ok.inj hresp
    obtain rfl := List.mem_singleton.mp he
    exact usable_iff.mpr ⟨farPeer, by simp, by decide⟩
  · intro events c
    exact hended husable (fun q => ⟨_, rfl⟩) pairClient events c (by decide)

/-- One entry with a one-byte identifier makes a bootstrap panic, and a lookup. -/
theorem short_id_panics :
    bootstrap (some : String → Option String) [nearPeer]
        (fun _ => replyWith { id := [1], addrs := [97] }) (fun _ => .ok createPingResponse)
        (new 20 { id := 0, address := "0.0.0.0:1" }) = .error .sliceOutOfRange ∧
      ∃ c, afterEvents (some : String → Option String) pairClient 0 [nearPeer]
          [.send nearPeer (replyWith { id := [1], addrs := [97] }), .recv] = some c ∧
        c.status = .panicked .sliceOutOfRange := by
  let l : Lookup :=
    { candidates := []
      queried := [nearPeer]
      inProgress := 1
      channel := [(nearPeer, replyWith { id := [1], addrs := [97] })] }
  exact ⟨by decide, { lookup := l, status := .panicked .sliceOutOfRange }, by decide, rfl⟩

end DhtKad
