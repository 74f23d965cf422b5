import DhtKad.Client.GiveUp
import DhtKad.Network
import DhtKad.RoundTrip

/-!
Reading one's own writes.

A client stores a value at the nearest peers it knows and looks it up again.
Every peer the lookup queries first is one the value was stored at, and the
first reply of any of them ends the lookup with the value. But the lookup asks
the node's own key-value store before all of them, and `store` does not write
there: what other nodes have stored at this node under the same key comes back
instead (`readYourWrites_iff`).
-/

namespace DhtKad

open RoutingTable DHTServer DHTClient

section Holds

/-- The node answers a lookup of the key with the value. -/
structure Holds (key : U128) (v : Bytes) (s : DHTServer) : Prop where
  value : s.kvstore.store (keyToBytes key) = some v
  roomy : s.routingTable.Roomy

/-- A store for the key with another value. -/
def Overwrites (key : U128) (v : Bytes) : NodeEvent → Prop
  | .request rpc message => rpc = .store ∧ message.key = keyToBytes key ∧ message.value ≠ v
  | .bootstrap _ _ => False

variable {SocketAddr : Type} {parse : String → Option SocketAddr} {bootstrapPeers : List Peer}
  {key : U128} {v : Bytes} {s s' : DHTServer}

theorem nodeStep_kvstore {event : NodeEvent}
    (hstep : nodeStep parse bootstrapPeers s event = some s')
    (hnot : ¬ Overwrites key v event) (h : s.kvstore.store (keyToBytes key) = some v) :
    s'.kvstore.store (keyToBytes key) = some v := by
  cases event with
  | request rpc message =>
      obtain rfl := Option.some.inj hstep
      rcases serve_kvstore s rpc message (keyToBytes key) with heq | ⟨⟨hrpc, hkey⟩, hnew⟩
      · rw [heq, h]
      · have hv : message.value = v := by
          by_contra hne
          exact hnot ⟨hrpc, hkey, hne⟩
        rw [hnew, hv]
  | bootstrap findNode ping =>
      simp only [nodeStep] at hstep
      cases hb : bootstrap parse bootstrapPeers findNode ping s.routingTable with
      | error e =>
          rw [hb] at hstep
          obtain rfl := Option.some.inj hstep
          exact h
      | ok t =>
          rw [hb] at hstep
          obtain rfl := Option.some.inj hstep
          exact h

theorem Holds.nodeStep (h : Holds key v s) {event : NodeEvent}
    (hstep : nodeStep parse bootstrapPeers s event = some s')
    (hnot : ¬ Overwrites key v event) : Holds key v s' :=
  ⟨nodeStep_kvstore hstep hnot h.value,
    nodeStep_routingTable (fun _ _ _ _ _ _ _ _ ht hu => ht.of_update hu)
      (fun _ _ _ _ _ ht hu => ht.of_update hu) h.roomy hstep⟩

theorem Holds.handle (h : Holds key v s) {finder : Peer} (haddr : finder.address ≠ "") :
    ∃ node, DHTServer.handle .findValue (createFindValueRequest key finder) s =
      .ok (createFindValueResponse (keyToBytes key) v) node ∧ Holds key v node := by
  obtain ⟨t, ht, hreply⟩ := reply_of_stored h.roomy h.value haddr
  exact ⟨_, hreply, h.value, ht⟩

end Holds

section Network

variable {SocketAddr : Type} [DecidableEq SocketAddr] {parse : String → Option SocketAddr}
  {bootstrapPeers : SocketAddr → List Peer} {key : U128} {v : Bytes}

theorem Holds.networkStep {w w' : Network SocketAddr} {a : SocketAddr}
    {event : NetworkEvent SocketAddr} (h : Holds key v (w a))
    (hstep : Network.step parse bootstrapPeers w event = some w')
    (hnot : ¬ Overwrites key v event.2) : Holds key v (w' a) :=
  Network.step_invariant_at (fun _ _ hs _ hnode => hs.nodeStep hnode hnot) h hstep

theorem Holds.networkRun {w w' : Network SocketAddr} {a : SocketAddr}
    {events : List (NetworkEvent SocketAddr)} (h : Holds key v (w a))
    (hrun : Run.run (Network.step parse bootstrapPeers) w events = some w')
    (hnot : ∀ event ∈ events, ¬ Overwrites key v event.2) : Holds key v (w' a) :=
  Run.run_invariant_along (P := fun _ event => ¬ Overwrites key v event.2)
    (I := fun w : Network SocketAddr => Holds key v (w a))
    (fun _ _ _ hw hnot hstep => hw.networkStep hstep hnot) h
    (Run.along_of_forall_mem (fun event hevent _ => hnot event hevent) w) hrun

/-- The request of a store call is handled and answered `OK` at an address, and
no later event of the network overwrites the key. -/
def StoredAt (parse : String → Option SocketAddr) (bootstrapPeers : SocketAddr → List Peer)
    (client : DHTClient) (key : U128) (v : Bytes) (w : Network SocketAddr)
    (events : List (NetworkEvent SocketAddr)) (a : SocketAddr) : Prop :=
  ∃ before after w' response s,
    events = before ++ (a, .request .store (createStoreRequest client.myself key v)) :: after ∧
    Run.run (Network.step parse bootstrapPeers) w before = some w' ∧
    DHTServer.handle .store (createStoreRequest client.myself key v) (w' a) = .ok response s ∧
    response.code.enumValueOrDefault = .ok ∧
    ∀ event ∈ after, ¬ Overwrites key v event.2

theorem StoredAt.holds {k : SocketAddr → ℕ} {localPeer : SocketAddr → Peer}
    {before during : List (NetworkEvent SocketAddr)} {w₁ w₂ : Network SocketAddr}
    {client : DHTClient} {a : SocketAddr}
    (h₁ : Run.run (Network.step parse bootstrapPeers) (Network.new k localPeer) before = some w₁)
    (h₂ : Run.run (Network.step parse bootstrapPeers) w₁ during = some w₂)
    (h : StoredAt parse bootstrapPeers client key v w₁ during a) :
    client.myself.address ≠ "" ∧ Holds key v (w₂ a) := by
  obtain ⟨pre, post, w, response, s, rfl, hpre, hhandle, hok, hnot⟩ := h
  have hreach : Run.run (Network.step parse bootstrapPeers) (Network.new k localPeer)
      (before ++ pre) = some w := by
    rw [Run.run_append, h₁, Option.bind_some, hpre]
  obtain ⟨hvalid, hvalue, hroomy⟩ :=
    stored_of_ok (Network.run_held hreach a).untouched hhandle hok
  refine ⟨(validateRequest_of_peer rfl).mp hvalid, ?_⟩
  rw [Run.run_append, hpre, Option.bind_some] at h₂
  obtain ⟨w', hstep, hpost⟩ := Run.run_cons_eq_some.mp h₂
  have hw' : Holds key v (w' a) := by
    obtain ⟨s', hs', rfl⟩ := Network.step_eq_some hstep
    obtain rfl := Option.some.inj hs'
    rw [Function.update_self, serve_eq_stateAfter, hhandle]
    exact ⟨hvalue, hroomy⟩
  exact hw'.networkRun hpost hnot

theorem holds_of_storedAt {k : SocketAddr → ℕ} {localPeer : SocketAddr → Peer}
    {before during : List (NetworkEvent SocketAddr)} {w₁ w₂ : Network SocketAddr}
    {client : DHTClient} {peers : List Peer} {targets : List SocketAddr}
    (h₁ : Run.run (Network.step parse bootstrapPeers) (Network.new k localPeer) before = some w₁)
    (h₂ : Run.run (Network.step parse bootstrapPeers) w₁ during = some w₂)
    (htargets : peers.mapM (parseAddress parse) = .ok targets)
    (hstored : ∀ a ∈ targets, StoredAt parse bootstrapPeers client key v w₁ during a) :
    ∀ p ∈ peers, ∃ a, parse p.address = some a ∧ Holds key v (w₂ a) := by
  intro p hp
  obtain ⟨a, ha⟩ := ExceptList.mapM_isOk_iff.mp ⟨_, htargets⟩ p hp
  have hmem := (ExceptList.mem_of_mapM htargets a).mpr ⟨p, hp, ha⟩
  exact ⟨a, parseAddress_eq_ok_iff.mp ha, ((hstored a hmem).holds h₁ h₂).2⟩

end Network

/-! ### The lookup -/

section Lookup

variable {SocketAddr : Type} [DecidableEq SocketAddr] {parse : String → Option SocketAddr}
  {bootstrapPeers : SocketAddr → List Peer} {client : DHTClient} {key : U128} {v : Bytes}
  {peers : List Peer} {s t : LookupState SocketAddr}

/-- The lookup waits for a first reply, and only for replies with the value. -/
structure Waiting (v : Bytes) (s : LookupState SocketAddr) : Prop where
  status : s.call.status = .awaiting
  channel : ∀ pr ∈ s.call.lookup.channel, ∃ reply, pr.2 = .ok reply ∧ reply.value = v
  inFlight : ∀ pr ∈ s.inFlight, pr.2.value = v
  inProgress : s.call.lookup.inProgress =
    s.call.lookup.tasks.length + s.call.lookup.channel.length
  pos : 0 < s.call.lookup.inProgress

/-- Every peer that may be queried holds the value, and the lookup waits or has
returned it. -/
structure Served (parse : String → Option SocketAddr) (key : U128) (v : Bytes)
    (peers : List Peer) (s : LookupState SocketAddr) : Prop where
  holds : ∀ p ∈ peers, ∃ a, parse p.address = some a ∧ Holds key v (s.network a)
  tasks : ∀ p ∈ s.call.lookup.tasks, p ∈ peers
  asked : ∀ p, (s.inFlight.map Prod.fst).count p ≤ s.call.lookup.tasks.count p
  phase : Waiting v s ∨ s.call.status = .returned (.ok v)

/-- A store for the key with another value takes place during the lookup. -/
def LookupEvent.Overwrites (key : U128) (v : Bytes) : LookupEvent SocketAddr → Prop
  | .other event => DhtKad.Overwrites key v event.2
  | .handle _ => False
  | .arrive _ _ => False
  | .recv => False

theorem count_erase_inFlight {inFlight : List (Peer × Message)} {p : Peer} {reply : Message}
    (h : (p, reply) ∈ inFlight) (q : Peer) :
    (inFlight.map Prod.fst).count q =
      ((inFlight.erase (p, reply)).map Prod.fst).count q + if p = q then 1 else 0 := by
  have hperm := ((List.perm_cons_erase h).map Prod.fst).count_eq q
  rw [hperm, List.map_cons, List.count_cons]
  simp

theorem Served.handleQuery (h : Served parse key v peers s)
    (haddr : client.myself.address ≠ "") {p : Peer}
    (hp : (s.inFlight.map Prod.fst).count p < s.call.lookup.tasks.count p) :
    ∃ a node, Holds key v node ∧ LookupState.handleQuery parse client key s p =
      some { s with
        network := Function.update s.network a node
        inFlight := s.inFlight ++ [(p, createFindValueResponse (keyToBytes key) v)] } := by
  have hmem : p ∈ s.call.lookup.tasks := List.count_pos_iff.mp (by omega)
  obtain ⟨a, ha, hholds⟩ := h.holds p (h.tasks p hmem)
  obtain ⟨node, hhandle, hnode⟩ := hholds.handle haddr
  refine ⟨a, node, hnode, ?_⟩
  rw [LookupState.handleQuery, if_pos hp, ha]
  simp only [hhandle]

omit [DecidableEq SocketAddr] in
/-- The first result that is received ends the lookup with the value. -/
theorem Waiting.recv (hw : Waiting v s) (hv : v ≠ []) {c : Call}
    (hstep : DHTClient.step parse client key s.call .recv = some c) :
    c.status = .returned (.ok v) ∧ c.lookup.tasks = s.call.lookup.tasks := by
  obtain ⟨-, hstepped⟩ := step_stepped hstep
  cases hstepped with
  | received p r rest hch =>
      obtain ⟨reply, hr, hvalue⟩ := hw.channel (p, r) (by simp [hch])
      obtain rfl : r = .ok reply := hr
      have hcarried : carriedValue (.ok reply) = some v := by
        simp [carriedValue, hvalue, hv]
      have hpos := hw.pos
      rw [turn_eq client key (by omega)]
      simp only [hcarried]
      exact ⟨trivial, rfl⟩

omit [DecidableEq SocketAddr] in
theorem Served.waiting (h : Served parse key v peers s) (hawait : s.call.status = .awaiting) :
    Waiting v s := by
  refine h.phase.resolve_right fun hret => ?_
  rw [hret] at hawait
  cases hawait

/-- What a step of a served lookup can be. -/
inductive ServedStep (parse : String → Option SocketAddr)
    (bootstrapPeers : SocketAddr → List Peer) (key : U128) (v : Bytes)
    (s : LookupState SocketAddr) : LookupEvent SocketAddr → LookupState SocketAddr → Prop
  | other {event : NetworkEvent SocketAddr} {w : Network SocketAddr}
      (hstep : Network.step parse bootstrapPeers s.network event = some w) :
      ServedStep parse bootstrapPeers key v s (.other event) { s with network := w }
  | handled {p : Peer} {a : SocketAddr} {node : DHTServer}
      (hp : (s.inFlight.map Prod.fst).count p < s.call.lookup.tasks.count p)
      (hnode : Holds key v node) :
      ServedStep parse bootstrapPeers key v s (.handle p)
        { s with
          network := Function.update s.network a node
          inFlight := s.inFlight ++ [(p, createFindValueResponse (keyToBytes key) v)] }
  | arrived {p : Peer} {reply : Message} (hmem : (p, reply) ∈ s.inFlight)
      (hp : p ∈ s.call.lookup.tasks) (hawait : s.call.status = .awaiting) :
      ServedStep parse bootstrapPeers key v s (.arrive p reply)
        { s with
          call := { s.call with
            lookup := { s.call.lookup with
              tasks := s.call.lookup.tasks.erase p
              channel := s.call.lookup.channel ++ [(p, .ok reply)] } }
          inFlight := s.inFlight.erase (p, reply) }
  | received {c : Call} (hawait : s.call.status = .awaiting)
      (hret : c.status = .returned (.ok v)) (htasks : c.lookup.tasks = s.call.lookup.tasks) :
      ServedStep parse bootstrapPeers key v s .recv { s with call := c }

theorem Served.servedStep (h : Served parse key v peers s) (haddr : client.myself.address ≠ "")
    (hv : v ≠ []) {event : LookupEvent SocketAddr}
    (hstep : LookupState.step parse bootstrapPeers client key s event = some t) :
    ServedStep parse bootstrapPeers key v s event t := by
  cases event with
  | other event =>
      obtain ⟨w, hw, rfl⟩ := Option.map_eq_some_iff.mp hstep
      exact .other hw
  | handle p =>
      have hcount : (s.inFlight.map Prod.fst).count p < s.call.lookup.tasks.count p := by
        by_contra hle
        simp [LookupState.step, LookupState.handleQuery, hle] at hstep
      obtain ⟨a, node, hnode, heq⟩ := h.handleQuery haddr hcount
      obtain rfl := Option.some.inj (heq.symm.trans hstep)
      exact .handled hcount hnode
  | arrive p reply =>
      simp only [LookupState.step, Option.ite_none_right_eq_some] at hstep
      obtain ⟨hmem, hstep⟩ := hstep
      obtain ⟨c, hc, rfl⟩ := Option.map_eq_some_iff.mp hstep
      obtain ⟨hawait, hstepped⟩ := step_stepped hc
      cases hstepped with
      | sent _ _ hp hparse => exact hawait ▸ .arrived hmem hp hawait
  | recv =>
      obtain ⟨c, hc, rfl⟩ := Option.map_eq_some_iff.mp hstep
      obtain ⟨hawait, -⟩ := step_stepped hc
      obtain ⟨hret, htasks⟩ := (h.waiting hawait).recv hv hc
      exact .received hawait hret htasks

theorem Served.handled (h : Served parse key v peers s) {p : Peer} {a : SocketAddr}
    {node : DHTServer} (hp : (s.inFlight.map Prod.fst).count p < s.call.lookup.tasks.count p)
    (hnode : Holds key v node) :
    Served parse key v peers { s with
      network := Function.update s.network a node
      inFlight := s.inFlight ++ [(p, createFindValueResponse (keyToBytes key) v)] } := by
  refine ⟨fun q hq => ?_, h.tasks, fun q => ?_, ?_⟩
  · obtain ⟨b, hb, hholds⟩ := h.holds q hq
    refine ⟨b, hb, ?_⟩
    change Holds key v (Function.update s.network a node b)
    by_cases hab : b = a
    · rw [hab, Function.update_self]
      exact hnode
    · rwa [Function.update_of_ne hab]
  · have hq := h.asked q
    simp only [List.map_append, List.map_cons, List.map_nil, List.count_append,
      List.count_singleton]
    by_cases hpq : p = q
    · subst hpq
      simp
      omega
    · simpa [hpq] using hq
  · refine h.phase.imp (fun hw => ⟨hw.status, hw.channel, ?_, hw.inProgress, hw.pos⟩) id
    intro pr hpr
    rcases List.mem_append.mp hpr with hpr | hpr
    · exact hw.inFlight pr hpr
    · rw [List.mem_singleton.mp hpr]
      rfl

omit [DecidableEq SocketAddr] in
theorem Served.arrived (h : Served parse key v peers s) {p : Peer} {reply : Message}
    (hmem : (p, reply) ∈ s.inFlight) (hp : p ∈ s.call.lookup.tasks)
    (hawait : s.call.status = .awaiting) :
    Served parse key v peers { s with
      call := { s.call with
        lookup := { s.call.lookup with
          tasks := s.call.lookup.tasks.erase p
          channel := s.call.lookup.channel ++ [(p, .ok reply)] } }
      inFlight := s.inFlight.erase (p, reply) } := by
  have hw := h.waiting hawait
  refine ⟨h.holds, fun q hq => h.tasks q (List.mem_of_mem_erase hq), fun q => ?_,
    .inl ⟨hawait, ?_, ?_, ?_, hw.pos⟩⟩
  · have hq := h.asked q
    rw [count_erase_inFlight hmem] at hq
    simp only [List.count_erase]
    by_cases hpq : p = q
    · subst hpq
      simp at hq ⊢
      omega
    · simpa [hpq] using hq
  · intro pr hpr
    rcases List.mem_append.mp hpr with hpr | hpr
    · exact hw.channel pr hpr
    · rw [List.mem_singleton.mp hpr]
      exact ⟨reply, rfl, hw.inFlight _ hmem⟩
  · exact fun pr hpr => hw.inFlight pr (List.mem_of_mem_erase hpr)
  · have hlen := List.length_erase_of_mem hp
    have hpos := List.length_pos_of_mem hp
    have hcount := hw.inProgress
    simp only [List.length_append, List.length_singleton]
    omega

theorem Served.step (h : Served parse key v peers s) {event : LookupEvent SocketAddr}
    (hnot : ¬ event.Overwrites key v)
    (hstep : ServedStep parse bootstrapPeers key v s event t) : Served parse key v peers t := by
  cases hstep with
  | other hw =>
      refine ⟨fun p hp => ?_, h.tasks, h.asked, ?_⟩
      · obtain ⟨a, ha, hholds⟩ := h.holds p hp
        exact ⟨a, ha, hholds.networkStep hw hnot⟩
      · exact h.phase.imp (fun hw => ⟨hw.status, hw.channel, hw.inFlight, hw.inProgress, hw.pos⟩) id
  | handled hp hnode => exact h.handled hp hnode
  | arrived hmem hp hawait => exact h.arrived hmem hp hawait
  | received hawait hret htasks => exact ⟨h.holds, htasks ▸ h.tasks, htasks ▸ h.asked, .inr hret⟩

/-- A lookup that waits can go on by itself: receive a result, let a reply
arrive, or have a request handled. -/
theorem Served.canGoOn (h : Served parse key v peers s) (haddr : client.myself.address ≠ "")
    (hw : Waiting v s) : ∃ event, event.isOwn = true ∧
      (LookupState.step parse bootstrapPeers client key s event).isSome := by
  cases hch : s.call.lookup.channel with
  | cons pr rest =>
      refine ⟨.recv, rfl, ?_⟩
      simp [LookupState.step, DHTClient.step, hw.status, hch]
  | nil =>
      have hlen : 0 < s.call.lookup.tasks.length := by
        have := hw.inProgress
        have := hw.pos
        simp only [hch, List.length_nil] at *
        omega
      cases hflight : s.inFlight with
      | cons pr rest =>
          obtain ⟨p, reply⟩ := pr
          have hmem : p ∈ s.call.lookup.tasks := by
            have := h.asked p
            rw [hflight, List.map_cons, List.count_cons_self] at this
            exact List.count_pos_iff.mp (by omega)
          obtain ⟨a, ha, -⟩ := h.holds p (h.tasks p hmem)
          refine ⟨.arrive p reply, rfl, ?_⟩
          simp [LookupState.step, DHTClient.step, hw.status, hflight, hmem, ha]
      | nil =>
          obtain ⟨p, hp⟩ := List.exists_mem_of_length_pos hlen
          have hcount := List.count_pos_iff.mpr hp
          obtain ⟨a, node, -, heq⟩ := h.handleQuery (p := p) haddr (by simpa [hflight] using hcount)
          exact ⟨.handle p, rfl, by rw [LookupState.step, heq]; rfl⟩

/-! ### The lookup ends -/

/-- How many steps of its own the lookup has left: two for a task, one of which
is taken when its request is handled, and one for the first result. -/
def remaining (s : LookupState SocketAddr) : ℕ :=
  2 * s.call.lookup.tasks.length - s.inFlight.length +
    if s.call.status = .awaiting then 1 else 0

omit [DecidableEq SocketAddr] in
theorem Served.inFlight_le (h : Served parse key v peers s) :
    s.inFlight.length ≤ s.call.lookup.tasks.length := by
  have hsub : (s.inFlight.map Prod.fst).Subperm s.call.lookup.tasks :=
    List.subperm_iff_count.mpr h.asked
  simpa using hsub.length_le

theorem Served.remaining_step (h : Served parse key v peers s) {event : LookupEvent SocketAddr}
    (hstep : ServedStep parse bootstrapPeers key v s event t) :
    remaining t + (if event.isOwn = true then 1 else 0) ≤ remaining s := by
  have hle := h.inFlight_le
  cases hstep with
  | other hw => simp [LookupEvent.isOwn, remaining]
  | handled hp hnode =>
      have hpos := List.length_pos_of_mem (List.count_pos_iff.mp (Nat.zero_lt_of_lt hp))
      simp only [LookupEvent.isOwn, remaining, List.length_append, List.length_singleton, if_true]
      omega
  | arrived hmem hp hawait =>
      have hlen := List.length_erase_of_mem hp
      have hlen' := List.length_erase_of_mem hmem
      have hpos := List.length_pos_of_mem hp
      have hpos' := List.length_pos_of_mem hmem
      simp only [LookupEvent.isOwn, remaining, hawait, if_true]
      omega
  | received hawait hret htasks => simp [LookupEvent.isOwn, remaining, hawait, hret, htasks]

theorem Served.run (h : Served parse key v peers s) (haddr : client.myself.address ≠ "")
    (hv : v ≠ []) {events : List (LookupEvent SocketAddr)}
    (hnot : ∀ event ∈ events, ¬ event.Overwrites key v)
    (hrun : Run.run (LookupState.step parse bootstrapPeers client key) s events = some t) :
    Served parse key v peers t ∧
      remaining t + events.countP LookupEvent.isOwn ≤ remaining s := by
  induction events generalizing s with
  | nil =>
      obtain rfl := Option.some.inj hrun
      exact ⟨h, by simp⟩
  | cons event events ih =>
      obtain ⟨u, hstep, hrest⟩ := Run.run_cons_eq_some.mp hrun
      have hserved := h.servedStep haddr hv hstep
      have hu := h.step (hnot event (by simp)) hserved
      have hdec := h.remaining_step hserved
      obtain ⟨ht, hle⟩ := ih hu (fun e he => hnot e (List.mem_cons_of_mem event he)) hrest
      refine ⟨ht, ?_⟩
      rw [List.countP_cons]
      omega

/-! ### The start of the lookup -/

omit [DecidableEq SocketAddr] in
theorem served_start (client : DHTClient) {w : Network SocketAddr}
    (hholds : ∀ p ∈ peers, ∃ a, parse p.address = some a ∧ Holds key v (w a))
    (hpeers : peers ≠ []) (hα : 1 ≤ client.alpha) :
    Served parse key v peers { network := w, call := client.start key peers } ∧
      remaining { network := w, call := client.start key peers } ≤ 2 * client.alpha + 1 := by
  have hstart := loopHead_of_ne_nil client key (l := { candidates := peers }) hpeers
  have hlen : (client.nextQueries key { candidates := peers }).length =
      min client.alpha peers.length := by
    simp [nextQueries, sortCandidates]
  have hpos := List.length_pos_iff.mpr hpeers
  rw [start, hstart]
  refine ⟨⟨hholds, fun p hp => ?_, by simp, .inl ⟨rfl, by simp, by simp, ?_, ?_⟩⟩, ?_⟩
  · simp only [List.nil_append] at hp
    simpa [sortCandidates] using List.mem_of_mem_take hp
  · simp
  · simp only [hlen]
    omega
  · simp only [remaining, List.nil_append, hlen, List.length_nil, if_true]
    omega

omit [DecidableEq SocketAddr] in
theorem served_returned {w : Network SocketAddr}
    (hholds : ∀ p ∈ peers, ∃ a, parse p.address = some a ∧ Holds key v (w a)) :
    Served parse key v peers { network := w, call :=
      { lookup := { candidates := [] }, status := .returned (.ok v) } } ∧
    remaining { network := w, call :=
      { lookup := { candidates := [] }, status := .returned (.ok v) } } = 0 :=
  ⟨⟨hholds, by simp, by simp, .inr rfl⟩, by simp [remaining]⟩

end Lookup

/-- The lookup has returned the value or can go on by itself, and it has taken
no more steps of its own than its queries allow. -/
def ReturnsValue {SocketAddr : Type} [DecidableEq SocketAddr]
    (parse : String → Option SocketAddr) (bootstrapPeers : SocketAddr → List Peer)
    (client : DHTClient) (key : U128) (v : Bytes) (events : List (LookupEvent SocketAddr))
    (s : LookupState SocketAddr) : Prop :=
  (s.call.status = .returned (.ok v) ∨ s.call.status = .awaiting ∧
      ∃ event, event.isOwn = true ∧
        (LookupState.step parse bootstrapPeers client key s event).isSome) ∧
    events.countP LookupEvent.isOwn ≤ 2 * client.alpha + 1

theorem Served.returnsValue {SocketAddr : Type} [DecidableEq SocketAddr]
    {parse : String → Option SocketAddr} {bootstrapPeers : SocketAddr → List Peer}
    {client : DHTClient} {key : U128} {v : Bytes} {peers : List Peer}
    {s t : LookupState SocketAddr} (h : Served parse key v peers s)
    (hle : remaining s ≤ 2 * client.alpha + 1) (haddr : client.myself.address ≠ "")
    (hv : v ≠ []) {events : List (LookupEvent SocketAddr)}
    (hnot : ∀ event ∈ events, ¬ event.Overwrites key v)
    (hrun : Run.run (LookupState.step parse bootstrapPeers client key) s events = some t) :
    ReturnsValue parse bootstrapPeers client key v events t := by
  obtain ⟨ht, hcount⟩ := h.run haddr hv hnot hrun
  refine ⟨?_, by omega⟩
  rcases ht.phase with hw | hret
  · exact .inr ⟨hw.status, ht.canGoOn haddr hw⟩
  · exact .inl hret

/-- **Read your writes.** A client has stored a value at all its nearest peers,
and nobody stores another one under the key. Then a lookup by the same node
returns the value, whatever the order of the replies and whatever else happens
in the network, exactly if the node's own key-value store has no other value
for the key. -/
theorem readYourWrites_iff {SocketAddr : Type} [DecidableEq SocketAddr]
    (parse : String → Option SocketAddr) (bootstrapPeers : SocketAddr → List Peer)
    (k : SocketAddr → ℕ) (localPeer : SocketAddr → Peer)
    (before during : List (NetworkEvent SocketAddr)) (w₁ w₂ : Network SocketAddr)
    (h₁ : Run.run (Network.step parse bootstrapPeers) (Network.new k localPeer) before = some w₁)
    (h₂ : Run.run (Network.step parse bootstrapPeers) w₁ during = some w₂)
    (me : SocketAddr) (client : DHTClient) (hα : 1 ≤ client.alpha) (key : U128) (v : Bytes)
    (hv : v ≠ []) (targets : List SocketAddr)
    (htargets : storeTargets parse (w₁ me) key = .ok targets) (hne : targets ≠ [])
    (hstored : ∀ a ∈ targets, StoredAt parse bootstrapPeers client key v w₁ during a)
    (htable : (w₂ me).routingTable = (w₁ me).routingTable) :
    ∃ c, client.findValue (w₂ me) key = .ok c ∧
      ((∀ events s, (∀ event ∈ events, ¬ LookupEvent.Overwrites key v event) →
          Run.run (LookupState.step parse bootstrapPeers client key)
            { network := w₂, call := c } events = some s →
          ReturnsValue parse bootstrapPeers client key v events s) ↔
        ∀ own, (w₂ me).kvstore.store (keyToBytes key) = some own → own = v) := by
  obtain ⟨peers, hpeers, hparsed⟩ := ExceptList.bind_eq_ok_iff.mp htargets
  have hpeers₂ : (w₂ me).routingTable.kNearestPeers key = .ok peers := by rw [htable, hpeers]
  have haddr : client.myself.address ≠ "" := by
    obtain ⟨a, ha⟩ := List.exists_mem_of_ne_nil targets hne
    exact ((hstored a ha).holds h₁ h₂).1
  have hholds := holds_of_storedAt h₁ h₂ hparsed hstored
  have hpeersne : peers ≠ [] := by
    rintro rfl
    exact hne (Except.ok.inj hparsed).symm
  rw [findValue, findValueLocal, MemoryStore.get_eq]
  cases hown : (w₂ me).kvstore.store (keyToBytes key) with
  | none =>
      refine ⟨client.start key peers, by rw [hpeers₂]; rfl, ?_⟩
      obtain ⟨hserved, hle⟩ := served_start client hholds hpeersne hα
      refine iff_of_true (fun events s hnot hrun => ?_) (by simp)
      exact hserved.returnsValue hle haddr hv hnot hrun
  | some own =>
      refine ⟨_, rfl, ?_⟩
      simp only [Option.some.injEq, forall_eq']
      constructor
      · intro h
        obtain ⟨hret | ⟨hawait, -⟩, -⟩ := h [] _ (by simp) rfl
        · simpa using hret
        · cases hawait
      · rintro rfl events s hnot hrun
        obtain ⟨hserved, hzero⟩ := served_returned hholds
        exact hserved.returnsValue (by omega) haddr hv hnot hrun

/-! ### Two nodes

The node `false` has heard of the node `true` by a request of it, and stores the
value `[7]` under the key 5 there. -/

def pairAddr (s : String) : Option Bool :=
  if s = "0.0.0.0:1" then some false else if s = "0.0.0.0:2" then some true else none

def pairPeer : Bool → Peer
  | false => { id := 0, address := "0.0.0.0:1" }
  | true => { id := 1, address := "0.0.0.0:2" }

def writer : DHTClient := { alpha := 1, myself := pairPeer false }

/-- The network after the first request, which has left this store at the first
node. -/
def afterContact (kvstore : MemoryStore) : Network Bool :=
  Function.update (Network.new (fun _ => 20) pairPeer) false
    { kvstore := kvstore, routingTable := ⟨20, pairPeer false, [⟨0, [pairPeer true]⟩]⟩ }

theorem contact_update : (RoutingTable.new 20 (pairPeer false)).update (pairPeer true) =
    .ok (⟨20, pairPeer false, [⟨0, [pairPeer true]⟩]⟩, .ok ()) := by
  decide

theorem afterContact_targets (kvstore : MemoryStore) :
    storeTargets pairAddr (afterContact kvstore false) 5 = .ok [true] := by
  have htable : (afterContact kvstore false).routingTable =
      ⟨20, pairPeer false, [⟨0, [pairPeer true]⟩]⟩ := rfl
  rw [storeTargets, htable]
  decide

/-- The store request of the first node, at the second one. -/
def write : NetworkEvent Bool :=
  (true, .request .store (createStoreRequest writer.myself 5 [7]))

def afterWrite (kvstore : MemoryStore) : Network Bool :=
  Function.update (afterContact kvstore) true
    ((afterContact kvstore true).serve (.store, createStoreRequest writer.myself 5 [7]))

theorem afterWrite_run (kvstore : MemoryStore) :
    Run.run (Network.step pairAddr fun _ => []) (afterContact kvstore) [write] =
      some (afterWrite kvstore) := rfl

theorem afterContact_stored (kvstore : MemoryStore) : ∀ a ∈ [true],
    StoredAt pairAddr (fun _ => []) writer 5 [7] (afterContact kvstore) [write] a := by
  intro a ha
  obtain rfl := List.mem_singleton.mp ha
  have hupdate : (afterContact kvstore true).routingTable.update (pairPeer false) =
      .ok (⟨20, pairPeer true, [⟨0, [pairPeer false]⟩]⟩, .ok ()) := by
    change (RoutingTable.new 20 (pairPeer true)).update (pairPeer false) = _
    decide
  have hsent : SentBy (createStoreRequest writer.myself 5 [7]) (pairPeer false) :=
    sentBy_of_peer (by decide) rfl
  exact ⟨[], [], afterContact kvstore, _, _, rfl, rfl, storeAsync_eq hsent hupdate,
    enumValueOrDefault_new _, by simp⟩

/-- The first request was a ping: the lookup finds the value that was written. -/
theorem readYourWrites_iff_pinged :
    ∃ c, writer.findValue (afterWrite .new false) 5 = .ok c ∧
      ∀ events s, (∀ event ∈ events, ¬ LookupEvent.Overwrites 5 [7] event) →
        Run.run (LookupState.step pairAddr (fun _ => []) writer 5)
          { network := afterWrite .new, call := c } events = some s →
        ReturnsValue pairAddr (fun _ => []) writer 5 [7] events s := by
  have hping : Run.run (Network.step pairAddr fun _ => []) (Network.new (fun _ => 20) pairPeer)
      [(false, .request .ping (createPingRequest (pairPeer true)))] =
        some (afterContact .new) := by
    have hhandle : handle .ping (createPingRequest (pairPeer true))
        (DHTServer.new 20 (pairPeer false)) = _ :=
      pingAsync_eq (sentBy_of_peer (by decide) rfl) contact_update
    rw [Run.run_cons, Network.step, nodeStep, serve_eq_stateAfter]
    simp only [Network.new, hhandle]
    rfl
  obtain ⟨c, hc, hiff⟩ := readYourWrites_iff pairAddr (fun _ => []) (fun _ => 20) pairPeer _ _ _ _
    hping (afterWrite_run .new) false writer (by decide) 5 [7] (by decide) [true]
    (afterContact_targets _) (by decide) (afterContact_stored _) rfl
  refine ⟨c, hc, hiff.mpr ?_⟩
  intro own hown
  cases hown

/-- The first request was itself a store under the key: the node that wrote
`[7]` reads `[9]`. -/
theorem stale_value_returned :
    ∃ w₁ w₂ c, Run.run (Network.step pairAddr fun _ => []) (Network.new (fun _ => 20) pairPeer)
        [(false, .request .store (createStoreRequest (pairPeer true) 5 [9]))] = some w₁ ∧
      storeTargets pairAddr (w₁ false) 5 = .ok [true] ∧
      (∀ a ∈ [true], StoredAt pairAddr (fun _ => []) writer 5 [7] w₁ [write] a) ∧
      Run.run (Network.step pairAddr fun _ => []) w₁ [write] = some w₂ ∧
      (w₂ false).routingTable = (w₁ false).routingTable ∧
      writer.findValue (w₂ false) 5 = .ok c ∧ c.status = .returned (.ok [9]) := by
  refine ⟨afterContact (MemoryStore.new.put (keyToBytes 5) [9]).1,
    afterWrite (MemoryStore.new.put (keyToBytes 5) [9]).1,
    { lookup := { candidates := [] }, status := .returned (.ok [9]) }, ?_,
    afterContact_targets _, afterContact_stored _, afterWrite_run _, rfl, ?_, rfl⟩
  · have hhandle : handle .store (createStoreRequest (pairPeer true) 5 [9])
        (DHTServer.new 20 (pairPeer false)) = _ :=
      storeAsync_eq (sentBy_of_peer (by decide) rfl) contact_update
    rw [Run.run_cons, Network.step, nodeStep, serve_eq_stateAfter]
    simp only [Network.new, hhandle]
    rfl
  · have hown : (afterWrite (MemoryStore.new.put (keyToBytes 5) [9]).1 false).kvstore.store
        (keyToBytes 5) = some [9] := MemoryStore.put_store_self _ _ _
    rw [findValue, findValueLocal, MemoryStore.get_eq, hown]

end DhtKad
