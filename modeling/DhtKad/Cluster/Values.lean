import DhtKad.Cluster.Invariant
import DhtKad.Network.ReadYourWrites

/-!
Where values come from.

A value enters the system by a store and by nothing else: what a node holds
under a key, what a store request carries, what a reply to a lookup carries and
what a lookup returns was given to a store under the same key
(`genuine_stable`), however the handlers and the clients interleave and
whatever is lost (`returned_value_issued`).
-/

namespace DhtKad

open DHTServer DHTClient

variable {SocketAddr : Type}

/-! ### The values of a lookup -/

/-- The values under way to a lookup, and the one that it returned, meet `V`. -/
structure Genuine (parse : String → Option SocketAddr) (V : Bytes → Prop) (call : Call) :
    Prop where
  inv : CallInv parse call
  channel : ∀ pr ∈ call.lookup.channel, ∀ v, carriedValue pr.2 = some v → V v
  status : ∀ v, call.status = .returned (.ok v) → V v

section Genuine

variable {parse : String → Option SocketAddr} {V : Bytes → Prop} {client : DHTClient}
  {key : U128} {call call' : Call}

theorem genuine_start (parse : String → Option SocketAddr) (V : Bytes → Prop)
    (client : DHTClient) (key : U128) (candidates : List Peer) :
    Genuine parse V (client.start key candidates) := by
  refine ⟨callInv_start parse client key candidates, ?_, fun v hv => ?_⟩
  · rw [start, (loopHead_frame client key _).1]
    simp
  · exact absurd hv (status_loopHead_ne client key _ v)

theorem genuine_hit {v : Bytes} (hv : V v) :
    Genuine parse V { lookup := { candidates := [] }, status := .returned (.ok v) } := by
  refine ⟨callInv_hit parse v, by simp, fun v' hv' => ?_⟩
  cases hv'
  exact hv

/-- A lookup makes up no value: it returns one that a result carried. -/
theorem Genuine.step (h : Genuine parse V call) {event : Event}
    (hsent : ∀ p r, event = .send p r → ∀ v, carriedValue r = some v → V v)
    (hstep : DHTClient.step parse client key call event = some call') :
    Genuine parse V call' := by
  refine ⟨h.inv.step hstep, h.inv.books.channel_step h.channel hsent hstep, fun v hv => ?_⟩
  obtain ⟨-, hadvanced⟩ := h.inv.books.advanced hstep
  cases hadvanced with
  | sent p r hp hparse => cases hv
  | died p hp hparse => cases hv
  | returned hch hvalue =>
      rename_i p r _ rest
      cases hv
      exact h.channel (p, r) (by simp [hch]) _ hvalue
  | panicked hch hvalue hd => cases hv
  | looped hch hvalue hd => exact absurd hv (status_loopHead_ne client key _ v)

end Genuine

namespace Cluster

/-- A store of the value under the key is begun in the run. -/
def Issued (events : List (ClusterEvent SocketAddr)) (key : U128) (value : Bytes) : Prop :=
  ∃ a, ClusterEvent.begin a (.store key value) ∈ events

/-- Every value is under a key with which it meets `V`. -/
def genuine (d : Deployment SocketAddr) (V : U128 → Bytes → Prop) : Assertion SocketAddr where
  node _ s := ∀ bytes v, s.kvstore.store bytes = some v → ∃ key, bytes = keyToBytes key ∧ V key v
  stage _ operation stage :=
    match operation, stage with
    | .store key value, _ => V key value
    | .findValue key, .looking call => Genuine d.parse (V key) call
    | _, _ => True
  call _ operation call :=
    match operation with
    | .bootstrap => call.rpc ≠ .store
    | .store key value =>
        V key value ∧ call.request.key = keyToBytes key ∧ call.request.value = value
    | .findValue key => call.rpc ≠ .store ∧ call.request.key = keyToBytes key
  reply _ operation _ reply :=
    match operation with
    | .findValue key => ∀ v, carriedValue (.ok reply) = some v → V key v
    | _ => True

section Stable

variable {d : Deployment SocketAddr} {V : U128 → Bytes → Prop} {a : SocketAddr}
  {operation : Operation}

theorem genuine_turned {s : DHTServer} {stage : Stage} {turn : Turn SocketAddr}
    (hs : (genuine d V).node a s) (hstage : (genuine d V).stage a operation stage)
    (h : d.Turned a s operation stage turn) :
    (genuine d V).node a turn.server ∧ (genuine d V).stage a operation turn.stage ∧
      ∀ call ∈ turn.calls, (genuine d V).call a operation call := by
  have hqueries {key : U128} {peers : List Peer} (call : RemoteCall SocketAddr)
      (hcall : call ∈ d.queries a key peers) : (genuine d V).call a (.findValue key) call := by
    obtain ⟨hrpc, hrequest, -⟩ := d.mem_queries a hcall
    exact ⟨by rw [hrpc]; decide, by rw [hrequest]; rfl⟩
  cases h with
  | panicked e =>
      refine ⟨hs, ?_, by simp⟩
      cases operation with
      | bootstrap => trivial
      | store key value => exact hstage
      | findValue key => trivial
  | introduced htargets =>
      refine ⟨hs, trivial, fun call hcall => ?_⟩
      show call.rpc ≠ .store
      rw [(Deployment.mem_joined hcall).1]
      decide
  | pinged hreported htargets =>
      refine ⟨hs, trivial, fun call hcall => ?_⟩
      show call.rpc ≠ .store
      rw [(Deployment.mem_joined hcall).1]
      decide
  | bootstrapped htable => exact ⟨hs, trivial, by simp⟩
  | storing htargets =>
      refine ⟨hs, hstage, fun call hcall => ?_⟩
      obtain ⟨-, hrequest, -⟩ := Deployment.mem_joined hcall
      exact ⟨hstage, by rw [hrequest]; rfl, by rw [hrequest]; rfl⟩
  | stored => exact ⟨hs, hstage, by simp⟩
  | hit hv =>
      refine ⟨hs, genuine_hit ?_, by simp⟩
      obtain ⟨key', hkey, hV⟩ := hs _ _ hv
      rwa [keyToBytes_injective hkey]
  | missed => exact ⟨hs, trivial, by simp⟩
  | started hcandidates => exact ⟨hs, genuine_start _ _ _ _ _, hqueries⟩
  | received hstep =>
      exact ⟨hs, Genuine.step hstage (by rintro p r ⟨⟩) hstep, hqueries⟩

theorem genuine_served {call : RemoteCall SocketAddr} {point : Point} {s : DHTServer}
    {out : EStateM.Result Panic DHTServer (Point ⊕ Message)}
    (hcall : (genuine d V).call a operation call) (hs : (genuine d V).node call.target s)
    (hrpc : point.rpc = call.rpc) (h : AtomicStepped call.request s point out) :
    (genuine d V).node call.target (stateAfter out) ∧
      ∀ reply s', out = .ok (.inr reply) s' → (genuine d V).reply a operation call reply := by
  refine ⟨fun bytes v hv => ?_, ?_⟩
  · rcases h.kvstore bytes with heq | ⟨hpoint, hkey, hvalue⟩
    · exact hs bytes v (heq ▸ hv)
    · subst hpoint
      cases operation with
      | bootstrap => exact absurd hrpc.symm hcall
      | store key value =>
          obtain ⟨hV, hkey', hvalue'⟩ := hcall
          have hv' : value = v := by
            rw [hvalue, hvalue'] at hv
            exact Option.some.inj hv
          exact ⟨key, hkey.symm.trans hkey', hv' ▸ hV⟩
      | findValue key => exact absurd hrpc.symm hcall.1
  · rintro reply s' rfl
    cases operation with
    | bootstrap => trivial
    | store key value => trivial
    | findValue key =>
        intro v hv
        have hne : reply.value ≠ [] := by
          rintro hempty
          simp [carriedValue, hempty] at hv
        obtain rfl : reply.value = v := by simpa [carriedValue, hne] using hv
        obtain ⟨key', hkey, hV⟩ := hs _ _ (h.value hne)
        rwa [keyToBytes_injective (hcall.2.symm.trans hkey)]

theorem genuine_heard {slot : Slot} {result : Except IoError Message} {stage stage' : Stage}
    (hstage : (genuine d V).stage a operation stage)
    (hresult : ∀ reply, result = .ok reply →
      ∀ key, operation = .findValue key → ∀ v, carriedValue (.ok reply) = some v → V key v)
    (h : d.Heard a operation slot result stage stage') :
    (genuine d V).stage a operation stage' := by
  cases h with
  | ignored => exact hstage
  | introduced i => cases operation <;> exact hstage
  | pinged i => cases operation <;> exact hstage
  | stored i => cases operation <;> exact hstage
  | queried hoperation hstep =>
      subst hoperation
      refine Genuine.step hstage ?_ hstep
      rintro p r hevent v hv
      obtain ⟨rfl, rfl⟩ := Event.send.inj hevent
      cases result with
      | error e => cases hv
      | ok reply => exact hresult reply rfl _ rfl v hv

theorem genuine_stable (d : Deployment SocketAddr) (V : U128 → Bytes → Prop) :
    Stable (genuine d V) d (fun _ operation => ∀ key value, operation = .store key value →
      V key value) (fun _ _ _ _ => True) where
  fresh a bytes v hv := by cases hv
  begun a operation hbegins := by
    cases operation with
    | bootstrap => trivial
    | store key value => exact hbegins key value rfl
    | findValue key => trivial
  turned a operation s stage turn hs hstage h := genuine_turned hs hstage h
  served a operation call point s out hcall hs hrpc h := genuine_served hcall hs hrpc h
  heard a operation call result stage stage' hstage _ hresult h := by
    refine genuine_heard hstage ?_ h
    rintro reply hok key rfl
    exact (hresult reply hok).1
  lost a key p call call' hstage hstep := Genuine.step hstage (by rintro p r ⟨⟩) hstep

end Stable

end Cluster

/-- The task is a call of `find_value` that has returned. -/
def Task.FindValueReturned (task : Task SocketAddr) (key : U128)
    (result : Except RPCError Bytes) : Prop :=
  task.operation = .findValue key ∧
    ∃ call, task.stage = .looking call ∧ call.status = .returned result

namespace Cluster

/-- **No value out of nowhere.** In every run, in whatever order the clients, the
handlers between their locks and the messages take their steps and whatever is
lost: a value that `find_value` has returned was given to a `store` under the
same key. -/
theorem returned_value_issued [DecidableEq SocketAddr] (d : Deployment SocketAddr)
    (events : List (ClusterEvent SocketAddr)) (c : Cluster SocketAddr)
    (hrun : Run.run (step d) (new d) events = some c) (task : Task SocketAddr)
    (htask : task ∈ c.tasks) (key : U128) (v : Bytes)
    (hreturned : task.FindValueReturned key (.ok v)) : Issued events key v := by
  have hallowed : Run.Along (step d) (Allowed (fun _ operation => ∀ key value,
      operation = .store key value → Issued events key value) fun _ _ _ _ => True)
      (new d) events := by
    apply Run.along_of_forall_mem
    intro event hevent c
    cases event with
    | begin a operation =>
        rintro key value rfl
        exact ⟨a, hevent⟩
    | advance id => trivial
    | lose id p => trivial
    | serve i => trivial
    | deliver i => exact fun _ _ _ _ _ _ => trivial
    | fail i error => trivial
  obtain ⟨hoperation, call, hstage, hstatus⟩ := hreturned
  have hmeets := ((genuine_stable d (Issued events)).run hallowed hrun).tasks task htask
  rw [hoperation, hstage] at hmeets
  exact Genuine.status hmeets v hstatus

/-! ### Two nodes

The node `false` bootstraps from the node `true`. -/

def pair : Deployment Bool where
  parse := pairAddr
  toString a := (pairPeer a).address
  config a :=
    { k := 20
      alpha := 1
      bootstrapPeers := if a then [] else [pairPeer true]
      id := (pairPeer a).id }

/-- The bootstrap peer records the node that joins, and replies with it. -/
def joining : List (ClusterEvent Bool) := [.begin false .bootstrap, .advance 0, .serve 0]

def introduction : Exchange Bool where
  slot := .introduction 0
  target := true
  rpc := .findNode
  request := createFindNodeRequest 0 (pairPeer false)
  caller := 0
  progress := .replied (createFindNodeResponse [pairPeer false])
  awaited := true

def joinedServer : DHTServer :=
  { kvstore := .new, routingTable := ⟨20, pairPeer true, [⟨0, [pairPeer false]⟩]⟩ }

def joined : Cluster Bool where
  nodes := Function.update (Function.update (new pair).nodes false ((new pair).nodes false)) true
    joinedServer
  tasks := [{ node := false, operation := .bootstrap, stage := .introducing [none] }]
  exchanges := [introduction]

theorem joining_run : Run.run (step pair) (new pair) joining = some joined := by
  have hsent : SentBy (createFindNodeRequest 0 (pairPeer false)) (pairPeer false) :=
    sentBy_of_peer (by decide) rfl
  have hupdate : ((new pair).nodes true).routingTable.update (pairPeer false) =
      .ok (joinedServer.routingTable, .ok ()) := by
    show (RoutingTable.new 20 (pairPeer true)).update (pairPeer false) = _
    decide
  have hout : atomicStep (createFindNodeRequest 0 (pairPeer false)) (.opened .findNode)
      ((new pair).nodes true) =
        .ok (.inr (createFindNodeResponse [pairPeer false])) joinedServer := by
    rw [atomicStep, bind_apply, findNodeAsync_eq hsent hupdate]
    have hkey : keyFromBytes (createFindNodeRequest 0 (pairPeer false)).key = .ok 0 :=
      keyFromBytes_keyToBytes 0
    have hpeers : joinedServer.routingTable.kNearestPeers 0 = .ok [pairPeer false] := by decide
    simp only [hkey, hpeers]
    rfl
  refine Run.run_cons_eq_some.mpr ⟨_, rfl, Run.run_cons_eq_some.mpr ⟨_, rfl, ?_⟩⟩
  exact Run.run_cons_eq_some.mpr ⟨_, serve_eq rfl rfl hout, rfl⟩

/-- The node that is known by now stores a value at the one that has joined. -/
def storing : List (ClusterEvent Bool) :=
  [.begin true (.store 5 [7]), .advance 1, .serve 1, .serve 1]

def contacted : RoutingTable := ⟨20, pairPeer false, [⟨0, [pairPeer true]⟩]⟩

def delivery : Exchange Bool where
  slot := .store 0
  target := false
  rpc := .store
  request := createStoreRequest (pairPeer true) 5 [7]
  caller := 1
  progress := .replied (createStoreResponse true)
  awaited := true

def stored : Cluster Bool where
  nodes :=
    Function.update
      (Function.update (Function.update joined.nodes true (joined.nodes true)) false
        { kvstore := .new, routingTable := contacted })
      false { kvstore := (MemoryStore.new.put (keyToBytes 5) [7]).1, routingTable := contacted }
  tasks := joined.tasks ++
    [{ node := true, operation := .store 5 [7], stage := .storing [none] }]
  exchanges := [introduction, delivery]

theorem storing_run : Run.run (step pair) joined storing = some stored := by
  have hsent : SentBy (createStoreRequest (pairPeer true) 5 [7]) (pairPeer true) :=
    sentBy_of_peer (by decide) rfl
  have hrecord : atomicStep (createStoreRequest (pairPeer true) 5 [7]) (.opened .store)
      (DHTServer.new 20 (pairPeer false)) = _ :=
    recordSender_of_sentBy hsent contact_update _
  refine Run.run_cons_eq_some.mpr ⟨_, rfl, Run.run_cons_eq_some.mpr ⟨_, rfl, ?_⟩⟩
  refine Run.run_cons_eq_some.mpr ⟨_, serve_eq rfl rfl hrecord, ?_⟩
  exact Run.run_cons_eq_some.mpr ⟨_, serve_eq rfl rfl rfl, rfl⟩

/-- The node that the value was stored at looks it up. -/
def finding : List (ClusterEvent Bool) := [.begin false (.findValue 5), .advance 2]

def found : Task Bool where
  node := false
  operation := .findValue 5
  stage := .looking { lookup := { candidates := [] }, status := .returned (.ok [7]) }

theorem finding_run : ∃ c, Run.run (step pair) stored finding = some c ∧ found ∈ c.tasks := by
  have hlocal : findValueLocal (stored.nodes false) 5 = some [7] := by
    have hstore : (stored.nodes false).kvstore = (MemoryStore.new.put (keyToBytes 5) [7]).1 := rfl
    rw [findValueLocal, MemoryStore.get_eq, hstore, MemoryStore.put_store_self]
  have hturn : pair.turn false (.findValue 5) (stored.nodes false) .begun =
      some { server := stored.nodes false, stage := found.stage } := by
    simp only [Deployment.turn, Deployment.findValueTurn, hlocal]
    rfl
  exact ⟨_, Run.run_cons_eq_some.mpr ⟨_, rfl, Run.run_cons_eq_some.mpr
    ⟨_, advance_eq pair rfl hturn, rfl⟩⟩, List.mem_of_getElem? (i := 2) rfl⟩

theorem returned_value_issued_stored : ∃ c,
    Run.run (step pair) (new pair) (joining ++ (storing ++ finding)) = some c ∧
      found ∈ c.tasks ∧ found.FindValueReturned 5 (.ok [7]) ∧
      Issued (joining ++ (storing ++ finding)) 5 [7] := by
  obtain ⟨c, hfinding, hfound⟩ := finding_run
  have hrun : Run.run (step pair) (new pair) (joining ++ (storing ++ finding)) = some c := by
    rw [Run.run_append, joining_run, Option.bind_some, Run.run_append, storing_run,
      Option.bind_some, hfinding]
  have hreturned : found.FindValueReturned 5 (.ok [7]) := ⟨rfl, _, rfl, rfl⟩
  exact ⟨c, hrun, hfound, hreturned,
    returned_value_issued pair _ c hrun found hfound 5 [7] hreturned⟩

end Cluster

end DhtKad
