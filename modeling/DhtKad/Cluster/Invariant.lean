import DhtKad.Client.GiveUp
import DhtKad.Cluster

/-!
What the events of a cluster keep.

`Turned` lists all that a task can do before it suspends again, and `Heard` all
that a result can do to it. An `Assertion` says something of every node, of
every task, of every request under way and of every reply; if each kind of step
keeps its own part (`Stable`), the cluster meets the assertion after every run
(`Stable.run`). The assertion sees a task only through its node, its operation
and its stage, and a remote call only together with the task that made it.
-/

namespace DhtKad

open RoutingTable DHTServer

variable {SocketAddr : Type}

namespace Deployment

variable (d : Deployment SocketAddr) (a : SocketAddr)

/-! ### Remote calls -/

omit d a in
theorem mem_joined {slot : ℕ → Slot} {rpc : Rpc} {request : Message} {targets : List SocketAddr}
    {call : RemoteCall SocketAddr} (h : call ∈ joined slot rpc request targets) :
    call.rpc = rpc ∧ call.request = request ∧ call.target ∈ targets := by
  obtain ⟨⟨target, i⟩, hmem, rfl⟩ := List.mem_map.mp h
  exact ⟨rfl, rfl, List.mem_of_getElem? (List.mem_zipIdx_iff_getElem?.mp hmem)⟩

theorem mem_queries {key : U128} {peers : List Peer} {call : RemoteCall SocketAddr}
    (h : call ∈ d.queries a key peers) :
    call.rpc = .findValue ∧ call.request = createFindValueRequest key (d.localPeer a) ∧
      ∃ p ∈ peers, d.parse p.address = some call.target := by
  obtain ⟨p, hp, hcall⟩ := List.mem_filterMap.mp h
  obtain ⟨target, htarget, rfl⟩ := Option.map_eq_some_iff.mp hcall
  exact ⟨rfl, rfl, p, hp, htarget⟩

/-! ### The steps of a task -/

/-- The ways in which a task comes to its next suspension. -/
inductive Turned (s : DHTServer) : Operation → Stage → Turn SocketAddr → Prop
  | panicked {operation : Operation} {stage : Stage} (e : Panic) :
      Turned s operation stage { server := s, stage := .panicked e }
  | introduced {targets : List SocketAddr}
      (htargets : (d.config a).bootstrapPeers.mapM (parseAddress d.parse) = .ok targets) :
      Turned s .bootstrap .begun
        { server := s
          stage := .introducing (targets.map fun _ => none)
          calls := joined .introduction .findNode
            (createFindNodeRequest (d.config a).id (d.localPeer a)) targets }
  | pinged {results : Results} {reported : List (List Peer)} {targets : List SocketAddr}
      (hreported : ((answered (d.config a).bootstrapPeers (resultAt results)).mapM
        fun (_, resp) => resp.closerPeers.mapM protoPeerToPeer) = .ok reported)
      (htargets : (selectCandidates (d.config a).bootstrapPeers reported.flatten).mapM
        (parseAddress d.parse) = .ok targets) :
      Turned s .bootstrap (.introducing results)
        { server := s
          stage := .pinging
            ((answered (d.config a).bootstrapPeers (resultAt results)).map Prod.fst)
            (selectCandidates (d.config a).bootstrapPeers reported.flatten)
            (targets.map fun _ => none)
          calls := joined .ping .ping (createPingRequest (d.localPeer a)) targets }
  | bootstrapped {alivePeers candidatePeers : List Peer} {results : Results}
      {table : RoutingTable}
      (htable : addAlive s.routingTable
        (alivePeers ++ (answered candidatePeers (resultAt results)).map Prod.fst) = .ok table) :
      Turned s .bootstrap (.pinging alivePeers candidatePeers results)
        { server := { s with routingTable := table }, stage := .bootstrapped }
  | storing {key : U128} {value : Bytes} {targets : List SocketAddr}
      (htargets : DHTClient.storeTargets d.parse s key = .ok targets) :
      Turned s (.store key value) .begun
        { server := s
          stage := .storing (targets.map fun _ => none)
          calls := joined .store .store (createStoreRequest (d.localPeer a) key value) targets }
  | stored {key : U128} {value : Bytes} {results : Results} :
      Turned s (.store key value) (.storing results)
        { server := s, stage := .stored (DHTClient.storeResult results.reduceOption) }
  | hit {key : U128} {v : Bytes} (hv : s.kvstore.store (keyToBytes key) = some v) :
      Turned s (.findValue key) .begun
        { server := s
          stage := .looking { lookup := { candidates := [] }, status := .returned (.ok v) } }
  | missed {key : U128} :
      Turned s (.findValue key) .begun { server := s, stage := .missed }
  | started {key : U128} {candidates : List Peer}
      (hcandidates : s.routingTable.kNearestPeers key = .ok candidates) :
      Turned s (.findValue key) .missed
        { server := s
          stage := .looking ((d.client a).start key candidates)
          calls := d.queries a key ((d.client a).start key candidates).lookup.tasks }
  | received {key : U128} {call call' : Call}
      (hstep : DHTClient.step d.parse (d.client a) key call .recv = some call') :
      Turned s (.findValue key) (.looking call)
        { server := s
          stage := .looking call'
          calls := d.queries a key (call'.lookup.tasks.drop call.lookup.tasks.length) }

section Turn

variable {d a} {s : DHTServer} {stage : Stage} {turn : Turn SocketAddr}

theorem bootstrapTurn_turned (h : d.bootstrapTurn a s stage = .ok (some turn)) :
    Turned d a s .bootstrap stage turn := by
  cases stage with
  | begun =>
      obtain ⟨wait, -, h⟩ := ExceptList.bind_eq_ok_iff.mp h
      cases wait with
      | true => cases h
      | false =>
          obtain ⟨targets, htargets, h⟩ := ExceptList.bind_eq_ok_iff.mp h
          cases h
          exact .introduced htargets
  | introducing results =>
      rw [bootstrapTurn] at h
      split at h
      · cases h
      · obtain ⟨reported, hreported, h⟩ := ExceptList.bind_eq_ok_iff.mp h
        obtain ⟨targets, htargets, h⟩ := ExceptList.bind_eq_ok_iff.mp h
        cases h
        exact .pinged hreported htargets
  | pinging alivePeers candidatePeers results =>
      rw [bootstrapTurn] at h
      split at h
      · cases h
      · obtain ⟨table, htable, h⟩ := ExceptList.bind_eq_ok_iff.mp h
        cases h
        exact .bootstrapped htable
  | bootstrapped => cases h
  | storing results => cases h
  | stored result => cases h
  | missed => cases h
  | looking call => cases h
  | panicked e => cases h

theorem storeTurn_turned {key : U128} {value : Bytes}
    (h : d.storeTurn a key value s stage = .ok (some turn)) :
    Turned d a s (.store key value) stage turn := by
  cases stage with
  | begun =>
      obtain ⟨targets, htargets, h⟩ := ExceptList.bind_eq_ok_iff.mp h
      cases h
      exact .storing htargets
  | storing results =>
      rw [storeTurn] at h
      split at h
      · cases h
      · cases h
        exact .stored
  | introducing results => cases h
  | pinging alivePeers candidatePeers results => cases h
  | bootstrapped => cases h
  | stored result => cases h
  | missed => cases h
  | looking call => cases h
  | panicked e => cases h

theorem findValueTurn_turned {key : U128}
    (h : d.findValueTurn a key s stage = .ok (some turn)) :
    Turned d a s (.findValue key) stage turn := by
  cases stage with
  | begun =>
      rw [findValueTurn, DHTClient.findValueLocal, MemoryStore.get_eq] at h
      cases hv : s.kvstore.store (keyToBytes key) with
      | some v =>
          rw [hv] at h
          cases h
          exact .hit hv
      | none =>
          rw [hv] at h
          cases h
          exact .missed
  | missed =>
      obtain ⟨candidates, hcandidates, h⟩ := ExceptList.bind_eq_ok_iff.mp h
      cases h
      exact .started hcandidates
  | looking call =>
      rw [findValueTurn] at h
      cases hstep : DHTClient.step d.parse (d.client a) key call .recv with
      | none =>
          rw [hstep] at h
          cases h
      | some call' =>
          rw [hstep] at h
          cases h
          exact .received hstep
  | introducing results => cases h
  | pinging alivePeers candidatePeers results => cases h
  | bootstrapped => cases h
  | storing results => cases h
  | stored result => cases h
  | panicked e => cases h

theorem caught_eq_some {result : Except Panic (Option (Turn SocketAddr))}
    (h : caught s result = some turn) :
    result = .ok (some turn) ∨ ∃ e, turn = { server := s, stage := .panicked e } := by
  cases result with
  | ok out => exact .inl (congrArg Except.ok h)
  | error e => exact .inr ⟨e, (Option.some.inj h).symm⟩

theorem turn_turned {operation : Operation} (h : d.turn a operation s stage = some turn) :
    Turned d a s operation stage turn := by
  cases operation with
  | bootstrap =>
      rcases caught_eq_some h with h | ⟨e, rfl⟩
      · exact bootstrapTurn_turned h
      · exact .panicked e
  | store key value =>
      rcases caught_eq_some h with h | ⟨e, rfl⟩
      · exact storeTurn_turned h
      · exact .panicked e
  | findValue key =>
      rcases caught_eq_some h with h | ⟨e, rfl⟩
      · exact findValueTurn_turned h
      · exact .panicked e

/-- A lookup does not panic in a turn of its own: the panic is a status of the call. -/
theorem not_looking_of_panicked {operation : Operation} {e : Panic}
    (h : d.turn a operation s stage = some { server := s, stage := .panicked e }) (call : Call) :
    stage ≠ .looking call := by
  rintro rfl
  cases operation with
  | bootstrap => simp [turn, bootstrapTurn, caught] at h
  | store key value => simp [turn, storeTurn, caught] at h
  | findValue key =>
      cases hstep : DHTClient.step d.parse (d.client a) key call .recv <;>
        simp [turn, findValueTurn, caught, hstep] at h

end Turn

/-- What a result does to the task it is handed to. -/
inductive Heard (operation : Operation) (slot : Slot) (result : Except IoError Message) :
    Stage → Stage → Prop
  | ignored {stage : Stage} : Heard operation slot result stage stage
  | introduced {results : Results} (i : ℕ) :
      Heard operation slot result (.introducing results)
        (.introducing (results.set i (some result)))
  | pinged {alivePeers candidatePeers : List Peer} {results : Results} (i : ℕ) :
      Heard operation slot result (.pinging alivePeers candidatePeers results)
        (.pinging alivePeers candidatePeers (results.set i (some result)))
  | stored {results : Results} (i : ℕ) :
      Heard operation slot result (.storing results) (.storing (results.set i (some result)))
  | queried {key : U128} {p : Peer} {call call' : Call} (hoperation : operation = .findValue key)
      (hstep : DHTClient.step d.parse (d.client a) key call (.send p result) = some call') :
      Heard operation slot result (.looking call) (.looking call')

theorem hear_heard (operation : Operation) (slot : Slot) (result : Except IoError Message)
    (stage : Stage) :
    Heard d a operation slot result stage (d.hear a operation slot result stage) := by
  cases stage with
  | introducing results =>
      cases slot with
      | introduction i => exact .introduced i
      | ping i => exact .ignored
      | store i => exact .ignored
      | query p => exact .ignored
  | pinging alivePeers candidatePeers results =>
      cases slot with
      | ping i => exact .pinged i
      | introduction i => exact .ignored
      | store i => exact .ignored
      | query p => exact .ignored
  | storing results =>
      cases slot with
      | store i => exact .stored i
      | introduction i => exact .ignored
      | ping i => exact .ignored
      | query p => exact .ignored
  | looking call =>
      cases operation with
      | bootstrap => exact .ignored
      | store key value => exact .ignored
      | findValue key =>
          cases slot with
          | query p =>
              show Heard d a (.findValue key) (.query p) result (.looking call)
                (.looking ((DHTClient.step d.parse (d.client a) key call
                  (.send p result)).getD call))
              cases hstep : DHTClient.step d.parse (d.client a) key call (.send p result) with
              | none => exact .ignored
              | some call' => exact .queried rfl hstep
          | introduction i => exact .ignored
          | ping i => exact .ignored
          | store i => exact .ignored
  | begun => exact .ignored
  | bootstrapped => exact .ignored
  | stored result => exact .ignored
  | missed => exact .ignored
  | panicked e => exact .ignored

theorem lose_eq_some {d : Deployment SocketAddr} {a : SocketAddr} {operation : Operation}
    {p : Peer} {stage stage' : Stage} (h : d.lose a operation p stage = some stage') :
    ∃ key call call', operation = .findValue key ∧ stage = .looking call ∧
      DHTClient.step d.parse (d.client a) key call (.die p) = some call' ∧
      stage' = .looking call' := by
  unfold lose at h
  split at h
  · obtain ⟨call', hstep, rfl⟩ := Option.map_eq_some_iff.mp h
    exact ⟨_, _, call', rfl, rfl, hstep, rfl⟩
  · cases h

end Deployment

namespace Cluster

/-! ### What an event does to the cluster -/

section Events

variable [DecidableEq SocketAddr] {d : Deployment SocketAddr} {c c' : Cluster SocketAddr}

theorem advance_eq_some {id : ℕ} (h : advance d c id = some c') :
    ∃ task turn, c.tasks[id]? = some task ∧
      d.Turned task.node (c.nodes task.node) task.operation task.stage turn ∧
      c' =
        { nodes := Function.update c.nodes task.node turn.server
          tasks := c.tasks.set id { task with stage := turn.stage }
          exchanges := c.exchanges ++ turn.calls.map (RemoteCall.issue id) } := by
  obtain ⟨task, htask, h⟩ := Option.bind_eq_some_iff.mp h
  obtain ⟨turn, hturn, h⟩ := Option.bind_eq_some_iff.mp h
  exact ⟨task, turn, htask, Deployment.turn_turned hturn, (Option.some.inj h).symm⟩

omit [DecidableEq SocketAddr] in
theorem lose_eq_some {id : ℕ} {p : Peer} (h : lose d c id p = some c') :
    ∃ task stage, c.tasks[id]? = some task ∧
      d.lose task.node task.operation p task.stage = some stage ∧
      c' = { c with tasks := c.tasks.set id { task with stage := stage } } := by
  obtain ⟨task, htask, h⟩ := Option.bind_eq_some_iff.mp h
  obtain ⟨stage, hlose, h⟩ := Option.bind_eq_some_iff.mp h
  exact ⟨task, stage, htask, hlose, (Option.some.inj h).symm⟩

theorem serve_eq_some {i : ℕ} (h : serve c i = some c') :
    ∃ x point, c.exchanges[i]? = some x ∧ x.progress = .running point ∧
      c' = { c with
        nodes := Function.update c.nodes x.target
          (stateAfter (atomicStep x.request point (c.nodes x.target)))
        exchanges := c.exchanges.set i
          { x with
            progress := progressAfter (atomicStep x.request point (c.nodes x.target)) } } := by
  obtain ⟨x, hx, h⟩ := Option.bind_eq_some_iff.mp h
  cases hprogress : x.progress with
  | replied reply => simp [hprogress] at h
  | broken e => simp [hprogress] at h
  | running point =>
      rw [hprogress] at h
      exact ⟨x, point, hx, hprogress, (Option.some.inj h).symm⟩

omit [DecidableEq SocketAddr] in
theorem answer_eq_some {i : ℕ} {x : Exchange SocketAddr} {result : Except IoError Message}
    (h : answer d c i x result = some c') :
    ∃ task, c.tasks[x.caller]? = some task ∧
      c' = { c with
        tasks := c.tasks.set x.caller
          { task with stage := d.hear task.node task.operation x.slot result task.stage }
        exchanges := c.exchanges.set i { x with awaited := false } } := by
  obtain ⟨task, htask, h⟩ := Option.bind_eq_some_iff.mp h
  simp only [Option.ite_none_right_eq_some] at h
  exact ⟨task, htask, (Option.some.inj h.2).symm⟩

theorem deliver_eq_some {i : ℕ} (h : step d c (.deliver i) = some c') :
    ∃ x reply, c.exchanges[i]? = some x ∧ x.progress = .replied reply ∧
      answer d c i x (.ok reply) = some c' := by
  obtain ⟨x, hx, h⟩ := Option.bind_eq_some_iff.mp h
  cases hprogress : x.progress with
  | running point => simp [hprogress] at h
  | broken e => simp [hprogress] at h
  | replied reply =>
      rw [hprogress] at h
      exact ⟨x, reply, hx, hprogress, h⟩

end Events

/-! ### Assertions -/

/-- What is said of the nodes, of the tasks, of the requests under way and of
the replies to them. -/
structure Assertion (SocketAddr : Type) where
  node : SocketAddr → DHTServer → Prop
  stage : SocketAddr → Operation → Stage → Prop
  call : SocketAddr → Operation → RemoteCall SocketAddr → Prop
  reply : SocketAddr → Operation → RemoteCall SocketAddr → Message → Prop

variable (A : Assertion SocketAddr)

/-- A remote call of a task at the node `a`, and how far it has come. -/
structure Apt (a : SocketAddr) (operation : Operation) (x : Exchange SocketAddr) : Prop where
  call : A.call a operation x.toRemoteCall
  running : ∀ point, x.progress = .running point → point.rpc = x.rpc
  replied : ∀ reply, x.progress = .replied reply → A.reply a operation x.toRemoteCall reply

/-- The number is that of a task whose node and operation meet `P`. -/
def OfTask (tasks : List (Task SocketAddr)) (id : ℕ) (P : SocketAddr → Operation → Prop) :
    Prop :=
  ∃ task, tasks[id]? = some task ∧ P task.node task.operation

structure Meets (c : Cluster SocketAddr) : Prop where
  nodes : ∀ a, A.node a (c.nodes a)
  tasks : ∀ task ∈ c.tasks, A.stage task.node task.operation task.stage
  exchanges : ∀ x ∈ c.exchanges, OfTask c.tasks x.caller fun a operation => Apt A a operation x

theorem OfTask.mono {tasks : List (Task SocketAddr)} {id : ℕ} {P Q : SocketAddr → Operation → Prop}
    (h : OfTask tasks id P) (hPQ : ∀ a operation, P a operation → Q a operation) :
    OfTask tasks id Q := by
  obtain ⟨task, htask, hP⟩ := h
  exact ⟨task, htask, hPQ _ _ hP⟩

theorem OfTask.append {tasks : List (Task SocketAddr)} {id : ℕ} {P : SocketAddr → Operation → Prop}
    (h : OfTask tasks id P) (more : List (Task SocketAddr)) : OfTask (tasks ++ more) id P := by
  obtain ⟨task, htask, hP⟩ := h
  have hlt := (List.getElem?_eq_some_iff.mp htask).1
  exact ⟨task, by rwa [List.getElem?_append_left hlt], hP⟩

theorem OfTask.set {tasks : List (Task SocketAddr)} {id j : ℕ} {task : Task SocketAddr}
    {P : SocketAddr → Operation → Prop} (h : OfTask tasks id P) (htask : tasks[j]? = some task)
    (stage : Stage) : OfTask (tasks.set j { task with stage := stage }) id P := by
  obtain ⟨task', htask', hP⟩ := h
  by_cases hj : j = id
  · subst hj
    obtain rfl := Option.some.inj (htask.symm.trans htask')
    have hlt := (List.getElem?_eq_some_iff.mp htask).1
    exact ⟨_, List.getElem?_set_self hlt, hP⟩
  · exact ⟨task', by rwa [List.getElem?_set_ne hj], hP⟩

/-- What is said of each task under its number, where one comes to another stage. -/
theorem forall_set {Q : ℕ → Task SocketAddr → Prop} {tasks : List (Task SocketAddr)} {id : ℕ}
    {task : Task SocketAddr} (hother : ∀ j t, j ≠ id → tasks[j]? = some t → Q j t)
    (hself : Q id task) (j : ℕ) (t : Task SocketAddr) (ht : (tasks.set id task)[j]? = some t) :
    Q j t := by
  by_cases hj : j = id
  · subst hj
    rw [List.getElem?_set_self'] at ht
    obtain ⟨t', -, rfl⟩ := Option.map_eq_some_iff.mp ht
    exact hself
  · rw [List.getElem?_set_ne (Ne.symm hj)] at ht
    exact hother j t hj ht

theorem getElem?_set_task {tasks : List (Task SocketAddr)} {i j : ℕ} {task t : Task SocketAddr}
    (ht : (tasks.set j task)[i]? = some t) : i = j ∧ t = task ∨ i ≠ j ∧ tasks[i]? = some t :=
  forall_set (Q := fun i t => i = j ∧ t = task ∨ i ≠ j ∧ tasks[i]? = some t)
    (fun _ _ hne ht => .inr ⟨hne, ht⟩) (.inl ⟨rfl, rfl⟩) i t ht

/-- Each kind of step keeps its part of the assertion, where only the operations
that `begins` allows are begun, and only the replies that `hears` allows are
delivered. -/
structure Stable (d : Deployment SocketAddr) (begins : SocketAddr → Operation → Prop)
    (hears : SocketAddr → Operation → Stage → Message → Prop) : Prop where
  fresh : ∀ a, A.node a (.new (d.config a).k (d.localPeer a))
  begun : ∀ a operation, begins a operation → A.stage a operation .begun
  turned : ∀ a operation s stage turn, A.node a s → A.stage a operation stage →
    d.Turned a s operation stage turn →
    A.node a turn.server ∧ A.stage a operation turn.stage ∧
      ∀ call ∈ turn.calls, A.call a operation call
  served : ∀ a operation call point s out, A.call a operation call → A.node call.target s →
    point.rpc = call.rpc → AtomicStepped call.request s point out →
    A.node call.target (stateAfter out) ∧
      ∀ reply s', out = .ok (.inr reply) s' → A.reply a operation call reply
  heard : ∀ a operation call result stage stage', A.stage a operation stage →
    A.call a operation call →
    (∀ reply, result = .ok reply →
      A.reply a operation call reply ∧ hears a operation stage reply) →
    d.Heard a operation call.slot result stage stage' → A.stage a operation stage'
  lost : ∀ a key p call call', A.stage a (.findValue key) (.looking call) →
    DHTClient.step d.parse (d.client a) key call (.die p) = some call' →
    A.stage a (.findValue key) (.looking call')

/-- The event begins an operation or delivers a reply only if that is allowed. -/
def Allowed (begins : SocketAddr → Operation → Prop)
    (hears : SocketAddr → Operation → Stage → Message → Prop)
    (c : Cluster SocketAddr) : ClusterEvent SocketAddr → Prop
  | .begin a operation => begins a operation
  | .deliver i => ∀ x task reply, c.exchanges[i]? = some x → c.tasks[x.caller]? = some task →
      x.progress = .replied reply → hears task.node task.operation task.stage reply
  | _ => True

section Stable

variable {A} [DecidableEq SocketAddr] {d : Deployment SocketAddr}
  {begins : SocketAddr → Operation → Prop}
  {hears : SocketAddr → Operation → Stage → Message → Prop}
  {c c' : Cluster SocketAddr}

theorem meets_update (hc : ∀ a, A.node a (c.nodes a)) {a : SocketAddr} {s : DHTServer}
    (hs : A.node a s) (b : SocketAddr) : A.node b (Function.update c.nodes a s b) := by
  by_cases hb : b = a
  · subst hb
    rwa [Function.update_self]
  · rw [Function.update_of_ne hb]
    exact hc b

omit [DecidableEq SocketAddr] in
theorem tasks_set {tasks : List (Task SocketAddr)} {id : ℕ} {task : Task SocketAddr}
    {stage : Stage} (htasks : ∀ task ∈ tasks, A.stage task.node task.operation task.stage)
    (hstage : A.stage task.node task.operation stage) :
    ∀ t ∈ tasks.set id { task with stage := stage }, A.stage t.node t.operation t.stage := by
  intro t ht
  rcases List.mem_or_eq_of_mem_set ht with ht | rfl
  · exact htasks t ht
  · exact hstage

theorem Stable.advance (h : Stable A d begins hears) (hc : Meets A c) {id : ℕ}
    (hstep : advance d c id = some c') : Meets A c' := by
  obtain ⟨task, turn, htask, hturned, rfl⟩ := advance_eq_some hstep
  obtain ⟨hserver, hstage, hcalls⟩ := h.turned _ _ _ _ _ (hc.nodes task.node)
    (hc.tasks task (List.mem_of_getElem? htask)) hturned
  refine ⟨meets_update hc.nodes hserver, tasks_set hc.tasks hstage, fun x hx => ?_⟩
  rcases List.mem_append.mp hx with hx | hx
  · exact (hc.exchanges x hx).set htask turn.stage
  · obtain ⟨call, hcall, rfl⟩ := List.mem_map.mp hx
    have hof : OfTask c.tasks id fun a operation => A.call a operation call :=
      ⟨task, htask, hcalls call hcall⟩
    refine (hof.set htask turn.stage).mono fun a operation hcall => ⟨hcall, ?_, ?_⟩
    · rintro point hpoint
      obtain rfl := Progress.running.inj hpoint
      rfl
    · rintro reply ⟨⟩

omit [DecidableEq SocketAddr] in
theorem Stable.lose (h : Stable A d begins hears) (hc : Meets A c) {id : ℕ} {p : Peer}
    (hstep : lose d c id p = some c') : Meets A c' := by
  obtain ⟨task, stage, htask, hlose, rfl⟩ := lose_eq_some hstep
  obtain ⟨key, call, call', hoperation, hlooking, hdie, rfl⟩ := Deployment.lose_eq_some hlose
  have hstage := hc.tasks task (List.mem_of_getElem? htask)
  rw [hoperation, hlooking] at hstage
  have hstage' : A.stage task.node task.operation (.looking call') := by
    rw [hoperation]
    exact h.lost _ _ _ _ _ hstage hdie
  exact ⟨hc.nodes, tasks_set hc.tasks hstage', fun x hx => (hc.exchanges x hx).set htask _⟩

omit [DecidableEq SocketAddr] in
theorem exchanges_set {tasks : List (Task SocketAddr)} {exchanges : List (Exchange SocketAddr)}
    {i : ℕ} {x : Exchange SocketAddr}
    (hall : ∀ x ∈ exchanges, OfTask tasks x.caller fun a operation => Apt A a operation x)
    (hx : OfTask tasks x.caller fun a operation => Apt A a operation x) :
    ∀ y ∈ exchanges.set i x, OfTask tasks y.caller fun a operation => Apt A a operation y := by
  intro y hy
  rcases List.mem_or_eq_of_mem_set hy with hy | rfl
  · exact hall y hy
  · exact hx

theorem Stable.serve (h : Stable A d begins hears) (hc : Meets A c) {i : ℕ}
    (hstep : serve c i = some c') : Meets A c' := by
  obtain ⟨x, point, hx, hprogress, rfl⟩ := serve_eq_some hstep
  obtain ⟨task, htask, hapt⟩ := hc.exchanges x (List.mem_of_getElem? hx)
  have hstepped := atomicStep_stepped x.request (c.nodes x.target) point
  generalize atomicStep x.request point (c.nodes x.target) = out at hstepped ⊢
  have hrpc := hapt.running point hprogress
  obtain ⟨hnode, hreply⟩ := h.served _ _ _ _ _ _ hapt.call (hc.nodes x.target) hrpc hstepped
  refine ⟨meets_update hc.nodes hnode, hc.tasks, exchanges_set hc.exchanges ?_⟩
  refine ⟨task, htask, hapt.call, fun point' hpoint' => ?_, fun reply hreplied => ?_⟩
  · match out, hpoint' with
    | .ok (.inl _) s, rfl => exact hstepped.rpc_eq.trans hrpc
  · match out, hreplied with
    | .ok (.inr _) s, rfl => exact hreply _ s rfl

omit [DecidableEq SocketAddr] in
theorem Stable.answer (h : Stable A d begins hears) (hc : Meets A c) {i : ℕ}
    {x : Exchange SocketAddr} (hx : c.exchanges[i]? = some x) {result : Except IoError Message}
    (hresult : ∀ task reply, c.tasks[x.caller]? = some task → result = .ok reply →
      x.progress = .replied reply ∧ hears task.node task.operation task.stage reply)
    (hstep : answer d c i x result = some c') : Meets A c' := by
  obtain ⟨task, htask, rfl⟩ := answer_eq_some hstep
  obtain ⟨task', htask', hapt⟩ := hc.exchanges x (List.mem_of_getElem? hx)
  obtain rfl := Option.some.inj (htask.symm.trans htask')
  have hstage := h.heard _ _ _ result _ _ (hc.tasks task (List.mem_of_getElem? htask)) hapt.call
    (fun reply hok => by
      obtain ⟨hreplied, hhears⟩ := hresult task reply htask hok
      exact ⟨hapt.replied reply hreplied, hhears⟩)
    (d.hear_heard task.node task.operation x.slot result task.stage)
  refine ⟨hc.nodes, tasks_set hc.tasks hstage, exchanges_set ?_ ?_⟩
  · exact fun y hy => (hc.exchanges y hy).set htask _
  · have hof : OfTask c.tasks x.caller fun a operation => Apt A a operation x :=
      ⟨task, htask, hapt⟩
    exact (hof.set htask _).mono fun a operation hx => ⟨hx.call, hx.running, hx.replied⟩

/-- **One event.** An allowed event keeps the assertion. -/
theorem Stable.step (h : Stable A d begins hears) (hc : Meets A c) {event : ClusterEvent SocketAddr}
    (hallowed : Allowed begins hears c event) (hstep : step d c event = some c') :
    Meets A c' := by
  cases event with
  | begin a operation =>
      obtain rfl := Option.some.inj hstep
      refine ⟨hc.nodes, fun task htask => ?_, fun x hx => (hc.exchanges x hx).append _⟩
      rcases List.mem_append.mp htask with htask | htask
      · exact hc.tasks task htask
      · obtain rfl := List.mem_singleton.mp htask
        exact h.begun a operation hallowed
  | advance id => exact h.advance hc hstep
  | lose id p => exact h.lose hc hstep
  | serve i => exact h.serve hc hstep
  | deliver i =>
      obtain ⟨x, reply, hx, hprogress, hstep⟩ := deliver_eq_some hstep
      refine h.answer hc hx (fun task reply' htask hok => ?_) hstep
      obtain rfl := Except.ok.inj hok
      exact ⟨hprogress, hallowed x task reply hx htask hprogress⟩
  | fail i error =>
      obtain ⟨x, hx, hstep⟩ := Option.bind_eq_some_iff.mp hstep
      exact h.answer hc hx (fun task reply htask hok => by cases hok) hstep

/-- **Runs.** The assertion is met after every run of allowed events. -/
theorem Stable.run (h : Stable A d begins hears) {events : List (ClusterEvent SocketAddr)}
    (hallowed : Run.Along (Cluster.step d) (Allowed begins hears) (new d) events)
    (hrun : Run.run (Cluster.step d) (new d) events = some c) : Meets A c := by
  refine Run.run_invariant_along (fun _ _ _ hc hallowed hstep => h.step hc hallowed hstep) ?_
    hallowed hrun
  exact ⟨h.fresh, by simp [new], by simp [new]⟩

end Stable

end Cluster

end DhtKad
