import DhtKad.Cluster.Closed

/-!
What is recorded at the nodes stays.

A node only grows: its table changes by updates, and a key that it holds it
keeps (`Grows`). So what a step of a handler leaves behind at its node can be
relied on afterwards, by the call it belongs to and by the task that made the
call. A `Record` says something of tasks and of calls in view of all nodes, and
unlike an assertion it knows the number of the task. If growing nodes do not
undo it and each kind of step keeps its part (`Lasting`), every run does
(`Lasting.run`).
-/

namespace DhtKad

open RoutingTable DHTServer

variable {SocketAddr : Type}

/-- The table comes from the other one by updates, and no key is given up. -/
structure Grows (s s' : DHTServer) : Prop where
  routingTable : ∀ I : RoutingTable → Prop,
    (∀ p t t' r, I t → t.update p = .ok (t', r) → I t') → I s.routingTable → I s'.routingTable
  kvstore : ∀ key, (s.kvstore.store key).isSome → (s'.kvstore.store key).isSome

theorem Grows.refl (s : DHTServer) : Grows s s := ⟨fun _ _ h => h, fun _ h => h⟩

theorem Deployment.Turned.kvstore {d : Deployment SocketAddr} {a : SocketAddr} {s : DHTServer}
    {operation : Operation} {stage : Stage} {turn : Turn SocketAddr}
    (h : d.Turned a s operation stage turn) : turn.server.kvstore = s.kvstore := by
  cases h with
  | _ => rfl

theorem Deployment.Turned.grows {d : Deployment SocketAddr} {a : SocketAddr} {s : DHTServer}
    {operation : Operation} {stage : Stage} {turn : Turn SocketAddr}
    (h : d.Turned a s operation stage turn) : Grows s turn.server where
  routingTable I hstep hI := h.routingTable hstep hI
  kvstore key hkey := by rwa [h.kvstore]

namespace Deployment

variable {d : Deployment SocketAddr} {a : SocketAddr} {operation : Operation} {slot : Slot}
  {result : Except IoError Message} {stage : Stage}

/-- A result changes a lookup only by being sent to it. -/
theorem hear_eq_looking {call' : Call} (h : d.hear a operation slot result stage = .looking call') :
    ∃ call, stage = .looking call ∧ (call' = call ∨ ∃ key p, operation = .findValue key ∧
      slot = .query p ∧
      DHTClient.step d.parse (d.client a) key call (.send p result) = some call') := by
  have hheard := d.hear_heard a operation slot result stage
  cases stage with
  | looking call =>
      refine ⟨call, rfl, ?_⟩
      cases operation with
      | findValue key =>
          cases slot with
          | query p =>
              obtain rfl := Stage.looking.inj h
              cases hstep : DHTClient.step d.parse (d.client a) key call (.send p result) with
              | none => exact .inl rfl
              | some call' => exact .inr ⟨key, p, rfl, rfl, hstep⟩
          | _ => exact .inl (Stage.looking.inj h).symm
      | _ => exact .inl (Stage.looking.inj h).symm
  | _ =>
      rw [h] at hheard
      cases hheard

theorem eq_missed_of_hear (h : d.hear a operation slot result stage = .missed) :
    stage = .missed := by
  have hheard := d.hear_heard a operation slot result stage
  rw [h] at hheard
  cases hheard
  rfl

theorem slot_of_mem_queries {key : U128} {peers : List Peer} {call : RemoteCall SocketAddr}
    (h : call ∈ d.queries a key peers) {p : Peer} (hslot : call.slot = .query p) :
    d.parse p.address = some call.target := by
  obtain ⟨q, -, hcall⟩ := List.mem_filterMap.mp h
  obtain ⟨target, htarget, rfl⟩ := Option.map_eq_some_iff.mp hcall
  obtain rfl := Slot.query.inj hslot
  exact htarget

end Deployment

theorem DHTServer.AtomicStepped.grows {message : Message} {s : DHTServer} {point : Point}
    {out : EStateM.Result Panic DHTServer (Point ⊕ Message)}
    (h : AtomicStepped message s point out) : Grows s (stateAfter out) where
  routingTable I hstep hI := h.routingTable (fun p t r _ hu => hstep p _ t r hI hu) hI
  kvstore key hkey := by
    rcases h.kvstore key with heq | ⟨-, -, hvalue⟩
    · rwa [heq]
    · rw [hvalue]
      rfl

namespace Cluster

/-- What is said of a task and of a remote call, with the number of the task, in
view of all nodes. -/
structure Record (SocketAddr : Type) where
  task : Network SocketAddr → ℕ → SocketAddr → Operation → Stage → Prop
  call : Network SocketAddr → ℕ → SocketAddr → Operation → RemoteCall SocketAddr → Progress → Prop

variable {A B : Assertion SocketAddr} {R : Record SocketAddr}

def Assertion.and (A B : Assertion SocketAddr) : Assertion SocketAddr where
  node a s := A.node a s ∧ B.node a s
  stage a operation stage := A.stage a operation stage ∧ B.stage a operation stage
  call a operation call := A.call a operation call ∧ B.call a operation call
  reply a operation call reply := A.reply a operation call reply ∧ B.reply a operation call reply

theorem meets_and {c : Cluster SocketAddr} :
    Meets (A.and B) c ↔ Meets A c ∧ Meets B c := by
  refine ⟨fun h => ⟨⟨fun a => (h.nodes a).1, fun task ht => (h.tasks task ht).1, fun x hx => ?_⟩,
    ⟨fun a => (h.nodes a).2, fun task ht => (h.tasks task ht).2, fun x hx => ?_⟩⟩, ?_⟩
  · exact (h.exchanges x hx).mono fun a operation hapt =>
      ⟨hapt.call.1, hapt.running, fun reply hreply => (hapt.replied reply hreply).1⟩
  · exact (h.exchanges x hx).mono fun a operation hapt =>
      ⟨hapt.call.2, hapt.running, fun reply hreply => (hapt.replied reply hreply).2⟩
  · rintro ⟨hA, hB⟩
    refine ⟨fun a => ⟨hA.nodes a, hB.nodes a⟩,
      fun task ht => ⟨hA.tasks task ht, hB.tasks task ht⟩, fun x hx => ?_⟩
    obtain ⟨task, htask, hapt⟩ := hA.exchanges x hx
    obtain ⟨task', htask', hapt'⟩ := hB.exchanges x hx
    obtain rfl := Option.some.inj (htask.symm.trans htask')
    exact ⟨task, htask, ⟨hapt.call, hapt'.call⟩, hapt.running,
      fun reply hreply => ⟨hapt.replied reply hreply, hapt'.replied reply hreply⟩⟩

structure Record.Holds (R : Record SocketAddr) (c : Cluster SocketAddr) : Prop where
  tasks : ∀ id task, c.tasks[id]? = some task →
    R.task c.nodes id task.node task.operation task.stage
  calls : ∀ x ∈ c.exchanges, ∀ task, c.tasks[x.caller]? = some task →
    R.call c.nodes x.caller task.node task.operation x.toRemoteCall x.progress

def Made (c : Cluster SocketAddr) (call : RemoteCall SocketAddr) : Prop :=
  ∃ x ∈ c.exchanges, x.toRemoteCall = call

def Replied (c : Cluster SocketAddr) (call : RemoteCall SocketAddr) (reply : Message) : Prop :=
  ∃ x ∈ c.exchanges, x.toRemoteCall = call ∧ x.progress = .replied reply

theorem Replied.made {c : Cluster SocketAddr} {call : RemoteCall SocketAddr} {reply : Message}
    (h : Replied c call reply) : Made c call := by
  obtain ⟨x, hx, hcall, -⟩ := h
  exact ⟨x, hx, hcall⟩

variable [DecidableEq SocketAddr]

/-- Growing nodes do not undo the record, and each kind of step keeps its part of
it, where the assertion is met. -/
structure Lasting (A : Assertion SocketAddr) (R : Record SocketAddr) (d : Deployment SocketAddr) :
    Prop where
  task_grows : ∀ nodes b s' id a operation stage, A.node b (nodes b) → Grows (nodes b) s' →
    R.task nodes id a operation stage →
    R.task (Function.update nodes b s') id a operation stage
  call_grows : ∀ nodes b s' id a operation call progress, A.node b (nodes b) →
    Grows (nodes b) s' → R.call nodes id a operation call progress →
    R.call (Function.update nodes b s') id a operation call progress
  begun : ∀ nodes id a operation, R.task nodes id a operation .begun
  turned : ∀ nodes id a operation stage turn, A.node a (nodes a) → A.stage a operation stage →
    R.task nodes id a operation stage → d.turn a operation (nodes a) stage = some turn →
    R.task (Function.update nodes a turn.server) id a operation turn.stage ∧
      ∀ call ∈ turn.calls, R.call (Function.update nodes a turn.server) id a operation call
        (.running (.opened call.rpc))
  served : ∀ nodes id a operation call point out, A.call a operation call →
    A.node call.target (nodes call.target) → point.rpc = call.rpc →
    R.call nodes id a operation call (.running point) →
    atomicStep call.request point (nodes call.target) = out →
    R.call (Function.update nodes call.target (stateAfter out)) id a operation call
      (progressAfter out)
  heard : ∀ nodes id a operation call progress result stage, A.call a operation call →
    A.stage a operation stage → R.task nodes id a operation stage →
    R.call nodes id a operation call progress →
    (∀ reply, result = .ok reply → progress = .replied reply) →
    R.task nodes id a operation (d.hear a operation call.slot result stage)
  lost : ∀ nodes id a key p call call', A.stage a (.findValue key) (.looking call) →
    R.task nodes id a (.findValue key) (.looking call) →
    DHTClient.step d.parse (d.client a) key call (.die p) = some call' →
    R.task nodes id a (.findValue key) (.looking call')

section Lasting

variable {d : Deployment SocketAddr} {c c' : Cluster SocketAddr}

theorem grows_of_step {event : ClusterEvent SocketAddr} (h : step d c event = some c')
    (a : SocketAddr) : Grows (c.nodes a) (c'.nodes a) := by
  have hupdate {b : SocketAddr} {s : DHTServer} (hs : Grows (c.nodes b) s) :
      Grows (c.nodes a) (Function.update c.nodes b s a) := by
    by_cases hab : a = b
    · subst hab
      rwa [Function.update_self]
    · rw [Function.update_of_ne hab]
      exact .refl _
  rcases nodes_of_step h with hnodes | ⟨b, operation, stage, turn, hturned, hnodes⟩ |
    ⟨b, message, point, hnodes⟩
  · rw [hnodes]
    exact .refl _
  · rw [hnodes]
    exact hupdate hturned.grows
  · rw [hnodes]
    exact hupdate (atomicStep_stepped message (c.nodes b) point).grows

omit [DecidableEq SocketAddr] in
theorem mem_or_eq_of_getElem? {l : List (Exchange SocketAddr)} {i : ℕ}
    {x y : Exchange SocketAddr} (hx : x ∈ l) (hy : l[i]? = some y) (z : Exchange SocketAddr) :
    x ∈ l.set i z ∨ x = y ∧ z ∈ l.set i z := by
  obtain ⟨j, hj⟩ := List.mem_iff_getElem?.mp hx
  by_cases hij : i = j
  · subst hij
    have hlt := (List.getElem?_eq_some_iff.mp hy).1
    exact .inr ⟨Option.some.inj (hj.symm.trans hy),
      List.mem_of_getElem? (List.getElem?_set_self hlt)⟩
  · exact .inl (List.mem_of_getElem? ((List.getElem?_set_ne hij).trans hj))

/-- What stays of an exchange: the remote call, the task it belongs to, the reply
to it, and that its result was handed over. -/
structure Continues (x x' : Exchange SocketAddr) : Prop where
  call : x'.toRemoteCall = x.toRemoteCall
  caller : x'.caller = x.caller
  replied : ∀ reply, x.progress = .replied reply → x'.progress = .replied reply
  awaited : x.awaited = false → x'.awaited = false

omit [DecidableEq SocketAddr] in
theorem Continues.refl (x : Exchange SocketAddr) : Continues x x :=
  ⟨rfl, rfl, fun _ h => h, fun h => h⟩

theorem exchange_of_step {event : ClusterEvent SocketAddr} (h : step d c event = some c')
    {x : Exchange SocketAddr} (hx : x ∈ c.exchanges) : ∃ x' ∈ c'.exchanges, Continues x x' := by
  cases event with
  | begin a operation =>
      obtain rfl := Option.some.inj h
      exact ⟨x, hx, .refl x⟩
  | advance id =>
      obtain ⟨task, turn, -, -, rfl⟩ := advance_eq_some h
      exact ⟨x, List.mem_append_left _ hx, .refl x⟩
  | lose id p =>
      obtain ⟨task, stage, -, -, rfl⟩ := lose_eq_some h
      exact ⟨x, hx, .refl x⟩
  | serve i =>
      obtain ⟨y, point, hy, hprogress, rfl⟩ := serve_eq_some h
      rcases mem_or_eq_of_getElem? hx hy _ with hx | ⟨rfl, hz⟩
      · exact ⟨x, hx, .refl x⟩
      · exact ⟨_, hz, rfl, rfl, fun reply hreply => (nomatch hprogress.symm.trans hreply),
          fun h => h⟩
  | deliver i =>
      obtain ⟨y, reply, hy, -, hanswer⟩ := deliver_eq_some h
      obtain ⟨task, -, rfl⟩ := answer_eq_some hanswer
      rcases mem_or_eq_of_getElem? hx hy _ with hx | ⟨rfl, hz⟩
      · exact ⟨x, hx, .refl x⟩
      · exact ⟨_, hz, rfl, rfl, fun _ h => h, fun _ => rfl⟩
  | fail i error =>
      obtain ⟨y, hy, hanswer⟩ := Option.bind_eq_some_iff.mp h
      obtain ⟨task, -, rfl⟩ := answer_eq_some hanswer
      rcases mem_or_eq_of_getElem? hx hy _ with hx | ⟨rfl, hz⟩
      · exact ⟨x, hx, .refl x⟩
      · exact ⟨_, hz, rfl, rfl, fun _ h => h, fun _ => rfl⟩

theorem Made.step {event : ClusterEvent SocketAddr} {call : RemoteCall SocketAddr}
    (h : Made c call) (hstep : step d c event = some c') : Made c' call := by
  obtain ⟨x, hx, rfl⟩ := h
  obtain ⟨x', hx', hcontinues⟩ := exchange_of_step hstep hx
  exact ⟨x', hx', hcontinues.call⟩

theorem Replied.step {event : ClusterEvent SocketAddr} {call : RemoteCall SocketAddr}
    {reply : Message} (h : Replied c call reply) (hstep : step d c event = some c') :
    Replied c' call reply := by
  obtain ⟨x, hx, rfl, hreply⟩ := h
  obtain ⟨x', hx', hcontinues⟩ := exchange_of_step hstep hx
  exact ⟨x', hx', hcontinues.call, hcontinues.replied reply hreply⟩

/-- A remote call was there before, or it was let on by a step of its handler, or
it is one that a task makes. -/
theorem exchange_origin {event : ClusterEvent SocketAddr} (h : step d c event = some c')
    {x' : Exchange SocketAddr} (hx' : x' ∈ c'.exchanges) :
    (∃ x ∈ c.exchanges, x'.toRemoteCall = x.toRemoteCall ∧ x'.caller = x.caller ∧
        x'.progress = x.progress) ∨
      (∃ i x point, event = .serve i ∧ c.exchanges[i]? = some x ∧ x.progress = .running point ∧
        x'.toRemoteCall = x.toRemoteCall ∧ x'.caller = x.caller ∧
        x'.progress = progressAfter (atomicStep x.request point (c.nodes x.target)) ∧
        c'.nodes x.target = stateAfter (atomicStep x.request point (c.nodes x.target))) ∨
      ∃ task turn, event = .advance x'.caller ∧ c.tasks[x'.caller]? = some task ∧
        d.Turned task.node (c.nodes task.node) task.operation task.stage turn ∧
        x'.toRemoteCall ∈ turn.calls ∧ x'.progress = .running (.opened x'.rpc) := by
  cases event with
  | begin a operation =>
      obtain rfl := Option.some.inj h
      exact .inl ⟨x', hx', rfl, rfl, rfl⟩
  | advance id =>
      obtain ⟨task, turn, htask, hturned, rfl⟩ := advance_eq_some h
      rcases List.mem_append.mp hx' with hx' | hx'
      · exact .inl ⟨x', hx', rfl, rfl, rfl⟩
      · obtain ⟨call, hcall, rfl⟩ := List.mem_map.mp hx'
        exact .inr (.inr ⟨task, turn, rfl, htask, hturned, hcall, rfl⟩)
  | lose id p =>
      obtain ⟨task, stage, -, -, rfl⟩ := lose_eq_some h
      exact .inl ⟨x', hx', rfl, rfl, rfl⟩
  | serve i =>
      obtain ⟨x, point, hx, hprogress, rfl⟩ := serve_eq_some h
      rcases List.mem_or_eq_of_mem_set hx' with hx' | rfl
      · exact .inl ⟨x', hx', rfl, rfl, rfl⟩
      · exact .inr (.inl ⟨i, x, point, rfl, hx, hprogress, rfl, rfl, rfl,
          Function.update_self _ _ _⟩)
  | deliver i =>
      obtain ⟨x, reply, hx, -, hanswer⟩ := deliver_eq_some h
      obtain ⟨task, -, rfl⟩ := answer_eq_some hanswer
      rcases List.mem_or_eq_of_mem_set hx' with hx' | rfl
      · exact .inl ⟨x', hx', rfl, rfl, rfl⟩
      · exact .inl ⟨x, List.mem_of_getElem? hx, rfl, rfl, rfl⟩
  | fail i error =>
      obtain ⟨x, hx, hanswer⟩ := Option.bind_eq_some_iff.mp h
      obtain ⟨task, -, rfl⟩ := answer_eq_some hanswer
      rcases List.mem_or_eq_of_mem_set hx' with hx' | rfl
      · exact .inl ⟨x', hx', rfl, rfl, rfl⟩
      · exact .inl ⟨x, List.mem_of_getElem? hx, rfl, rfl, rfl⟩

theorem replied_of_step {event : ClusterEvent SocketAddr} (h : step d c event = some c')
    {call : RemoteCall SocketAddr} {reply : Message} (hreplied : Replied c' call reply) :
    Replied c call reply ∨
      ∃ i x point, event = .serve i ∧ c.exchanges[i]? = some x ∧ x.progress = .running point ∧
        x.toRemoteCall = call ∧
        progressAfter (atomicStep x.request point (c.nodes x.target)) = .replied reply ∧
        c'.nodes x.target = stateAfter (atomicStep x.request point (c.nodes x.target)) := by
  obtain ⟨x', hx', rfl, hreply⟩ := hreplied
  rcases exchange_origin h hx' with ⟨x, hx, hcall, -, hprogress⟩ |
    ⟨i, x, point, hevent, hx, hrunning, hcall, -, hprogress, hnode⟩ | ⟨_, _, -, -, -, -, hopened⟩
  · exact .inl ⟨x, hx, hcall.symm, hprogress.symm.trans hreply⟩
  · exact .inr ⟨i, x, point, hevent, hx, hrunning, hcall.symm, hprogress.symm.trans hreply, hnode⟩
  · cases hopened.symm.trans hreply

/-- A value is put at a node by nothing but the handler of a store. -/
theorem value_of_step {event : ClusterEvent SocketAddr} (h : step d c event = some c')
    (b : SocketAddr) (bytes : Bytes) :
    (c'.nodes b).kvstore.store bytes = (c.nodes b).kvstore.store bytes ∨
      ∃ x ∈ c.exchanges, x.progress = .running .storing ∧ x.target = b ∧
        x.request.key = bytes ∧ (c'.nodes b).kvstore.store bytes = some x.request.value := by
  cases event with
  | begin a operation =>
      obtain rfl := Option.some.inj h
      exact .inl rfl
  | advance id =>
      obtain ⟨task, turn, -, hturned, rfl⟩ := advance_eq_some h
      refine .inl ?_
      show (Function.update c.nodes task.node turn.server b).kvstore.store bytes = _
      by_cases hb : b = task.node
      · subst hb
        rw [Function.update_self, hturned.kvstore]
      · rw [Function.update_of_ne hb]
  | lose id p =>
      obtain ⟨task, stage, -, -, rfl⟩ := lose_eq_some h
      exact .inl rfl
  | serve i =>
      obtain ⟨x, point, hx, hprogress, rfl⟩ := serve_eq_some h
      show (Function.update c.nodes x.target _ b).kvstore.store bytes = _ ∨ ∃ y ∈ c.exchanges, _ ∧
        _ ∧ _ ∧ (Function.update c.nodes x.target _ b).kvstore.store bytes = _
      by_cases hb : b = x.target
      · subst hb
        rw [Function.update_self]
        refine ((atomicStep_stepped x.request (c.nodes x.target) point).kvstore bytes).imp_right ?_
        rintro ⟨rfl, hkey, hvalue⟩
        exact ⟨x, List.mem_of_getElem? hx, hprogress, rfl, hkey, hvalue⟩
      · rw [Function.update_of_ne hb]
        exact .inl rfl
  | deliver i =>
      obtain ⟨x, reply, -, -, hanswer⟩ := deliver_eq_some h
      obtain ⟨task, -, rfl⟩ := answer_eq_some hanswer
      exact .inl rfl
  | fail i error =>
      obtain ⟨x, -, hanswer⟩ := Option.bind_eq_some_iff.mp h
      obtain ⟨task, -, rfl⟩ := answer_eq_some hanswer
      exact .inl rfl

omit [DecidableEq SocketAddr] in
/-- A call belongs to its task whatever the stage of the task. -/
theorem Record.Holds.call_of_set (h : R.Holds c) {j : ℕ} {task : Task SocketAddr}
    (htask : c.tasks[j]? = some task) {stage : Stage} {x : Exchange SocketAddr}
    (hx : x ∈ c.exchanges) {t : Task SocketAddr}
    (ht : (c.tasks.set j { task with stage := stage })[x.caller]? = some t) :
    R.call c.nodes x.caller t.node t.operation x.toRemoteCall x.progress := by
  rcases getElem?_set_task ht with ⟨hcaller, rfl⟩ | ⟨-, ht⟩
  · exact h.calls x hx task (hcaller ▸ htask)
  · exact h.calls x hx t ht

theorem Lasting.advance (h : Lasting A R d) (hc : Meets A c) (hr : R.Holds c) {id : ℕ}
    (hstep : advance d c id = some c') : R.Holds c' := by
  obtain ⟨task, htask, hstep⟩ := Option.bind_eq_some_iff.mp hstep
  obtain ⟨turn, hturn, hstep⟩ := Option.bind_eq_some_iff.mp hstep
  obtain rfl := Option.some.inj hstep
  have hgrows := (Deployment.turn_turned hturn).grows
  have hmem := List.mem_of_getElem? htask
  obtain ⟨hstage, hcalls⟩ := h.turned c.nodes id _ _ _ _ (hc.nodes task.node)
    (hc.tasks task hmem) (hr.tasks id task htask) hturn
  refine ⟨fun i t ht => ?_, fun x hx t ht => ?_⟩
  · rcases getElem?_set_task ht with ⟨rfl, rfl⟩ | ⟨-, ht⟩
    · exact hstage
    · exact h.task_grows _ _ _ _ _ _ _ (hc.nodes task.node) hgrows (hr.tasks i t ht)
  · rcases List.mem_append.mp hx with hx | hx
    · exact h.call_grows _ _ _ _ _ _ _ _ (hc.nodes task.node) hgrows
        (hr.call_of_set htask hx ht)
    · obtain ⟨call, hcall, rfl⟩ := List.mem_map.mp hx
      rcases getElem?_set_task ht with ⟨-, rfl⟩ | ⟨hne, -⟩
      · exact hcalls call hcall
      · exact absurd rfl hne

omit [DecidableEq SocketAddr] in
theorem holds_of_tasks_set (hr : R.Holds c) {id : ℕ} {task : Task SocketAddr} {stage : Stage}
    (htask : c.tasks[id]? = some task)
    (hstage : R.task c.nodes id task.node task.operation stage) :
    R.Holds { c with tasks := c.tasks.set id { task with stage := stage } } := by
  refine ⟨fun i t ht => ?_, fun x hx t ht => hr.call_of_set htask hx ht⟩
  rcases getElem?_set_task ht with ⟨rfl, rfl⟩ | ⟨-, ht⟩
  · exact hstage
  · exact hr.tasks i t ht

theorem Lasting.serve (h : Lasting A R d) (hc : Meets A c) (hr : R.Holds c) {i : ℕ}
    (hstep : serve c i = some c') : R.Holds c' := by
  obtain ⟨x, point, hx, hprogress, rfl⟩ := serve_eq_some hstep
  have hgrows := (atomicStep_stepped x.request (c.nodes x.target) point).grows
  have hnode := hc.nodes x.target
  obtain ⟨task, htask, hapt⟩ := hc.exchanges x (List.mem_of_getElem? hx)
  refine ⟨fun id t ht => h.task_grows _ _ _ _ _ _ _ hnode hgrows (hr.tasks id t ht), ?_⟩
  intro y hy t ht
  rcases List.mem_or_eq_of_mem_set hy with hy | rfl
  · exact h.call_grows _ _ _ _ _ _ _ _ hnode hgrows (hr.calls y hy t ht)
  · obtain rfl : task = t := Option.some.inj (htask.symm.trans ht)
    have hcall := hr.calls x (List.mem_of_getElem? hx) task htask
    rw [hprogress] at hcall
    exact h.served _ _ _ _ _ _ _ hapt.call hnode (hapt.running point hprogress) hcall rfl

theorem Lasting.answer (h : Lasting A R d) (hc : Meets A c) (hr : R.Holds c) {i : ℕ}
    {x : Exchange SocketAddr} (hx : c.exchanges[i]? = some x) {result : Except IoError Message}
    (hresult : ∀ reply, result = .ok reply → x.progress = .replied reply)
    (hstep : answer d c i x result = some c') : R.Holds c' := by
  obtain ⟨task, htask, rfl⟩ := answer_eq_some hstep
  have hmem := List.mem_of_getElem? hx
  obtain ⟨task', htask', hapt⟩ := hc.exchanges x hmem
  obtain rfl := Option.some.inj (htask.symm.trans htask')
  have hset := holds_of_tasks_set hr htask (h.heard _ _ _ _ _ _ result _ hapt.call
    (hc.tasks task (List.mem_of_getElem? htask)) (hr.tasks _ task htask)
    (hr.calls x hmem task htask) hresult)
  refine ⟨hset.tasks, fun y hy t ht => ?_⟩
  rcases List.mem_or_eq_of_mem_set hy with hy | rfl
  · exact hset.calls y hy t ht
  · exact hset.calls x hmem t ht

/-- **One event** keeps the record. -/
theorem Lasting.step (h : Lasting A R d) (hc : Meets A c) (hr : R.Holds c)
    {event : ClusterEvent SocketAddr} (hstep : step d c event = some c') : R.Holds c' := by
  cases event with
  | begin a operation =>
      obtain rfl := Option.some.inj hstep
      refine ⟨fun id t ht => ?_, fun x hx t ht => ?_⟩
      · by_cases hid : id < c.tasks.length
        · rw [List.getElem?_append_left hid] at ht
          exact hr.tasks id t ht
        · rw [List.getElem?_append_right (Nat.not_lt.mp hid)] at ht
          obtain rfl := List.mem_singleton.mp (List.mem_of_getElem? ht)
          exact h.begun _ _ _ _
      · obtain ⟨task, htask, -⟩ := hc.exchanges x hx
        have hlt := (List.getElem?_eq_some_iff.mp htask).1
        rw [List.getElem?_append_left hlt] at ht
        exact hr.calls x hx t ht
  | advance id => exact h.advance hc hr hstep
  | lose id p =>
      obtain ⟨task, stage, htask, hlose, rfl⟩ := lose_eq_some hstep
      obtain ⟨key, call, call', hoperation, hlooking, hdie, rfl⟩ := Deployment.lose_eq_some hlose
      refine holds_of_tasks_set hr htask ?_
      have hstage := hc.tasks task (List.mem_of_getElem? htask)
      have htaskR := hr.tasks id task htask
      rw [hoperation, hlooking] at hstage htaskR
      rw [hoperation]
      exact h.lost _ _ _ _ _ _ _ hstage htaskR hdie
  | serve i => exact h.serve hc hr hstep
  | deliver i =>
      obtain ⟨x, reply, hx, hprogress, hstep⟩ := deliver_eq_some hstep
      refine h.answer hc hr hx (fun reply' hok => ?_) hstep
      obtain rfl := Except.ok.inj hok
      exact hprogress
  | fail i error =>
      obtain ⟨x, hx, hstep⟩ := Option.bind_eq_some_iff.mp hstep
      exact h.answer hc hr hx (fun reply hok => by cases hok) hstep

omit [DecidableEq SocketAddr] in
theorem holds_new (R : Record SocketAddr) (d : Deployment SocketAddr) : R.Holds (new d) :=
  ⟨by simp [new], by simp [new]⟩

/-- **Runs.** The record is kept in every run that keeps the assertion, from any
cluster on that meets it. -/
theorem Lasting.run {Q : Cluster SocketAddr → ClusterEvent SocketAddr → Prop}
    (h : Lasting A R d)
    (hA : ∀ c event c', Meets A c → Q c event → Cluster.step d c event = some c' → Meets A c')
    (hc : Meets A c) (hr : R.Holds c) {events : List (ClusterEvent SocketAddr)}
    (hQ : Run.Along (Cluster.step d) Q c events)
    (hrun : Run.run (Cluster.step d) c events = some c') : Meets A c' ∧ R.Holds c' := by
  refine Run.run_invariant_along (I := fun c => Meets A c ∧ R.Holds c) ?_ ⟨hc, hr⟩ hQ hrun
  rintro c event c' ⟨hc, hr⟩ hQ hstep
  exact ⟨hA c event c' hc hQ hstep, h.step hc hr hstep⟩

/-- A record that lasts where every request is one that an operation makes. -/
theorem Lasting.run_new (h : Lasting (known d (fun _ => True) fun _ => True) R d)
    {events : List (ClusterEvent SocketAddr)}
    (hrun : Run.run (Cluster.step d) (new d) events = some c) :
    Meets (known d (fun _ => True) fun _ => True) c ∧ R.Holds c := by
  have hconfigured : d.Configured (fun _ => True) fun _ => True := ⟨by simp, by simp⟩
  refine h.run (Q := fun _ event => Asks (fun _ => True) event)
    (fun c event c' hc hasks hstep => known_step hconfigured hc hasks hstep)
    (known_new hconfigured) (holds_new R d) (Run.along_of_forall_mem ?_ _) hrun
  intro event _ _
  cases event <;> trivial

end Lasting

end Cluster

end DhtKad
