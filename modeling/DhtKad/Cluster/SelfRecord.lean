import DhtKad.Cluster.Closed

/-!
Whether a node records itself.

A node records the senders of the requests that it handles and, at the end of a
bootstrap, the peers that were alive. A node that lists none at its own address
among its bootstrap peers comes to record itself only by a request of its own
that it handles: a ping to itself tells it of itself by its sender, and once more
by its reply. Until then its table names only peers elsewhere, and what it stores
it sends to them (`own_peer_absent`). A lookup may ask the node itself before
that, if it is told of it.
-/

namespace DhtKad

open RoutingTable DHTServer DHTClient

variable {SocketAddr : Type}

namespace Cluster

/-- The node at `a` handles a request of its own. -/
def HandlesItself (a : SocketAddr) (c : Cluster SocketAddr) : ClusterEvent SocketAddr → Prop
  | .serve i => ∃ x task, c.exchanges[i]? = some x ∧ c.tasks[x.caller]? = some task ∧
      task.node = a ∧ x.target = a
  | _ => False

/-- A ping goes to the candidate that it is numbered for. -/
def PingsCandidate (d : Deployment SocketAddr) (call : RemoteCall SocketAddr) : Stage → Prop
  | .begun => ∀ i, call.slot ≠ .ping i
  | .introducing _ => ∀ i, call.slot ≠ .ping i
  | .pinging _ candidatePeers _ => ∀ i, call.slot = .ping i →
      ∃ p, candidatePeers[i]? = some p ∧ d.parse p.address = some call.target
  | _ => True

/-- The peers that a bootstrap knows to be alive are elsewhere. -/
def AliveElsewhere (d : Deployment SocketAddr) (a : SocketAddr) : Stage → Prop
  | .pinging alivePeers candidatePeers results =>
      (∀ p ∈ alivePeers, Elsewhere d.parse a p) ∧
        ∀ (i : ℕ) (reply : Message) (p : Peer), results[i]? = some (some (.ok reply)) →
          candidatePeers[i]? = some p → Elsewhere d.parse a p
  | _ => True

/-- A request of the node at `a`, of a task that has come to the stage: its stores
go elsewhere, and what has been replied to went elsewhere. -/
structure Outgoing (d : Deployment SocketAddr) (a : SocketAddr) (stage : Stage)
    (x : Exchange SocketAddr) : Prop where
  ping : PingsCandidate d x.toRemoteCall stage
  store : x.rpc = .store → x.target ≠ a
  replied : ∀ reply, x.progress = .replied reply → x.target ≠ a

/-- The node at `a` has not met itself. -/
structure Unmet (d : Deployment SocketAddr) (a : SocketAddr) (c : Cluster SocketAddr) : Prop where
  inv : Meets (known d (fun _ => True) fun _ => True) c
  table : ∀ p ∈ (c.nodes a).routingTable.peers, Elsewhere d.parse a p
  tasks : ∀ task ∈ c.tasks, task.node = a → AliveElsewhere d a task.stage
  exchanges : ∀ x ∈ c.exchanges, ∀ task, c.tasks[x.caller]? = some task → task.node = a →
    Outgoing d a task.stage x

variable {d : Deployment SocketAddr} {a : SocketAddr} {c c' : Cluster SocketAddr}

/-! ### A turn of a task -/

section Turn

variable {operation : Operation} {s : DHTServer} {stage : Stage} {turn : Turn SocketAddr}

theorem aliveElsewhere_turned (hheld : Held (d.config a).k (d.localPeer a) s.routingTable)
    (htable : ∀ p ∈ s.routingTable.peers, Elsewhere d.parse a p)
    (halive : AliveElsewhere d a stage) (h : d.turn a operation s stage = some turn) :
    ∀ p ∈ turn.server.routingTable.peers, Elsewhere d.parse a p := by
  cases Deployment.turn_turned h with
  | bootstrapped hadd =>
      rename_i alivePeers candidatePeers results table
      have hnone := not_mem_of_turn (.inr ⟨_, _, rfl⟩) h
      refine (addAlive_invariant (I := fun t => Held (d.config a).k (d.localPeer a) t ∧
        ∀ p ∈ t.peers, Elsewhere d.parse a p) ?_ ⟨hheld, htable⟩ hadd).2
      rintro t p t' r ⟨ht, hall⟩ hp hu
      refine ⟨(ht.updated_of_update hu).2.2, fun q hq => ?_⟩
      rcases mem_peers_of_update ht hu hq with hq | ⟨rfl, -⟩
      · exact hall q hq
      · rcases List.mem_append.mp hp with hp | hp
        · exact halive.1 q hp
        · obtain ⟨⟨q, reply⟩, hanswer, rfl⟩ := List.mem_map.mp hp
          obtain ⟨i, hi, hreply⟩ := mem_answered.mp hanswer
          exact halive.2 i reply q (getElem?_of_resultAt hnone hreply) hi
  | _ => exact htable

theorem pings_turned (hboot : ∀ p ∈ (d.config a).bootstrapPeers, Elsewhere d.parse a p)
    (h : d.Turned a s operation stage turn) :
    AliveElsewhere d a turn.stage ∧
      (∀ call, PingsCandidate d call stage → PingsCandidate d call turn.stage) ∧
      ∀ call ∈ turn.calls, PingsCandidate d call turn.stage := by
  cases h with
  | introduced htargets =>
      refine ⟨trivial, fun call hcall => hcall, fun call hcall i hslot => ?_⟩
      obtain ⟨j, p, hj, -⟩ := getElem?_of_joined htargets hcall
      cases hj.symm.trans hslot
  | pinged hreported htargets =>
      refine ⟨⟨fun p hp => hboot p (mem_of_mem_answered hp), fun i reply p hi => ?_⟩,
        fun call hcall i hslot => absurd hslot (hcall i), fun call hcall i hslot => ?_⟩
      · rw [List.getElem?_map] at hi
        obtain ⟨target, -, hnone⟩ := Option.map_eq_some_iff.mp hi
        cases hnone
      · obtain ⟨j, p, hj, hp⟩ := getElem?_of_joined htargets hcall
        obtain rfl := Slot.ping.inj (hj.symm.trans hslot)
        exact ⟨p, hp⟩
  | panicked e => exact ⟨trivial, fun _ _ => trivial, by simp⟩
  | bootstrapped hadd => exact ⟨trivial, fun _ _ => trivial, by simp⟩
  | storing htargets => exact ⟨trivial, fun _ _ => trivial, fun _ _ => trivial⟩
  | stored => exact ⟨trivial, fun _ _ => trivial, by simp⟩
  | hit hv => exact ⟨trivial, fun _ _ => trivial, by simp⟩
  | missed => exact ⟨trivial, fun _ _ => trivial, by simp⟩
  | started hcandidates => exact ⟨trivial, fun _ _ => trivial, fun _ _ => trivial⟩
  | received hstep => exact ⟨trivial, fun _ _ => trivial, fun _ _ => trivial⟩

theorem stores_turned (hheld : Held (d.config a).k (d.localPeer a) s.routingTable)
    (htable : ∀ p ∈ s.routingTable.peers, Elsewhere d.parse a p)
    (h : d.Turned a s operation stage turn) :
    ∀ call ∈ turn.calls, call.rpc = .store → call.target ≠ a := by
  have hqueries {key : U128} {ps : List Peer} (call : RemoteCall SocketAddr)
      (hcall : call ∈ d.queries a key ps) (hrpc : call.rpc = .store) : call.target ≠ a := by
    rw [(d.mem_queries a hcall).1] at hrpc
    cases hrpc
  have hjoined {slot : ℕ → Slot} {rpc : Rpc} {request : Message} {targets : List SocketAddr}
      (hne : rpc ≠ .store) (call : RemoteCall SocketAddr)
      (hcall : call ∈ Deployment.joined slot rpc request targets) (hrpc : call.rpc = .store) :
      call.target ≠ a :=
    absurd ((Deployment.mem_joined hcall).1.symm.trans hrpc) hne
  cases h with
  | storing htargets =>
      intro call hcall _
      obtain ⟨peers, hpeers, hparsed⟩ := ExceptList.bind_eq_ok_iff.mp htargets
      refine ne_of_mapM_parseAddress (fun p hp => htable p ?_) hparsed _
        (Deployment.mem_joined hcall).2.2
      exact mem_peers_of_kNearestPeers hheld.wellFormed.nonempty hpeers p hp
  | introduced htargets => exact hjoined (by decide)
  | pinged hreported htargets => exact hjoined (by decide)
  | started hcandidates => exact hqueries
  | received hstep => exact hqueries
  | panicked e => exact fun _ => nofun
  | bootstrapped hadd => exact fun _ => nofun
  | stored => exact fun _ => nofun
  | hit hv => exact fun _ => nofun
  | missed => exact fun _ => nofun

theorem pings_heard {call : RemoteCall SocketAddr} {result : Except IoError Message}
    (halive : AliveElsewhere d a stage) (hcall : PingsCandidate d call stage)
    (hresult : ∀ reply, result = .ok reply → call.target ≠ a) :
    AliveElsewhere d a (d.hear a operation call.slot result stage) := by
  have hheard := d.hear_heard a operation call.slot result stage
  cases stage with
  | pinging alivePeers candidatePeers results =>
      cases hslot : call.slot with
      | ping i =>
          refine ⟨halive.1, fun j reply p hj hp => ?_⟩
          by_cases hij : i = j
          · subst hij
            rw [List.getElem?_set_self'] at hj
            obtain ⟨_, -, hr⟩ := Option.map_eq_some_iff.mp hj
            obtain ⟨q, hq, hparse⟩ := hcall i hslot
            obtain rfl := Option.some.inj (hp.symm.trans hq)
            intro htarget
            exact hresult reply (Option.some.inj hr)
              (Option.some.inj (hparse.symm.trans htarget))
          · rw [List.getElem?_set_ne hij] at hj
            exact halive.2 j reply p hj hp
      | _ => exact halive
  | _ =>
      generalize d.hear a operation call.slot result _ = stage' at hheard
      cases hheard <;> trivial

theorem PingsCandidate.heard {call : RemoteCall SocketAddr} {slot : Slot}
    {result : Except IoError Message} {stage' : Stage} (h : PingsCandidate d call stage)
    (hheard : d.Heard a operation slot result stage stage') : PingsCandidate d call stage' := by
  cases hheard with
  | ignored => exact h
  | introduced i => exact h
  | pinged i => exact h
  | stored i => trivial
  | queried hoperation hstep => trivial

end Turn

/-! ### The events -/

section Events

variable [DecidableEq SocketAddr]

omit [DecidableEq SocketAddr] in
theorem Outgoing.of_stage {stage stage' : Stage} {x : Exchange SocketAddr}
    (h : Outgoing d a stage x)
    (hping : PingsCandidate d x.toRemoteCall stage → PingsCandidate d x.toRemoteCall stage') :
    Outgoing d a stage' x :=
  ⟨hping h.ping, h.store, h.replied⟩

omit [DecidableEq SocketAddr] in
theorem Unmet.tasks_set (h : Unmet d a c) {id : ℕ} {task : Task SocketAddr}
    (htask : c.tasks[id]? = some task) (stage : Stage)
    (halive : task.node = a → AliveElsewhere d a stage)
    (hping : task.node = a → ∀ call, PingsCandidate d call task.stage →
      PingsCandidate d call stage) :
    (∀ t ∈ c.tasks.set id { task with stage := stage }, t.node = a →
      AliveElsewhere d a t.stage) ∧
    ∀ x ∈ c.exchanges, ∀ t, (c.tasks.set id { task with stage := stage })[x.caller]? = some t →
      t.node = a → Outgoing d a t.stage x := by
  refine ⟨fun t ht hnode => ?_, fun x hx t ht hnode => ?_⟩
  · rcases List.mem_or_eq_of_mem_set ht with ht | rfl
    · exact h.tasks t ht hnode
    · exact halive hnode
  · rcases getElem?_set_task ht with ⟨hcaller, rfl⟩ | ⟨-, ht⟩
    · exact (h.exchanges x hx task (hcaller ▸ htask) hnode).of_stage (hping hnode _)
    · exact h.exchanges x hx t ht hnode

theorem Unmet.advance (hboot : ∀ p ∈ (d.config a).bootstrapPeers, Elsewhere d.parse a p)
    (h : Unmet d a c) {id : ℕ} (hc' : Meets (known d (fun _ => True) fun _ => True) c')
    (hstep : Cluster.advance d c id = some c') : Unmet d a c' := by
  obtain ⟨task, htask, hstep⟩ := Option.bind_eq_some_iff.mp hstep
  obtain ⟨turn, hturn, hstep⟩ := Option.bind_eq_some_iff.mp hstep
  obtain rfl := Option.some.inj hstep
  have hheld := known_held (h.inv.nodes task.node)
  have hmem := List.mem_of_getElem? htask
  obtain ⟨htasks, hexchanges⟩ := h.tasks_set htask turn.stage
    (fun hnode => by
      rw [hnode] at hturn
      exact (pings_turned hboot (Deployment.turn_turned hturn)).1)
    (fun hnode => by
      rw [hnode] at hturn
      exact (pings_turned hboot (Deployment.turn_turned hturn)).2.1)
  refine ⟨hc', ?_, htasks, fun x hx t ht hnode => ?_⟩
  · by_cases hnode : a = task.node
    · subst hnode
      show ∀ p ∈ (Function.update c.nodes task.node turn.server task.node).routingTable.peers, _
      rw [Function.update_self]
      exact aliveElsewhere_turned hheld h.table (h.tasks task hmem rfl) hturn
    · show ∀ p ∈ (Function.update c.nodes task.node turn.server a).routingTable.peers, _
      rw [Function.update_of_ne hnode]
      exact h.table
  · rcases List.mem_append.mp hx with hx | hx
    · exact hexchanges x hx t ht hnode
    · obtain ⟨call, hcall, rfl⟩ := List.mem_map.mp hx
      rcases getElem?_set_task ht with ⟨-, rfl⟩ | ⟨hne, -⟩
      · obtain rfl : task.node = a := hnode
        have hturned := Deployment.turn_turned hturn
        exact ⟨(pings_turned hboot hturned).2.2 call hcall,
          stores_turned hheld h.table hturned call hcall, by rintro reply ⟨⟩⟩
      · exact absurd rfl hne

theorem Unmet.serve (htext : ∀ b, d.parse (d.toString b) = some b) (h : Unmet d a c) {i : ℕ}
    (hc' : Meets (known d (fun _ => True) fun _ => True) c')
    (hnot : ¬ HandlesItself a c (.serve i)) (hstep : Cluster.serve c i = some c') :
    Unmet d a c' := by
  obtain ⟨x, point, hx, hprogress, rfl⟩ := serve_eq_some hstep
  have hmem := List.mem_of_getElem? hx
  obtain ⟨task, htask, hapt⟩ := h.inv.exchanges x hmem
  have hother (hnode : task.node = a) : x.target ≠ a := fun htarget =>
    hnot ⟨x, task, hx, htask, hnode, htarget⟩
  refine ⟨hc', ?_, h.tasks, fun y hy t ht hnode => ?_⟩
  · by_cases htarget : a = x.target
    · subst htarget
      show ∀ p ∈ (Function.update c.nodes x.target _ x.target).routingTable.peers, _
      rw [Function.update_self]
      have hheld := known_held (h.inv.nodes x.target)
      refine (atomicStep_stepped x.request (c.nodes x.target) point).routingTable
        (I := fun t => ∀ p ∈ t.peers, Elsewhere d.parse x.target p) ?_ h.table
      intro p t r hsent hu q hq
      rcases mem_peers_of_update hheld hu hq with hq | ⟨rfl, -⟩
      · exact h.table q hq
      · -- the request comes from another node, and names that node
        obtain rfl := hapt.call.2.1.sender hsent
        intro hparse
        have hnode : task.node = x.target := Option.some.inj ((htext task.node).symm.trans hparse)
        exact hother hnode rfl
    · show ∀ p ∈ (Function.update c.nodes x.target _ a).routingTable.peers, _
      rw [Function.update_of_ne htarget]
      exact h.table
  · rcases List.mem_or_eq_of_mem_set hy with hy | rfl
    · exact h.exchanges y hy t ht hnode
    · obtain rfl := Option.some.inj (htask.symm.trans ht)
      have hout := h.exchanges x hmem task htask hnode
      exact ⟨hout.ping, hout.store, fun _ _ => hother hnode⟩

omit [DecidableEq SocketAddr] in
theorem Unmet.answer (h : Unmet d a c) {i : ℕ} {x : Exchange SocketAddr}
    {result : Except IoError Message} (hc' : Meets (known d (fun _ => True) fun _ => True) c')
    (hx : c.exchanges[i]? = some x)
    (hresult : ∀ reply, result = .ok reply → x.progress = .replied reply)
    (hstep : Cluster.answer d c i x result = some c') : Unmet d a c' := by
  obtain ⟨task, htask, rfl⟩ := answer_eq_some hstep
  have hmem := List.mem_of_getElem? hx
  have hout := h.exchanges x hmem task htask
  have hheard := d.hear_heard task.node task.operation x.slot result task.stage
  obtain ⟨htasks, hexchanges⟩ := h.tasks_set htask
    (d.hear task.node task.operation x.slot result task.stage)
    (fun hnode => by
      have halive := h.tasks task (List.mem_of_getElem? htask) hnode
      rw [hnode]
      exact pings_heard halive (hout hnode).ping fun reply hok =>
        (hout hnode).replied reply (hresult reply hok))
    (fun _ _ hping => hping.heard hheard)
  refine ⟨hc', h.table, htasks, fun y hy t ht hnode => ?_⟩
  rcases List.mem_or_eq_of_mem_set hy with hy | rfl
  · exact hexchanges y hy t ht hnode
  · have hx := hexchanges x hmem t ht hnode
    exact ⟨hx.ping, hx.store, hx.replied⟩

/-- **One event** that is no request of its own to the node at `a`. -/
theorem Unmet.step (htext : ∀ b, d.parse (d.toString b) = some b)
    (hboot : ∀ p ∈ (d.config a).bootstrapPeers, Elsewhere d.parse a p) (h : Unmet d a c)
    {event : ClusterEvent SocketAddr} (hnot : ¬ HandlesItself a c event)
    (hstep : Cluster.step d c event = some c') : Unmet d a c' := by
  have hc' : Meets (known d (fun _ => True) fun _ => True) c' := by
    refine known_step ⟨by simp, by simp⟩ h.inv ?_ hstep
    cases event <;> trivial
  cases event with
  | begin b operation =>
      obtain rfl := Option.some.inj hstep
      refine ⟨hc', h.table, fun t ht hnode => ?_, fun x hx t ht hnode => ?_⟩
      · rcases List.mem_append.mp ht with ht | ht
        · exact h.tasks t ht hnode
        · obtain rfl := List.mem_singleton.mp ht
          trivial
      · obtain ⟨task, htask, -⟩ := h.inv.exchanges x hx
        have hlt := (List.getElem?_eq_some_iff.mp htask).1
        rw [List.getElem?_append_left hlt] at ht
        exact h.exchanges x hx t ht hnode
  | advance id => exact h.advance hboot hc' hstep
  | lose id p =>
      obtain ⟨task, stage, htask, hlose, rfl⟩ := lose_eq_some hstep
      obtain ⟨key, call, call', -, -, -, rfl⟩ := Deployment.lose_eq_some hlose
      obtain ⟨htasks, hexchanges⟩ := h.tasks_set htask (.looking call')
        (fun _ => trivial) (fun _ _ _ => trivial)
      exact ⟨hc', h.table, htasks, hexchanges⟩
  | serve i => exact h.serve htext hc' hnot hstep
  | deliver i =>
      obtain ⟨x, reply, hx, hprogress, hstep⟩ := deliver_eq_some hstep
      refine h.answer hc' hx (fun reply' hok => ?_) hstep
      obtain rfl := Except.ok.inj hok
      exact hprogress
  | fail i error =>
      obtain ⟨x, hx, hstep⟩ := Option.bind_eq_some_iff.mp hstep
      exact h.answer hc' hx (fun reply hok => by cases hok) hstep

end Events

/-- **Whether a node knows itself.** In every run, in whatever order bootstraps,
requests, stores and lookups take their steps, a node that lists no peer at its
own address among its bootstrap peers: until it handles a request of its own, its
own peer is not in its routing table and no store of it goes to its own address;
and until a reply that lists a peer there is delivered to a bootstrap or a lookup
of it that goes on, no request of it at all goes there. -/
theorem own_peer_absent [DecidableEq SocketAddr] (d : Deployment SocketAddr)
    (htext : ∀ b, d.parse (d.toString b) = some b) (a : SocketAddr)
    (hboot : ∀ p ∈ (d.config a).bootstrapPeers, d.parse p.address ≠ some a)
    (events : List (ClusterEvent SocketAddr)) (c : Cluster SocketAddr)
    (hrun : Run.run (step d) (new d) events = some c) :
    (Run.Along (step d) (fun c event => ¬ HandlesItself a c event) (new d) events →
      d.localPeer a ∉ (c.nodes a).routingTable.peers ∧
        ∀ x ∈ c.exchanges, ∀ task, c.tasks[x.caller]? = some task → task.node = a →
          x.rpc = .store → x.target ≠ a) ∧
      (Run.Along (step d) (fun c event => ¬ ToldOfItself d a c event) (new d) events →
        d.localPeer a ∉ (c.nodes a).routingTable.peers ∧
          ∀ x ∈ c.exchanges, ∀ task, c.tasks[x.caller]? = some task → task.node = a →
            x.target ≠ a) := by
  constructor
  · intro hnot
    have hunmet : Unmet d a c := by
      refine Run.run_invariant_along (fun _ _ _ h hnot hstep => h.step htext hboot hnot hstep) ?_
        hnot hrun
      exact ⟨known_new ⟨by simp, by simp⟩, by simp [new, Network.new, DHTServer.new,
        RoutingTable.new, peers, Bucket.new], by simp [new], by simp [new]⟩
    refine ⟨fun hmem => hunmet.table _ hmem (htext a), ?_⟩
    exact fun x hx task htask hnode => (hunmet.exchanges x hx task htask hnode).store
  · intro htold
    have hmeets := elsewhere_run htext hboot hrun htold
    refine ⟨fun hmem => (hmeets.nodes a).2 rfl _ hmem (htext a), ?_⟩
    intro x hx task htask hnode
    obtain ⟨task', htask', hapt⟩ := hmeets.exchanges x hx
    obtain rfl := Option.some.inj (htask.symm.trans htask')
    exact hapt.call.2 hnode

/-- The node that joins is named to itself, and its ping to itself is lost. -/
def losingPing : List (ClusterEvent Bool) :=
  [.deliver 0, .advance 0, .fail 1 { text := "timed out" }, .advance 0]

theorem losingPing_run : ∃ c, Run.run (step pair) joined losingPing = some c ∧
    (c.nodes false).routingTable = contacted := by
  have hreturn : pair.turn false .bootstrap (.new 20 (pairPeer false))
      (.pinging [pairPeer true] [pairPeer false] [some (.error { text := "timed out" })]) = some
        { server := { kvstore := .new, routingTable := contacted }, stage := .bootstrapped } := by
    have hadd : addAlive (RoutingTable.new 20 (pairPeer false)) [pairPeer true] =
        .ok contacted := by decide
    have hall : (none : Option (Except IoError Message)) ∉
        [some (.error { text := "timed out" })] := by simp
    have halive : [pairPeer true] ++ (answered [pairPeer false] (Deployment.resultAt
        [some (.error { text := "timed out" })])).map Prod.fst = [pairPeer true] := rfl
    simp only [Deployment.turn, Deployment.bootstrapTurn, if_neg hall, halive,
      show (DHTServer.new 20 (pairPeer false)).routingTable =
        RoutingTable.new 20 (pairPeer false) from rfl, hadd, bind, Except.bind]
    rfl
  exact ⟨_, Run.run_cons_eq_some.mpr ⟨_, rfl, Run.run_cons_eq_some.mpr
    ⟨_, advance_eq pair rfl (introduce_turn _), Run.run_cons_eq_some.mpr
      ⟨_, rfl, Run.run_cons_eq_some.mpr ⟨_, advance_eq pair rfl hreturn, rfl⟩⟩⟩⟩, rfl⟩

/-- The node with the bootstrap peer looks up the value that it has stored. -/
def asking : List (ClusterEvent Bool) :=
  [.begin true (.findValue 5), .advance 2, .advance 2, .serve 2, .serve 2]

def answering : List (ClusterEvent Bool) := [.deliver 2, .advance 2]

theorem asking_run : ∃ c c', Run.run (step pair) stored asking = some c ∧
    Run.run (step pair) c answering = some c' ∧
      (c'.nodes true).routingTable = joinedServer.routingTable ∧
      ∃ x, c.exchanges[2]? = some x ∧
        x.progress = .replied (createFindValueResponse (keyToBytes 5) [7]) := by
  have hrecord : atomicStep (createFindValueRequest 5 (pairPeer true)) (.opened .findValue)
      (stored.nodes false) = _ :=
    recordSender_of_sentBy (sentBy_of_peer (by decide) rfl)
      (show contacted.update (pairPeer true) = .ok (contacted, .ok ()) by decide) _
  have hread : atomicStep (createFindValueRequest 5 (pairPeer true)) .reading
      (stored.nodes false) =
        .ok (.inr (createFindValueResponse (keyToBytes 5) [7])) (stored.nodes false) := by
    have hvalue : (stored.nodes false).kvstore.store (keyToBytes 5) = some [7] :=
      MemoryStore.put_store_self _ _ _
    have hkey : (createFindValueRequest 5 (pairPeer true)).key = keyToBytes 5 := rfl
    rw [atomicStep_reading, hkey, hvalue]
  have hstart : pair.turn true (.findValue 5) (stored.nodes true) .missed = some
      { server := stored.nodes true
        stage := .looking
          { lookup :=
              { candidates := []
                queried := [pairPeer false]
                inProgress := 1
                tasks := [pairPeer false] }
            status := .awaiting }
        calls := [{
          slot := .query (pairPeer false)
          target := false
          rpc := .findValue
          request := createFindValueRequest 5 (pairPeer true) }] } := rfl
  refine ⟨_, _, Run.run_cons_eq_some.mpr ⟨_, rfl, Run.run_cons_eq_some.mpr ⟨_, rfl,
    Run.run_cons_eq_some.mpr ⟨_, advance_eq pair rfl hstart,
    Run.run_cons_eq_some.mpr ⟨_, serve_eq rfl rfl hrecord,
    Run.run_cons_eq_some.mpr ⟨_, serve_eq rfl rfl hread, rfl⟩⟩⟩⟩⟩,
    Run.run_cons_eq_some.mpr ⟨_, rfl, Run.run_cons_eq_some.mpr ⟨_, rfl, rfl⟩⟩, rfl, _, rfl, rfl⟩

theorem stored_run : Run.run (step pair) (new pair) (joining ++ storing) = some stored := by
  rw [Run.run_append, joining_run, Option.bind_some, storing_run]

/-- No request of the node that joins is handled by it while it joins. -/
theorem joining_along :
    Run.Along (step pair) (fun c event => ¬ HandlesItself false c event) (new pair) joining := by
  refine ⟨id, fun c hc => ⟨id, fun c' hc' => ⟨?_, fun _ _ => trivial⟩⟩⟩
  obtain rfl := Option.some.inj hc
  obtain rfl := Option.some.inj hc'
  rintro ⟨x, task, hx, -, -, htarget⟩
  obtain rfl := Option.some.inj hx
  cases htarget

/-- The node that joins is named to itself and has not recorded itself as long as
its ping to itself is not handled; the other one has stored a value and looked it
up, and all its requests went elsewhere. -/
theorem own_peer_absent_lost :
    (∃ c, Run.run (step pair) (new pair) (joining ++ losingPing) = some c ∧
      (c.nodes false).routingTable = contacted ∧
      pair.localPeer false ∉ (c.nodes false).routingTable.peers) ∧
    ∃ c, Run.run (step pair) (new pair) ((joining ++ storing) ++ (asking ++ answering)) = some c ∧
      (c.nodes true).routingTable = joinedServer.routingTable ∧
      ∀ x ∈ c.exchanges, ∀ task, c.tasks[x.caller]? = some task → task.node = true →
        x.target ≠ true := by
  constructor
  · obtain ⟨c, hlosing, htable⟩ := losingPing_run
    have hrun : Run.run (step pair) (new pair) (joining ++ losingPing) = some c := by
      rw [Run.run_append, joining_run, Option.bind_some, hlosing]
    refine ⟨c, hrun, htable, ((own_peer_absent pair pair_text false (pair_bootstrapPeers false)
      _ c hrun).1 (Run.along_append.mpr ⟨joining_along, fun t _ => ?_⟩)).1⟩
    apply Run.along_of_forall_mem
    intro event hevent s
    simp only [losingPing, List.mem_cons, List.not_mem_nil, or_false] at hevent
    rcases hevent with rfl | rfl | rfl | rfl <;> exact id
  · obtain ⟨c, c', hasking, hanswering, htable, x, hx, hprogress⟩ := asking_run
    have hrun : Run.run (step pair) (new pair) ((joining ++ storing) ++ asking) = some c := by
      rw [Run.run_append, stored_run, Option.bind_some, hasking]
    have hrun' : Run.run (step pair) (new pair)
        ((joining ++ storing) ++ (asking ++ answering)) = some c' := by
      rw [← List.append_assoc, Run.run_append, hrun, Option.bind_some, hanswering]
    refine ⟨c', hrun', htable, ((own_peer_absent pair pair_text true (pair_bootstrapPeers true)
      _ c' hrun').2 ?_).2⟩
    rw [← List.append_assoc]
    refine Run.along_append.mpr ⟨?_, fun t ht => ⟨?_, fun _ _ => ⟨id, fun _ _ => trivial⟩⟩⟩
    · apply Run.along_of_forall_mem
      intro event hevent s
      simp only [joining, storing, asking, List.cons_append, List.nil_append, List.mem_cons,
        List.not_mem_nil, or_false] at hevent
      rcases hevent with rfl | rfl | rfl | rfl | rfl | rfl | rfl | rfl | rfl | rfl | rfl | rfl <;>
        exact id
    · -- the reply with the value lists nobody
      obtain rfl := Option.some.inj (hrun.symm.trans ht)
      rintro ⟨y, task, reply, hy, -, -, -, hreply, mp, hmp, -⟩
      obtain rfl := Option.some.inj (hx.symm.trans hy)
      obtain rfl := Progress.replied.inj (hprogress.symm.trans hreply)
      cases hmp

end Cluster

end DhtKad
