import DhtKad.Cluster.Values
import DhtKad.RoutingTable.Density
import DhtKad.Service.Addresses

/-!
The routing tables of a cluster.

Whatever a node does, its table changes by updates alone: when a bootstrap adds
the peers that are alive, and when a request is handled as far as its lock. So
what updates keep, the events of a cluster keep (`step_routingTable`), and every
table a cluster can come to is one that a history of updates leads to
(`run_afterUpdates`): all that is known of those holds of it.

A bootstrap without bootstrap peers waits for a connection by polling the table
with a search that looks at no more than three buckets. Because the end of the
table is dense, that search misses no connection: the bootstrap waits exactly
while the table is empty (`bootstrap_waits_iff`), and once a peer has been
recorded it is never held up again (`bootstrap_released`).
-/

namespace DhtKad

open RoutingTable DHTServer SortBy

variable {SocketAddr : Type}

namespace Deployment

variable {d : Deployment SocketAddr} {a : SocketAddr} {s : DHTServer}

theorem Turned.routingTable {I : RoutingTable → Prop} {operation : Operation} {stage : Stage}
    {turn : Turn SocketAddr} (h : d.Turned a s operation stage turn)
    (hstep : ∀ p t t' r, I t → t.update p = .ok (t', r) → I t') (hI : I s.routingTable) :
    I turn.server.routingTable := by
  cases h with
  | bootstrapped htable =>
      exact addAlive_invariant (fun t p t' r ht _ => hstep p t t' r ht) hI htable
  | panicked e => exact hI
  | introduced htargets => exact hI
  | pinged hreported htargets => exact hI
  | storing htargets => exact hI
  | stored => exact hI
  | hit hv => exact hI
  | missed => exact hI
  | started hcandidates => exact hI
  | received hstep => exact hI

end Deployment

namespace Cluster

variable [DecidableEq SocketAddr] {d : Deployment SocketAddr} {c c' : Cluster SocketAddr}

/-- How an event changes the nodes: not at all, or one of them by a task or by a
step of a handler. -/
theorem nodes_of_step {event : ClusterEvent SocketAddr} (h : step d c event = some c') :
    c'.nodes = c.nodes ∨
      (∃ a operation stage turn, d.Turned a (c.nodes a) operation stage turn ∧
        c'.nodes = Function.update c.nodes a turn.server) ∨
      ∃ a message point,
        c'.nodes =
          Function.update c.nodes a (stateAfter (atomicStep message point (c.nodes a))) := by
  cases event with
  | begin a operation =>
      obtain rfl := Option.some.inj h
      exact .inl rfl
  | advance id =>
      obtain ⟨task, turn, -, hturned, rfl⟩ := advance_eq_some h
      exact .inr (.inl ⟨_, _, _, turn, hturned, rfl⟩)
  | lose id p =>
      obtain ⟨task, stage, -, -, rfl⟩ := lose_eq_some h
      exact .inl rfl
  | serve i =>
      obtain ⟨x, point, -, -, rfl⟩ := serve_eq_some h
      exact .inr (.inr ⟨_, _, point, rfl⟩)
  | deliver i =>
      obtain ⟨x, reply, -, -, h⟩ := deliver_eq_some h
      obtain ⟨task, -, rfl⟩ := answer_eq_some h
      exact .inl rfl
  | fail i error =>
      obtain ⟨x, -, h⟩ := Option.bind_eq_some_iff.mp h
      obtain ⟨task, -, rfl⟩ := answer_eq_some h
      exact .inl rfl

theorem step_routingTable {I : RoutingTable → Prop}
    (hkeep : ∀ p t t' r, I t → t.update p = .ok (t', r) → I t') {a : SocketAddr}
    {event : ClusterEvent SocketAddr} (hI : I (c.nodes a).routingTable)
    (h : step d c event = some c') : I (c'.nodes a).routingTable := by
  have hupdate {b : SocketAddr} {s : DHTServer}
      (hs : I (c.nodes b).routingTable → I s.routingTable) :
      I (Function.update c.nodes b s a).routingTable := by
    by_cases hab : a = b
    · subst hab
      rw [Function.update_self]
      exact hs hI
    · rwa [Function.update_of_ne hab]
  rcases nodes_of_step h with hnodes | ⟨b, operation, stage, turn, hturned, hnodes⟩ |
    ⟨b, message, point, hnodes⟩
  · rwa [hnodes]
  · rw [hnodes]
    exact hupdate (hturned.routingTable hkeep)
  · rw [hnodes]
    exact hupdate fun hb => (atomicStep_stepped message (c.nodes b) point).routingTable
      (fun p t r _ hu => hkeep p _ t r hb hu) hb

/-- **The tables of a cluster.** In every run the table of every node is one that
a history of updates leads to. -/
theorem run_afterUpdates {events : List (ClusterEvent SocketAddr)}
    (hrun : Run.run (step d) (new d) events = some c) (a : SocketAddr) :
    ∃ ps, afterUpdates (d.config a).k (d.localPeer a) ps = some (c.nodes a).routingTable := by
  refine Run.run_invariant (I := fun c : Cluster SocketAddr =>
    ∃ ps, afterUpdates (d.config a).k (d.localPeer a) ps = some (c.nodes a).routingTable) ?_
    ⟨[], rfl⟩ hrun
  intro c event c' hc hstep
  refine step_routingTable
    (I := fun t => ∃ ps, afterUpdates (d.config a).k (d.localPeer a) ps = some t) ?_ hc hstep
  rintro p t t' r ⟨ps, hps⟩ hu
  exact ⟨ps ++ [p], (afterUpdates_concat hps p).trans (next_eq hu)⟩

theorem mem_peers_of_run {events : List (ClusterEvent SocketAddr)} {a : SocketAddr} {p : Peer}
    (hheld : Held (d.config a).k (d.localPeer a) (c.nodes a).routingTable)
    (hp : p ∈ (c.nodes a).routingTable.peers)
    (hrun : Run.run (step d) c events = some c') : p ∈ (c'.nodes a).routingTable.peers := by
  refine (Run.run_invariant (I := fun c : Cluster SocketAddr =>
    Held (d.config a).k (d.localPeer a) (c.nodes a).routingTable ∧
      p ∈ (c.nodes a).routingTable.peers) ?_ ⟨hheld, hp⟩ hrun).2
  intro c event c' hc hstep
  refine step_routingTable (I := fun t => Held (d.config a).k (d.localPeer a) t ∧ p ∈ t.peers) ?_
    hc hstep
  rintro q t t' r ⟨ht, hpt⟩ hu
  exact ⟨(ht.updated_of_update hu).2.2, peers_subset_of_update ht hu p hpt⟩

end Cluster

/-! ### Waiting for a connection -/

namespace Deployment

variable {d : Deployment SocketAddr} {a : SocketAddr} {s : DHTServer}

/-- The poll asks whether the table is empty. -/
theorem waitForConnection_eq (hheld : Held (d.config a).k (d.localPeer a) s.routingTable)
    (hd : s.routingTable.Dense) :
    d.waitForConnection a s =
      .ok (decide ((d.config a).bootstrapPeers = [] ∧ s.routingTable.peers = [])) := by
  rw [waitForConnection]
  by_cases hboot : (d.config a).bootstrapPeers = []
  · have hfound := hheld.window_localPeer hd (n := 2) (by decide)
    rw [if_pos hboot, nearestPeers_eq hheld.wellFormed.nonempty]
    refine congrArg Except.ok ?_
    rw [← decide_not, decide_eq_decide, List.length_take, length_sortBy]
    have hempty : s.routingTable.peers = [] ↔
        ¬ 0 < (s.routingTable.window (d.config a).id 2).length := by
      rw [show (d.config a).id = (d.localPeer a).id from rfl, hfound, not_not]
    rw [hempty, and_iff_right hboot]
    omega
  · rw [if_neg hboot]
    simp [hboot]

theorem turn_begun_eq_none_iff {wait : Bool} (hwait : d.waitForConnection a s = .ok wait) :
    d.turn a .bootstrap s .begun = none ↔ wait = true := by
  rw [turn, bootstrapTurn, hwait]
  cases wait with
  | true => exact iff_of_true rfl rfl
  | false =>
      refine iff_of_false ?_ Bool.false_ne_true
      cases (d.config a).bootstrapPeers.mapM (parseAddress d.parse) with
      | ok targets => exact Option.some_ne_none _
      | error e => exact Option.some_ne_none _

end Deployment

namespace Cluster

variable [DecidableEq SocketAddr] {d : Deployment SocketAddr} {c c' : Cluster SocketAddr}

/-- **Which bootstraps wait.** In every run a node that is to bootstrap waits
exactly while it has no bootstrap peers and its table is empty. -/
theorem bootstrap_waits_iff {events : List (ClusterEvent SocketAddr)}
    (hrun : Run.run (step d) (new d) events = some c) (a : SocketAddr) :
    d.turn a .bootstrap (c.nodes a) .begun = none ↔
      (d.config a).bootstrapPeers = [] ∧ (c.nodes a).routingTable.peers = [] := by
  obtain ⟨ps, hps⟩ := run_afterUpdates hrun a
  have hwait :=
    Deployment.waitForConnection_eq (held_of_afterUpdates hps) (dense_of_afterUpdates hps)
  rw [Deployment.turn_begun_eq_none_iff hwait, decide_eq_true_iff]

/-- Once a node knows a peer its bootstrap is not held up any more, whatever
happens. -/
theorem bootstrap_released {events events' : List (ClusterEvent SocketAddr)}
    (hrun : Run.run (step d) (new d) events = some c) {a : SocketAddr} {p : Peer}
    (hp : p ∈ (c.nodes a).routingTable.peers)
    (hrun' : Run.run (step d) c events' = some c') :
    d.turn a .bootstrap (c'.nodes a) .begun ≠ none := by
  have hwhole : Run.run (step d) (new d) (events ++ events') = some c' := by
    rw [Run.run_append, hrun]
    exact hrun'
  rw [Ne, bootstrap_waits_iff hwhole]
  rintro ⟨-, hempty⟩
  obtain ⟨ps, hps⟩ := run_afterUpdates hrun a
  have hstill := mem_peers_of_run (held_of_afterUpdates hps) hp hrun'
  rw [hempty] at hstill
  exact List.not_mem_nil hstill

/-- A node without bootstrap peers at which another one has joined. -/
theorem bootstrap_released_storing :
    pair.turn true .bootstrap (stored.nodes true) .begun ≠ none :=
  bootstrap_released joining_run (p := pairPeer false) (List.mem_singleton.mpr rfl) storing_run

end Cluster

end DhtKad
