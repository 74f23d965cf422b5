import DhtKad.Cluster.Lasting

/-!
Who gets to know whom.

A request introduces its sender: under the first lock of its handler the table
of the target is updated with it. From then on the sender is in that table,
unless the part of the table it belongs to is full (`contacts_recorded`).
-/

namespace DhtKad

open RoutingTable DHTServer

variable {SocketAddr : Type}

/-- The table holds the peer, or its prefix class is full. -/
def RoutingTable.Recorded (t : RoutingTable) (p : Peer) : Prop :=
  p ∈ t.peers ∨ t.k ≤ (t.classAt (classOf t.localPeer p)).card

section Recorded

variable {k : ℕ} {localPeer p q : Peer} {t t' : RoutingTable} {r : Except NoCapacityError Unit}

theorem recorded_of_update (ht : Held k localPeer t) (hu : t.update p = .ok (t', r)) :
    t'.Recorded p := by
  obtain ⟨-, hupdated, -⟩ := ht.updated_of_update hu
  by_cases hroom : (t.classAt (classOf t.localPeer p)).card < t.k
  · exact .inl (mem_peers_of_room ht hu hroom)
  · refine .inr ?_
    rw [hupdated.k_eq, hupdated.localPeer_eq]
    exact (Nat.not_lt.mp hroom).trans (card_classAt_mono ht hu _)

theorem RoutingTable.Recorded.update (h : t.Recorded q) (ht : Held k localPeer t)
    (hu : t.update p = .ok (t', r)) : t'.Recorded q := by
  obtain ⟨-, hupdated, -⟩ := ht.updated_of_update hu
  refine h.imp (peers_subset_of_update ht hu q) fun hfull => ?_
  rw [hupdated.k_eq, hupdated.localPeer_eq]
  exact hfull.trans (card_classAt_mono ht hu _)

theorem RoutingTable.Recorded.grows {s s' : DHTServer} (h : s.routingTable.Recorded q)
    (hs : Held k localPeer s.routingTable) (hgrows : Grows s s') : s'.routingTable.Recorded q :=
  (hgrows.routingTable (fun t => Held k localPeer t ∧ t.Recorded q)
    (fun _ _ _ _ ht hu => ⟨(ht.1.updated_of_update hu).2.2, ht.2.update ht.1 hu⟩) ⟨hs, h⟩).2

end Recorded

/-- The handler has got through its first lock. -/
def Progress.Entered : Progress → Prop
  | .running (.opened _) => False
  | .running _ => True
  | .replied _ => True
  | .broken _ => False

namespace Cluster

/-- The sender of a request that was let in is recorded at its target. -/
def contacts (SocketAddr : Type) : Record SocketAddr where
  task _ _ _ _ _ := True
  call nodes _ _ _ call progress :=
    progress.Entered → ∀ p, SentBy call.request p → (nodes call.target).routingTable.Recorded p

section Lasting

variable [DecidableEq SocketAddr] {d : Deployment SocketAddr} {S : SocketAddr → Prop}
  {P : Peer → Prop} {nodes : Network SocketAddr} {id : ℕ} {a : SocketAddr} {operation : Operation}
  {call : RemoteCall SocketAddr}

theorem recorded_grows {b target : SocketAddr} {s' : DHTServer} {p : Peer}
    (hnode : (known d S P).node b (nodes b)) (hgrows : Grows (nodes b) s')
    (h : (nodes target).routingTable.Recorded p) :
    (Function.update nodes b s' target).routingTable.Recorded p := by
  by_cases htarget : target = b
  · subst htarget
    obtain ⟨ps, -, hafter⟩ := hnode
    rw [Function.update_self]
    exact h.grows (held_of_afterUpdates hafter) hgrows
  · rwa [Function.update_of_ne htarget]

theorem contacts_served {point : Point} {out : EStateM.Result Panic DHTServer (Point ⊕ Message)}
    (hnode : (known d S P).node call.target (nodes call.target))
    (hcall : (contacts SocketAddr).call nodes id a operation call (.running point))
    (h : AtomicStepped call.request (nodes call.target) point out) :
    (contacts SocketAddr).call (Function.update nodes call.target (stateAfter out)) id a operation
      call (progressAfter out) := by
  intro hentered p hsent
  have hlater (hpoint : (Progress.running point).Entered) :=
    recorded_grows hnode h.grows (hcall hpoint p hsent)
  obtain ⟨ps, -, hafter⟩ := hnode
  have hheld := held_of_afterUpdates hafter
  cases h with
  | invalid hvalid => exact absurd hsent.1 (by simp [hvalid])
  | notRecorded hvalid => cases hentered
  | recorded hnext hsent' hupdate =>
      obtain rfl := hsent.unique hsent'
      rw [Function.update_self]
      exact recorded_of_update hheld hupdate
  | nodesFound hsent' hupdate hkey hpeers =>
      obtain rfl := hsent.unique hsent'
      rw [Function.update_self]
      exact recorded_of_update hheld hupdate
  | nodesPanic hsent' hupdate => cases hentered
  | put => exact hlater trivial
  | hit hvalue => exact hlater trivial
  | miss hvalue => exact hlater trivial

theorem contacts_lasting (d : Deployment SocketAddr) (S : SocketAddr → Prop) (P : Peer → Prop) :
    Lasting (known d S P) (contacts SocketAddr) d where
  task_grows _ _ _ _ _ _ _ _ _ _ := trivial
  call_grows _ _ _ _ _ _ _ _ hnode hgrows h hentered p hsent :=
    recorded_grows hnode hgrows (h hentered p hsent)
  begun _ _ _ _ := trivial
  turned _ _ _ _ _ _ _ _ _ _ := ⟨trivial, fun _ _ hentered => nomatch hentered⟩
  served _ _ _ _ _ _ _ _ hnode _ hcall hout :=
    contacts_served hnode hcall (hout ▸ atomicStep_stepped _ _ _)
  heard _ _ _ _ _ _ _ _ _ _ _ _ _ := trivial
  lost _ _ _ _ _ _ _ _ _ _ := trivial

end Lasting

/-- **Contacts.** In every run, whoever has sent a request whose handler got through
its first lock is from then on in the table of its target, unless the prefix
class is full; only a node without an address is not. -/
theorem contacts_recorded [DecidableEq SocketAddr] (d : Deployment SocketAddr)
    (events : List (ClusterEvent SocketAddr)) (c : Cluster SocketAddr)
    (hrun : Run.run (step d) (new d) events = some c) :
    ∀ x ∈ c.exchanges, x.progress.Entered → ∃ task, c.tasks[x.caller]? = some task ∧
      (d.toString task.node ≠ "" →
        (c.nodes x.target).routingTable.Recorded (d.localPeer task.node)) := by
  intro x hx hentered
  obtain ⟨hmeets, hholds⟩ := (contacts_lasting d _ _).run_new hrun
  obtain ⟨task, htask, hapt⟩ := hmeets.exchanges x hx
  refine ⟨task, htask, fun haddress => ?_⟩
  exact hholds.calls x hx task htask hentered _
    (sentBy_of_peer haddress hapt.call.2.1.myself)

/-- The node that joins has been let in at the other one. -/
theorem contacts_recorded_joining : ∃ task, joined.tasks[0]? = some task ∧
    (pair.toString task.node ≠ "" →
      (joined.nodes true).routingTable.Recorded (pair.localPeer task.node)) :=
  contacts_recorded pair joining joined joining_run introduction (List.mem_singleton.mpr rfl)
    trivial

end Cluster

end DhtKad
