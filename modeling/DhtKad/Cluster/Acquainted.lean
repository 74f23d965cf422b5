import DhtKad.Cluster.Reach

/-!
A small network, from a store to a lookup.

If the nodes of a network fit into a bucket and each of them knows all others,
every search returns everybody. So a lookup asks everybody, and a store that has
returned `Ok` has left the value with somebody: a lookup that begins later finds
a value under the key, unless somebody it asked does not answer
(`stored_value_found`).
-/

namespace DhtKad

open RoutingTable DHTServer DHTClient

variable {SocketAddr : Type}

namespace Deployment

variable (d : Deployment SocketAddr) (S : SocketAddr → Prop)

/-- The peers are all other nodes of the network, and perhaps more. -/
def Everyone (a : SocketAddr) (peers : List Peer) : Prop :=
  ∀ b, S b → b ≠ a → d.localPeer b ∈ peers

/-- The network fits into one bucket of each of its nodes. -/
def Fits : Prop :=
  ∃ U : Finset Peer, (∀ b, S b → d.localPeer b ∈ U) ∧ ∀ a, S a → U.card ≤ (d.config a).k

variable {d S} {a : SocketAddr}

/-- A node that knows no more than a bucket holds names all that it knows. -/
theorem Fits.peers_subset_nearest (hfits : d.Fits S) (ha : S a) {s : DHTServer}
    (hs : (Cluster.known d S (d.Node S)).node a s) {key : U128} {ps : List Peer}
    (hps : s.routingTable.kNearestPeers key = .ok ps) : s.routingTable.peers ⊆ ps := by
  obtain ⟨U, hU, hfit⟩ := hfits
  have hheld := Cluster.known_held hs
  obtain ⟨qs, hqs, hafter⟩ := hs
  have hcard : qs.toFinset.card ≤ (d.config a).k := by
    refine (Finset.card_le_card fun p hp => ?_).trans (hfit a ha)
    obtain ⟨b, hb, rfl⟩ := hqs p (List.mem_toFinset.mp hp)
    exact hU b hb
  obtain ⟨t, ht, -, hmem, hexact⟩ := few_peers_exact (d.config a).k (d.localPeer a) qs hcard
  obtain rfl := Option.some.inj (ht.symm.trans hafter)
  have hlength : s.routingTable.peers.length ≤ s.routingTable.k := by
    rw [hheld.k_eq, ← List.toFinset_card_of_nodup hheld.wellFormed.nodup_peers]
    have hsame : s.routingTable.peers.toFinset = qs.toFinset := by
      ext p
      rw [List.mem_toFinset, List.mem_toFinset, hmem]
    rwa [hsame]
  rw [kNearestPeers, hexact] at hps
  obtain rfl := Except.ok.inj hps
  intro p hp
  rw [List.take_of_length_le (by rwa [SortBy.length_sortBy])]
  exact SortBy.mem_sortBy.mpr hp

/-- In a small network whose nodes know each other, every answer is everybody. -/
def Fits.everyone (hfits : d.Fits S) (key : U128) : d.Guidance S key where
  table a t := d.Everyone S a t.peers
  answer := d.Everyone S
  update ht hknows hu b hb hne := peers_subset_of_update ht hu _ (hknows b hb hne)
  answers ha hs hknows hps b hb hne := hfits.peers_subset_nearest ha hs hps (hknows b hb hne)

end Deployment

namespace Cluster

theorem holder_of_stored [DecidableEq SocketAddr] {d : Deployment SocketAddr}
    {S : SocketAddr → Prop} (hd : d.Connected S) {events : List (ClusterEvent SocketAddr)}
    {c : Cluster SocketAddr} (hrun : Run.run (step d) (new d) events = some c)
    (hS : ∀ a, Asked c a → S a) {task : Task SocketAddr} (htask : task ∈ c.tasks) {key : U128}
    {value : Bytes} (hoperation : task.operation = .store key value)
    (hstage : task.stage = .stored (.ok ())) : ∃ b, S b ∧ Holds c.nodes b key := by
  have hlasting : Lasting (known d S (d.Node S)) (successes S) d :=
    successes_lasting S fun p b hp hparse => (hd.node_eq hp hparse).1
  obtain ⟨-, hholds⟩ := hlasting.run (Q := fun _ event => Asks S event)
    (fun _ _ _ hc hasks hstep => known_step hd.configured hc hasks hstep)
    (known_new hd.configured) (holds_new _ d)
    (Run.along_of_forall_mem (fun event hevent _ => asks_of_run hS hrun event hevent) _) hrun
  obtain ⟨id, hid⟩ := List.mem_iff_getElem?.mp htask
  have htask := hholds.tasks id task hid
  rw [hoperation, hstage] at htask
  exact htask rfl

theorem unanswered_of_error [DecidableEq SocketAddr] {d : Deployment SocketAddr}
    {S : SocketAddr → Prop} (hd : d.Connected S) (hfits : d.Fits S) {key : U128}
    {events more : List (ClusterEvent SocketAddr)} {c c' : Cluster SocketAddr}
    (hrun : Run.run (step d) (new d) events = some c)
    (hmore : Run.run (step d) c more = some c') (hS : ∀ a, Asked c' a → S a)
    (hkey : ∀ a, ClusterEvent.begin a (.store key []) ∉ events ++ more)
    (hknown : ∀ a, S a → d.Everyone S a (c.nodes a).routingTable.peers)
    {store : Task SocketAddr} (hstore : store ∈ c.tasks) {value : Bytes}
    (hput : store.operation = .store key value) (hstored : store.stage = .stored (.ok ()))
    {id : ℕ} (hid : c.tasks.length ≤ id) {task : Task SocketAddr}
    (htask : c'.tasks[id]? = some task) (hoperation : task.operation = .findValue key)
    {call : Call} (hstage : task.stage = .looking call) {e : RPCError}
    (hstatus : call.status = .returned (.error e)) :
    ∃ q ∈ call.lookup.queried, ∀ reply, (q, .ok reply) ∉ call.lookup.received := by
  by_contra hall
  push Not at hall
  obtain ⟨b, hb, hholds⟩ := holder_of_stored hd hrun
    (fun a ha => hS a (asked_run hmore ha)) hstore hput hstored
  obtain ⟨hmeets, hguided⟩ := guided_run (H := fun b => Holds c.nodes b key) hd
    (hfits.everyone key) hrun hmore hS hkey hknown fun _ h => h
  obtain ⟨hknows, hmiss, ⟨initial, heveryone, hled⟩, hqueried⟩ :=
    gave_up hd hmeets hguided hid htask hoperation hstage hstatus hall
  -- the holder was asked, and has not answered without a value
  have hne : b ≠ task.node := by
    rintro rfl
    exact hmiss hholds
  have hasked := ((hled.gave_up hknows.inv hstatus).1 _).mpr (.inl (heveryone b hb hne))
  exact hqueried b hasked hholds

/-- **From a store to a lookup.** In a small network take any run to a point at
which every node knows all others and a store has returned `Ok`, and any run from
there, without a store of the empty value under the key. A lookup of the key that
begins after that point, at any node, and returns has found a value that was
stored under the key, or somebody it queried has not answered. -/
theorem stored_value_found [DecidableEq SocketAddr] (d : Deployment SocketAddr)
    (S : SocketAddr → Prop) (hd : d.Connected S) (hfits : d.Fits S) (key : U128)
    (events more : List (ClusterEvent SocketAddr)) (c c' : Cluster SocketAddr)
    (hrun : Run.run (step d) (new d) events = some c)
    (hmore : Run.run (step d) c more = some c') (hS : ∀ a, Asked c' a → S a)
    (hkey : ∀ a, ClusterEvent.begin a (.store key []) ∉ events ++ more)
    (hknown : ∀ a, S a → d.Everyone S a (c.nodes a).routingTable.peers)
    (store : Task SocketAddr) (hstore : store ∈ c.tasks) (value : Bytes)
    (hput : store.operation = .store key value) (hstored : store.stage = .stored (.ok ()))
    (id : ℕ) (hid : c.tasks.length ≤ id) (task : Task SocketAddr)
    (htask : c'.tasks[id]? = some task) (hoperation : task.operation = .findValue key)
    (call : Call) (hstage : task.stage = .looking call) (result : Except RPCError Bytes)
    (hstatus : call.status = .returned result) :
    (∃ v, result = .ok v ∧ Issued (events ++ more) key v) ∨
      ∃ q ∈ call.lookup.queried, ∀ reply, (q, .ok reply) ∉ call.lookup.received := by
  cases result with
  | ok v => exact .inl ⟨v, rfl, issued_of_returned hrun hmore htask hoperation hstage hstatus⟩
  | error e => exact .inr (unanswered_of_error hd hfits hrun hmore hS hkey hknown hstore hput
      hstored hid htask hoperation hstage hstatus)

theorem pair_fits : pair.Fits fun _ => True :=
  ⟨{pairPeer false, pairPeer true}, fun b _ => by cases b <;> decide,
    fun a _ => by cases a <;> decide⟩

/-- Two nodes that know each other. -/
theorem stored_value_found_kept : ∃ c', Run.run (step pair) kept seeking = some c' ∧
    ((∃ v, (.ok [7] : Except RPCError Bytes) = .ok v ∧
        Issued ((joining ++ keeping) ++ seeking) 0 v) ∨
      ∃ q ∈ sought.lookup.queried, ∀ reply, (q, .ok reply) ∉ sought.lookup.received) := by
  obtain ⟨c', hseeking, htask⟩ := seeking_run
  refine ⟨c', hseeking, stored_value_found pair (fun _ => True) pair_connected pair_fits 0
    (joining ++ keeping) seeking kept c' kept_run hseeking (by simp)
    (by simp [joining, keeping, seeking]) ?_ _ (List.mem_of_getElem? (i := 1) rfl) [7] rfl rfl
    2 le_rfl _ htask rfl sought rfl _ rfl⟩
  intro a _ b _ hne
  cases a with
  | false =>
      cases b with
      | false => exact absurd rfl hne
      | true => exact List.mem_singleton.mpr rfl
  | true =>
      cases b with
      | false => exact List.mem_singleton.mpr rfl
      | true => exact absurd rfl hne

end Cluster

end DhtKad
