import DhtKad.Cluster.Joining
import DhtKad.Cluster.Progress
import DhtKad.Cluster.Unfailing

/-!
What a small network offers.

A network that fits into a bucket, whose nodes make one query at a time and have
joined without a failure: once it has come to rest, every lookup that began after
a successful store has returned a value that was stored under its key
(`lookups_succeed`), if no call has failed since that store. With more queries at
a time a lookup may give up before the node that holds the value has answered.
-/

namespace DhtKad

open RoutingTable DHTServer DHTClient

variable {SocketAddr : Type}

namespace Cluster

variable {d : Deployment SocketAddr} {S : SocketAddr → Prop} {c c' : Cluster SocketAddr}

section Runs

variable [DecidableEq SocketAddr]

theorem returned_of_atRest (hd : d.Sound) (halpha : ∀ a, 1 ≤ (d.config a).alpha)
    {events : List (ClusterEvent SocketAddr)}
    (hrun : Run.run (step d) (new d) events = some c) (hrest : AtRest d c)
    {task : Task SocketAddr} (htask : task ∈ c.tasks) {key : U128}
    (hoperation : task.operation = .findValue key) :
    ∃ call result, task.stage = .looking call ∧ call.status = .returned result := by
  obtain ⟨hknown, hunharmed⟩ := sound_run hd hrun
  have hrunning := (running_run halpha hrun).1.tasks task htask
  have hknows := (hknown.tasks task htask).2
  have hpanicked := hunharmed.tasks task htask
  rcases hrest.tasks task htask with hended | ⟨hbootstrap, -⟩
  · rw [hoperation] at hrunning
    cases hstage : task.stage with
    | looking call =>
        rw [hstage] at hended hknows
        cases hstatus : call.status with
        | returned result => exact ⟨call, result, rfl, hstatus⟩
        | awaiting => exact absurd hstatus hended
        | panicked e => exact absurd hstatus (Knows.not_panicked hknows e)
    | panicked e => exact absurd hstage (hpanicked e)
    | bootstrapped => rw [hstage] at hrunning; cases hrunning
    | stored result => rw [hstage] at hrunning; cases hrunning
    | _ => rw [hstage] at hended; cases hended
  · rw [hoperation] at hbootstrap
    cases hbootstrap

end Runs

/-- **From joining to a lookup.** Take a small network of nodes that make one
query at a time: a run without failures in which all have joined at the root, any
run from there to a point at which a store has returned `Ok`, and a run from that
point on without failures to where nothing more can happen but something new.
Then every lookup of the key that began after the store, at any node, has
returned a value that was stored under the key. -/
theorem lookups_succeed [DecidableEq SocketAddr] (d : Deployment SocketAddr)
    (S : SocketAddr → Prop) (hd : d.Connected S) (hsound : d.Sound) (hfits : d.Fits S)
    (halpha : ∀ a, (d.config a).alpha = 1) (root : SocketAddr) (hroot : S root)
    (hboot : ∀ a, S a → a ≠ root → d.localPeer root ∈ (d.config a).bootstrapPeers)
    (joining events more : List (ClusterEvent SocketAddr)) (c₀ c c' : Cluster SocketAddr)
    (hjoining : Run.run (step d) (new d) joining = some c₀)
    (hsmooth : ∀ i e, ClusterEvent.fail i e ∉ joining)
    (hreplied : ∀ x ∈ c₀.exchanges, ∃ reply, x.progress = .replied reply)
    (hjoined : ∀ a, S a → a ≠ root → ∃ task ∈ c₀.tasks, task.node = a ∧
      task.operation = .bootstrap ∧ task.stage = .bootstrapped)
    (hevents : Run.run (step d) c₀ events = some c)
    (hmore : Run.run (step d) c more = some c') (hS : ∀ a, Asked c' a → S a)
    (key : U128) (hkey : ∀ a, ClusterEvent.begin a (.store key []) ∉ joining ++ events ++ more)
    (store : Task SocketAddr) (hstore : store ∈ c.tasks) (value : Bytes)
    (hput : store.operation = .store key value) (hstored : store.stage = .stored (.ok ()))
    (hfail : ∀ i e, ClusterEvent.fail i e ∉ more)
    (hrest : ∀ event, (∀ a operation, event ≠ .begin a operation) → step d c' event = none)
    (id : ℕ) (hid : c.tasks.length ≤ id) (task : Task SocketAddr)
    (htask : c'.tasks[id]? = some task) (hoperation : task.operation = .findValue key) :
    ∃ call v, task.stage = .looking call ∧ call.status = .returned (.ok v) ∧
      Issued (joining ++ events ++ more) key v := by
  have hrun : Run.run (step d) (new d) (joining ++ events) = some c := by
    rw [Run.run_append, hjoining, Option.bind_some, hevents]
  have hrun' : Run.run (step d) (new d) (joining ++ events ++ more) = some c' := by
    rw [Run.run_append, hrun, Option.bind_some, hmore]
  have hS₀ (a : SocketAddr) (ha : Asked c₀ a) : S a :=
    hS a (asked_run hmore (asked_run hevents ha))
  -- everyone knows everyone, and still does when the store has returned
  have hthen := smooth_run hd hfits hS₀ hsmooth hjoining
  have heveryone := hthen.everyone hd hfits hroot hboot hreplied hjoined
  have hknown (a : SocketAddr) (ha : S a) : d.Everyone S a (c.nodes a).routingTable.peers :=
    fun b hb hne => mem_peers_of_run (known_held (hthen.known.nodes a)) (heveryone a ha b hb hne)
      hevents
  have hatRest := at_rest_of_stuck hsound (fun a => (halpha a).ge) hrun' fun event hgoes => by
    refine hrest event ?_
    rintro a operation rfl
    exact hgoes
  obtain ⟨call, result, hstage, hstatus⟩ := returned_of_atRest hsound (fun a => (halpha a).ge)
    hrun' hatRest (List.mem_of_getElem? htask) hoperation
  cases result with
  | ok v =>
      exact ⟨call, v, hstage, hstatus,
        issued_of_returned hrun hmore htask hoperation hstage hstatus⟩
  | error e =>
      obtain ⟨q, hq, hunanswered⟩ := unanswered_of_error hd hfits hrun hmore hS hkey hknown hstore
        hput hstored hid htask hoperation hstage hstatus
      obtain ⟨reply, hreply⟩ := answered_run halpha hmore hfail hid htask hoperation hstage hstatus
        q hq
      exact absurd hreply (hunanswered reply)

/-- The root stores a value at the node that has joined. -/
def offering : List (ClusterEvent Bool) :=
  [.begin true (.store 0 [7]), .advance 1, .serve 2, .serve 2, .deliver 2, .advance 1]

/-- The root looks the value up. -/
def reading : List (ClusterEvent Bool) :=
  [.begin true (.findValue 0), .advance 2, .advance 2, .serve 3, .serve 3, .deliver 3, .advance 2]

def bothHeard : RoutingTable :=
  ⟨20, pairPeer false, [⟨0, [pairPeer false, pairPeer true]⟩]⟩

def offeree : DHTServer :=
  { kvstore := (MemoryStore.new.put (keyToBytes 0) [7]).1, routingTable := bothHeard }

theorem offered_run : ∃ c c', Run.run (step pair) acquainted offering = some c ∧
    Run.run (step pair) c reading = some c' ∧
    c.tasks = acquainted.tasks ++
      [{ node := true, operation := .store 0 [7], stage := .stored (.ok ()) }] ∧
    c'.tasks = c.tasks ++ [{ node := true, operation := .findValue 0, stage := .looking sought }] ∧
    ∀ x ∈ c'.exchanges, x.awaited = false ∧ ∃ reply, x.progress = .replied reply := by
  have hupdate : bothKnown.update (pairPeer true) = .ok (bothHeard, .ok ()) := by decide
  have hrecord : atomicStep (createStoreRequest (pairPeer true) 0 [7]) (.opened .store)
      { kvstore := .new, routingTable := bothKnown } = _ :=
    recordSender_of_sentBy (sentBy_of_peer (by decide) rfl) hupdate _
  have hagain : bothHeard.update (pairPeer true) = .ok (bothHeard, .ok ()) := by decide
  have hrecord' : atomicStep (createFindValueRequest 0 (pairPeer true)) (.opened .findValue)
      offeree = _ :=
    recordSender_of_sentBy (sentBy_of_peer (by decide) rfl) hagain _
  have hread : atomicStep (createFindValueRequest 0 (pairPeer true)) .reading offeree =
      .ok (.inr (createFindValueResponse (keyToBytes 0) [7])) offeree := by
    have hvalue : offeree.kvstore.store (keyToBytes 0) = some [7] :=
      MemoryStore.put_store_self _ _ _
    have hkey : (createFindValueRequest 0 (pairPeer true)).key = keyToBytes 0 := rfl
    rw [atomicStep_reading, hkey, hvalue]
  have hstart : pair.turn true (.findValue 0) joinedServer .missed = some
      { server := joinedServer
        stage := .looking
          { lookup :=
              { candidates := []
                queried := [pairPeer false]
                inProgress := 1
                tasks := [pairPeer false] }
            status := .awaiting }
        calls := [{
          slot := .query (pairPeer false)
          target := false
          rpc := .findValue
          request := createFindValueRequest 0 (pairPeer true) }] } := rfl
  refine ⟨_, _, Run.run_cons_eq_some.mpr ⟨_, rfl, Run.run_cons_eq_some.mpr ⟨_, rfl,
      Run.run_cons_eq_some.mpr ⟨_, serve_eq rfl rfl hrecord,
      Run.run_cons_eq_some.mpr ⟨_, serve_eq rfl rfl rfl,
      Run.run_cons_eq_some.mpr ⟨_, rfl, Run.run_cons_eq_some.mpr ⟨_, rfl, rfl⟩⟩⟩⟩⟩⟩,
    Run.run_cons_eq_some.mpr ⟨_, rfl, Run.run_cons_eq_some.mpr ⟨_, rfl,
      Run.run_cons_eq_some.mpr ⟨_, advance_eq pair rfl hstart,
      Run.run_cons_eq_some.mpr ⟨_, serve_eq rfl rfl hrecord',
      Run.run_cons_eq_some.mpr ⟨_, serve_eq rfl rfl hread,
      Run.run_cons_eq_some.mpr ⟨_, rfl, Run.run_cons_eq_some.mpr ⟨_, rfl, rfl⟩⟩⟩⟩⟩⟩⟩,
    rfl, rfl, ?_⟩
  intro x hx
  change x ∈ [_, _, _, _] at hx
  simp only [List.mem_cons, List.not_mem_nil, or_false] at hx
  rcases hx with rfl | rfl | rfl | rfl
  · exact ⟨rfl, _, rfl⟩
  · exact ⟨rfl, _, rfl⟩
  · exact ⟨rfl, _, rfl⟩
  · exact ⟨rfl, _, rfl⟩

theorem pair_serial (a : Bool) : (pair.config a).alpha = 1 := by
  cases a <;> rfl

/-- Two nodes: one joins, the other one stores a value and looks it up. -/
theorem lookups_succeed_offered : ∃ c c', Run.run (step pair) acquainted offering = some c ∧
    Run.run (step pair) c reading = some c' ∧
    ∃ call v, Stage.looking sought = .looking call ∧ call.status = .returned (.ok v) ∧
      Issued (joining ++ introduced ++ offering ++ reading) 0 v := by
  obtain ⟨c, c', hoffering, hreading, htasks, htasks', hexchanges⟩ := offered_run
  rw [htasks] at htasks'
  have hrest : AtRest pair c' := by
    refine ⟨fun task htask => .inl ?_, hexchanges⟩
    rw [htasks'] at htask
    change task ∈ [_, _, _] at htask
    simp only [List.mem_cons, List.not_mem_nil, or_false] at htask
    rcases htask with rfl | rfl | rfl
    · trivial
    · trivial
    · exact fun h => by cases h
  have hrun : Run.run (step pair) (new pair) (joining ++ introduced ++ offering ++ reading) =
      some c' := by
    rw [Run.run_append, Run.run_append, acquainted_run, Option.bind_some, hoffering,
      Option.bind_some, hreading]
  refine ⟨c, c', hoffering, hreading, lookups_succeed pair (fun _ => True) pair_connected
    pair_sound pair_fits pair_serial true trivial (fun a _ => pair_rooted a)
    (joining ++ introduced) offering reading acquainted c c' acquainted_run
    (by simp [joining, introduced, introduce]) acquainted_replied (fun a _ => acquainted_joined a)
    hoffering hreading (by simp) 0 (by simp [joining, introduced, introduce, offering, reading])
    { node := true, operation := .store 0 [7], stage := .stored (.ok ()) }
    (by simp [htasks]) [7] rfl rfl (by simp [reading]) (hrest.stuck hrun) 2
    (by rw [htasks]; rfl) { node := true, operation := .findValue 0, stage := .looking sought }
    (by rw [htasks']; rfl) rfl⟩

end Cluster

end DhtKad
