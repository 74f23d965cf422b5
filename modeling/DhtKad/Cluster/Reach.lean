import DhtKad.Cluster.Guided
import DhtKad.RoutingTable.Hops

/-!
How far a lookup gets.

If the table of every node knows somebody in each class that a node of the
network is in, then every answer leads on, as long as there is a node that shares
a longer prefix with the key than the one that answers. So a lookup that gives up
with an answer from everybody it queried has queried a node that shares as much
with the key as any node of the network does, in whatever order the answers came
and whatever else went on meanwhile (`lookup_reaches`). And if the nodes that
share the most with the key hold it, such a lookup does not give up
(`held_value_found`).
-/

namespace DhtKad

open RoutingTable DHTServer DHTClient

variable {SocketAddr : Type}

namespace Deployment

variable (d : Deployment SocketAddr) (S : SocketAddr → Prop)

/-- The table of the node `a` knows somebody in every class that a node of the
network is in. -/
def Complete (a : SocketAddr) (t : RoutingTable) : Prop :=
  ∀ b, S b → (d.localPeer b).id ≠ (d.localPeer a).id → ∃ q ∈ t.peers,
    commonPrefixLength (d.localPeer a).id q.id =
      commonPrefixLength (d.localPeer a).id (d.localPeer b).id

/-- If a node of the network shares more with the key than the node `a` does, one
of the peers does. -/
def Leads (key : U128) (a : SocketAddr) (peers : List Peer) : Prop :=
  ∀ b, S b →
    commonPrefixLength key (d.localPeer a).id < commonPrefixLength key (d.localPeer b).id →
    ∃ q ∈ peers, commonPrefixLength key (d.localPeer a).id < commonPrefixLength key q.id

variable {d S} {a : SocketAddr}

theorem Complete.update {t t' : RoutingTable} {p : Peer} {r : Except NoCapacityError Unit}
    (h : d.Complete S a t) (ht : Held (d.config a).k (d.localPeer a) t)
    (hu : t.update p = .ok (t', r)) : d.Complete S a t' := by
  intro b hb hne
  obtain ⟨q, hq, hclass⟩ := h b hb hne
  exact ⟨q, peers_subset_of_update ht hu q hq, hclass⟩

theorem Complete.leads {t : RoutingTable} {k : ℕ} (h : d.Complete S a t)
    (ht : Held k (d.localPeer a) t) (hk : 0 < k) {key : U128} {ps : List Peer}
    (hps : t.kNearestPeers key = .ok ps) : d.Leads S key a ps := by
  intro b hb hlt
  obtain ⟨hkey, hclass⟩ := (advances_iff (d.localPeer a) (d.localPeer b) key).mp hlt
  have hne : (d.localPeer b).id ≠ (d.localPeer a).id := by
    intro heq
    rw [heq] at hlt
    exact lt_irrefl _ hlt
  obtain ⟨q, hq, hq'⟩ := h b hb hne
  have hadvances : commonPrefixLength key (d.localPeer a).id < commonPrefixLength key q.id :=
    (advances_iff (d.localPeer a) q key).mpr ⟨hkey, hq'.trans hclass⟩
  rw [kNearestPeers, nearestPeers_eq ht.wellFormed.nonempty] at hps
  obtain rfl := Except.ok.inj hps
  have hhead := ht.wellFormed.head_advances_iff key (ht.k_eq ▸ hk : 0 < t.k)
  rw [ht.localPeer_eq] at hhead
  obtain ⟨p, hp, hlt'⟩ := hhead.mpr ⟨q, hq, hadvances⟩
  exact ⟨p, List.mem_of_head? hp, hlt'⟩

/-- Complete tables guide a lookup towards its key. -/
def Connected.towards (hd : d.Connected S) (key : U128) : d.Guidance S key where
  table := d.Complete S
  answer := d.Leads S key
  update ht hcomplete hu := hcomplete.update ht hu
  answers _ hknown hcomplete hps := hcomplete.leads (Cluster.known_held hknown) (hd.k_pos _) hps

end Deployment

namespace Cluster

section Reach

variable [DecidableEq SocketAddr] {d : Deployment SocketAddr} {S H : SocketAddr → Prop}
  {key : U128} {c : Cluster SocketAddr}

omit [DecidableEq SocketAddr] in
theorem gets_there {hd : d.Connected S} {a : SocketAddr} {call : Call} {e : RPCError}
    (hknows : Knows d.parse (d.Node S) call) {initial : List Peer}
    (hleads : d.Leads S key a initial) (hled : Led ((hd.towards key).Guides H) initial call)
    (hstatus : call.status = .returned (.error e))
    (hanswered : ∀ q ∈ call.lookup.queried, ∃ reply, (q, .ok reply) ∈ call.lookup.received)
    {b : SocketAddr} (hb : S b) :
    commonPrefixLength key (d.localPeer b).id ≤ commonPrefixLength key (d.localPeer a).id ∨
      ∃ q ∈ call.lookup.queried,
        commonPrefixLength key (d.localPeer b).id ≤ commonPrefixLength key q.id := by
  refine or_iff_not_imp_left.mpr fun hlt => ?_
  obtain ⟨p, hp, -⟩ := hleads b hb (not_le.mp hlt)
  refine hled.climbs hknows.inv hstatus (List.ne_nil_of_mem hp) hanswered
    (fun q => commonPrefixLength key q.id) _ fun q reply hguides hcarried hlt => ?_
  obtain ⟨b', rfl, -, ps, hps, hleads⟩ := hguides reply rfl hcarried
  obtain ⟨q', hq', hlt'⟩ := hleads b hb hlt
  obtain ⟨mp, hmp, hdecode⟩ := (ExceptList.mem_of_mapM hps q').mp hq'
  exact ⟨mp, hmp, q', hdecode, hlt'⟩

end Reach

/-- **Reach.** In a network of nodes that are configured with each other, take any
run to a point at which every table is complete, and any run from there, without
a store of the empty value under the key. A lookup that begins after that point
and gives up with an answer from everybody it queried runs at a node, or has
queried one, that shares as much with the key as any node of the network does. -/
theorem lookup_reaches [DecidableEq SocketAddr] (d : Deployment SocketAddr)
    (S : SocketAddr → Prop) (hd : d.Connected S) (key : U128)
    (events more : List (ClusterEvent SocketAddr)) (c c' : Cluster SocketAddr)
    (hrun : Run.run (step d) (new d) events = some c)
    (hmore : Run.run (step d) c more = some c') (hS : ∀ a, Asked c' a → S a)
    (hkey : ∀ a, ClusterEvent.begin a (.store key []) ∉ events ++ more)
    (hcomplete : ∀ a, S a → d.Complete S a (c.nodes a).routingTable)
    (id : ℕ) (hid : c.tasks.length ≤ id) (task : Task SocketAddr)
    (htask : c'.tasks[id]? = some task) (hoperation : task.operation = .findValue key)
    (call : Call) (hstage : task.stage = .looking call) (e : RPCError)
    (hstatus : call.status = .returned (.error e))
    (hanswered : ∀ q ∈ call.lookup.queried, ∃ reply, (q, .ok reply) ∈ call.lookup.received) :
    ∀ b, S b →
      commonPrefixLength key (d.localPeer b).id ≤
        commonPrefixLength key (d.localPeer task.node).id ∨
      ∃ q ∈ call.lookup.queried,
        commonPrefixLength key (d.localPeer b).id ≤ commonPrefixLength key q.id := by
  obtain ⟨hmeets, hguided⟩ := guided_run (H := fun _ => False) hd (hd.towards key) hrun hmore hS
    hkey hcomplete (by simp)
  obtain ⟨hknows, -, ⟨initial, hleads, hled⟩, -⟩ :=
    gave_up hd hmeets hguided hid htask hoperation hstage hstatus hanswered
  exact fun b hb => gets_there hknows hleads hled hstatus hanswered hb

/-- **Held values are found.** If moreover all nodes that share as much with the
key as the node `b` does hold the key at that point, a lookup that begins later
and returns has found a value that was stored under the key, or somebody it
queried has not answered. -/
theorem held_value_found [DecidableEq SocketAddr] (d : Deployment SocketAddr)
    (S : SocketAddr → Prop) (hd : d.Connected S) (key : U128)
    (events more : List (ClusterEvent SocketAddr)) (c c' : Cluster SocketAddr)
    (hrun : Run.run (step d) (new d) events = some c)
    (hmore : Run.run (step d) c more = some c') (hS : ∀ a, Asked c' a → S a)
    (hkey : ∀ a, ClusterEvent.begin a (.store key []) ∉ events ++ more)
    (hcomplete : ∀ a, S a → d.Complete S a (c.nodes a).routingTable)
    (b : SocketAddr) (hb : S b)
    (hholds : ∀ b', S b' → commonPrefixLength key (d.localPeer b).id ≤
      commonPrefixLength key (d.localPeer b').id → Holds c.nodes b' key)
    (id : ℕ) (hid : c.tasks.length ≤ id) (task : Task SocketAddr)
    (htask : c'.tasks[id]? = some task) (hoperation : task.operation = .findValue key)
    (call : Call) (hstage : task.stage = .looking call) (result : Except RPCError Bytes)
    (hstatus : call.status = .returned result) :
    (∃ v, result = .ok v ∧ Issued (events ++ more) key v) ∨
      ∃ q ∈ call.lookup.queried, ∀ reply, (q, .ok reply) ∉ call.lookup.received := by
  cases result with
  | ok v =>
      exact .inl ⟨v, rfl, issued_of_returned hrun hmore htask hoperation hstage hstatus⟩
  | error e =>
      refine .inr (by_contra fun hall => ?_)
      push Not at hall
      obtain ⟨hmeets, hguided⟩ := guided_run (H := fun b => Holds c.nodes b key) hd
        (hd.towards key) hrun hmore hS hkey hcomplete fun _ h => h
      obtain ⟨hknows, hmiss, ⟨initial, hleads, hled⟩, hqueried⟩ :=
        gave_up hd hmeets hguided hid htask hoperation hstage hstatus hall
      rcases gets_there hknows hleads hled hstatus hall hb with hle | ⟨q, hq, hle⟩
      · have hnode := hS _ ⟨task, List.mem_of_getElem? htask, rfl⟩
        exact hmiss (hholds task.node hnode hle)
      · obtain ⟨b', hb', rfl⟩ := hknows.seen q (mem_seen.mpr (.inr hq))
        exact hqueried b' hq (hholds b' hb' hle)

/-! ### Two nodes

The node `false` holds a value under its own identifier, the key `0`. -/

theorem pair_connected : pair.Connected fun _ => True where
  k_pos a := by cases a <;> decide
  text a := by cases a <;> rfl
  named a := by cases a <;> decide
  bootstrapPeers a _ p hp := by
    cases a with
    | true => cases hp
    | false => exact ⟨true, trivial, List.mem_singleton.mp hp⟩

/-- The node that is known by now stores a value under the key that is nearest to
the other one. -/
def keeping : List (ClusterEvent Bool) :=
  [.begin true (.store 0 [7]), .advance 1, .serve 1, .serve 1, .deliver 1, .advance 1]

def keeper : DHTServer :=
  { kvstore := (MemoryStore.new.put (keyToBytes 0) [7]).1, routingTable := contacted }

def keptExchange : Exchange Bool where
  slot := .store 0
  target := false
  rpc := .store
  request := createStoreRequest (pairPeer true) 0 [7]
  caller := 1
  progress := .replied (createStoreResponse true)
  awaited := false

def kept : Cluster Bool where
  nodes :=
    Function.update
      (Function.update
        (Function.update (Function.update joined.nodes true (joined.nodes true)) false
          { kvstore := .new, routingTable := contacted })
        false keeper)
      true (joined.nodes true)
  tasks := joined.tasks ++
    [{ node := true, operation := .store 0 [7], stage := .stored (.ok ()) }]
  exchanges := [introduction, keptExchange]

theorem keeping_run : Run.run (step pair) joined keeping = some kept := by
  have hsent : SentBy (createStoreRequest (pairPeer true) 0 [7]) (pairPeer true) :=
    sentBy_of_peer (by decide) rfl
  have hrecord : atomicStep (createStoreRequest (pairPeer true) 0 [7]) (.opened .store)
      (DHTServer.new 20 (pairPeer false)) = _ :=
    recordSender_of_sentBy hsent contact_update _
  refine Run.run_cons_eq_some.mpr ⟨_, rfl, Run.run_cons_eq_some.mpr ⟨_, rfl, ?_⟩⟩
  refine Run.run_cons_eq_some.mpr ⟨_, serve_eq rfl rfl hrecord, ?_⟩
  exact Run.run_cons_eq_some.mpr ⟨_, serve_eq rfl rfl rfl, Run.run_cons_eq_some.mpr ⟨_, rfl, rfl⟩⟩

theorem kept_run : Run.run (step pair) (new pair) (joining ++ keeping) = some kept := by
  rw [Run.run_append, joining_run, Option.bind_some, keeping_run]

theorem kept_holds : Holds kept.nodes false 0 :=
  Option.isSome_iff_exists.mpr ⟨[7], MemoryStore.put_store_self _ _ _⟩

theorem kept_complete (a : Bool) :
    pair.Complete (fun _ => True) a (kept.nodes a).routingTable := by
  intro b _ hne
  cases a with
  | false =>
      cases b with
      | false => exact absurd rfl hne
      | true => exact ⟨pairPeer true, by decide, rfl⟩
  | true =>
      cases b with
      | false => exact ⟨pairPeer false, by decide, rfl⟩
      | true => exact absurd rfl hne

def seeking : List (ClusterEvent Bool) :=
  [.begin true (.findValue 0), .advance 2, .advance 2, .serve 2, .serve 2, .deliver 2, .advance 2]

def sought : Call where
  lookup :=
    { candidates := []
      queried := [pairPeer false]
      received := [(pairPeer false, .ok (createFindValueResponse (keyToBytes 0) [7]))] }
  status := .returned (.ok [7])

theorem seeking_run : ∃ c, Run.run (step pair) kept seeking = some c ∧
    c.tasks[2]? = some { node := true, operation := .findValue 0, stage := .looking sought } := by
  have hsent : SentBy (createFindValueRequest 0 (pairPeer true)) (pairPeer true) :=
    sentBy_of_peer (by decide) rfl
  have hupdate : contacted.update (pairPeer true) = .ok (contacted, .ok ()) := by decide
  have hrecord : atomicStep (createFindValueRequest 0 (pairPeer true)) (.opened .findValue)
      keeper = _ :=
    recordSender_of_sentBy hsent hupdate _
  have hread : atomicStep (createFindValueRequest 0 (pairPeer true)) .reading keeper =
      .ok (.inr (createFindValueResponse (keyToBytes 0) [7])) keeper := by
    have hvalue : keeper.kvstore.store (keyToBytes 0) = some [7] := MemoryStore.put_store_self _ _ _
    have hkey : (createFindValueRequest 0 (pairPeer true)).key = keyToBytes 0 := rfl
    rw [atomicStep_reading, hkey, hvalue]
  have hstart : pair.turn true (.findValue 0) (kept.nodes true) .missed = some
      { server := kept.nodes true
        stage := .looking
          { lookup :=
              { candidates := []
                queried := [pairPeer false]
                inProgress := 1
                tasks := [pairPeer false] }
            status := .awaiting }
        calls := [{
          slot := .query (pairPeer false)
          target := false
          rpc := .findValue
          request := createFindValueRequest 0 (pairPeer true) }] } := rfl
  exact ⟨_, Run.run_cons_eq_some.mpr ⟨_, rfl, Run.run_cons_eq_some.mpr ⟨_, rfl,
    Run.run_cons_eq_some.mpr ⟨_, advance_eq pair rfl hstart,
    Run.run_cons_eq_some.mpr ⟨_, serve_eq rfl rfl hrecord,
    Run.run_cons_eq_some.mpr ⟨_, serve_eq rfl rfl hread,
    Run.run_cons_eq_some.mpr ⟨_, rfl, Run.run_cons_eq_some.mpr ⟨_, rfl, rfl⟩⟩⟩⟩⟩⟩⟩, rfl⟩

/-- The node `true` looks the value up at the node that holds it. -/
theorem held_value_found_kept : ∃ c', Run.run (step pair) kept seeking = some c' ∧
    ((∃ v, (.ok [7] : Except RPCError Bytes) = .ok v ∧
        Issued ((joining ++ keeping) ++ seeking) 0 v) ∨
      ∃ q ∈ sought.lookup.queried, ∀ reply, (q, .ok reply) ∉ sought.lookup.received) := by
  obtain ⟨c', hseeking, htask⟩ := seeking_run
  refine ⟨c', hseeking, held_value_found pair (fun _ => True) pair_connected 0
    (joining ++ keeping) seeking kept c' kept_run hseeking (by simp)
    (by simp [joining, keeping, seeking]) (fun a _ => kept_complete a) false trivial ?_ 2 le_rfl _
    htask rfl sought rfl _ rfl⟩
  intro b' _ hle
  cases b' with
  | false => exact kept_holds
  | true => exact absurd hle (by decide)

/-- The node `false` looks up a key that nobody holds, the identifier of the other
node. It asks that node, which names it in its answer, and then asks itself. -/
def wandering : List (ClusterEvent Bool) :=
  [.begin false (.findValue 1), .advance 2, .advance 2, .serve 2, .serve 2, .serve 2, .deliver 2,
    .advance 2, .serve 3, .serve 3, .serve 3, .deliver 3, .advance 2]

def otherReply : Except IoError Message := .ok (createFindNodeResponse [pairPeer false])

def ownReply : Except IoError Message :=
  .ok (createFindNodeResponse [pairPeer true, pairPeer false])

/-- The table of the node `false` once it has asked itself. -/
def selfContacted : RoutingTable := ⟨20, pairPeer false, [⟨0, [pairPeer true, pairPeer false]⟩]⟩

def wanderedCall : Call where
  lookup :=
    { candidates := []
      queried := [pairPeer true, pairPeer false]
      received := [(pairPeer true, otherReply), (pairPeer false, ownReply)] }
  status := .returned (.error notFound)

/-- The lookup while the other node is asked, and when the node itself is. -/
def askedOther : Lookup :=
  { candidates := [], queried := [pairPeer true], inProgress := 1, tasks := [pairPeer true] }

def askedItself : Lookup :=
  { candidates := []
    queried := [pairPeer true, pairPeer false]
    inProgress := 1
    tasks := [pairPeer false]
    received := [(pairPeer true, otherReply)] }

theorem wandering_turn (s : DHTServer) (l : Lookup) (p : Peer) (peers : List Peer)
    {new : List Peer} {call : Call}
    (hawait : l.inProgress ≠ 0)
    (hnew : (peers.filter fun q => q ∉ l.queried ∧ q ∉ l.candidates) = new)
    (hcall : (pair.client false).loopHead 1
      (merge l p (.ok (createFindNodeResponse peers)) [] new) = call) :
    pair.turn false (.findValue 1) s (.looking
        { lookup := { l with channel := [(p, .ok (createFindNodeResponse peers))] }
          status := .awaiting }) =
      some
        { server := s
          stage := .looking call
          calls := pair.queries false 1 (call.lookup.tasks.drop l.tasks.length) } := by
  have hstep : DHTClient.step pair.parse (pair.client false) 1
      { lookup := { l with channel := [(p, .ok (createFindNodeResponse peers))] }
        status := .awaiting } .recv = some call := by
    have hturn := turn_eq (pair.client false) 1
      (l := { l with channel := [(p, .ok (createFindNodeResponse peers))] }) hawait p
      (.ok (createFindNodeResponse peers)) []
    rw [discovered_createFindNodeResponse, hnew] at hturn
    exact congrArg some (hturn.trans hcall)
  rw [Deployment.turn, Deployment.findValueTurn]
  simp only [hstep]
  rfl

theorem wandering_run : ∃ c, Run.run (step pair) kept wandering = some c ∧
    c.tasks[2]? = some
      { node := false, operation := .findValue 1, stage := .looking wanderedCall } := by
  have hvalue : keeper.kvstore.store (keyToBytes 1) = none := by decide
  obtain ⟨hrecord, hread, hanswer⟩ := atomicStep_miss 1 (p := pairPeer false)
    (s := kept.nodes true) (t := joinedServer.routingTable) (r := .ok ())
    (by decide) (by decide) (by decide) (by decide)
    (show _ = Except.ok [pairPeer false] by decide)
  obtain ⟨hrecord', hread', hanswer'⟩ := atomicStep_miss 1 (p := pairPeer false)
    (s := keeper) (t := selfContacted) (r := .ok ())
    (by decide) (by decide) (by decide) hvalue
    (show _ = Except.ok [pairPeer true, pairPeer false] by decide)
  have hturn (s : DHTServer) := wandering_turn s { askedOther with tasks := [] } (pairPeer true)
    [pairPeer false] (by decide) (show _ = [pairPeer false] by decide)
    (show _ = { lookup := askedItself, status := .awaiting } from rfl)
  have hturn' (s : DHTServer) := wandering_turn s { askedItself with tasks := [] }
    (pairPeer false) [pairPeer true, pairPeer false] (by decide) (show _ = [] by decide)
    (show _ = wanderedCall from rfl)
  exact ⟨_, Run.run_cons_eq_some.mpr ⟨_, rfl, Run.run_cons_eq_some.mpr ⟨_, rfl,
    Run.run_cons_eq_some.mpr ⟨_, rfl,
    Run.run_cons_eq_some.mpr ⟨_, serve_eq rfl rfl hrecord,
    Run.run_cons_eq_some.mpr ⟨_, serve_eq rfl rfl hread,
    Run.run_cons_eq_some.mpr ⟨_, serve_eq rfl rfl hanswer,
    Run.run_cons_eq_some.mpr ⟨_, rfl,
    Run.run_cons_eq_some.mpr ⟨_, advance_eq pair rfl (hturn _),
    Run.run_cons_eq_some.mpr ⟨_, serve_eq rfl rfl hrecord',
    Run.run_cons_eq_some.mpr ⟨_, serve_eq rfl rfl hread',
    Run.run_cons_eq_some.mpr ⟨_, serve_eq rfl rfl hanswer',
    Run.run_cons_eq_some.mpr ⟨_, rfl,
    Run.run_cons_eq_some.mpr ⟨_, advance_eq pair rfl (hturn' _),
    rfl⟩⟩⟩⟩⟩⟩⟩⟩⟩⟩⟩⟩⟩, rfl⟩

/-- The lookup has asked the node with the key for its identifier. -/
theorem lookup_reaches_kept : ∃ c', Run.run (step pair) kept wandering = some c' ∧
    ∀ b, True →
      commonPrefixLength 1 (pair.localPeer b).id ≤
        commonPrefixLength 1 (pair.localPeer false).id ∨
      ∃ q ∈ wanderedCall.lookup.queried,
        commonPrefixLength 1 (pair.localPeer b).id ≤ commonPrefixLength 1 q.id := by
  obtain ⟨c', hwandering, htask⟩ := wandering_run
  refine ⟨c', hwandering, lookup_reaches pair (fun _ => True) pair_connected 1
    (joining ++ keeping) wandering kept c' kept_run hwandering (by simp)
    (by simp [joining, keeping, wandering]) (fun a _ => kept_complete a) 2 le_rfl _
    htask rfl wanderedCall rfl _ rfl ?_⟩
  intro q hq
  rcases List.mem_pair.mp hq with rfl | rfl
  · exact ⟨_, List.mem_cons_self⟩
  · exact ⟨_, List.mem_cons_of_mem _ List.mem_cons_self⟩

end Cluster

end DhtKad
