import DhtKad.Cluster.Reach

/-!
Lookups that ask nobody twice.

A lookup filters what a reply lists by what it knows already, and not by itself:
a reply that lists a peer twice makes it ask that peer twice. A node of this code
sends no such reply, since a search of its table finds nobody twice. So where all
nodes run this code, no lookup comes to know a peer twice (`distinct_stable`),
and each of its queries is sent to another peer (`queries_once`).
-/

namespace DhtKad

open RoutingTable DHTServer DHTClient

variable {SocketAddr : Type}

def Distinct (reply : Message) : Prop :=
  ∀ ps, reply.closerPeers.mapM protoPeerToPeer = .ok ps → ps.Nodup

theorem distinct_nil {reply : Message} (h : reply.closerPeers = []) : Distinct reply := by
  intro ps hps
  rw [h] at hps
  obtain rfl := Except.ok.inj hps
  exact List.nodup_nil

theorem distinct_createFindNodeResponse {ps : List Peer} (h : ps.Nodup) :
    Distinct (createFindNodeResponse ps) := by
  intro ps' hps'
  rw [mapM_createFindNodeResponse] at hps'
  obtain rfl := Except.ok.inj hps'
  exact h

theorem RoutingTable.WellFormed.nodup_kNearestPeers {t : RoutingTable} (ht : t.WellFormed)
    {key : U128} {ps : List Peer} (h : t.kNearestPeers key = .ok ps) : ps.Nodup := by
  rw [kNearestPeers, nearestPeers_eq ht.nonempty] at h
  obtain rfl := Except.ok.inj h
  exact ((SortBy.sortBy_perm _).nodup_iff.mpr (nodup_window ht key t.k)).take

/-- A lookup that knows nobody twice, and is sent no reply that lists somebody
twice. -/
structure Apart (parse : String → Option SocketAddr) (call : Call) : Prop where
  inv : CallInv parse call
  seen : (seen call.lookup).Nodup
  channel : ∀ pr ∈ call.lookup.channel, ∀ reply, pr.2 = .ok reply → Distinct reply

section Apart

variable {parse : String → Option SocketAddr} {client : DHTClient} {key : U128}
  {call call' : Call}

theorem apart_start (client : DHTClient) (key : U128) {candidates : List Peer}
    (h : candidates.Nodup) : Apart parse (client.start key candidates) := by
  refine ⟨callInv_start parse client key candidates, ?_, ?_⟩
  · rw [start, (seen_loopHead_perm client key _).nodup_iff]
    exact h
  · rw [start, (loopHead_frame client key _).1]
    simp

theorem apart_hit (v : Bytes) :
    Apart parse { lookup := { candidates := [] }, status := .returned (.ok v) } :=
  ⟨callInv_hit parse v, List.nodup_nil, by simp⟩

theorem Apart.not_repeats (h : Apart parse call) (event : Event) : ¬ Repeats call event := by
  cases event with
  | recv =>
      rintro ⟨p, r, rest, new, hch, -, hd, hdup⟩
      refine hdup ?_
      cases r with
      | error e =>
          obtain rfl := Except.ok.inj hd
          exact List.nodup_nil
      | ok reply =>
          obtain ⟨ps, hps, hnew⟩ := ExceptList.bind_eq_ok_iff.mp hd
          obtain rfl := Except.ok.inj hnew
          exact (h.channel (p, .ok reply) (by simp [hch]) reply rfl ps hps).filter _
  | send p r => exact id
  | die p => exact id

theorem Apart.step {event : Event} (h : Apart parse call)
    (hsent : ∀ p r, event = .send p r → ∀ reply, r = .ok reply → Distinct reply)
    (hstep : DHTClient.step parse client key call event = some call') : Apart parse call' := by
  refine ⟨h.inv.step hstep, (nodup_seen_step h.inv hstep).mpr ⟨h.seen, h.not_repeats event⟩, ?_⟩
  obtain ⟨-, hadvanced⟩ := h.inv.books.advanced hstep
  intro pr hpr
  cases hadvanced with
  | sent p r hp hparse =>
      rcases List.mem_append.mp hpr with hpr | hpr
      · exact h.channel pr hpr
      · obtain rfl := List.mem_singleton.mp hpr
        exact hsent p r rfl
  | died p hp hparse => exact h.channel pr hpr
  | returned hch hv => exact h.channel pr (hch ▸ List.mem_cons_of_mem _ hpr)
  | panicked hch hv hd => exact h.channel pr hpr
  | looped hch hv hd =>
      rw [(loopHead_frame client key _).1] at hpr
      exact h.channel pr (hch ▸ List.mem_cons_of_mem _ hpr)

end Apart

/-- Whom a task has queried. -/
def Stage.queried : Stage → List Peer
  | .looking call => call.lookup.queried
  | _ => []

/-- Whose queries a task has spawned that have not sent their results. -/
def Stage.spawned : Stage → List Peer
  | .looking call => call.lookup.tasks
  | _ => []

namespace Cluster

/-- Nobody is known twice, in a table, in a lookup or in a reply. -/
def distinct (d : Deployment SocketAddr) : Assertion SocketAddr where
  node a s := Held (d.config a).k (d.localPeer a) s.routingTable
  stage _ _ stage := ∀ call, stage = .looking call → Apart d.parse call
  call _ _ _ := True
  reply _ _ _ reply := Distinct reply

section Stable

variable {d : Deployment SocketAddr} {a : SocketAddr} {operation : Operation}

theorem distinct_turned {s : DHTServer} {stage : Stage} {turn : Turn SocketAddr}
    (hs : (distinct d).node a s) (hstage : (distinct d).stage a operation stage)
    (h : d.Turned a s operation stage turn) :
    (distinct d).node a turn.server ∧ (distinct d).stage a operation turn.stage := by
  refine ⟨h.routingTable (fun p t t' r ht hu => (ht.updated_of_update hu).2.2) hs, ?_⟩
  intro call hcall
  cases h with
  | panicked e => cases hcall
  | introduced htargets => cases hcall
  | pinged hreported htargets => cases hcall
  | bootstrapped htable => cases hcall
  | storing htargets => cases hcall
  | stored => cases hcall
  | missed => cases hcall
  | hit hv =>
      obtain rfl := Stage.looking.inj hcall
      exact apart_hit _
  | started hcandidates =>
      obtain rfl := Stage.looking.inj hcall
      exact apart_start _ _ (hs.wellFormed.nodup_kNearestPeers hcandidates)
  | received hstep =>
      obtain rfl := Stage.looking.inj hcall
      exact (hstage _ rfl).step (by rintro p r ⟨⟩) hstep

theorem distinct_served {call : RemoteCall SocketAddr} {point : Point} {s : DHTServer}
    {out : EStateM.Result Panic DHTServer (Point ⊕ Message)}
    (hs : (distinct d).node call.target s) (h : AtomicStepped call.request s point out) :
    (distinct d).node call.target (stateAfter out) ∧
      ∀ reply s', out = .ok (.inr reply) s' → (distinct d).reply a operation call reply := by
  have hnode : (distinct d).node call.target (stateAfter out) :=
    h.routingTable (fun p t r _ hu => (hs.updated_of_update hu).2.2) hs
  refine ⟨hnode, ?_⟩
  rintro reply s' rfl
  rcases h.closerPeers with hnil | ⟨target, peers, hpeers, rfl⟩
  · exact distinct_nil hnil
  · exact distinct_createFindNodeResponse (hnode.wellFormed.nodup_kNearestPeers hpeers)

theorem distinct_heard {slot : Slot} {result : Except IoError Message} {stage stage' : Stage}
    (hstage : (distinct d).stage a operation stage)
    (hresult : ∀ reply, result = .ok reply → Distinct reply)
    (h : d.Heard a operation slot result stage stage') :
    (distinct d).stage a operation stage' := by
  intro call hcall
  cases h with
  | ignored => exact hstage call hcall
  | introduced i => cases hcall
  | pinged i => cases hcall
  | stored i => cases hcall
  | queried hoperation hstep =>
      obtain rfl := Stage.looking.inj hcall
      refine (hstage _ rfl).step ?_ hstep
      rintro p r hevent reply rfl
      obtain ⟨rfl, rfl⟩ := Event.send.inj hevent
      exact hresult reply rfl

theorem distinct_stable (d : Deployment SocketAddr) :
    Stable (distinct d) d (fun _ _ => True) (fun _ _ _ _ => True) where
  fresh a := held_new _ _
  begun _ _ _ call hcall := by cases hcall
  turned _ _ _ _ _ hs hstage h :=
    ⟨(distinct_turned hs hstage h).1, (distinct_turned hs hstage h).2, fun _ _ => trivial⟩
  served _ _ _ _ _ _ _ hs _ h := distinct_served hs h
  heard _ _ _ _ _ _ hstage _ hresult h :=
    distinct_heard hstage (fun reply hok => (hresult reply hok).1) h
  lost a key p call call' hstage hstep c hc := by
    obtain rfl := Stage.looking.inj hc
    exact (hstage call rfl).step (by rintro p r ⟨⟩) hstep

end Stable

/-! ### The requests of a lookup -/

/-- How many requests the queries of a task have sent to a peer. -/
def requests (exchanges : List (Exchange SocketAddr)) (id : ℕ) (p : Peer) : ℕ :=
  (exchanges.map fun x => (x.caller, x.slot)).count (id, .query p)

/-- No task has sent a peer more requests than it has queried it. -/
def Frugal (c : Cluster SocketAddr) : Prop :=
  ∀ id task, c.tasks[id]? = some task →
    ∀ p, requests c.exchanges id p ≤ task.stage.queried.count p

section Requests

variable {d : Deployment SocketAddr} {a : SocketAddr} {operation : Operation}

theorem requests_issue (exchanges : List (Exchange SocketAddr)) (id id' : ℕ)
    (calls : List (RemoteCall SocketAddr)) (p : Peer) :
    requests (exchanges ++ calls.map (RemoteCall.issue id')) id p =
      requests exchanges id p +
        if id' = id then (calls.map RemoteCall.slot).count (.query p) else 0 := by
  rw [requests, List.map_append, List.count_append, List.map_map]
  refine congrArg (requests exchanges id p + ·) ?_
  split
  · rename_i hid
    subst hid
    rw [List.count_eq_countP, List.count_eq_countP, List.countP_map, List.countP_map]
    refine List.countP_congr fun call _ => ?_
    simp [RemoteCall.issue]
  · rename_i hid
    rw [List.count_eq_zero]
    intro hmem
    obtain ⟨call, -, hcall⟩ := List.mem_map.mp hmem
    exact hid (congrArg Prod.fst hcall)

theorem requests_set {exchanges : List (Exchange SocketAddr)} {i : ℕ} {x y : Exchange SocketAddr}
    (hx : exchanges[i]? = some x) (hcaller : y.caller = x.caller) (hslot : y.slot = x.slot)
    (id : ℕ) (p : Peer) : requests (exchanges.set i y) id p = requests exchanges id p := by
  obtain ⟨hi, rfl⟩ := List.getElem?_eq_some_iff.mp hx
  rw [requests, requests, List.map_set, hcaller, hslot]
  refine congrArg (List.count _) ?_
  rw [← List.getElem_map (fun x : Exchange SocketAddr => (x.caller, x.slot))
    (h := by simpa using hi), List.set_getElem_self]

theorem count_joined {f : ℕ → Slot} {p : Peer} (hf : ∀ i, f i ≠ .query p) (rpc : Rpc)
    (request : Message) (targets : List SocketAddr) :
    ((Deployment.joined f rpc request targets).map RemoteCall.slot).count (.query p) = 0 := by
  rw [List.count_eq_zero]
  intro hmem
  obtain ⟨call, hcall, hslot⟩ := List.mem_map.mp hmem
  obtain ⟨⟨target, i⟩, -, rfl⟩ := List.mem_map.mp hcall
  exact hf i hslot

theorem count_slot_queries (key : U128) (ps : List Peer) (p : Peer) :
    ((d.queries a key ps).map RemoteCall.slot).count (.query p) ≤ ps.count p := by
  induction ps with
  | nil => exact Nat.zero_le _
  | cons q ps ih =>
      rw [Deployment.queries] at ih ⊢
      rw [List.filterMap_cons]
      cases d.parse q.address with
      | none => exact ih.trans (List.count_le_count_cons)
      | some target =>
          rw [Option.map_some, List.map_cons]
          by_cases hq : q = p
          · subst hq
            rw [List.count_cons_self, List.count_cons_self]
            exact Nat.succ_le_succ ih
          · rw [List.count_cons_of_ne fun h => hq (Slot.query.inj h), List.count_cons_of_ne hq]
            exact ih

theorem queried_start (client : DHTClient) (key : U128) (candidates : List Peer) :
    (client.start key candidates).lookup.queried = (client.start key candidates).lookup.tasks := by
  by_cases hc : candidates = []
  · rw [start, loopHead_of_nil client key hc]
  · rw [start, loopHead_of_ne_nil client key hc]

/-- A turn spawns the queries of some peers, and sends a request to nobody but
them. -/
theorem spawned_turned {s : DHTServer} {stage : Stage} {turn : Turn SocketAddr}
    (hstage : ∀ call, stage = .looking call → CallInv d.parse call)
    (h : d.turn a operation s stage = some turn) :
    ∃ ps, turn.stage.queried = stage.queried ++ ps ∧ turn.stage.spawned = stage.spawned ++ ps ∧
      ∀ p, (turn.calls.map RemoteCall.slot).count (.query p) ≤ ps.count p := by
  have hjoined {f : ℕ → Slot} (hf : ∀ i p, f i ≠ .query p) (rpc : Rpc) (request : Message)
      (targets : List SocketAddr) (p : Peer) : ((Deployment.joined f rpc request targets).map
        RemoteCall.slot).count (.query p) ≤ ([] : List Peer).count p :=
    (count_joined (fun i => hf i p) rpc request targets).le
  have hturned := Deployment.turn_turned h
  cases hturned with
  | introduced htargets => exact ⟨[], rfl, rfl, hjoined (f := .introduction) (by simp) _ _ _⟩
  | pinged hreported htargets => exact ⟨[], rfl, rfl, hjoined (f := .ping) (by simp) _ _ _⟩
  | storing htargets => exact ⟨[], rfl, rfl, hjoined (f := .store) (by simp) _ _ _⟩
  | bootstrapped htable => exact ⟨[], rfl, rfl, fun p => le_rfl⟩
  | stored => exact ⟨[], rfl, rfl, fun p => le_rfl⟩
  | missed => exact ⟨[], rfl, rfl, fun p => le_rfl⟩
  | hit hv => exact ⟨[], rfl, rfl, fun p => le_rfl⟩
  | started hcandidates =>
      rename_i key candidates
      exact ⟨_, queried_start (d.client a) key candidates, rfl, count_slot_queries key _⟩
  | received hstep =>
      rename_i key call call'
      obtain ⟨-, ps, htasks, hqueried⟩ := queries_of_recv (hstage call rfl) hstep
      refine ⟨ps, hqueried, htasks, fun p => ?_⟩
      rw [htasks, List.drop_left]
      exact count_slot_queries key ps p
  | panicked e =>
      cases stage with
      | looking call => exact absurd rfl (Deployment.not_looking_of_panicked h call)
      | _ => exact ⟨[], rfl, rfl, fun p => le_rfl⟩

theorem queried_heard {slot : Slot} {result : Except IoError Message} {stage stage' : Stage}
    (h : d.Heard a operation slot result stage stage') : stage'.queried = stage.queried := by
  cases h with
  | queried hoperation hstep =>
      obtain ⟨-, hstepped⟩ := step_stepped hstep
      cases hstepped with
      | sent p r hp hparse => rfl
  | _ => rfl

end Requests

section Runs

variable [DecidableEq SocketAddr] {d : Deployment SocketAddr} {c c' : Cluster SocketAddr}

omit [DecidableEq SocketAddr] in
theorem frugal_set (h : Frugal c) {id : ℕ} {task : Task SocketAddr} {stage : Stage}
    {nodes : Network SocketAddr} {exchanges : List (Exchange SocketAddr)}
    (hother : ∀ id' p, id' ≠ id → requests exchanges id' p = requests c.exchanges id' p)
    (hstage : ∀ p, requests exchanges id p ≤ stage.queried.count p) :
    Frugal
      { nodes := nodes
        tasks := c.tasks.set id { task with stage := stage }
        exchanges := exchanges } :=
  forall_set (fun id' t hid ht p => (hother id' p hid).trans_le (h id' t ht p)) hstage

omit [DecidableEq SocketAddr] in
theorem answer_frugal (h : Frugal c) {i : ℕ} {x : Exchange SocketAddr}
    (hx : c.exchanges[i]? = some x) {result : Except IoError Message}
    (hanswer : answer d c i x result = some c') : Frugal c' := by
  obtain ⟨task, htask, rfl⟩ := answer_eq_some hanswer
  have hsame (id : ℕ) (p : Peer) := requests_set hx (y := { x with awaited := false }) rfl rfl id p
  refine frugal_set h (fun id p _ => hsame id p) fun p => ?_
  rw [hsame, queried_heard (d.hear_heard task.node task.operation x.slot result task.stage)]
  exact h _ task htask p

/-- **One event** sends no more requests than there are queries. -/
theorem frugal_step (hc : Meets (distinct d) c) (h : Frugal c)
    {event : ClusterEvent SocketAddr} (hstep : step d c event = some c') : Frugal c' := by
  cases event with
  | begin a operation =>
      obtain rfl := Option.some.inj hstep
      intro id task htask p
      by_cases hid : id < c.tasks.length
      · rw [List.getElem?_append_left hid] at htask
        exact h id task htask p
      · -- a task that is new has sent nothing
        refine (Nat.le_of_eq (List.count_eq_zero.mpr fun hmem => ?_)).trans (Nat.zero_le _)
        obtain ⟨x, hx, hcaller⟩ := List.mem_map.mp hmem
        obtain ⟨task', htask', -⟩ := hc.exchanges x hx
        obtain rfl : x.caller = id := congrArg Prod.fst hcaller
        exact hid (List.getElem?_eq_some_iff.mp htask').1
  | advance id =>
      obtain ⟨task, htask, hstep⟩ := Option.bind_eq_some_iff.mp hstep
      obtain ⟨turn, hturn, hstep⟩ := Option.bind_eq_some_iff.mp hstep
      obtain rfl := Option.some.inj hstep
      refine frugal_set h (fun id' p hid => ?_) fun p => ?_
      · rw [requests_issue, if_neg (Ne.symm hid), Nat.add_zero]
      · rw [requests_issue, if_pos rfl]
        obtain ⟨ps, hqueried, -, hcount⟩ := spawned_turned (fun call hcall =>
          (hc.tasks task (List.mem_of_getElem? htask) call hcall).inv) hturn
        rw [hqueried, List.count_append]
        exact Nat.add_le_add (h id task htask p) (hcount p)
  | lose id q =>
      obtain ⟨task, stage, htask, hlose, rfl⟩ := lose_eq_some hstep
      obtain ⟨key, call, call', -, hlooking, hdie, rfl⟩ := Deployment.lose_eq_some hlose
      refine frugal_set h (fun _ _ _ => rfl) fun p => ?_
      have hbefore := h id task htask p
      rw [hlooking] at hbefore
      obtain ⟨-, hstepped⟩ := step_stepped hdie
      cases hstepped with
      | died p hp hparse => exact hbefore
  | serve i =>
      obtain ⟨x, point, hx, -, rfl⟩ := serve_eq_some hstep
      intro id task htask p
      have hsame := requests_set hx (y := { x with
        progress := progressAfter (atomicStep x.request point (c.nodes x.target)) }) rfl rfl id p
      exact hsame.trans_le (h id task htask p)
  | deliver i =>
      obtain ⟨x, reply, hx, -, hanswer⟩ := deliver_eq_some hstep
      exact answer_frugal h hx hanswer
  | fail i error =>
      obtain ⟨x, hx, hanswer⟩ := Option.bind_eq_some_iff.mp hstep
      exact answer_frugal h hx hanswer

theorem distinct_run {events : List (ClusterEvent SocketAddr)}
    (hrun : Run.run (step d) (new d) events = some c) : Meets (distinct d) c ∧ Frugal c := by
  have hstable := distinct_stable d
  refine Run.run_invariant (I := fun c => Meets (distinct d) c ∧ Frugal c) ?_
    ⟨⟨hstable.fresh, by simp [new], by simp [new]⟩, by simp [Frugal, new]⟩ hrun
  rintro c event c' ⟨hc, h⟩ hstep
  refine ⟨hstable.step hc ?_ hstep, frugal_step hc h hstep⟩
  cases event with
  | deliver i => exact fun _ _ _ _ _ _ => trivial
  | _ => trivial

end Runs

/-- **Nobody is asked twice.** In every run of nodes of this code, a lookup knows
nobody twice, has sent at most one request to each peer, and has queried no more
peers than those that the nodes that were asked for something are configured
with, their own among them. -/
theorem queries_once [DecidableEq SocketAddr] (d : Deployment SocketAddr)
    (events : List (ClusterEvent SocketAddr)) (c : Cluster SocketAddr)
    (hrun : Run.run (step d) (new d) events = some c)
    (id : ℕ) (task : Task SocketAddr) (htask : c.tasks[id]? = some task)
    (call : Call) (hstage : task.stage = .looking call) :
    (call.lookup.queried ++ call.lookup.candidates).Nodup ∧
      (∀ p, (c.exchanges.filter fun x => x.caller = id ∧ x.slot = .query p).length ≤ 1) ∧
      ∀ U : Finset Peer, d.Configured (Asked c) (· ∈ U) → call.lookup.queried.length ≤ U.card := by
  obtain ⟨hmeets, hfrugal⟩ := distinct_run hrun
  have hmem := List.mem_of_getElem? htask
  have hseen := (hmeets.tasks task hmem call hstage).seen
  have hnodup : call.lookup.queried.Nodup := (List.nodup_append.mp hseen).1
  refine ⟨hseen, fun p => ?_, fun U hU => ?_⟩
  · have hcount := hfrugal id task htask p
    rw [hstage] at hcount
    refine le_trans (le_of_eq ?_) (hcount.trans (List.nodup_iff_count_le_one.mp hnodup p))
    rw [requests, List.count_eq_countP, List.countP_map, ← List.countP_eq_length_filter]
    refine List.countP_congr fun x _ => ?_
    simp
  · have hknown := (known_run hU (fun _ ha => ha) hrun).tasks task hmem
    rw [hstage] at hknown
    have hall : ∀ p ∈ call.lookup.queried, p ∈ U := fun p hp =>
      Knows.seen hknown.2 p (List.mem_append_left _ hp)
    rw [← List.toFinset_card_of_nodup hnodup]
    exact Finset.card_le_card fun p hp => hall p (List.mem_toFinset.mp hp)

/-- The lookup that has queried both nodes. -/
theorem queries_once_wandering : ∃ c,
    Run.run (step pair) (new pair) ((joining ++ keeping) ++ wandering) = some c ∧
      (wanderedCall.lookup.queried ++ wanderedCall.lookup.candidates).Nodup ∧
      (∀ p, (c.exchanges.filter fun x => x.caller = 2 ∧ x.slot = .query p).length ≤ 1) ∧
      ∀ U : Finset Peer, pair.Configured (Asked c) (· ∈ U) →
        wanderedCall.lookup.queried.length ≤ U.card := by
  obtain ⟨c, hwandering, htask⟩ := wandering_run
  have hrun : Run.run (step pair) (new pair) ((joining ++ keeping) ++ wandering) = some c := by
    rw [Run.run_append, kept_run, Option.bind_some, hwandering]
  exact ⟨c, hrun, queries_once pair _ c hrun 2 _ htask wanderedCall rfl⟩

end Cluster

end DhtKad
