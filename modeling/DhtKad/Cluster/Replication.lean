import DhtKad.Cluster.SmallNetwork

/-!
Where a store leaves its value.

`store` asks the nearest peers it knows and waits for all of them. In a small
network whose nodes know each other these are all other nodes, and each of them
holds the key when it answers (`Replicates`): so if no call fails, a store
returns `Ok` and leaves the value everywhere else (`stores_replicate`). Then it
does not matter what fails afterwards: a lookup that begins later finds a value
if anybody answers it who is not the node that made the store
(`replicated_value_found`).
-/

namespace DhtKad

open RoutingTable DHTServer DHTClient

variable {SocketAddr : Type}

theorem accepts_of_code {reply : Message} (h : reply.code = .new .ok) : Accepts reply := by
  rw [Accepts, h]
  decide

namespace Cluster

/-- Every reply counts as a success. -/
def accepted (SocketAddr : Type) : Record SocketAddr where
  task _ _ _ _ _ := True
  call _ _ _ _ _ progress := ∀ reply, progress = .replied reply → Accepts reply

section Accepted

variable {d : Deployment SocketAddr} {S : SocketAddr → Prop} {P : Peer → Prop}

/-- A node answers with an error code only if it cannot tell who has sent the
request. -/
theorem accepts_of_served {message : Message} {s : DHTServer} {point : Point}
    {out : EStateM.Result Panic DHTServer (Point ⊕ Message)} {p : Peer}
    (hsent : SentBy message p) (h : AtomicStepped message s point out) {reply : Message}
    (hreply : progressAfter out = .replied reply) : Accepts reply := by
  cases h with
  | invalid hvalid => exact absurd hsent.1 (by simp [hvalid])
  | notRecorded hvalid => cases hreply
  | recorded hnext hsent' hupdate =>
      rename_i rpc next p' t r
      cases rpc with
      | ping =>
          obtain rfl := Option.some.inj hnext
          obtain rfl := Progress.replied.inj hreply
          exact accepts_of_code rfl
      | store =>
          obtain rfl := Option.some.inj hnext
          cases hreply
      | findValue =>
          obtain rfl := Option.some.inj hnext
          cases hreply
      | findNode => cases hnext
  | put =>
      obtain rfl := Progress.replied.inj hreply
      exact accepts_of_code rfl
  | nodesFound hsent' hupdate hkey hpeers =>
      obtain rfl := Progress.replied.inj hreply
      exact accepts_of_code rfl
  | nodesPanic hsent' hupdate => cases hreply
  | hit hvalue =>
      obtain rfl := Progress.replied.inj hreply
      exact accepts_of_code rfl
  | miss hvalue => cases hreply

theorem accepted_lasting [DecidableEq SocketAddr] (hnamed : ∀ a, d.toString a ≠ "") :
    Lasting (known d S P) (accepted SocketAddr) d where
  task_grows _ _ _ _ _ _ _ _ _ _ := trivial
  call_grows _ _ _ _ _ _ _ _ _ _ h := h
  begun _ _ _ _ := trivial
  turned _ _ _ _ _ _ _ _ _ _ := ⟨trivial, by simp [accepted]⟩
  served _ _ a _ _ _ _ hcall _ _ _ hout _ hreply :=
    accepts_of_served (sentBy_of_peer (hnamed a) hcall.2.1.myself)
      (hout ▸ atomicStep_stepped _ _ _) hreply
  heard _ _ _ _ _ _ _ _ _ _ _ _ _ := trivial
  lost _ _ _ _ _ _ _ _ _ _ := trivial

end Accepted

/-! ### A store without failures -/

/-- What a store has achieved that the node `a` makes with the task `id`: each of
the other nodes has a result of its own, and `W` is true of it once that is in. -/
def Replicates (S W : SocketAddr → Prop) (c : Cluster SocketAddr) (id : ℕ) (a : SocketAddr) :
    Stage → Prop
  | .begun => ∀ x ∈ c.exchanges, x.caller ≠ id
  | .storing results =>
      (∀ r, some r ∈ results → ∃ reply, r = .ok reply ∧ Accepts reply) ∧
        ∀ b, S b → b ≠ a → ∃ i < results.length,
          (∀ x ∈ c.exchanges, x.caller = id → x.slot = .store i → x.target = b) ∧
            ∀ r, results[i]? = some (some r) → W b
  | .stored result => ∀ b, S b → b ≠ a → result = .ok () ∧ W b
  | _ => True

section Replicates

variable {d : Deployment SocketAddr} {S W W' : SocketAddr → Prop} {c c' : Cluster SocketAddr}
  {id : ℕ} {a : SocketAddr} {key : U128} {value : Bytes} {stage : Stage}

theorem Replicates.mono (h : Replicates S W c id a stage)
    (hexchanges : ∀ x' ∈ c'.exchanges, x'.caller = id → ∃ x ∈ c.exchanges,
      x'.toRemoteCall = x.toRemoteCall ∧ x'.caller = x.caller)
    (hW : ∀ b, W b → W' b) : Replicates S W' c' id a stage := by
  cases stage with
  | begun =>
      intro x' hx' hcaller
      obtain ⟨x, hx, -, hsame⟩ := hexchanges x' hx' hcaller
      exact h x hx (hsame.symm.trans hcaller)
  | storing results =>
      obtain ⟨hin, hcover⟩ := h
      refine ⟨hin, fun b hb hne => ?_⟩
      obtain ⟨i, hi, htarget, hreached⟩ := hcover b hb hne
      refine ⟨i, hi, fun x' hx' hcaller hslot => ?_, fun r hr => hW b (hreached r hr)⟩
      obtain ⟨x, hx, hcall, hsame⟩ := hexchanges x' hx' hcaller
      rw [hcall] at hslot ⊢
      exact htarget x hx (hsame.symm.trans hcaller) hslot
  | stored result => exact fun b hb hne => ⟨(h b hb hne).1, hW b (h b hb hne).2⟩
  | _ => trivial

theorem storeResult_eq_ok {results : List (Except IoError Message)} (hne : results ≠ [])
    (hall : ∀ r ∈ results, ∃ reply, r = .ok reply ∧ Accepts reply) :
    storeResult results = .ok () := by
  obtain ⟨r, hr⟩ := List.exists_mem_of_ne_nil results hne
  have hnone : failure r = none := (failure_eq_none_iff r).mpr (hall r hr)
  rw [storeResult_eq, if_neg fun hfail => ?_]
  simpa [hnone] using hfail r hr

theorem not_mem_of_storing {s : DHTServer} {turn : Turn SocketAddr} {results : Results}
    (h : d.turn a (.store key value) s (.storing results) = some turn) : none ∉ results := by
  intro hnone
  simp [Deployment.turn, Deployment.storeTurn, Deployment.caught, hnone] at h

theorem replicates_turned (hd : d.Connected S) (hfits : d.Fits S) (ha : S a)
    (hnode : (known d S (d.Node S)).node a (c.nodes a))
    (heveryone : d.Everyone S a (c.nodes a).routingTable.peers) {turn : Turn SocketAddr}
    (h : d.turn a (.store key value) (c.nodes a) stage = some turn)
    (hbefore : Replicates S W c id a stage)
    (hexchanges : c'.exchanges = c.exchanges ++ turn.calls.map (RemoteCall.issue id))
    (hW : ∀ b, W b → W' b) : Replicates S W' c' id a turn.stage := by
  have hturned := Deployment.turn_turned h
  cases hturned with
  | panicked e => trivial
  | storing htargets =>
      rename_i targets
      obtain ⟨ps, hps, htargets⟩ := ExceptList.bind_eq_ok_iff.mp htargets
      refine ⟨by simp, fun b hb hne => ?_⟩
      have hmem : d.localPeer b ∈ ps :=
        hfits.peers_subset_nearest ha hnode hps (heveryone b hb hne)
      have htarget : b ∈ targets := (ExceptList.mem_of_mapM htargets b).mpr
        ⟨_, hmem, parseAddress_eq_ok_iff.mpr (hd.text b)⟩
      obtain ⟨i, hi⟩ := List.mem_iff_getElem?.mp htarget
      refine ⟨i, by simpa using (List.getElem?_eq_some_iff.mp hi).1, fun x hx hcaller hslot => ?_,
        fun r hr => ?_⟩
      · rw [hexchanges] at hx
        rcases List.mem_append.mp hx with hx | hx
        · exact absurd hcaller (hbefore x hx)
        · obtain ⟨call, hcall, rfl⟩ := List.mem_map.mp hx
          obtain ⟨⟨target, j⟩, hj, rfl⟩ := List.mem_map.mp hcall
          obtain rfl := Slot.store.inj hslot
          exact Option.some.inj ((List.mem_zipIdx_iff_getElem?.mp hj).symm.trans hi)
      · rw [List.getElem?_map, hi] at hr
        cases hr
  | stored =>
      rename_i results
      obtain ⟨hin, hcover⟩ := hbefore
      have hnone := not_mem_of_storing h
      intro b hb hne
      obtain ⟨i, hi, -, hreached⟩ := hcover b hb hne
      obtain ⟨r, hr⟩ := Option.ne_none_iff_exists'.mp fun ho => hnone (ho ▸ List.getElem_mem hi)
      have hget : results[i]? = some (some r) := by rw [List.getElem?_eq_getElem hi, hr]
      have hmem : r ∈ results.reduceOption :=
        List.reduceOption_mem_iff.mpr (List.mem_of_getElem? hget)
      exact ⟨storeResult_eq_ok (List.ne_nil_of_mem hmem) fun r hr =>
          hin r (List.reduceOption_mem_iff.mp hr),
        hW b (hreached r hget)⟩

theorem replicates_heard {operation : Operation} {x : Exchange SocketAddr} (hx : x ∈ c.exchanges)
    (hcaller : x.caller = id) {reply : Message} (haccepts : Accepts reply) (hreached : W x.target)
    (h : Replicates S W c id a stage) :
    Replicates S W c id a (d.hear a operation x.slot (.ok reply) stage) := by
  cases stage with
  | storing results =>
      cases hslot : x.slot with
      | store i =>
          obtain ⟨hin, hcover⟩ := h
          refine ⟨fun r hr => ?_, fun b hb hne => ?_⟩
          · rcases List.mem_or_eq_of_mem_set hr with hr | hr
            · exact hin r hr
            · exact ⟨reply, Option.some.inj hr, haccepts⟩
          · obtain ⟨j, hj, htarget, hW⟩ := hcover b hb hne
            refine ⟨j, by simpa using hj, htarget, fun r hr => ?_⟩
            by_cases hij : i = j
            · subst hij
              exact htarget x hx hcaller hslot ▸ hreached
            · rw [List.getElem?_set_ne hij] at hr
              exact hW r hr
      | _ => exact h
  | introducing results => cases x.slot <;> trivial
  | pinging alivePeers candidatePeers results => cases x.slot <;> trivial
  | looking call => cases operation <;> cases x.slot <;> trivial
  | _ => exact h

end Replicates

section Runs

variable [DecidableEq SocketAddr] {d : Deployment SocketAddr} {S : SocketAddr → Prop}
  {c c' : Cluster SocketAddr} {n : ℕ} {event : ClusterEvent SocketAddr}

/-- A network whose nodes know each other. -/
structure Linked (d : Deployment SocketAddr) (S : SocketAddr → Prop) (c : Cluster SocketAddr) :
    Prop where
  known : Meets (known d S (d.Node S)) c
  accepted : (accepted SocketAddr).Holds c
  everyone : ∀ a, S a → d.Everyone S a (c.nodes a).routingTable.peers

theorem Linked.step (hd : d.Connected S) (h : Linked d S c) (hasks : Asks S event)
    (hstep : step d c event = some c') : Linked d S c' where
  known := known_step hd.configured h.known hasks hstep
  accepted := (accepted_lasting hd.named).step h.known h.accepted hstep
  everyone a ha b hb hne := ((grows_of_step hstep a).routingTable
    (fun t => Held (d.config a).k (d.localPeer a) t ∧ d.localPeer b ∈ t.peers)
    (fun _ _ _ _ ht hu => ⟨(ht.1.updated_of_update hu).2.2, peers_subset_of_update ht.1 hu _ ht.2⟩)
    ⟨known_held (h.known.nodes a), h.everyone a ha b hb hne⟩).2

theorem holds_of_run (hd : d.Connected S) {R : Record SocketAddr}
    (hR : Lasting (known d S (d.Node S)) R d) {events : List (ClusterEvent SocketAddr)}
    (hrun : Run.run (step d) (new d) events = some c) (hS : ∀ a, Asked c a → S a) : R.Holds c :=
  (hR.run (Q := fun _ event => Asks S event)
    (fun _ _ _ hc hasks hstep => known_step hd.configured hc hasks hstep)
    (known_new hd.configured) (holds_new R d)
    (Run.along_of_forall_mem (fun event hevent _ => asks_of_run hS hrun event hevent) _) hrun).2

/-- The stores with a number from `n` on replicate. -/
def AllReplicate (S : SocketAddr → Prop) (W : U128 → SocketAddr → Prop) (n : ℕ)
    (c : Cluster SocketAddr) : Prop :=
  ∀ id task, n ≤ id → c.tasks[id]? = some task → ∀ key value,
    task.operation = .store key value → Replicates S (W key) c id task.node task.stage

/-- **One event.** If `W` stays true and is true of everyone who has answered a
store, the stores go on to replicate. -/
theorem AllReplicate.step {W W' : U128 → SocketAddr → Prop} (h : AllReplicate S W n c)
    (hd : d.Connected S) (hfits : d.Fits S) (hlinked : Linked d S c)
    (hW : ∀ key b, W key b → W' key b)
    (hreached : ∀ x ∈ c.exchanges, ∀ task, n ≤ x.caller → c.tasks[x.caller]? = some task →
      ∀ key value, task.operation = .store key value →
      ∀ reply, x.progress = .replied reply → Accepts reply → W key x.target)
    (hfail : Unfailing event) (hstep : Cluster.step d c event = some c') :
    AllReplicate S W' n c' := by
  intro id t hid ht key value hoperation
  -- a task that is not concerned
  have hother (hne : event ≠ .advance id) {stage : Stage}
      (hstage : Replicates S (W key) c id t.node stage) :
      Replicates S (W' key) c' id t.node stage := by
    refine hstage.mono (fun x' hx' hcaller => ?_) (hW key)
    rcases exchange_origin hstep hx' with ⟨x, hx, hcall, hsame, -⟩ |
      ⟨i, x, point, -, hx, -, hcall, hsame, -, -⟩ | ⟨_, _, hadvance, -⟩
    · exact ⟨x, hx, hcall, hsame⟩
    · exact ⟨x, List.mem_of_getElem? hx, hcall, hsame⟩
    · exact absurd (hcaller ▸ hadvance) hne
  cases event with
  | begin a operation =>
      obtain rfl := Option.some.inj hstep
      by_cases hlt : id < c.tasks.length
      · rw [List.getElem?_append_left hlt] at ht
        exact hother (by simp) (h id t hid ht key value hoperation)
      · rw [List.getElem?_append_right (Nat.not_lt.mp hlt)] at ht
        obtain rfl := List.mem_singleton.mp (List.mem_of_getElem? ht)
        rintro x hx rfl
        obtain ⟨task, htask, -⟩ := hlinked.known.exchanges x hx
        exact hlt (List.getElem?_eq_some_iff.mp htask).1
  | advance j =>
      obtain ⟨task, htask, hstep'⟩ := Option.bind_eq_some_iff.mp hstep
      obtain ⟨turn, hturn, hstep'⟩ := Option.bind_eq_some_iff.mp hstep'
      obtain rfl := Option.some.inj hstep'
      rcases getElem?_set_task ht with ⟨rfl, rfl⟩ | ⟨hne, ht⟩
      · have hstore : task.operation = .store key value := hoperation
        have ha := (hlinked.known.tasks task (List.mem_of_getElem? htask)).1
        rw [hstore] at hturn
        exact replicates_turned hd hfits ha (hlinked.known.nodes task.node)
          (hlinked.everyone task.node ha) hturn (h id task hid htask key value hoperation) rfl
          (hW key)
      · refine hother ?_ (h id t hid ht key value hoperation)
        rintro heq
        exact hne (ClusterEvent.advance.inj heq).symm
  | lose j p =>
      obtain ⟨task, stage, htask, hlose, rfl⟩ := lose_eq_some hstep
      obtain ⟨key', call, call', hfind, -⟩ := Deployment.lose_eq_some hlose
      rcases getElem?_set_task ht with ⟨rfl, rfl⟩ | ⟨-, ht⟩
      · cases hfind.symm.trans hoperation
      · exact hother (by simp) (h id t hid ht key value hoperation)
  | serve i =>
      obtain ⟨x, point, -, -, rfl⟩ := serve_eq_some hstep
      exact hother (by simp) (h id t hid ht key value hoperation)
  | deliver i =>
      obtain ⟨x, reply, hx, hprogress, hanswer⟩ := deliver_eq_some hstep
      obtain ⟨task, htask, rfl⟩ := answer_eq_some hanswer
      have hmem := List.mem_of_getElem? hx
      rcases getElem?_set_task ht with ⟨rfl, rfl⟩ | ⟨-, ht⟩
      · have haccepts := hlinked.accepted.calls x hmem task htask reply hprogress
        exact hother (by simp) (replicates_heard hmem rfl haccepts
          (hreached x hmem task hid htask key value hoperation reply hprogress haccepts)
          (h _ task hid htask key value hoperation))
      · exact hother (by simp) (h id t hid ht key value hoperation)
  | fail i error => exact absurd rfl (hfail i error)

omit [DecidableEq SocketAddr] in
theorem allReplicate_length (S : SocketAddr → Prop) (W : U128 → SocketAddr → Prop)
    (c : Cluster SocketAddr) : AllReplicate S W c.tasks.length c := fun _ _ hid htask =>
  absurd (List.getElem?_eq_some_iff.mp htask).1 (not_lt.mpr hid)

theorem linked_run (hd : d.Connected S) {events : List (ClusterEvent SocketAddr)}
    (hrun : Run.run (Cluster.step d) (new d) events = some c) (hS : ∀ a, Asked c a → S a)
    (hknown : ∀ a, S a → d.Everyone S a (c.nodes a).routingTable.peers) : Linked d S c :=
  ⟨known_run hd.configured hS hrun, holds_of_run hd (accepted_lasting hd.named) hrun hS, hknown⟩

/-- What a small network keeps whose nodes know each other, as long as no call
fails. -/
structure Replicating (d : Deployment SocketAddr) (S : SocketAddr → Prop) (n : ℕ)
    (c : Cluster SocketAddr) : Prop where
  linked : Linked d S c
  successes : (successes fun _ => True).Holds c
  stores : AllReplicate S (fun key b => Holds c.nodes b key) n c

theorem Replicating.step (hd : d.Connected S) (hfits : d.Fits S) (h : Replicating d S n c)
    (hasks : Asks S event) (hfail : Unfailing event) (hstep : Cluster.step d c event = some c') :
    Replicating d S n c' := by
  refine ⟨h.linked.step hd hasks hstep,
    (successes_lasting S fun _ _ _ _ => trivial).step h.linked.known h.successes hstep,
    h.stores.step hd hfits h.linked (fun key b hholds => (grows_of_step hstep b).kvstore _ hholds)
      (fun x hx task _ htask key value hoperation => ?_) hfail hstep⟩
  have hcall := h.successes.calls x hx task htask
  rwa [hoperation] at hcall

theorem replicating_run (hd : d.Connected S) (hfits : d.Fits S)
    {events more : List (ClusterEvent SocketAddr)}
    (hrun : Run.run (Cluster.step d) (new d) events = some c)
    (hmore : Run.run (Cluster.step d) c more = some c') (hS : ∀ a, Asked c' a → S a)
    (hknown : ∀ a, S a → d.Everyone S a (c.nodes a).routingTable.peers)
    (hfail : ∀ i e, ClusterEvent.fail i e ∉ more) : Replicating d S c.tasks.length c' := by
  have hS₀ (a : SocketAddr) (ha : Asked c a) : S a := hS a (asked_run hmore ha)
  refine Run.run_invariant_along (P := fun _ event => Asks S event ∧ Unfailing event)
    (fun _ _ _ h hevent hstep => h.step hd hfits hevent.1 hevent.2 hstep)
    ⟨linked_run hd hrun hS₀ hknown,
      holds_of_run hd (successes_lasting S fun _ _ _ _ => trivial) hrun hS₀,
      allReplicate_length S _ c⟩
    (Run.along_of_forall_mem (fun event hevent _ =>
      ⟨asks_of_run hS hmore event hevent, unfailing_of_run hfail event hevent⟩) _) hmore

omit [DecidableEq SocketAddr] in
/-- A guidance that asks nothing of the tables. -/
def unguided (d : Deployment SocketAddr) (S : SocketAddr → Prop) (key : U128) :
    d.Guidance S key where
  table _ _ := True
  answer a _ := S a
  update _ _ _ := trivial
  answers ha _ _ _ := ha

/-- Where all nodes but one hold the key, a lookup that gives up runs at that one,
and nobody else has answered it. -/
theorem alone_of_error (hd : d.Connected S) {key : U128}
    {events later : List (ClusterEvent SocketAddr)}
    (hrun : Run.run (Cluster.step d) (new d) events = some c)
    (hlater : Run.run (Cluster.step d) c later = some c') (hS : ∀ a, Asked c' a → S a)
    (hkey : ∀ a, ClusterEvent.begin a (.store key []) ∉ events ++ later) {a : SocketAddr}
    (hholds : ∀ b, S b → b ≠ a → Holds c.nodes b key) {id : ℕ} (hid : c.tasks.length ≤ id)
    {task : Task SocketAddr} (htask : c'.tasks[id]? = some task)
    (hoperation : task.operation = .findValue key) {call : Call}
    (hstage : task.stage = .looking call) {e : RPCError}
    (hstatus : call.status = .returned (.error e)) :
    task.node = a ∧ ∀ q reply, (q, .ok reply) ∈ call.lookup.received → q = d.localPeer a := by
  obtain ⟨hmeets, hguided⟩ := guided_run (H := fun b => S b ∧ b ≠ a) hd (unguided d S key) hrun
    hlater hS hkey (fun _ _ => trivial) fun b hb => hholds b hb.1 hb.2
  have hknows := (hmeets.tasks task (List.mem_of_getElem? htask)).1.1
  rw [hstage] at hknows
  obtain ⟨hmiss, initial, -, hled⟩ :=
    (hguided.tasks id task htask hid hoperation).2 call hstage (.inr ⟨e, hstatus⟩)
  refine ⟨not_not.mp fun hne => hmiss ⟨hknows.1, hne⟩, fun q reply hreply => ?_⟩
  -- whoever has answered without a value is no holder
  obtain ⟨-, hnone⟩ := hled.gave_up (Knows.inv hknows.2) hstatus
  obtain ⟨b, hq, hno, _, -, hb⟩ := hled.received _ hreply reply rfl (hnone _ hreply)
  obtain rfl : b = a := not_not.mp fun hne => hno ⟨hb, hne⟩
  exact hq

end Runs

/-- **Replication.** In a small network take any run to a point at which every node
knows all others, and any run from there without failures. Every store that began
after that point and has returned has returned `Ok`, if there is another node, and
all other nodes hold the key, each with a value that was given to a store under
it. -/
theorem stores_replicate [DecidableEq SocketAddr] (d : Deployment SocketAddr)
    (S : SocketAddr → Prop) (hd : d.Connected S) (hfits : d.Fits S)
    (events more : List (ClusterEvent SocketAddr)) (c c' : Cluster SocketAddr)
    (hrun : Run.run (step d) (new d) events = some c)
    (hmore : Run.run (step d) c more = some c') (hS : ∀ a, Asked c' a → S a)
    (hknown : ∀ a, S a → d.Everyone S a (c.nodes a).routingTable.peers)
    (hfail : ∀ i e, ClusterEvent.fail i e ∉ more)
    (id : ℕ) (hid : c.tasks.length ≤ id) (task : Task SocketAddr)
    (htask : c'.tasks[id]? = some task) (key : U128) (value : Bytes)
    (hput : task.operation = .store key value) (result : Except RPCError Unit)
    (hstored : task.stage = .stored result) :
    ∀ b, S b → b ≠ task.node → result = .ok () ∧
      ∃ v, (c'.nodes b).kvstore.store (keyToBytes key) = some v ∧
        Issued (events ++ more) key v := by
  have hrun' : Run.run (step d) (new d) (events ++ more) = some c' := by
    rw [Run.run_append, hrun, Option.bind_some, hmore]
  have hstore := (replicating_run hd hfits hrun hmore hS hknown hfail).stores id task hid htask key
    value hput
  rw [hstored] at hstore
  intro b hb hne
  obtain ⟨hok, hholds⟩ := hstore b hb hne
  exact ⟨hok, issued_of_holds hrun' hholds⟩

theorem acquainted_known (a : Bool) :
    pair.Everyone (fun _ => True) a (acquainted.nodes a).routingTable.peers := by
  intro b _ hne
  cases a with
  | false =>
      cases b with
      | false => exact absurd rfl hne
      | true => exact List.mem_cons_self
  | true =>
      cases b with
      | false => exact List.mem_singleton.mpr rfl
      | true => exact absurd rfl hne

/-- Two nodes that know each other. -/
theorem stores_replicate_offered : ∃ c', Run.run (step pair) acquainted offering = some c' ∧
    ∀ b, True → b ≠ true → (.ok () : Except RPCError Unit) = .ok () ∧
      ∃ v, (c'.nodes b).kvstore.store (keyToBytes 0) = some v ∧
        Issued (joining ++ introduced ++ offering) 0 v := by
  obtain ⟨c', -, hoffering, -, htasks, -⟩ := offered_run
  exact ⟨c', hoffering, stores_replicate pair (fun _ => True) pair_connected pair_fits
    (joining ++ introduced) offering acquainted c' acquainted_run hoffering (by simp)
    (fun a _ => acquainted_known a) (by simp [offering]) 1 le_rfl _ (by rw [htasks]; rfl) 0 [7] rfl
    _ rfl⟩

/-- **One answer is enough.** In a small network let a store have returned after
which every node knew all others, without failures up to that point. Whatever
fails from then on, a lookup of the key that begins later, at any node, and
returns has found a value that was stored under the key; or it runs at the node
that made the store, and nobody else has answered it. -/
theorem replicated_value_found [DecidableEq SocketAddr] (d : Deployment SocketAddr)
    (S : SocketAddr → Prop) (hd : d.Connected S) (hfits : d.Fits S) (key : U128)
    (events more later : List (ClusterEvent SocketAddr)) (c c' c'' : Cluster SocketAddr)
    (hrun : Run.run (step d) (new d) events = some c)
    (hmore : Run.run (step d) c more = some c') (hlater : Run.run (step d) c' later = some c'')
    (hS : ∀ a, Asked c'' a → S a)
    (hkey : ∀ a, ClusterEvent.begin a (.store key []) ∉ events ++ more ++ later)
    (hknown : ∀ a, S a → d.Everyone S a (c.nodes a).routingTable.peers)
    (hfail : ∀ i e, ClusterEvent.fail i e ∉ more)
    (id : ℕ) (hid : c.tasks.length ≤ id) (store : Task SocketAddr)
    (hstore : c'.tasks[id]? = some store) (value : Bytes)
    (hput : store.operation = .store key value) (result : Except RPCError Unit)
    (hstored : store.stage = .stored result)
    (id' : ℕ) (hid' : c'.tasks.length ≤ id') (task : Task SocketAddr)
    (htask : c''.tasks[id']? = some task) (hoperation : task.operation = .findValue key)
    (call : Call) (hstage : task.stage = .looking call) (found : Except RPCError Bytes)
    (hstatus : call.status = .returned found) :
    (∃ v, found = .ok v ∧ Issued (events ++ more ++ later) key v) ∨
      task.node = store.node ∧
        ∀ q reply, (q, .ok reply) ∈ call.lookup.received → q = d.localPeer store.node := by
  have hrun' : Run.run (step d) (new d) (events ++ more) = some c' := by
    rw [Run.run_append, hrun, Option.bind_some, hmore]
  cases found with
  | ok v => exact .inl ⟨v, rfl, issued_of_returned hrun' hlater htask hoperation hstage hstatus⟩
  | error e =>
      have hreplicates := (replicating_run hd hfits hrun hmore
        (fun a ha => hS a (asked_run hlater ha)) hknown hfail).stores id store hid hstore key value
          hput
      rw [hstored] at hreplicates
      exact .inr (alone_of_error hd hrun' hlater hS hkey
        (fun b hb hne => (hreplicates b hb hne).2) hid' htask hoperation hstage hstatus)

/-- One of them stores a value and looks it up. -/
theorem replicated_value_found_offered : ∃ c' c'',
    Run.run (step pair) acquainted offering = some c' ∧
    Run.run (step pair) c' reading = some c'' ∧
    ((∃ v, (.ok [7] : Except RPCError Bytes) = .ok v ∧
        Issued (joining ++ introduced ++ offering ++ reading) 0 v) ∨
      true = true ∧ ∀ q reply, (q, .ok reply) ∈ sought.lookup.received → q = pairPeer true) := by
  obtain ⟨c', c'', hoffering, hreading, htasks, htasks', -⟩ := offered_run
  rw [htasks] at htasks'
  exact ⟨c', c'', hoffering, hreading, replicated_value_found pair (fun _ => True) pair_connected
    pair_fits 0 (joining ++ introduced) offering reading acquainted c' c'' acquainted_run hoffering
    hreading (by simp) (by simp [joining, introduced, introduce, offering, reading])
    (fun a _ => acquainted_known a) (by simp [offering]) 1 le_rfl
    { node := true, operation := .store 0 [7], stage := .stored (.ok ()) } (by rw [htasks]; rfl) [7]
    rfl _ rfl 2 (by rw [htasks]; rfl)
    { node := true, operation := .findValue 0, stage := .looking sought } (by rw [htasks']; rfl) rfl
    sought rfl _ rfl⟩

end Cluster

end DhtKad
