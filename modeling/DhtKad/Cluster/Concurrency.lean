import DhtKad.Cluster.Distinct
import DhtKad.Cluster.Progress

/-!
How many requests a lookup has out at a time.

Each request of a lookup whose result is not handed over is that of a query that
has not sent its result (`Backed`), since the query of a peer whose address does
not parse panics before it sends a request. The counter `in_progress` counts
these queries, and a round spawns no more than there is room for. So no lookup has
more than `alpha` requests out, in whatever order the events come, and also when
the call has returned (`alpha_outstanding`). While it awaits, the counter is the
number of its requests that are out, of the results that it has not taken, and of
the queries that panic (`inProgress_exact`).
-/

namespace DhtKad

open RoutingTable DHTServer DHTClient

variable {SocketAddr : Type}

namespace Cluster

/-- What the requests of a task that are out are for. -/
def outstanding (exchanges : List (Exchange SocketAddr)) (id : ℕ) : List Slot :=
  (exchanges.filter fun x => x.caller = id ∧ x.awaited).map fun x => x.slot

theorem count_outstanding (exchanges : List (Exchange SocketAddr)) (id : ℕ) (slot : Slot) :
    (outstanding exchanges id).count slot = pending exchanges id slot := by
  rw [outstanding, pending, List.count_eq_countP, List.countP_map, List.countP_filter]
  refine List.countP_congr fun x _ => ?_
  simp only [Function.comp_apply, beq_iff_eq, Bool.and_eq_true, decide_eq_true_eq]
  tauto

/-! ### The requests of a lookup are those of its queries -/

/-- A lookup has room for its queries, and sends requests for nothing else. -/
def limited (d : Deployment SocketAddr) : Assertion SocketAddr where
  node _ _ := True
  stage a _ stage := ∀ call, stage = .looking call →
    CallInv d.parse call ∧ call.lookup.inProgress ≤ (d.config a).alpha
  call _ operation call := ∀ key, operation = .findValue key →
    ∃ p, call.slot = .query p ∧ (d.parse p.address).isSome
  reply _ _ _ _ := True

section Limited

variable {d : Deployment SocketAddr} {a : SocketAddr} {operation : Operation}

theorem query_of_mem_queries {key : U128} {ps : List Peer} {call : RemoteCall SocketAddr}
    (h : call ∈ d.queries a key ps) : ∃ p, call.slot = .query p ∧ (d.parse p.address).isSome := by
  obtain ⟨p, -, hcall⟩ := List.mem_filterMap.mp h
  obtain ⟨target, htarget, rfl⟩ := Option.map_eq_some_iff.mp hcall
  exact ⟨p, rfl, Option.isSome_iff_exists.mpr ⟨target, htarget⟩⟩

theorem limited_turned {s : DHTServer} {stage : Stage} {turn : Turn SocketAddr}
    (hstage : (limited d).stage a operation stage) (h : d.Turned a s operation stage turn) :
    (limited d).stage a operation turn.stage ∧
      ∀ call ∈ turn.calls, (limited d).call a operation call := by
  refine ⟨fun call hcall => ?_, fun call hcall key hkey => ?_⟩
  · cases h with
    | hit hv =>
        obtain rfl := Stage.looking.inj hcall
        exact ⟨callInv_hit _ _, Nat.zero_le _⟩
    | started hcandidates =>
        obtain rfl := Stage.looking.inj hcall
        exact ⟨callInv_start _ _ _ _, inProgress_loopHead_le (d.client a) _ (Nat.zero_le _)⟩
    | received hstep =>
        obtain rfl := Stage.looking.inj hcall
        obtain ⟨hinv, hle⟩ := hstage _ rfl
        exact ⟨hinv.step hstep, CallInv.inProgress_le hinv hle hstep⟩
    | _ => cases hcall
  · -- only a lookup that goes on sends requests of a lookup
    cases h with
    | started hcandidates => exact query_of_mem_queries hcall
    | received hstep => exact query_of_mem_queries hcall
    | panicked e => cases hcall
    | hit hv => cases hcall
    | missed => cases hcall
    | _ => cases hkey

theorem limited_heard {slot : Slot} {result : Except IoError Message} {stage stage' : Stage}
    (hstage : (limited d).stage a operation stage)
    (h : d.Heard a operation slot result stage stage') :
    (limited d).stage a operation stage' := by
  intro call hcall
  cases h with
  | ignored => exact hstage call hcall
  | introduced i => cases hcall
  | pinged i => cases hcall
  | stored i => cases hcall
  | queried hoperation hstep =>
      obtain rfl := Stage.looking.inj hcall
      obtain ⟨hinv, hle⟩ := hstage _ rfl
      exact ⟨hinv.step hstep, CallInv.inProgress_le hinv hle hstep⟩

theorem limited_stable (d : Deployment SocketAddr) :
    Stable (limited d) d (fun _ _ => True) (fun _ _ _ _ => True) where
  fresh _ := trivial
  begun _ _ _ := nofun
  turned _ _ _ _ _ _ hstage h := ⟨trivial, limited_turned hstage h⟩
  served _ _ _ _ _ _ _ _ _ _ := ⟨trivial, fun _ _ _ => trivial⟩
  heard _ _ _ _ _ _ hstage _ _ h := limited_heard hstage h
  lost a key p call call' hstage hstep c hc := by
    obtain rfl := Stage.looking.inj hc
    obtain ⟨hinv, hle⟩ := hstage _ rfl
    exact ⟨hinv.step hstep, CallInv.inProgress_le hinv hle hstep⟩

end Limited

/-- Each query of a task that is out is spawned and has not sent its result. -/
def Backed (c : Cluster SocketAddr) : Prop :=
  ∀ id task, c.tasks[id]? = some task →
    ∀ p, pending c.exchanges id (.query p) ≤ task.stage.spawned.count p

section Backed

variable {d : Deployment SocketAddr} {a : SocketAddr} {operation : Operation}
  {c c' : Cluster SocketAddr}

/-- A result that is handed over takes its query off the list, or nobody waits
for it. -/
theorem spawned_hear (slot : Slot) (result : Except IoError Message) (stage : Stage) :
    (d.hear a operation slot result stage).spawned = stage.spawned ∨
      ∃ p, slot = .query p ∧
        (d.hear a operation slot result stage).spawned = stage.spawned.erase p := by
  cases stage with
  | looking call =>
      cases operation with
      | findValue key =>
          cases slot with
          | query p =>
              simp only [Deployment.hear]
              cases hstep : DHTClient.step d.parse (d.client a) key call (.send p result) with
              | none => exact .inl rfl
              | some call' =>
                  obtain ⟨-, hstepped⟩ := step_stepped hstep
                  cases hstepped with
                  | sent p r hp hparse => exact .inr ⟨p, rfl, rfl⟩
          | _ => exact .inl rfl
      | _ => exact .inl rfl
  | introducing results => cases slot <;> exact .inl rfl
  | pinging alivePeers candidatePeers results => cases slot <;> exact .inl rfl
  | storing results => cases slot <;> exact .inl rfl
  | _ => exact .inl rfl

theorem slot_of_outstanding (hc : Meets (limited d) c) {id : ℕ} {task : Task SocketAddr}
    (htask : c.tasks[id]? = some task) {key : U128} (hoperation : task.operation = .findValue key)
    {slot : Slot} (hslot : slot ∈ outstanding c.exchanges id) :
    ∃ p, slot = .query p ∧ (d.parse p.address).isSome := by
  obtain ⟨x, hx, rfl⟩ := List.mem_map.mp hslot
  obtain ⟨hx, hcaller⟩ := List.mem_filter.mp hx
  obtain ⟨task', htask', hapt⟩ := hc.exchanges x hx
  rw [(of_decide_eq_true hcaller).1, htask] at htask'
  obtain rfl := Option.some.inj htask'
  exact hapt.call key hoperation

theorem pending_unparsed (hc : Meets (limited d) c) {id : ℕ} {task : Task SocketAddr}
    (htask : c.tasks[id]? = some task) {key : U128} (hoperation : task.operation = .findValue key)
    {p : Peer} (hp : (d.parse p.address).isNone) : pending c.exchanges id (.query p) = 0 := by
  rw [← count_outstanding, List.count_eq_zero]
  intro hmem
  obtain ⟨q, hq, hsome⟩ := slot_of_outstanding hc htask hoperation hmem
  obtain rfl := Slot.query.inj hq
  rw [Option.isNone_iff_eq_none.mp hp] at hsome
  cases hsome

theorem pending_issue_of_ne (exchanges : List (Exchange SocketAddr)) {id id' : ℕ} (h : id' ≠ id)
    (calls : List (RemoteCall SocketAddr)) (slot : Slot) :
    pending (exchanges ++ calls.map (RemoteCall.issue id)) id' slot =
      pending exchanges id' slot := by
  rw [pending, pending, List.countP_append, Nat.add_eq_left, List.countP_eq_zero]
  intro x hx
  obtain ⟨call, -, rfl⟩ := List.mem_map.mp hx
  exact fun hcaller => h (of_decide_eq_true hcaller).1.symm

theorem backed_set (hb : Backed c) {id : ℕ} {task : Task SocketAddr} {stage : Stage}
    {nodes : Network SocketAddr} {exchanges : List (Exchange SocketAddr)}
    (hother : ∀ id' slot, id' ≠ id → pending exchanges id' slot = pending c.exchanges id' slot)
    (hstage : ∀ p, pending exchanges id (.query p) ≤ stage.spawned.count p) :
    Backed
      { nodes := nodes
        tasks := c.tasks.set id { task with stage := stage }
        exchanges := exchanges } :=
  forall_set (fun id' t hid ht p => (hother id' (.query p) hid).trans_le (hb id' t ht p)) hstage

theorem answer_backed (hb : Backed c) {i : ℕ} {x : Exchange SocketAddr}
    (hx : c.exchanges[i]? = some x) {result : Except IoError Message}
    (h : answer d c i x result = some c') : Backed c' := by
  have hpending := pending_answer hx (awaited_of_answer h)
  obtain ⟨task, htask, rfl⟩ := answer_eq_some h
  refine backed_set hb (fun id slot hid => ?_) fun p => ?_
  · rw [hpending, if_neg fun h => hid h.1, Nat.sub_zero]
  · rw [hpending]
    have hbefore := hb x.caller task htask p
    rcases spawned_hear (d := d) x.slot result task.stage with hkept | ⟨q, hslot, htaken⟩
    · rw [hkept]
      exact (Nat.sub_le _ _).trans hbefore
    · rw [htaken, hslot, List.count_erase]
      simp only [true_and, Slot.query.injEq, beq_iff_eq, eq_comm (a := q)]
      exact Nat.sub_le_sub_right hbefore _

variable [DecidableEq SocketAddr]

/-- **One event** leaves each query that is out backed. -/
theorem backed_step (hc : Meets (limited d) c) (hb : Backed c)
    {event : ClusterEvent SocketAddr} (hstep : step d c event = some c') : Backed c' := by
  cases event with
  | begin a operation =>
      obtain rfl := Option.some.inj hstep
      intro id task htask p
      by_cases hid : id < c.tasks.length
      · rw [List.getElem?_append_left hid] at htask
        exact hb id task htask p
      · -- a task that is new has nothing out
        refine (Nat.le_of_eq (List.countP_eq_zero.mpr fun x hx hcaller => ?_)).trans (Nat.zero_le _)
        obtain ⟨task', htask', -⟩ := hc.exchanges x hx
        rw [(of_decide_eq_true hcaller).1] at htask'
        exact hid (List.getElem?_eq_some_iff.mp htask').1
  | advance id =>
      obtain ⟨task, htask, hstep⟩ := Option.bind_eq_some_iff.mp hstep
      obtain ⟨turn, hturn, hstep⟩ := Option.bind_eq_some_iff.mp hstep
      obtain rfl := Option.some.inj hstep
      refine backed_set hb (fun id' slot hid => pending_issue_of_ne _ hid _ _) fun p => ?_
      obtain ⟨ps, -, hspawned, hcount⟩ := spawned_turned (fun call hcall =>
        (hc.tasks task (List.mem_of_getElem? htask) call hcall).1) hturn
      have hcalls := hcount p
      rw [List.count_eq_countP, List.countP_map] at hcalls
      rw [pending_issue, hspawned, List.count_append]
      exact Nat.add_le_add (hb id task htask p) hcalls
  | lose id q =>
      obtain ⟨task, stage, htask, hlose, rfl⟩ := lose_eq_some hstep
      obtain ⟨key, call, call', hoperation, hlooking, hdie, rfl⟩ := Deployment.lose_eq_some hlose
      refine backed_set hb (fun _ _ _ => rfl) fun p => ?_
      have hbefore := hb id task htask p
      rw [hlooking] at hbefore
      obtain ⟨-, hstepped⟩ := step_stepped hdie
      cases hstepped with
      | died q hq hparse =>
          by_cases hp : p = q
          · subst hp
            rw [pending_unparsed hc htask hoperation hparse]
            exact Nat.zero_le _
          · show _ ≤ (call.lookup.tasks.erase q).count p
            rwa [List.count_erase_of_ne hp]
  | serve i =>
      obtain ⟨x, point, hx, -, rfl⟩ := serve_eq_some hstep
      intro id task htask p
      rw [pending_serve hx]
      exact hb id task htask p
  | deliver i =>
      obtain ⟨x, reply, hx, -, hanswer⟩ := deliver_eq_some hstep
      exact answer_backed hb hx hanswer
  | fail i error =>
      obtain ⟨x, hx, hanswer⟩ := Option.bind_eq_some_iff.mp hstep
      exact answer_backed hb hx hanswer

theorem limited_run {events : List (ClusterEvent SocketAddr)}
    (hrun : Run.run (step d) (new d) events = some c) : Meets (limited d) c ∧ Backed c := by
  have hstable := limited_stable d
  refine Run.run_invariant (I := fun c => Meets (limited d) c ∧ Backed c) ?_
    ⟨⟨hstable.fresh, by simp [new], by simp [new]⟩, by simp [Backed, new]⟩ hrun
  rintro c event c' ⟨hc, hb⟩ hstep
  refine ⟨hstable.step hc ?_ hstep, backed_step hc hb hstep⟩
  cases event with
  | deliver i => exact fun _ _ _ _ _ _ => trivial
  | _ => trivial

end Backed

/-! ### What is out, and what the counter counts -/

section Out

variable [DecidableEq SocketAddr]

/-- **At most `alpha` at a time.** In every run of nodes of this code, no lookup
has more than `alpha` requests out, and none that it does not count. -/
theorem alpha_outstanding (d : Deployment SocketAddr) (events : List (ClusterEvent SocketAddr))
    (c : Cluster SocketAddr) (hrun : Run.run (step d) (new d) events = some c) (id : ℕ)
    (task : Task SocketAddr) (htask : c.tasks[id]? = some task) (key : U128)
    (hoperation : task.operation = .findValue key) :
    (outstanding c.exchanges id).length ≤ (d.config task.node).alpha ∧
      ∀ call, task.stage = .looking call →
        (outstanding c.exchanges id).length + call.lookup.channel.length ≤
          call.lookup.inProgress := by
  obtain ⟨hc, hb⟩ := limited_run hrun
  have hsubperm : (outstanding c.exchanges id).Subperm (task.stage.spawned.map .query) := by
    refine List.subperm_ext_iff.mpr fun slot hslot => ?_
    obtain ⟨p, rfl, -⟩ := slot_of_outstanding hc htask hoperation hslot
    rw [count_outstanding, List.count_map_of_injective _ _ fun _ _ => Slot.query.inj]
    exact hb id task htask p
  have hlen := hsubperm.length_le
  rw [List.length_map] at hlen
  have hlooking (call : Call) (hcall : task.stage = .looking call) :
      (outstanding c.exchanges id).length + call.lookup.channel.length ≤
        call.lookup.inProgress := by
    have hcount := (hc.tasks task (List.mem_of_getElem? htask) call hcall).1.books.count
    rw [hcall, Stage.spawned] at hlen
    omega
  refine ⟨?_, hlooking⟩
  cases hstage : task.stage with
  | looking call =>
      have hle := (hc.tasks task (List.mem_of_getElem? htask) call hstage).2
      have hcounted := hlooking call hstage
      omega
  | _ => exact hlen.trans (by rw [hstage]; exact Nat.zero_le _)

/-- **What `in_progress` counts.** While a lookup awaits, its requests that are
out are those of its queries that have not sent their results, and the counter is
their number together with the results that are in the channel, the queries that
have panicked and those that are to panic. -/
theorem inProgress_exact (d : Deployment SocketAddr) (halpha : ∀ a, 1 ≤ (d.config a).alpha)
    (events : List (ClusterEvent SocketAddr)) (c : Cluster SocketAddr)
    (hrun : Run.run (step d) (new d) events = some c) (id : ℕ) (task : Task SocketAddr)
    (htask : c.tasks[id]? = some task) (key : U128)
    (hoperation : task.operation = .findValue key) (call : Call)
    (hstage : task.stage = .looking call) (hawait : call.status = .awaiting) :
    (outstanding c.exchanges id).Perm
        ((call.lookup.tasks.filter fun p => (d.parse p.address).isSome).map .query) ∧
      call.lookup.inProgress = (outstanding c.exchanges id).length + call.lookup.channel.length +
        call.lookup.dead.length +
        (call.lookup.tasks.filter fun p => (d.parse p.address).isNone).length := by
  obtain ⟨hc, hb⟩ := limited_run hrun
  obtain ⟨-, haccounts⟩ := running_run halpha hrun
  have hperm : (outstanding c.exchanges id).Perm
      ((call.lookup.tasks.filter fun p => (d.parse p.address).isSome).map .query) := by
    have hbacked := hb id task htask
    have haccount := haccounts id task htask
    rw [hstage] at hbacked haccount
    rw [hoperation] at haccount
    rw [List.perm_iff_count]
    intro slot
    by_cases hslot : ∃ p, slot = .query p ∧ (d.parse p.address).isSome
    · obtain ⟨p, rfl, hp⟩ := hslot
      rw [count_outstanding, List.count_map_of_injective _ _ fun _ _ => Slot.query.inj,
        List.count_filter (p := fun q : Peer => (d.parse q.address).isSome) (a := p) hp]
      refine le_antisymm (hbacked p) ?_
      have hmissing := haccount (.query p)
      rwa [missing, if_pos ⟨hawait, hp⟩] at hmissing
    · -- neither side has the slot
      rw [List.count_eq_zero.mpr fun hmem => hslot (slot_of_outstanding hc htask hoperation hmem),
        List.count_eq_zero.mpr]
      intro hmem
      obtain ⟨p, hp, rfl⟩ := List.mem_map.mp hmem
      exact hslot ⟨p, rfl, (List.mem_filter.mp hp).2⟩
  refine ⟨hperm, ?_⟩
  have hcount := (hc.tasks task (List.mem_of_getElem? htask) call hstage).1.books.count
  have hlen := hperm.length_eq
  have htasks := List.length_eq_length_filter_add (l := call.lookup.tasks)
    fun p => (d.parse p.address).isSome
  simp only [Option.not_isSome] at htasks
  rw [List.length_map] at hlen
  omega

end Out

/-- The lookup that `wandering` begins, when it has sent its first request. -/
def setOut : List (ClusterEvent Bool) := [.begin false (.findValue 1), .advance 2, .advance 2]

theorem setOut_run : ∃ c,
    Run.run (step pair) (new pair) ((joining ++ keeping) ++ setOut) = some c ∧
      c.tasks[2]? = some
        { node := false
          operation := .findValue 1
          stage := .looking { lookup := askedOther, status := .awaiting } } ∧
      outstanding c.exchanges 2 = [.query (pairPeer true)] := by
  rw [Run.run_append, kept_run]
  exact ⟨_, rfl, rfl, rfl⟩

/-- The lookup has as much out as it may. -/
theorem alpha_outstanding_setOut : ∃ c,
    Run.run (step pair) (new pair) ((joining ++ keeping) ++ setOut) = some c ∧
      (outstanding c.exchanges 2).length = 1 ∧
      (outstanding c.exchanges 2).length ≤ (pair.config false).alpha ∧
      ∀ call, Stage.looking { lookup := askedOther, status := .awaiting } = .looking call →
        (outstanding c.exchanges 2).length + call.lookup.channel.length ≤
          call.lookup.inProgress := by
  obtain ⟨c, hrun, htask, hout⟩ := setOut_run
  exact ⟨c, hrun, by rw [hout]; rfl, alpha_outstanding pair _ c hrun 2 _ htask 1 rfl⟩

/-- The request that is out is the one that is counted. -/
theorem inProgress_exact_setOut : ∃ c,
    Run.run (step pair) (new pair) ((joining ++ keeping) ++ setOut) = some c ∧
      (outstanding c.exchanges 2).Perm
          ((askedOther.tasks.filter fun p => (pair.parse p.address).isSome).map .query) ∧
        askedOther.inProgress = (outstanding c.exchanges 2).length + askedOther.channel.length +
          askedOther.dead.length +
          (askedOther.tasks.filter fun p => (pair.parse p.address).isNone).length := by
  obtain ⟨c, hrun, htask, -⟩ := setOut_run
  exact ⟨c, hrun, inProgress_exact pair pair_alpha _ c hrun 2 _ htask 1 rfl _ rfl rfl⟩

end Cluster

end DhtKad
