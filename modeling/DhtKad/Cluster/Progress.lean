import DhtKad.Client.Coverage
import DhtKad.Cluster.Termination

/-!
A cluster does not get stuck.

A task that is suspended waits for results, and each result it waits for is one
of a remote call that has not been handed over (`Accounts`): a call is made for
each of them, and a result that is handed over is taken off the list once. So
where every handler goes on until it has replied, a task that has not ended can
take a turn, or one of its calls can be served or its reply delivered. What is
left is the bootstrap of a node that waits for a first connection
(`at_rest_iff`). Since no run goes on for ever, every cluster comes to rest, also
without a failure (`comes_to_rest`).
-/

namespace DhtKad

open RoutingTable DHTServer DHTClient

variable {SocketAddr : Type}

/-- The task has come to the end of its operation. -/
def Stage.Ended : Stage → Prop
  | .bootstrapped => True
  | .stored _ => True
  | .looking call => call.status ≠ .awaiting
  | .panicked _ => True
  | _ => False

namespace Cluster

/-! ### Stages and operations -/

/-- The stage of a task is one of its operation, and a lookup counts its
queries. -/
def running (d : Deployment SocketAddr) : Assertion SocketAddr where
  node _ _ := True
  stage a operation stage :=
    match operation, stage with
    | _, .begun => True
    | _, .panicked _ => True
    | .bootstrap, .introducing _ => True
    | .bootstrap, .pinging _ _ _ => True
    | .bootstrap, .bootstrapped => True
    | .store _ _, .storing _ => True
    | .store _ _, .stored _ => True
    | .findValue _, .missed => True
    | .findValue _, .looking call => CallInv d.parse call ∧ Metered (d.client a) call
    | _, _ => False
  call _ _ _ := True
  reply _ _ _ _ := True

section Running

variable {d : Deployment SocketAddr} {a : SocketAddr} {operation : Operation}

theorem running_turned (halpha : 1 ≤ (d.config a).alpha) {s : DHTServer} {stage : Stage}
    {turn : Turn SocketAddr} (hstage : (running d).stage a operation stage)
    (h : d.Turned a s operation stage turn) : (running d).stage a operation turn.stage := by
  cases h with
  | panicked e => cases operation <;> trivial
  | introduced htargets => trivial
  | pinged hreported htargets => trivial
  | bootstrapped htable => trivial
  | storing htargets => trivial
  | stored => trivial
  | hit hv => exact ⟨callInv_hit _ _, ⟨Nat.zero_le _, nofun⟩⟩
  | missed => trivial
  | started hcandidates => exact ⟨callInv_start _ _ _ _, metered_start halpha _ _⟩
  | received hstep => exact ⟨hstage.1.step hstep, hstage.2.step hstage.1 halpha hstep⟩

theorem running_heard (halpha : 1 ≤ (d.config a).alpha) {slot : Slot}
    {result : Except IoError Message} {stage stage' : Stage}
    (hstage : (running d).stage a operation stage)
    (h : d.Heard a operation slot result stage stage') :
    (running d).stage a operation stage' := by
  cases h with
  | ignored => exact hstage
  | introduced i => cases operation <;> exact hstage
  | pinged i => cases operation <;> exact hstage
  | stored i => cases operation <;> exact hstage
  | queried hoperation hstep =>
      subst hoperation
      exact ⟨hstage.1.step hstep, hstage.2.step hstage.1 halpha hstep⟩

theorem running_stable (halpha : ∀ a, 1 ≤ (d.config a).alpha) :
    Stable (running d) d (fun _ _ => True) (fun _ _ _ _ => True) where
  fresh _ := trivial
  begun _ operation _ := by cases operation <;> trivial
  turned a _ _ _ _ _ hstage h := ⟨trivial, running_turned (halpha a) hstage h, fun _ _ => trivial⟩
  served _ _ _ _ _ _ _ _ _ _ := ⟨trivial, fun _ _ _ => trivial⟩
  heard a _ _ _ _ _ hstage _ _ h := running_heard (halpha a) hstage h
  lost a _ _ _ _ hstage hstep := ⟨hstage.1.step hstep, hstage.2.step hstage.1 (halpha a) hstep⟩

end Running

/-! ### The results that a task waits for -/

/-- How many results a task waits for in a slot. -/
def missing (parse : String → Option SocketAddr) : Operation → Stage → Slot → ℕ
  | _, .introducing results, .introduction i => if results[i]? = some none then 1 else 0
  | _, .pinging _ _ results, .ping i => if results[i]? = some none then 1 else 0
  | _, .storing results, .store i => if results[i]? = some none then 1 else 0
  | .findValue _, .looking call, .query p =>
      if call.status = .awaiting ∧ (parse p.address).isSome then call.lookup.tasks.count p else 0
  | _, _, _ => 0

/-- How many remote calls of a task in a slot have not been handed over. -/
def pending (exchanges : List (Exchange SocketAddr)) (id : ℕ) (slot : Slot) : ℕ :=
  exchanges.countP fun x => x.caller = id ∧ x.slot = slot ∧ x.awaited

/-- Every result that a task waits for is one that a remote call is to bring. -/
def Accounts (d : Deployment SocketAddr) (c : Cluster SocketAddr) : Prop :=
  ∀ id task, c.tasks[id]? = some task →
    ∀ slot, missing d.parse task.operation task.stage slot ≤ pending c.exchanges id slot

section Missing

variable {d : Deployment SocketAddr} {a : SocketAddr} {operation : Operation} {slot : Slot}

theorem missing_set {results : Results} {i j : ℕ} (r : Except IoError Message) :
    (if (results.set i (some r))[j]? = some none then 1 else 0) ≤
      (if results[j]? = some none then 1 else 0) - if j = i then 1 else 0 := by
  by_cases hj : j = i
  · subst hj
    have hne : (results.set j (some r))[j]? ≠ some none := by
      rw [List.getElem?_set_self']
      cases results[j]? <;> simp
    simp [hne]
  · rw [List.getElem?_set_ne (Ne.symm hj), if_neg hj, Nat.sub_zero]

theorem missing_joined {targets : List SocketAddr} {f : ℕ → Slot} {rpc : Rpc} {request : Message}
    (i : ℕ) :
    (if (targets.map fun _ => (none : Option (Except IoError Message)))[i]? = some none
      then 1 else 0) ≤
      (Deployment.joined f rpc request targets).countP fun call => call.slot = f i := by
  split
  · rename_i hi
    have hlt : i < targets.length := by
      have := (List.getElem?_eq_some_iff.mp hi).1
      simpa using this
    refine List.countP_pos_iff.mpr ⟨_, List.mem_map.mpr
      ⟨(targets[i], i), List.mem_zipIdx_iff_getElem?.mpr (by simp [hlt]), rfl⟩, by simp⟩
  · exact Nat.zero_le _

theorem count_queries (key : U128) {p : Peer} (hp : (d.parse p.address).isSome)
    (ps : List Peer) :
    ps.count p ≤ (d.queries a key ps).countP fun call => call.slot = .query p := by
  induction ps with
  | nil => exact Nat.zero_le _
  | cons q ps ih =>
      by_cases hq : q = p
      · subst hq
        obtain ⟨target, htarget⟩ := Option.isSome_iff_exists.mp hp
        rw [Deployment.queries, List.filterMap_cons]
        simp only [htarget, Option.map_some, List.count_cons_self, List.countP_cons, decide_true,
          if_true]
        exact Nat.succ_le_succ ih
      · rw [List.count_cons_of_ne hq]
        refine ih.trans ?_
        rw [Deployment.queries, Deployment.queries, List.filterMap_cons]
        split
        · exact le_rfl
        · rw [List.countP_cons]
          exact Nat.le_add_right _ _

/-- A turn makes a call for each result that it is to wait for. -/
theorem missing_turned {s : DHTServer} {stage : Stage} {turn : Turn SocketAddr}
    (hstage : (running d).stage a operation stage) (h : d.Turned a s operation stage turn)
    (slot : Slot) :
    missing d.parse operation turn.stage slot ≤
      missing d.parse operation stage slot + turn.calls.countP fun call => call.slot = slot := by
  cases h with
  | panicked e => exact (Nat.zero_le _).trans' (by cases operation <;> exact le_rfl)
  | introduced htargets =>
      cases slot with
      | introduction i => exact (missing_joined i).trans (Nat.le_add_left _ _)
      | _ => exact Nat.zero_le _
  | pinged hreported htargets =>
      cases slot with
      | ping i => exact (missing_joined i).trans (Nat.le_add_left _ _)
      | _ => exact Nat.zero_le _
  | bootstrapped htable => exact Nat.zero_le _
  | storing htargets =>
      cases slot with
      | store i => exact (missing_joined i).trans (Nat.le_add_left _ _)
      | _ => exact Nat.zero_le _
  | stored => exact Nat.zero_le _
  | hit hv => cases slot <;> exact Nat.zero_le _
  | missed => exact Nat.zero_le _
  | started hcandidates =>
      cases slot with
      | query p =>
          rw [missing]
          split
          · rename_i hp
            exact (count_queries _ hp.2 _).trans (Nat.le_add_left _ _)
          · exact Nat.zero_le _
      | _ => exact Nat.zero_le _
  | received hstep =>
      rename_i key call call'
      cases slot with
      | query p =>
          obtain ⟨hinv, -⟩ : CallInv d.parse call ∧ Metered (d.client a) call := hstage
          obtain ⟨hawait, n, htasks, -⟩ := queries_of_recv hinv hstep
          simp only [missing, hawait, true_and]
          split
          · rename_i hp
            have hcount := count_queries (a := a) key hp.2
              (call'.lookup.tasks.drop call.lookup.tasks.length)
            rw [if_pos hp.2]
            rw [htasks, List.drop_left] at hcount
            rw [htasks, List.drop_left, List.count_append]
            omega
          · exact Nat.zero_le _
      | _ => exact Nat.zero_le _

theorem missing_of_eq_zero {parse : String → Option SocketAddr} {stage : Stage}
    (h : missing parse operation stage slot = 0) (slot' : Slot) :
    missing parse operation stage slot' ≤
      missing parse operation stage slot' - if slot' = slot then 1 else 0 := by
  split
  · rename_i heq
    rw [heq, h]
  · exact le_rfl

theorem missing_send {key : U128} {p : Peer} {result : Except IoError Message} (call : Call)
    (slot' : Slot) :
    missing d.parse (.findValue key) (.looking ((DHTClient.step d.parse (d.client a) key call
        (.send p result)).getD call)) slot' ≤
      missing d.parse (.findValue key) (.looking call) slot' -
        if slot' = .query p then 1 else 0 := by
  cases hstep : DHTClient.step d.parse (d.client a) key call (.send p result) with
  | none =>
      have hzero : missing d.parse (.findValue key) (.looking call) (.query p) = 0 := by
        rw [missing, ite_eq_right_iff]
        rintro ⟨hawait, hparse⟩
        rw [List.count_eq_zero]
        intro hp
        simp [DHTClient.step, hawait, hp, hparse] at hstep
      exact missing_of_eq_zero hzero slot'
  | some call' =>
      obtain ⟨hawait, hstepped⟩ := step_stepped hstep
      cases hstepped with
      | sent p r hp hparse =>
          cases slot' with
          | query q =>
              simp only [Option.getD_some, missing, hawait, true_and, Slot.query.injEq]
              split
              · by_cases hq : q = p
                · simp [hq]
                · rw [List.count_erase_of_ne hq, if_neg hq, Nat.sub_zero]
              · exact Nat.zero_le _
          | _ => exact Nat.zero_le _

/-- A result that is handed over is waited for once less. -/
theorem missing_hear (slot slot' : Slot) (result : Except IoError Message) (stage : Stage) :
    missing d.parse operation (d.hear a operation slot result stage) slot' ≤
      missing d.parse operation stage slot' - if slot' = slot then 1 else 0 := by
  cases stage with
  | introducing results =>
      cases slot with
      | introduction i =>
          cases slot' with
          | introduction j =>
              simp only [Deployment.hear, missing, Slot.introduction.injEq]
              exact missing_set result
          | _ => exact Nat.zero_le _
      | _ => exact missing_of_eq_zero (by cases operation <;> rfl) slot'
  | pinging alivePeers candidatePeers results =>
      cases slot with
      | ping i =>
          cases slot' with
          | ping j =>
              simp only [Deployment.hear, missing, Slot.ping.injEq]
              exact missing_set result
          | _ => exact Nat.zero_le _
      | _ => exact missing_of_eq_zero (by cases operation <;> rfl) slot'
  | storing results =>
      cases slot with
      | store i =>
          cases slot' with
          | store j =>
              simp only [Deployment.hear, missing, Slot.store.injEq]
              exact missing_set result
          | _ => exact Nat.zero_le _
      | _ => exact missing_of_eq_zero (by cases operation <;> rfl) slot'
  | looking call =>
      cases operation with
      | findValue key =>
          cases slot with
          | query p => exact missing_send call slot'
          | _ => exact missing_of_eq_zero rfl slot'
      | _ => exact missing_of_eq_zero (by cases slot <;> rfl) slot'
  | _ => exact missing_of_eq_zero (by cases operation <;> rfl) slot'

theorem missing_lost {p : Peer} {key : U128} {call call' : Call}
    (h : DHTClient.step d.parse (d.client a) key call (.die p) = some call') (slot : Slot) :
    missing d.parse (.findValue key) (.looking call') slot ≤
      missing d.parse (.findValue key) (.looking call) slot := by
  obtain ⟨hawait, hstepped⟩ := step_stepped h
  cases hstepped with
  | died p hp hparse =>
      cases slot with
      | query q =>
          simp only [missing, hawait]
          split
          · exact List.erase_sublist.count_le _
          · exact le_rfl
      | _ => exact Nat.zero_le _

end Missing

/-! ### The accounts are kept -/

section Accounts

variable {d : Deployment SocketAddr} {c c' : Cluster SocketAddr}

theorem pending_issue (exchanges : List (Exchange SocketAddr)) (id : ℕ)
    (calls : List (RemoteCall SocketAddr)) (slot : Slot) :
    pending (exchanges ++ calls.map (RemoteCall.issue id)) id slot =
      pending exchanges id slot + calls.countP fun call => call.slot = slot := by
  rw [pending, List.countP_append, List.countP_map]
  refine congrArg (pending exchanges id slot + ·) (List.countP_congr fun call _ => ?_)
  simp only [RemoteCall.issue, Function.comp_apply, and_true, true_and, decide_eq_true_eq]

theorem pending_le_append (exchanges more : List (Exchange SocketAddr)) (id : ℕ) (slot : Slot) :
    pending exchanges id slot ≤ pending (exchanges ++ more) id slot := by
  rw [pending, pending, List.countP_append]
  exact Nat.le_add_right _ _

theorem pending_serve {exchanges : List (Exchange SocketAddr)} {i : ℕ} {x : Exchange SocketAddr}
    (hx : exchanges[i]? = some x) (progress : Progress) (id : ℕ) (slot : Slot) :
    pending (exchanges.set i { x with progress := progress }) id slot =
      pending exchanges id slot := by
  obtain ⟨hi, rfl⟩ := List.getElem?_eq_some_iff.mp hx
  rw [pending, List.countP_set hi]
  exact Nat.sub_add_cancel (List.boole_getElem_le_countP
    (p := fun x => decide (x.caller = id ∧ x.slot = slot ∧ x.awaited)) hi)

theorem pending_answer {exchanges : List (Exchange SocketAddr)} {i : ℕ} {x : Exchange SocketAddr}
    (hx : exchanges[i]? = some x) (hawaited : x.awaited = true) (id : ℕ) (slot : Slot) :
    pending (exchanges.set i { x with awaited := false }) id slot =
      pending exchanges id slot - if id = x.caller ∧ slot = x.slot then 1 else 0 := by
  obtain ⟨hi, rfl⟩ := List.getElem?_eq_some_iff.mp hx
  rw [pending, pending, List.countP_set hi]
  simp only [hawaited, Bool.false_eq_true, and_false, and_true, decide_false, if_false,
    Nat.add_zero, decide_eq_true_eq, eq_comm (a := id), eq_comm (a := slot)]

theorem accounts_set (ha : Accounts d c) {id : ℕ} {task : Task SocketAddr} {stage : Stage}
    {nodes : Network SocketAddr} {exchanges : List (Exchange SocketAddr)}
    (hother : ∀ id' slot, id' ≠ id → pending c.exchanges id' slot ≤ pending exchanges id' slot)
    (hstage : ∀ slot, missing d.parse task.operation stage slot ≤ pending exchanges id slot) :
    Accounts d
      { nodes := nodes
        tasks := c.tasks.set id { task with stage := stage }
        exchanges := exchanges } :=
  forall_set (fun id' t hid ht slot => (ha id' t ht slot).trans (hother id' slot hid)) hstage

theorem answer_accounts (ha : Accounts d c) {i : ℕ} {x : Exchange SocketAddr}
    (hx : c.exchanges[i]? = some x) {result : Except IoError Message}
    (h : answer d c i x result = some c') : Accounts d c' := by
  have hpending := pending_answer hx (awaited_of_answer h)
  obtain ⟨task, htask, rfl⟩ := answer_eq_some h
  refine accounts_set ha (fun id slot hid => ?_) fun slot => ?_
  · rw [hpending, if_neg fun h => hid h.1, Nat.sub_zero]
  · rw [hpending]
    simp only [true_and]
    exact (missing_hear x.slot slot result task.stage).trans
      (Nat.sub_le_sub_right (ha x.caller task htask slot) _)

variable [DecidableEq SocketAddr]

/-- **One event** keeps the accounts. -/
theorem accounts_step (hc : Meets (running d) c) (ha : Accounts d c)
    {event : ClusterEvent SocketAddr} (hstep : step d c event = some c') : Accounts d c' := by
  cases event with
  | begin a operation =>
      obtain rfl := Option.some.inj hstep
      intro id task htask slot
      by_cases hid : id < c.tasks.length
      · rw [List.getElem?_append_left hid] at htask
        exact ha id task htask slot
      · rw [List.getElem?_append_right (Nat.not_lt.mp hid)] at htask
        obtain rfl := List.mem_singleton.mp (List.mem_of_getElem? htask)
        cases operation <;> exact Nat.zero_le _
  | advance id =>
      obtain ⟨task, turn, htask, hturned, rfl⟩ := advance_eq_some hstep
      refine accounts_set ha (fun id' slot _ => pending_le_append _ _ _ _) fun slot => ?_
      rw [pending_issue]
      exact (missing_turned (hc.tasks task (List.mem_of_getElem? htask)) hturned slot).trans
        (Nat.add_le_add_right (ha id task htask slot) _)
  | lose id p =>
      obtain ⟨task, stage, htask, hlose, rfl⟩ := lose_eq_some hstep
      obtain ⟨key, call, call', hoperation, hlooking, hdie, rfl⟩ := Deployment.lose_eq_some hlose
      refine accounts_set ha (fun _ _ _ => le_rfl) fun slot => ?_
      have hbefore := ha id task htask slot
      rw [hoperation, hlooking] at hbefore
      rw [hoperation]
      exact (missing_lost hdie slot).trans hbefore
  | serve i =>
      obtain ⟨x, point, hx, hprogress, rfl⟩ := serve_eq_some hstep
      intro id task htask slot
      rw [pending_serve hx]
      exact ha id task htask slot
  | deliver i =>
      obtain ⟨x, reply, hx, -, hanswer⟩ := deliver_eq_some hstep
      exact answer_accounts ha hx hanswer
  | fail i error =>
      obtain ⟨x, hx, hanswer⟩ := Option.bind_eq_some_iff.mp hstep
      exact answer_accounts ha hx hanswer

theorem running_run (halpha : ∀ a, 1 ≤ (d.config a).alpha)
    {events : List (ClusterEvent SocketAddr)}
    (hrun : Run.run (step d) (new d) events = some c) : Meets (running d) c ∧ Accounts d c := by
  have hstable := running_stable halpha
  refine Run.run_invariant (I := fun c => Meets (running d) c ∧ Accounts d c) ?_
    ⟨⟨hstable.fresh, by simp [new], by simp [new]⟩, by simp [Accounts, new]⟩ hrun
  rintro c event c' ⟨hc, ha⟩ hstep
  refine ⟨hstable.step hc ?_ hstep, accounts_step hc ha hstep⟩
  cases event with
  | deliver i => exact fun _ _ _ _ _ _ => trivial
  | _ => trivial

end Accounts

/-! ### What is held up -/

section Rest

variable [DecidableEq SocketAddr] {d : Deployment SocketAddr} {c c' : Cluster SocketAddr}

/-- The task is a bootstrap that waits until its node knows a peer. -/
def Waits (d : Deployment SocketAddr) (c : Cluster SocketAddr) (task : Task SocketAddr) : Prop :=
  task.operation = .bootstrap ∧ task.stage = .begun ∧ (d.config task.node).bootstrapPeers = [] ∧
    (c.nodes task.node).routingTable.peers = []

/-- Nothing is under way. -/
structure AtRest (d : Deployment SocketAddr) (c : Cluster SocketAddr) : Prop where
  tasks : ∀ task ∈ c.tasks, task.stage.Ended ∨ Waits d c task
  exchanges : ∀ x ∈ c.exchanges, x.awaited = false ∧ ∃ reply, x.progress = .replied reply

/-- A remote call that is not broken goes on: its handler takes a step, or its
reply is delivered. -/
theorem exchange_goes_on {i : ℕ} {x : Exchange SocketAddr} (hx : c.exchanges[i]? = some x)
    {task : Task SocketAddr} (htask : c.tasks[x.caller]? = some task)
    (hbroken : ∀ e, x.progress ≠ .broken e) :
    step d c (.serve i) ≠ none ∨ step d c (.deliver i) ≠ none ∨
      x.awaited = false ∧ ∃ reply, x.progress = .replied reply := by
  cases hprogress : x.progress with
  | running point =>
      refine .inl ?_
      rw [step, serve_eq hx hprogress rfl]
      exact Option.some_ne_none _
  | broken e => exact absurd hprogress (hbroken e)
  | replied reply =>
      cases hawaited : x.awaited with
      | false => exact .inr (.inr ⟨rfl, reply, rfl⟩)
      | true =>
          refine .inr (.inl ?_)
          simp [step, hx, hprogress, answer, htask, hawaited]

omit [DecidableEq SocketAddr] in
theorem exists_of_pending {id : ℕ} {slot : Slot} (h : 0 < pending c.exchanges id slot) :
    ∃ x ∈ c.exchanges, x.caller = id ∧ x.awaited := by
  obtain ⟨x, hx, hpending⟩ := List.countP_pos_iff.mp h
  obtain ⟨hcaller, -, hawaited⟩ := of_decide_eq_true hpending
  exact ⟨x, hx, hcaller, hawaited⟩

end Rest

end Cluster

namespace Deployment

variable {d : Deployment SocketAddr} {a : SocketAddr} {s : DHTServer}

theorem caught_eq_none_iff {out : Except Panic (Option (Turn SocketAddr))} :
    caught s out = none ↔ out = .ok none := by
  cases out with
  | ok turn => exact Except.ok.injEq turn none ▸ Iff.rfl
  | error e => exact iff_of_false (Option.some_ne_none _) nofun

/-- A task that is held up waits for a result, or it has ended, or it is the
bootstrap of a node that knows nobody. -/
theorem held_up {operation : Operation} {stage : Stage}
    (hstage : (Cluster.running d).stage a operation stage)
    (hknown : (Cluster.known d (fun _ => True) fun p => (d.parse p.address).isSome).stage a
      operation stage)
    (hnone : d.turn a operation s stage = none) :
    stage.Ended ∨ (operation = .bootstrap ∧ stage = .begun) ∨
      ∃ slot, 0 < Cluster.missing d.parse operation stage slot := by
  have hmissing {results : Results} (h : none ∈ results) :
      ∃ i : ℕ, 0 < if results[i]? = some none then 1 else 0 := by
    obtain ⟨i, hi⟩ := List.mem_iff_getElem?.mp h
    exact ⟨i, by simp [hi]⟩
  cases operation with
  | bootstrap =>
      have hturn := caught_eq_none_iff.mp hnone
      cases stage with
      | begun => exact .inr (.inl ⟨rfl, rfl⟩)
      | introducing results =>
          by_cases hin : none ∈ results
          · obtain ⟨i, hi⟩ := hmissing hin
            exact .inr (.inr ⟨.introduction i, hi⟩)
          · rw [bootstrapTurn, if_neg hin] at hturn
            obtain ⟨reported, -, hturn⟩ := ExceptList.bind_eq_ok_iff.mp hturn
            obtain ⟨targets, -, hturn⟩ := ExceptList.bind_eq_ok_iff.mp hturn
            cases hturn
      | pinging alivePeers candidatePeers results =>
          by_cases hin : none ∈ results
          · obtain ⟨i, hi⟩ := hmissing hin
            exact .inr (.inr ⟨.ping i, hi⟩)
          · rw [bootstrapTurn, if_neg hin] at hturn
            obtain ⟨table, -, hturn⟩ := ExceptList.bind_eq_ok_iff.mp hturn
            cases hturn
      | bootstrapped => exact .inl trivial
      | panicked e => exact .inl trivial
      | _ => cases hstage
  | store key value =>
      have hturn := caught_eq_none_iff.mp hnone
      cases stage with
      | begun =>
          obtain ⟨targets, -, hturn⟩ := ExceptList.bind_eq_ok_iff.mp hturn
          cases hturn
      | storing results =>
          by_cases hin : none ∈ results
          · obtain ⟨i, hi⟩ := hmissing hin
            exact .inr (.inr ⟨.store i, hi⟩)
          · rw [storeTurn, if_neg hin] at hturn
            cases hturn
      | stored result => exact .inl trivial
      | panicked e => exact .inl trivial
      | _ => cases hstage
  | findValue key =>
      have hturn := caught_eq_none_iff.mp hnone
      cases stage with
      | begun =>
          rw [findValueTurn] at hturn
          cases hvalue : DHTClient.findValueLocal s key <;> simp [hvalue] at hturn
      | missed =>
          obtain ⟨candidates, -, hturn⟩ := ExceptList.bind_eq_ok_iff.mp hturn
          cases hturn
      | looking call =>
          by_cases hawait : call.status = .awaiting
          · obtain ⟨hinv, hm⟩ : CallInv d.parse call ∧ Metered (d.client a) call := hstage
            have hparse : ∀ p ∈ call.lookup.queried, (d.parse p.address).isSome :=
              fun p hp => Knows.seen hknown.2 p (mem_seen.mpr (.inr hp))
            rcases hinv.answerable hm hparse hawait with hch | ⟨p, hp, hsome⟩
            · obtain ⟨⟨p, r⟩, rest, hch⟩ := List.exists_cons_of_ne_nil hch
              simp [findValueTurn, DHTClient.step, hawait, hch] at hturn
            · refine .inr (.inr ⟨.query p, ?_⟩)
              rw [Cluster.missing, if_pos ⟨hawait, hsome⟩]
              exact List.count_pos_iff.mpr hp
          · exact .inl hawait
      | panicked e => exact .inl trivial
      | _ => cases hstage

end Deployment

namespace Cluster

variable [DecidableEq SocketAddr] {d : Deployment SocketAddr} {c : Cluster SocketAddr}
  {events : List (ClusterEvent SocketAddr)}

/-- The event is one of the code: nothing is begun, and nothing fails. -/
def Goes : ClusterEvent SocketAddr → Prop
  | .begin _ _ => False
  | .fail _ _ => False
  | _ => True

/-- **No deadlock.** Where no task can take a turn, no handler a step and no reply
can be delivered, everything has ended or waits for a first connection. -/
theorem at_rest_of_stuck (hd : d.Sound) (halpha : ∀ a, 1 ≤ (d.config a).alpha)
    (hrun : Run.run (step d) (new d) events = some c)
    (hstuck : ∀ event, Goes event → step d c event = none) : AtRest d c := by
  obtain ⟨hknown, hunharmed⟩ := sound_run hd hrun
  obtain ⟨hrunning, haccounts⟩ := running_run halpha hrun
  have hexchange {x : Exchange SocketAddr} (hx : x ∈ c.exchanges) :
      x.awaited = false ∧ ∃ reply, x.progress = .replied reply := by
    obtain ⟨i, hi⟩ := List.mem_iff_getElem?.mp hx
    obtain ⟨task, htask, -⟩ := hrunning.exchanges x hx
    rcases exchange_goes_on (d := d) hi htask (hunharmed.exchanges x hx) with h | h | h
    · exact absurd (hstuck (.serve i) trivial) h
    · exact absurd (hstuck (.deliver i) trivial) h
    · exact h
  refine ⟨fun task htask => ?_, fun x hx => hexchange hx⟩
  obtain ⟨id, hid⟩ := List.mem_iff_getElem?.mp htask
  have hnone : d.turn task.node task.operation (c.nodes task.node) task.stage = none := by
    by_contra hne
    obtain ⟨turn, hturn⟩ := Option.ne_none_iff_exists'.mp hne
    have hadvance := advance_eq d hid hturn
    rw [show advance d c id = step d c (.advance id) from rfl,
      hstuck (.advance id) trivial] at hadvance
    cases hadvance
  rcases Deployment.held_up (hrunning.tasks task htask) (hknown.tasks task htask) hnone with
    hended | ⟨hoperation, hbegun⟩ | ⟨slot, hmissing⟩
  · exact .inl hended
  · rw [hoperation, hbegun] at hnone
    exact .inr ⟨hoperation, hbegun, (bootstrap_waits_iff hrun task.node).mp hnone⟩
  · obtain ⟨x, hx, -, hawaited⟩ := exists_of_pending (hmissing.trans_le
      (haccounts id task hid slot))
    rw [(hexchange hx).1] at hawaited
    cases hawaited

omit [DecidableEq SocketAddr] in
theorem turn_of_ended {d : Deployment SocketAddr} {a : SocketAddr} {operation : Operation}
    {s : DHTServer} {stage : Stage} (h : stage.Ended) : d.turn a operation s stage = none := by
  cases stage with
  | looking call =>
      cases operation with
      | findValue key =>
          have hstep : DHTClient.step d.parse (d.client a) key call .recv = none := by
            by_contra hne
            obtain ⟨call', hstep⟩ := Option.ne_none_iff_exists'.mp hne
            exact h (step_stepped hstep).1
          rw [Deployment.turn, Deployment.findValueTurn, hstep]
          rfl
      | _ => rfl
  | bootstrapped => cases operation <;> rfl
  | stored result => cases operation <;> rfl
  | panicked e => cases operation <;> rfl
  | _ => cases h

theorem AtRest.stuck (h : AtRest d c) (hrun : Run.run (step d) (new d) events = some c)
    (event : ClusterEvent SocketAddr) (hnew : ∀ a operation, event ≠ .begin a operation) :
    step d c event = none := by
  have hanswer {i : ℕ} {x : Exchange SocketAddr} {result : Except IoError Message}
      {c' : Cluster SocketAddr} (hx : c.exchanges[i]? = some x)
      (hstep : answer d c i x result = some c') : False := by
    have hawaited := awaited_of_answer hstep
    rw [(h.exchanges x (List.mem_of_getElem? hx)).1] at hawaited
    cases hawaited
  by_contra hne
  obtain ⟨c', hstep⟩ := Option.ne_none_iff_exists'.mp hne
  cases event with
  | begin a operation => exact hnew a operation rfl
  | advance id =>
      obtain ⟨task, htask, hstep⟩ := Option.bind_eq_some_iff.mp hstep
      obtain ⟨turn, hturn, -⟩ := Option.bind_eq_some_iff.mp hstep
      rcases h.tasks task (List.mem_of_getElem? htask) with
        hended | ⟨hoperation, hbegun, hwaits⟩
      · rw [turn_of_ended hended] at hturn
        cases hturn
      · rw [hoperation, hbegun, (bootstrap_waits_iff hrun task.node).mpr hwaits] at hturn
        cases hturn
  | lose id p =>
      obtain ⟨task, stage, htask, hlose, -⟩ := lose_eq_some hstep
      obtain ⟨key, call, call', -, hlooking, hdie, -⟩ := Deployment.lose_eq_some hlose
      rcases h.tasks task (List.mem_of_getElem? htask) with hended | ⟨-, hbegun, -⟩
      · rw [hlooking] at hended
        exact hended (step_stepped hdie).1
      · rw [hlooking] at hbegun
        cases hbegun
  | serve i =>
      obtain ⟨x, point, hx, hprogress, -⟩ := serve_eq_some hstep
      obtain ⟨-, reply, hreplied⟩ := h.exchanges x (List.mem_of_getElem? hx)
      rw [hprogress] at hreplied
      cases hreplied
  | deliver i =>
      obtain ⟨x, reply, hx, -, hstep⟩ := deliver_eq_some hstep
      exact hanswer hx hstep
  | fail i error =>
      obtain ⟨x, hx, hstep⟩ := Option.bind_eq_some_iff.mp hstep
      exact hanswer hx hstep

/-- **Rest.** In every run of a sound deployment: no event but the beginning of
something new is possible exactly if every operation has ended or is a bootstrap
that waits for a first connection, and every remote call was answered and its
result handed over. -/
theorem at_rest_iff (d : Deployment SocketAddr) (hd : d.Sound)
    (halpha : ∀ a, 1 ≤ (d.config a).alpha) (events : List (ClusterEvent SocketAddr))
    (c : Cluster SocketAddr) (hrun : Run.run (step d) (new d) events = some c) :
    (∀ event, (∀ a operation, event ≠ .begin a operation) → step d c event = none) ↔
      AtRest d c := by
  refine ⟨fun h => at_rest_of_stuck hd halpha hrun fun event hgoes => h event ?_,
    fun h => h.stuck hrun⟩
  rintro a operation rfl
  exact hgoes

theorem pair_alpha (a : Bool) : 1 ≤ (pair.config a).alpha := by
  cases a <;> decide

/-- The node that joins does not get the reply, and ends without it. -/
def unanswered : List (ClusterEvent Bool) := [.fail 0 { text := "" }, .advance 0, .advance 0]

def givenUp : Cluster Bool where
  nodes :=
    Function.update (Function.update joined.nodes false (joined.nodes false)) false
      (joined.nodes false)
  tasks := [{ node := false, operation := .bootstrap, stage := .bootstrapped }]
  exchanges := [{ introduction with awaited := false }]

/-- Nothing more happens by itself when its bootstrap has returned. -/
theorem at_rest_iff_unanswered : Run.run (step pair) joined unanswered = some givenUp ∧
    ∀ event, (∀ a operation, event ≠ .begin a operation) → step pair givenUp event = none := by
  have hunanswered : Run.run (step pair) joined unanswered = some givenUp := rfl
  have hrun : Run.run (step pair) (new pair) (joining ++ unanswered) = some givenUp := by
    rw [Run.run_append, joining_run, Option.bind_some, hunanswered]
  refine ⟨hunanswered, (at_rest_iff pair pair_sound pair_alpha _ givenUp hrun).mpr ⟨?_, ?_⟩⟩
  · exact fun task htask => .inl (List.mem_singleton.mp htask ▸ trivial)
  · exact fun x hx => List.mem_singleton.mp hx ▸ ⟨rfl, _, rfl⟩

/-- **Completion.** Every run of a sound deployment can be continued, without a
failure and without anything new, until everything is at rest. -/
theorem comes_to_rest (d : Deployment SocketAddr) (hd : d.Sound)
    (halpha : ∀ a, 1 ≤ (d.config a).alpha) (events : List (ClusterEvent SocketAddr))
    (c : Cluster SocketAddr) (hrun : Run.run (step d) (new d) events = some c) :
    ∃ more c', (∀ event ∈ more, Goes event) ∧ Run.run (step d) c more = some c' ∧
      AtRest d c' := by
  have hlower : ∀ c₁ event c₂,
      ((∃ events₁, Run.run (step d) (new d) events₁ = some c₁) ∧
        Meets (known d (Asked c) fun p => p ∈ inPlay d c) c₁) → Goes event →
      step d c₁ event = some c₂ →
      ((∃ events₂, Run.run (step d) (new d) events₂ = some c₂) ∧
        Meets (known d (Asked c) fun p => p ∈ inPlay d c) c₂) ∧
          rank (inPlay d c) c₂ < rank (inPlay d c) c₁ := by
    rintro c₁ event c₂ ⟨⟨events₁, hrun₁⟩, hc₁⟩ hgoes hstep
    have hnew : ∀ a operation, event ≠ .begin a operation := by
      rintro a operation rfl
      exact hgoes
    have hasks : Asks (Asked c) event := by
      cases event with
      | begin a operation => exact absurd rfl (hnew a operation)
      | _ => trivial
    refine ⟨⟨⟨events₁ ++ [event], ?_⟩, known_step (configured_inPlay d c) hc₁ hasks hstep⟩,
      event_rank_lt hc₁ hnew hstep⟩
    rw [Run.run_concat, hrun₁]
    exact hstep
  obtain ⟨more, c', hgoes, hmore, ⟨⟨events', hrun'⟩, -⟩, hstuck⟩ :=
    Run.exists_run_stuck (rank (inPlay d c)) hlower
      ⟨⟨events, hrun⟩, known_run (configured_inPlay d c) (fun _ ha => ha) hrun⟩
  exact ⟨more, c', hgoes, hmore, at_rest_of_stuck hd halpha hrun' hstuck⟩

theorem comes_to_rest_joining :
    ∃ more c', (∀ event ∈ more, Goes event) ∧ Run.run (step pair) joined more = some c' ∧
      AtRest pair c' :=
  comes_to_rest pair pair_sound pair_alpha joining joined joining_run

end Cluster

end DhtKad
