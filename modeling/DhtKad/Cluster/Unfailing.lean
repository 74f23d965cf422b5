import DhtKad.Client.Patient
import DhtKad.Cluster.Lasting

/-!
Lookups of which no call fails.

What holds of a lookup as it starts, and is kept by its own steps as long as it
is sent replies and not errors, holds of every lookup that begins in a run
without failures (`AllLookups.step`). So where the nodes make one query at a
time, a lookup that gives up has a reply from everybody it has queried
(`answered_run`).
-/

namespace DhtKad

open RoutingTable DHTServer DHTClient

variable {SocketAddr : Type}

namespace Cluster

variable {d : Deployment SocketAddr} {c c' : Cluster SocketAddr} {n : ℕ}
  {Q : SocketAddr → U128 → Call → Prop}

/-- The lookups with a number from `n` on meet `Q`. -/
def AllLookups (n : ℕ) (Q : SocketAddr → U128 → Call → Prop) (c : Cluster SocketAddr) : Prop :=
  ∀ id task, n ≤ id → c.tasks[id]? = some task → ∀ key call,
    task.operation = .findValue key → task.stage = .looking call → Q task.node key call

theorem allLookups_set (h : AllLookups n Q c) {id : ℕ} {task : Task SocketAddr}
    (htask : c.tasks[id]? = some task) {stage : Stage} {nodes : Network SocketAddr}
    {exchanges : List (Exchange SocketAddr)}
    (hstage : n ≤ id → ∀ key call, task.operation = .findValue key → stage = .looking call →
      Q task.node key call) :
    AllLookups n Q
      { nodes := nodes
        tasks := c.tasks.set id { task with stage := stage }
        exchanges := exchanges } := by
  intro i t hi ht
  rcases getElem?_set_task ht with ⟨rfl, rfl⟩ | ⟨-, ht⟩
  · exact hstage hi
  · exact h i t hi ht

def Unfailing (event : ClusterEvent SocketAddr) : Prop := ∀ i e, event ≠ .fail i e

section Runs

variable [DecidableEq SocketAddr] {event : ClusterEvent SocketAddr}

/-- **One event** keeps what the lookups keep. -/
theorem AllLookups.step (h : AllLookups n Q c)
    (hhit : ∀ a key v, Q a key { lookup := { candidates := [] }, status := .returned (.ok v) })
    (hstarted : ∀ id task key candidates, n ≤ id → c.tasks[id]? = some task →
      task.operation = .findValue key →
      (c.nodes task.node).routingTable.kNearestPeers key = .ok candidates →
      Q task.node key ((d.client task.node).start key candidates))
    (hstepped : ∀ id task key call event call', n ≤ id → c.tasks[id]? = some task →
      task.operation = .findValue key → task.stage = .looking call → Q task.node key call →
      (∀ p r, event = .send p r → ∃ reply, r = .ok reply) →
      DHTClient.step d.parse (d.client task.node) key call event = some call' →
      Q task.node key call')
    (hfail : Unfailing event) (hstep : Cluster.step d c event = some c') :
    AllLookups n Q c' := by
  cases event with
  | begin a operation =>
      obtain rfl := Option.some.inj hstep
      intro id task hid htask key call hoperation hcall
      by_cases hlt : id < c.tasks.length
      · rw [List.getElem?_append_left hlt] at htask
        exact h id task hid htask key call hoperation hcall
      · rw [List.getElem?_append_right (Nat.not_lt.mp hlt)] at htask
        obtain rfl := List.mem_singleton.mp (List.mem_of_getElem? htask)
        cases hcall
  | advance id =>
      obtain ⟨task, turn, htask, hturned, rfl⟩ := advance_eq_some hstep
      refine allLookups_set h htask fun hid key call hoperation hcall => ?_
      generalize hbefore : task.stage = stage at hturned
      rw [hoperation] at hturned
      cases hturned with
      | hit hv =>
          obtain rfl := Stage.looking.inj hcall
          exact hhit _ _ _
      | started hcandidates =>
          obtain rfl := Stage.looking.inj hcall
          exact hstarted id task key _ hid htask hoperation hcandidates
      | received hrecv =>
          obtain rfl := Stage.looking.inj hcall
          exact hstepped id task key _ .recv _ hid htask hoperation hbefore
            (h id task hid htask key _ hoperation hbefore) (by rintro p r ⟨⟩) hrecv
      | panicked e => cases hcall
      | missed => cases hcall
  | lose id p =>
      obtain ⟨task, stage, htask, hlose, rfl⟩ := lose_eq_some hstep
      obtain ⟨key, call, call', hfind, hlooking, hdie, rfl⟩ := Deployment.lose_eq_some hlose
      refine allLookups_set h htask fun hid key' call₁ hoperation hcall => ?_
      obtain rfl := Stage.looking.inj hcall
      obtain rfl := Operation.findValue.inj (hfind.symm.trans hoperation)
      exact hstepped id task key call _ _ hid htask hfind hlooking
        (h id task hid htask key call hfind hlooking) (by rintro p r ⟨⟩) hdie
  | serve i =>
      obtain ⟨x, point, -, -, rfl⟩ := serve_eq_some hstep
      exact h
  | deliver i =>
      obtain ⟨x, reply, -, -, hanswer⟩ := deliver_eq_some hstep
      obtain ⟨task, htask, rfl⟩ := answer_eq_some hanswer
      refine allLookups_set h htask fun hid key call' hoperation hcall => ?_
      obtain ⟨call, hlooking, rfl | ⟨key', p, hfind, -, hsend⟩⟩ := Deployment.hear_eq_looking hcall
      · exact h _ task hid htask key _ hoperation hlooking
      · obtain rfl := Operation.findValue.inj (hfind.symm.trans hoperation)
        refine hstepped _ task key' call _ _ hid htask hfind hlooking
          (h _ task hid htask key' call hfind hlooking) ?_ hsend
        rintro q r hevent
        obtain ⟨-, rfl⟩ := Event.send.inj hevent
        exact ⟨reply, rfl⟩
  | fail i error => exact absurd rfl (hfail i error)

omit [DecidableEq SocketAddr] in
theorem allLookups_length (Q : SocketAddr → U128 → Call → Prop) (c : Cluster SocketAddr) :
    AllLookups c.tasks.length Q c := fun _ _ hid htask =>
  absurd (List.getElem?_eq_some_iff.mp htask).1 (not_lt.mpr hid)

omit [DecidableEq SocketAddr] in
theorem unfailing_of_run {events : List (ClusterEvent SocketAddr)}
    (hfail : ∀ i e, ClusterEvent.fail i e ∉ events) : ∀ event ∈ events, Unfailing event := by
  rintro event hevent i e rfl
  exact hfail i e hevent

/-- Where no call fails, a lookup that gives up has a reply from everybody. -/
theorem answered_run (halpha : ∀ a, (d.config a).alpha = 1) {more : List (ClusterEvent SocketAddr)}
    (hmore : Run.run (Cluster.step d) c more = some c')
    (hfail : ∀ i e, ClusterEvent.fail i e ∉ more)
    {id : ℕ} (hid : c.tasks.length ≤ id) {task : Task SocketAddr}
    (htask : c'.tasks[id]? = some task) {key : U128} (hoperation : task.operation = .findValue key)
    {call : Call} (hstage : task.stage = .looking call)
    {e : RPCError} (hstatus : call.status = .returned (.error e)) :
    ∀ q ∈ call.lookup.queried, ∃ reply, (q, .ok reply) ∈ call.lookup.received := by
  have hpatient : AllLookups c.tasks.length
      (fun a _ call => Patient d.parse (d.client a) call) c' := by
    refine Run.run_invariant_along (P := fun _ event => Unfailing event) ?_
      (allLookups_length _ c)
      (Run.along_of_forall_mem (fun event hevent _ => unfailing_of_run hfail event hevent) _) hmore
    intro c event c' h hevent hstep
    refine h.step (fun _ _ => patient_hit) (fun _ task key candidates _ _ _ _ => ?_) ?_ hevent hstep
    · exact patient_start (halpha task.node) key candidates
    · rintro id task key call event call' - - - - hcall hsent hstep
      exact hcall.step (halpha task.node) hsent hstep
  exact (hpatient id task hid htask key call hoperation hstage).exists_reply hstatus

end Runs

end Cluster

end DhtKad
