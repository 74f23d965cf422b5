import DhtKad.Client.Termination
import DhtKad.Cluster.Closed
import Mathlib.Algebra.BigOperators.Group.List.Basic

/-!
A cluster that is asked for nothing more comes to an end.

Every event uses something up. A task that takes a turn comes nearer to the end
of its operation: a bootstrap and a store have a fixed number of turns, and a
lookup has one for each peer that it does not know yet, as far as replies bring
new ones. While they do not, its candidates are used up. Each candidate pays for
the query that it becomes, and a remote call for the steps of its handler and
for the result that is handed over. So the rank of a cluster is the number of
turns ahead first (`phase`), and the work that is left until one of them second
(`load` and `ahead`). No bound on the network is assumed: only finitely many
nodes have been asked for something, and all that their operations can come to
know of are these nodes and the peers they are configured with. A bootstrap that
waits for a first connection is held up: that it goes on looking at its table is
no event.
-/

namespace DhtKad

open RoutingTable DHTServer DHTClient

variable {SocketAddr : Type}

/-! ### The rank -/

/-- The turns that are ahead of a task, but for those of a lookup that bring
nothing new. -/
def phase (U : Finset Peer) : Operation → Stage → ℕ
  | .bootstrap, .begun => 3
  | .bootstrap, .introducing _ => 2
  | .bootstrap, .pinging _ _ _ => 1
  | .store _ _, .begun => 2
  | .store _ _, .storing _ => 1
  | .findValue _, .begun => U.card + 3
  | .findValue _, .missed => U.card + 2
  | .findValue _, .looking call =>
      (unseen U call.lookup).card + if call.status = .awaiting then 1 else 0
  | _, _ => 0

/-- What a lookup has under way. A candidate pays for the query it becomes and
for the remote call of that query. -/
def load : Stage → ℕ
  | .looking call =>
      6 * call.lookup.candidates.length + 2 * call.lookup.tasks.length +
        call.lookup.channel.length
  | _ => 0

/-- The steps of a handler that are ahead. -/
def Progress.ahead : Progress → ℕ
  | .running (.opened _) => 3
  | .running .storing => 1
  | .running .reading => 2
  | .running .missed => 1
  | .replied _ => 0
  | .broken _ => 0

/-- What is ahead of a remote call: the steps of its handler, and its result. -/
def Exchange.ahead (x : Exchange SocketAddr) : ℕ :=
  x.progress.ahead + if x.awaited then 1 else 0

def Cluster.rank (U : Finset Peer) (c : Cluster SocketAddr) : ℕ ×ₗ ℕ :=
  toLex ((c.tasks.map fun task => phase U task.operation task.stage).sum,
    (c.tasks.map fun task => load task.stage).sum + (c.exchanges.map Exchange.ahead).sum)

theorem sum_map_set {α : Type} (f : α → ℕ) {l : List α} {i : ℕ} {a : α} (ha : l[i]? = some a)
    (b : α) : ((l.set i b).map f).sum + f a = (l.map f).sum + f b := by
  induction l generalizing i with
  | nil => simp at ha
  | cons c l ih =>
      cases i with
      | zero =>
          obtain rfl : c = a := by simpa using ha
          simp only [List.set_cons_zero, List.map_cons, List.sum_cons]
          omega
      | succ i =>
          have hrest := ih (i := i) (by simpa using ha)
          simp only [List.set_cons_succ, List.map_cons, List.sum_cons]
          omega

/-! ### What a turn uses up -/

section Calls

variable {parse : String → Option SocketAddr} {client : DHTClient} {key : U128} {U : Finset Peer}
  {call call' : Call}

theorem unseen_card_le (U : Finset Peer) (l : Lookup) : (unseen U l).card ≤ U.card :=
  Finset.card_le_card Finset.sdiff_subset

/-- A round makes queries of candidates. -/
theorem load_loopHead (client : DHTClient) (key : U128) (l : Lookup) :
    ∃ n, (client.loopHead key l).lookup.tasks.length = l.tasks.length + n ∧
      load (.looking (client.loopHead key l)) + 4 * n =
        6 * l.candidates.length + 2 * l.tasks.length + l.channel.length := by
  by_cases hc : l.candidates = []
  · exact ⟨0, by simp [loopHead_of_nil client key hc],
      by simp [loopHead_of_nil client key hc, load]⟩
  · have hlen := length_nextQueries client key l
    refine ⟨(client.nextQueries key l).length, ?_, ?_⟩
    · rw [loopHead_of_ne_nil client key hc]
      simp
    · rw [loopHead_of_ne_nil client key hc]
      simp only [load, List.length_reverse, List.length_drop, List.length_append, sortCandidates,
        SortBy.length_sortBy]
      omega

/-- A result that is received brings peers that were not known, or ends the
lookup, or is used up. -/
theorem received_lt (h : Knows parse (fun p => p ∈ U) call)
    (hstep : DHTClient.step parse client key call .recv = some call') :
    phase U (.findValue key) (.looking call') < phase U (.findValue key) (.looking call) ∨
      phase U (.findValue key) (.looking call') = phase U (.findValue key) (.looking call) ∧
        load (.looking call') + 4 * (call'.lookup.tasks.length - call.lookup.tasks.length) <
          load (.looking call) := by
  obtain ⟨hawait, hadvanced⟩ := h.inv.books.advanced hstep
  generalize hrecv : Event.recv = event at hadvanced
  cases hadvanced with
  | sent p r hp hparse => cases hrecv
  | died p hp hparse => cases hrecv
  | returned hch hv =>
      refine .inl ?_
      simp [phase, unseen, merge, seen, hawait]
  | panicked hch hv hd =>
      refine .inl ?_
      simp [phase, hawait]
  | looped hch hv hd =>
      rename_i p r new rest
      have hunseen : unseen U (client.loopHead key (merge call.lookup p r rest new)).lookup =
          unseen U (merge call.lookup p r rest new) :=
        unseen_eq_of_perm (seen_loopHead_perm client key _)
      by_cases hnew : new = []
      · subst hnew
        have hsame : unseen U (merge call.lookup p r rest []) = unseen U call.lookup := by
          simp [unseen, merge, seen]
        obtain ⟨n, htasks, hload⟩ := load_loopHead client key (merge call.lookup p r rest [])
        have hlt : load (.looking (client.loopHead key (merge call.lookup p r rest []))) + 4 * n <
            load (.looking call) := by
          rw [hload]
          simp [load, merge, hch]
        rw [htasks, show (merge call.lookup p r rest []).tasks = call.lookup.tasks from rfl,
          Nat.add_sub_cancel_left]
        simp only [phase, hunseen, hsame, hawait, if_true]
        split
        · exact .inr ⟨rfl, hlt⟩
        · exact .inl (by omega)
      · refine .inl ?_
        have hwithin : ∀ q ∈ new, q ∈ U := by
          intro q hq
          obtain ⟨⟨reply, rfl, mp, hmp, hdecode⟩, -⟩ := (mem_discovered hd).mp hq
          obtain ⟨ps, hps, hall⟩ := h.channel (p, .ok reply) (by simp [hch]) reply rfl
          exact hall q ((ExceptList.mem_of_mapM hps q).mpr ⟨mp, hmp, hdecode⟩)
        have hlt : (unseen U (merge call.lookup p r rest new)).card <
            (unseen U call.lookup).card := unseen_merge_lt hd hwithin hnew
        simp only [phase, hunseen, hawait, if_true]
        split <;> omega

end Calls

namespace Deployment

variable {d : Deployment SocketAddr} {S : SocketAddr → Prop} {a : SocketAddr} {s : DHTServer}
  {operation : Operation} {stage : Stage} {turn : Turn SocketAddr} {U : Finset Peer}

theorem phase_pos_of_turn (h : d.turn a operation s stage = some turn) :
    0 < phase U operation stage := by
  cases operation with
  | bootstrap =>
      cases stage with
      | begun => exact Nat.succ_pos _
      | introducing results => exact Nat.succ_pos _
      | pinging alivePeers candidatePeers results => exact Nat.succ_pos _
      | _ => cases h
  | store key value =>
      cases stage with
      | begun => exact Nat.succ_pos _
      | storing results => exact Nat.succ_pos _
      | _ => cases h
  | findValue key =>
      cases stage with
      | begun => exact Nat.succ_pos _
      | missed => exact Nat.succ_pos _
      | looking call =>
          cases hstep : DHTClient.step d.parse (d.client a) key call .recv with
          | none =>
              rw [Deployment.turn, findValueTurn, hstep] at h
              cases h
          | some call' => simp [phase, (step_stepped hstep).1]
      | _ => cases h

/-- A turn is one less ahead, or it uses up more than the calls it makes. -/
theorem turn_lt (hstage : (Cluster.known d S fun p => p ∈ U).stage a operation stage)
    (h : d.turn a operation s stage = some turn) :
    phase U operation turn.stage < phase U operation stage ∨
      phase U operation turn.stage = phase U operation stage ∧
        load turn.stage + 4 * turn.calls.length < load stage := by
  have hpos := phase_pos_of_turn (U := U) h
  cases turn_turned h with
  | panicked e => exact .inl (by cases operation <;> exact hpos)
  | introduced htargets => exact .inl (Nat.lt_succ_self 2)
  | pinged hreported htargets => exact .inl (Nat.lt_succ_self 1)
  | bootstrapped htable => exact .inl Nat.zero_lt_one
  | storing htargets => exact .inl (Nat.lt_succ_self 1)
  | stored => exact .inl Nat.zero_lt_one
  | hit hv =>
      have hle := unseen_card_le U { candidates := [] }
      exact .inl (by simp only [phase]; split <;> omega)
  | missed => exact .inl (Nat.lt_succ_self _)
  | started hcandidates =>
      rename_i key candidates
      have hle := unseen_card_le U ((d.client a).start key candidates).lookup
      exact .inl (by simp only [phase]; split <;> omega)
  | received hstep =>
      rename_i key call call'
      refine (received_lt hstage.2 hstep).imp_right (And.imp_right fun hlt => ?_)
      have hcalls : (d.queries a key (call'.lookup.tasks.drop call.lookup.tasks.length)).length ≤
          call'.lookup.tasks.length - call.lookup.tasks.length :=
        (List.length_filterMap_le _ _).trans List.length_drop.le
      show load (.looking call') + 4 * (d.queries a key _).length < _
      omega

/-- A result that is heard leaves the turns ahead as they are and adds nothing
to what is under way. -/
theorem heard_le {slot : Slot} {result : Except IoError Message} {stage' : Stage}
    (h : d.Heard a operation slot result stage stage') :
    phase U operation stage' = phase U operation stage ∧ load stage' ≤ load stage := by
  cases h with
  | ignored => exact ⟨rfl, le_rfl⟩
  | introduced i => exact ⟨by cases operation <;> rfl, le_rfl⟩
  | pinged i => exact ⟨by cases operation <;> rfl, le_rfl⟩
  | stored i => exact ⟨by cases operation <;> rfl, le_rfl⟩
  | queried hoperation hstep =>
      rename_i key p call call'
      subst hoperation
      obtain ⟨hawait, hstepped⟩ := step_stepped hstep
      cases hstepped with
      | sent p r hp hparse =>
          have hlen := List.length_erase_of_mem hp
          have hpos := List.length_pos_of_mem hp
          refine ⟨by simp [phase, unseen, seen, hawait], ?_⟩
          simp only [load, List.length_append, List.length_singleton, hlen]
          omega

theorem lost_lt {p : Peer} {key : U128} {call call' : Call}
    (h : DHTClient.step d.parse (d.client a) key call (.die p) = some call') :
    phase U (.findValue key) (.looking call') = phase U (.findValue key) (.looking call) ∧
      load (.looking call') < load (.looking call) := by
  obtain ⟨hawait, hstepped⟩ := step_stepped h
  cases hstepped with
  | died p hp hparse =>
      have hlen := List.length_erase_of_mem hp
      have hpos := List.length_pos_of_mem hp
      refine ⟨by simp [phase, unseen, seen, hawait], ?_⟩
      simp only [load, hlen]
      omega

end Deployment

namespace DHTServer

theorem AtomicStepped.ahead_lt {message : Message} {s : DHTServer} {point : Point}
    {out : EStateM.Result Panic DHTServer (Point ⊕ Message)}
    (h : AtomicStepped message s point out) :
    (progressAfter out).ahead < (Progress.running point).ahead := by
  have hpos : 0 < (Progress.running point).ahead := by cases point <;> exact Nat.succ_pos _
  cases h with
  | invalid hvalid => exact hpos
  | notRecorded hvalid => exact hpos
  | recorded hnext hsent hupdate =>
      rename_i rpc next p t r
      cases rpc with
      | store => cases hnext; exact (by decide : 1 < 3)
      | findValue => cases hnext; exact (by decide : 2 < 3)
      | ping => cases hnext; exact hpos
      | findNode => cases hnext
  | nodesFound hsent hupdate hkey hpeers => exact hpos
  | nodesPanic hsent hupdate => exact hpos
  | put => exact hpos
  | hit hvalue => exact hpos
  | miss hvalue => exact Nat.lt_succ_self 1

end DHTServer

/-! ### Every event lowers the rank -/

namespace Cluster

variable [DecidableEq SocketAddr] {d : Deployment SocketAddr} {S : SocketAddr → Prop}
  {U : Finset Peer} {c c' : Cluster SocketAddr}

omit [DecidableEq SocketAddr] in
theorem awaited_of_answer {i : ℕ} {x : Exchange SocketAddr} {result : Except IoError Message}
    (h : answer d c i x result = some c') : x.awaited = true := by
  obtain ⟨task, -, h⟩ := Option.bind_eq_some_iff.mp h
  by_contra hawaited
  rw [if_neg hawaited] at h
  cases h

omit [DecidableEq SocketAddr] in
theorem rank_lt_of_set {id : ℕ} {task : Task SocketAddr} {stage : Stage}
    (htask : c.tasks[id]? = some task)
    (htasks : c'.tasks = c.tasks.set id { task with stage := stage })
    (h : phase U task.operation stage < phase U task.operation task.stage ∨
      phase U task.operation stage = phase U task.operation task.stage ∧
        load stage + (c'.exchanges.map Exchange.ahead).sum <
          load task.stage + (c.exchanges.map Exchange.ahead).sum) :
    rank U c' < rank U c := by
  have hphases := sum_map_set (fun task : Task SocketAddr => phase U task.operation task.stage)
    htask { task with stage := stage }
  have hloads := sum_map_set (fun task : Task SocketAddr => load task.stage) htask
    { task with stage := stage }
  rw [← htasks] at hphases hloads
  simp only [] at hphases hloads
  refine Prod.Lex.toLex_lt_toLex.mpr ?_
  rcases h with hphase | ⟨hphase, hload⟩
  · exact .inl (by omega)
  · exact .inr ⟨by omega, by simp only []; omega⟩

omit [DecidableEq SocketAddr] in
theorem sum_ahead_issue (id : ℕ) (calls : List (RemoteCall SocketAddr)) :
    ((calls.map (RemoteCall.issue id)).map Exchange.ahead).sum = 4 * calls.length := by
  induction calls with
  | nil => rfl
  | cons call calls ih =>
      have hissue : (call.issue id).ahead = 4 := rfl
      simp only [List.map_cons, List.sum_cons, ih, hissue, List.length_cons]
      omega

omit [DecidableEq SocketAddr] in
theorem answer_rank_lt {i : ℕ} {x : Exchange SocketAddr} {result : Except IoError Message}
    (hx : c.exchanges[i]? = some x) (h : answer d c i x result = some c') :
    rank U c' < rank U c := by
  have hawaited := awaited_of_answer h
  obtain ⟨task, htask, rfl⟩ := answer_eq_some h
  obtain ⟨hphase, hload⟩ := Deployment.heard_le (U := U)
    (d.hear_heard task.node task.operation x.slot result task.stage)
  have haheads := sum_map_set Exchange.ahead hx { x with awaited := false }
  have hahead : x.ahead = Exchange.ahead { x with awaited := false } + 1 := by
    simp [Exchange.ahead, hawaited]
  refine rank_lt_of_set htask rfl (.inr ⟨hphase, ?_⟩)
  simp only []
  omega

/-- **One event.** Unless something new is begun, an event lowers the rank. -/
theorem event_rank_lt (hc : Meets (known d S fun p => p ∈ U) c)
    {event : ClusterEvent SocketAddr} (hnew : ∀ a operation, event ≠ .begin a operation)
    (hstep : step d c event = some c') : rank U c' < rank U c := by
  cases event with
  | begin a operation => exact absurd rfl (hnew a operation)
  | advance id =>
      obtain ⟨task, htask, hstep⟩ := Option.bind_eq_some_iff.mp hstep
      obtain ⟨turn, hturn, hstep⟩ := Option.bind_eq_some_iff.mp hstep
      obtain rfl := Option.some.inj hstep
      refine rank_lt_of_set htask rfl ?_
      refine (Deployment.turn_lt (hc.tasks task (List.mem_of_getElem? htask)) hturn).imp_right
        (And.imp_right fun hload => ?_)
      have haheads := sum_ahead_issue id turn.calls
      simp only [List.map_append, List.sum_append]
      omega
  | lose id p =>
      obtain ⟨task, stage, htask, hlose, rfl⟩ := lose_eq_some hstep
      obtain ⟨key, call, call', hoperation, hlooking, hdie, rfl⟩ := Deployment.lose_eq_some hlose
      obtain ⟨hphase, hload⟩ := Deployment.lost_lt (U := U) hdie
      refine rank_lt_of_set htask rfl (.inr ?_)
      rw [hoperation, hlooking]
      exact ⟨hphase, Nat.add_lt_add_right hload _⟩
  | serve i =>
      obtain ⟨x, point, hx, hprogress, rfl⟩ := serve_eq_some hstep
      have hlt := (atomicStep_stepped x.request (c.nodes x.target) point).ahead_lt
      have haheads := sum_map_set Exchange.ahead hx
        { x with progress := progressAfter (atomicStep x.request point (c.nodes x.target)) }
      simp only [Exchange.ahead, hprogress] at haheads
      refine Prod.Lex.toLex_lt_toLex.mpr (.inr ⟨rfl, ?_⟩)
      simp only []
      omega
  | deliver i =>
      obtain ⟨x, reply, hx, -, hanswer⟩ := deliver_eq_some hstep
      exact answer_rank_lt hx hanswer
  | fail i error =>
      obtain ⟨x, hx, hanswer⟩ := Option.bind_eq_some_iff.mp hstep
      exact answer_rank_lt hx hanswer

omit [DecidableEq SocketAddr] in
/-- The peers that the operations under way can come to know of. -/
def inPlay (d : Deployment SocketAddr) (c : Cluster SocketAddr) : Finset Peer :=
  (c.tasks.flatMap fun task =>
    d.localPeer task.node :: (d.config task.node).bootstrapPeers).toFinset

omit [DecidableEq SocketAddr] in
theorem configured_inPlay (d : Deployment SocketAddr) (c : Cluster SocketAddr) :
    d.Configured (Asked c) fun p => p ∈ inPlay d c where
  localPeer := by
    rintro a ⟨task, htask, rfl⟩
    exact List.mem_toFinset.mpr (List.mem_flatMap.mpr ⟨task, htask, by simp⟩)
  bootstrapPeers := by
    rintro a ⟨task, htask, rfl⟩ p hp
    exact List.mem_toFinset.mpr (List.mem_flatMap.mpr
      ⟨task, htask, List.mem_cons_of_mem _ hp⟩)

/-- **Termination.** Whatever has happened: if nothing new is begun, no sequence
of events goes on for ever, however the tasks and the handlers are interleaved
and whatever is delivered or lost. -/
theorem runs_end (d : Deployment SocketAddr) (events : List (ClusterEvent SocketAddr))
    (c : Cluster SocketAddr) (hrun : Run.run (step d) (new d) events = some c)
    (more : ℕ → ClusterEvent SocketAddr)
    (hmore : ∀ n a operation, more n ≠ .begin a operation) :
    ∃ n, Run.run (step d) c ((List.range n).map more) = none := by
  refine Run.exists_run_eq_none (rank (inPlay d c))
    (P := fun event => ∀ a operation, event ≠ .begin a operation)
    (I := Meets (known d (Asked c) fun p => p ∈ inPlay d c)) ?_
    (known_run (configured_inPlay d c) (fun _ ha => ha) hrun) more hmore
  intro c₁ event c₂ hc hnew hstep
  refine ⟨known_step (configured_inPlay d c) hc ?_ hstep, event_rank_lt hc hnew hstep⟩
  cases event with
  | begin a operation => exact absurd rfl (hnew a operation)
  | _ => trivial

/-- After a node has joined, whatever is tried again and again. -/
theorem runs_end_joining :
    ∃ n, Run.run (step pair) joined
      ((List.range n).map fun n => if n % 2 = 0 then .deliver 0 else .advance 0) = none := by
  refine runs_end pair joining joined joining_run _ fun n a operation => ?_
  split <;> exact nofun

end Cluster

end DhtKad
