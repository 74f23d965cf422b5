import DhtKad.Client.Store
import DhtKad.Cluster.Lasting
import DhtKad.Cluster.Values

/-!
A store that succeeded is not undone.

A node that answers a store with `OK` holds the key, and no event takes a key
away from a node: a later store for it only replaces the value. `store` itself
returns `Ok` if one answer is `OK`, so after that, whatever happens, some node
holds the key, with a value that was given to a store under it
(`stored_key_held`).
-/

namespace DhtKad

open RoutingTable DHTServer DHTClient

variable {SocketAddr : Type}

/-- The answer counts as a success of a store. -/
def Accepts (reply : Message) : Prop := reply.code.enumValueOrDefault = .ok

theorem not_accepts_createInvalidResponse : ¬ Accepts createInvalidResponse := nofun

theorem exists_accepts_of_storeResult {results : List (Except IoError Message)}
    (h : storeResult results = .ok ()) : ∃ reply, .ok reply ∈ results ∧ Accepts reply := by
  rw [storeResult_eq] at h
  split at h
  · cases h
  · rename_i hfail
    simp only [not_forall, Option.not_isSome_iff_eq_none] at hfail
    obtain ⟨r, hr, hnone⟩ := hfail
    obtain ⟨reply, rfl, hcode⟩ := (failure_eq_none_iff r).mp hnone
    exact ⟨reply, hr, hcode⟩

namespace Cluster

def Holds (nodes : Network SocketAddr) (a : SocketAddr) (key : U128) : Prop :=
  ((nodes a).kvstore.store (keyToBytes key)).isSome

/-- Every success of a store is one of a node of the kind `T` that holds the key. -/
def successes (T : SocketAddr → Prop) : Record SocketAddr where
  task nodes _ _ operation stage :=
    match operation, stage with
    | .store key _, .storing results =>
        ∀ reply, some (.ok reply) ∈ results → Accepts reply → ∃ a, T a ∧ Holds nodes a key
    | .store key _, .stored result => result = .ok () → ∃ a, T a ∧ Holds nodes a key
    | _, _ => True
  call nodes _ _ operation call progress :=
    match operation with
    | .store key _ => ∀ reply, progress = .replied reply → Accepts reply →
        Holds nodes call.target key
    | _ => True

section Lasting

variable [DecidableEq SocketAddr] {d : Deployment SocketAddr} {S T : SocketAddr → Prop}
  {P : Peer → Prop} {nodes : Network SocketAddr} {id : ℕ} {a b : SocketAddr} {s' : DHTServer}
  {operation : Operation} {call : RemoteCall SocketAddr}

theorem Holds.grows {key : U128} (h : Holds nodes a key) (hgrows : Grows (nodes b) s') :
    Holds (Function.update nodes b s') a key := by
  by_cases ha : a = b
  · subst ha
    rw [Holds, Function.update_self]
    exact hgrows.kvstore _ h
  · rwa [Holds, Function.update_of_ne ha]

theorem successes_task_grows {stage : Stage}
    (h : (successes T).task nodes id a operation stage) (hgrows : Grows (nodes b) s') :
    (successes T).task (Function.update nodes b s') id a operation stage := by
  cases operation with
  | store key value =>
      cases stage with
      | storing results =>
          intro reply hreply haccepts
          obtain ⟨target, htarget, hholds⟩ := h reply hreply haccepts
          exact ⟨target, htarget, hholds.grows hgrows⟩
      | stored result =>
          intro hok
          obtain ⟨target, htarget, hholds⟩ := h hok
          exact ⟨target, htarget, hholds.grows hgrows⟩
      | _ => trivial
  | _ => trivial

theorem successes_turned {stage : Stage} {turn : Turn SocketAddr}
    (htask : (successes T).task nodes id a operation stage)
    (h : d.Turned a (nodes a) operation stage turn) :
    (successes T).task (Function.update nodes a turn.server) id a operation
      turn.stage := by
  cases h with
  | panicked e => cases operation <;> trivial
  | storing htargets =>
      intro reply hreply
      simp at hreply
  | stored =>
      intro hok
      obtain ⟨reply, hreply, haccepts⟩ := exists_accepts_of_storeResult hok
      obtain ⟨target, htarget, hholds⟩ :=
        htask reply (List.reduceOption_mem_iff.mp hreply) haccepts
      exact ⟨target, htarget, by simpa using hholds⟩
  | introduced htargets => trivial
  | pinged hreported htargets => trivial
  | bootstrapped htable => trivial
  | hit hv => trivial
  | missed => trivial
  | started hcandidates => trivial
  | received hstep => trivial

omit [DecidableEq SocketAddr] in
/-- Only the step that puts the value answers a store with `OK`. -/
theorem put_of_accepts {message : Message} {point : Point} {s : DHTServer} {reply : Message}
    (hpoint : point.rpc = .store)
    (hreplied : progressAfter (atomicStep message point s) = .replied reply)
    (haccepts : Accepts reply) :
    (stateAfter (atomicStep message point s)).kvstore.store message.key = some message.value := by
  cases point with
  | opened rpc =>
      obtain rfl : rpc = .store := hpoint
      rw [atomicStep] at hreplied
      rcases recordSender_cases message s with ⟨-, h⟩ | ⟨-, e, h⟩ | ⟨p, t, r, -, -, h⟩
      · rw [h] at hreplied
        cases hreplied
        exact absurd haccepts not_accepts_createInvalidResponse
      · rw [h] at hreplied
        cases hreplied
      · rw [h] at hreplied
        cases hreplied
  | storing => exact MemoryStore.put_store_self _ _ _
  | reading => cases hpoint
  | missed => cases hpoint

theorem successes_served {point : Point}
    {out : EStateM.Result Panic DHTServer (Point ⊕ Message)}
    (hknown : (known d S P).call a operation call) (hrpc : point.rpc = call.rpc)
    (hout : atomicStep call.request point (nodes call.target) = out) :
    (successes T).call (Function.update nodes call.target (stateAfter out)) id a operation
      call (progressAfter out) := by
  cases operation with
  | store key value =>
      obtain ⟨-, ⟨hcall, hrequest⟩, -⟩ := hknown
      subst hout
      intro reply hreplied haccepts
      have hput := put_of_accepts (hrpc.trans hcall) hreplied haccepts
      rw [hrequest] at hput
      rw [Holds, Function.update_self, hrequest]
      exact Option.isSome_iff_exists.mpr ⟨_, hput⟩
  | _ => trivial

omit [DecidableEq SocketAddr] in
theorem successes_heard (htarget : T call.target) {progress : Progress}
    {result : Except IoError Message} {stage stage' : Stage}
    (htask : (successes T).task nodes id a operation stage)
    (hcall : (successes T).call nodes id a operation call progress)
    (hresult : ∀ reply, result = .ok reply → progress = .replied reply)
    (h : d.Heard a operation call.slot result stage stage') :
    (successes T).task nodes id a operation stage' := by
  cases h with
  | stored i =>
      cases operation with
      | store key value =>
          intro reply hreply haccepts
          rcases List.mem_or_eq_of_mem_set hreply with hreply | hreply
          · exact htask reply hreply haccepts
          · exact ⟨call.target, htarget,
              hcall reply (hresult reply (Option.some.inj hreply).symm) haccepts⟩
      | _ => trivial
  | ignored => exact htask
  | introduced i => cases operation <;> trivial
  | pinged i => cases operation <;> trivial
  | queried hoperation hstep => cases operation <;> trivial

theorem successes_lasting (S : SocketAddr → Prop)
    (hT : ∀ p b, P p → d.parse p.address = some b → T b) :
    Lasting (known d S P) (successes T) d where
  task_grows _ _ _ _ _ _ _ _ hgrows h := successes_task_grows h hgrows
  call_grows _ _ _ _ _ operation _ _ _ hgrows h := by
    cases operation with
    | store key value =>
        exact fun reply hreplied haccepts => (h reply hreplied haccepts).grows hgrows
    | _ => trivial
  begun _ _ _ operation := by cases operation <;> trivial
  turned _ _ _ operation _ _ _ _ htask h := by
    refine ⟨successes_turned htask (Deployment.turn_turned h), fun call _ => ?_⟩
    cases operation with
    | store key value => exact fun reply hreplied => nomatch hreplied
    | _ => trivial
  served _ _ _ _ _ _ _ hknown _ hrpc _ hout := successes_served hknown hrpc hout
  heard _ _ _ _ _ _ _ _ hknown _ htask hcall hresult := by
    obtain ⟨-, -, p, hp, hparse⟩ := hknown
    exact successes_heard (hT p _ hp hparse) htask hcall hresult (d.hear_heard _ _ _ _ _)
  lost _ _ _ _ _ _ _ _ _ _ := trivial

/-- What holds of all that a store is begun with holds of every value. -/
theorem genuine_run {V : U128 → Bytes → Prop} {events : List (ClusterEvent SocketAddr)}
    {c : Cluster SocketAddr}
    (hV : ∀ a key value, ClusterEvent.begin a (.store key value) ∈ events → V key value)
    (hrun : Run.run (step d) (new d) events = some c) : Meets (genuine d V) c := by
  refine (genuine_stable d V).run ?_ hrun
  apply Run.along_of_forall_mem
  intro event hevent c
  cases event with
  | begin a operation =>
      rintro key value rfl
      exact hV a key value hevent
  | deliver i => exact fun _ _ _ _ _ _ => trivial
  | _ => trivial

theorem issued_of_returned {events more : List (ClusterEvent SocketAddr)}
    {c c' : Cluster SocketAddr} (hrun : Run.run (step d) (new d) events = some c)
    (hmore : Run.run (step d) c more = some c') {task : Task SocketAddr} {key : U128} {call : Call}
    {v : Bytes} (htask : c'.tasks[id]? = some task) (hoperation : task.operation = .findValue key)
    (hstage : task.stage = .looking call) (hstatus : call.status = .returned (.ok v)) :
    Issued (events ++ more) key v := by
  have hrun' : Run.run (step d) (new d) (events ++ more) = some c' := by
    rw [Run.run_append, hrun, Option.bind_some, hmore]
  have hgenuine := (genuine_run (V := Issued (events ++ more)) (fun a _ _ h => ⟨a, h⟩) hrun').tasks
    task (List.mem_of_getElem? htask)
  rw [hoperation, hstage] at hgenuine
  exact Genuine.status hgenuine v hstatus

theorem issued_of_holds {events : List (ClusterEvent SocketAddr)} {c : Cluster SocketAddr}
    (hrun : Run.run (step d) (new d) events = some c) {key : U128} (h : Holds c.nodes a key) :
    ∃ v, (c.nodes a).kvstore.store (keyToBytes key) = some v ∧ Issued events key v := by
  have hgenuine := genuine_run (V := Issued events) (fun a _ _ h => ⟨a, h⟩) hrun
  obtain ⟨v, hv⟩ := Option.isSome_iff_exists.mp h
  obtain ⟨key', hkey, hv'⟩ := hgenuine.nodes a _ v hv
  exact ⟨v, hv, keyToBytes_injective hkey ▸ hv'⟩

end Lasting

/-- **Durability.** In every run a node that has answered a store with `OK` holds
the key from then on, and once a call of `store` has returned `Ok` some node does;
and the value it holds is one that was given to a store under this key. -/
theorem stored_key_held [DecidableEq SocketAddr] (d : Deployment SocketAddr)
    (events : List (ClusterEvent SocketAddr)) (c : Cluster SocketAddr)
    (hrun : Run.run (step d) (new d) events = some c) :
    (∀ x ∈ c.exchanges, ∀ task, c.tasks[x.caller]? = some task →
        ∀ key value, task.operation = .store key value →
        ∀ reply, x.progress = .replied reply → Accepts reply →
        ∃ v, (c.nodes x.target).kvstore.store (keyToBytes key) = some v ∧ Issued events key v) ∧
      ∀ task ∈ c.tasks, ∀ key value, task.operation = .store key value →
        task.stage = .stored (.ok ()) →
        ∃ a v, (c.nodes a).kvstore.store (keyToBytes key) = some v ∧ Issued events key v := by
  obtain ⟨-, hholds⟩ :=
    (successes_lasting (T := fun _ => True) _ fun _ _ _ _ => trivial).run_new hrun
  refine ⟨fun x hx task htask key value hoperation reply hreplied haccepts => ?_, ?_⟩
  · have hcall := hholds.calls x hx task htask
    rw [hoperation] at hcall
    exact issued_of_holds hrun (hcall reply hreplied haccepts)
  · intro task htask key value hoperation hstage
    obtain ⟨id, hid⟩ := List.mem_iff_getElem?.mp htask
    have htask := hholds.tasks id task hid
    rw [hoperation, hstage] at htask
    obtain ⟨a, -, hholds⟩ := htask rfl
    exact ⟨a, issued_of_holds hrun hholds⟩

/-- The answer to the store is delivered, and the store returns. -/
def acknowledged : Cluster Bool :=
  { stored with
    nodes := Function.update stored.nodes true (stored.nodes true)
    tasks := joined.tasks ++
      [{ node := true, operation := .store 5 [7], stage := .stored (.ok ()) }]
    exchanges := [introduction, { delivery with awaited := false }] }

theorem acknowledged_run :
    Run.run (step pair) stored [.deliver 1, .advance 1] = some acknowledged :=
  Run.run_cons_eq_some.mpr ⟨_, rfl, rfl⟩

theorem stored_key_held_acknowledged :
    (∀ x ∈ acknowledged.exchanges, ∀ task, acknowledged.tasks[x.caller]? = some task →
        ∀ key value, task.operation = .store key value →
        ∀ reply, x.progress = .replied reply → Accepts reply →
        ∃ v, (acknowledged.nodes x.target).kvstore.store (keyToBytes key) = some v ∧
          Issued (joining ++ (storing ++ [.deliver 1, .advance 1])) key v) ∧
      ∀ task ∈ acknowledged.tasks, ∀ key value, task.operation = .store key value →
        task.stage = .stored (.ok ()) →
        ∃ a v, (acknowledged.nodes a).kvstore.store (keyToBytes key) = some v ∧
          Issued (joining ++ (storing ++ [.deliver 1, .advance 1])) key v := by
  refine stored_key_held pair _ acknowledged ?_
  rw [Run.run_append, joining_run, Option.bind_some, Run.run_append, storing_run,
    Option.bind_some, acknowledged_run]

end Cluster

end DhtKad
