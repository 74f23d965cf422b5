import DhtKad.Cluster.Replication

/-!
The value of the last store.

While nothing else is on its way to be put under a key, a node that changes what
it holds under it takes the new value (`Sole`). So in a small network whose nodes
know each other a store that has returned, with no other one of the key under
way, has left its value at all other nodes, and there it stays until somebody
stores another one. What lookups find that begin later is this value; only the
node that made the store may still hold an older one, which it finds instead
(`last_write_read`).
-/

namespace DhtKad

open RoutingTable DHTServer DHTClient

variable {SocketAddr : Type}

namespace Cluster

variable {d : Deployment SocketAddr} {S : SocketAddr → Prop} {c c' : Cluster SocketAddr}
  {n : ℕ} {key : U128} {v : Bytes}

/-! ### One value on its way -/

/-- Nothing but the value is on its way to be put under the key. -/
structure Sole (key : U128) (v : Bytes) (c : Cluster SocketAddr) : Prop where
  tasks : ∀ task ∈ c.tasks, ∀ w, task.operation = .store key w → task.stage = .begun → w = v
  calls : ∀ x ∈ c.exchanges, ∀ point, x.progress = .running point → x.rpc = .store →
    x.request.key = keyToBytes key → x.request.value = v

/-- Every store of the key has sent its requests, and none of them is handled any
more. -/
def Quiet (key : U128) (c : Cluster SocketAddr) : Prop :=
  ∀ id task w, c.tasks[id]? = some task → task.operation = .store key w →
    task.stage ≠ .begun ∧
      ∀ x ∈ c.exchanges, x.caller = id → ∀ point, x.progress ≠ .running point

/-- Only a store sends a request to store something, and it does so as it begins. -/
theorem store_of_turned {a : SocketAddr} {s : DHTServer} {operation : Operation} {stage : Stage}
    {turn : Turn SocketAddr} (h : d.Turned a s operation stage turn)
    {call : RemoteCall SocketAddr} (hcall : call ∈ turn.calls) (hrpc : call.rpc = .store) :
    ∃ key w, operation = .store key w ∧ stage = .begun ∧
      call.request = createStoreRequest (d.localPeer a) key w := by
  have hother {rpc : Rpc} (h : call.rpc = rpc) (hne : rpc ≠ .store) : False :=
    hne (h.symm.trans hrpc)
  cases h with
  | storing htargets => exact ⟨_, _, rfl, rfl, (Deployment.mem_joined hcall).2.1⟩
  | introduced htargets => exact (hother (Deployment.mem_joined hcall).1 (by decide)).elim
  | pinged hreported htargets => exact (hother (Deployment.mem_joined hcall).1 (by decide)).elim
  | started hcandidates => exact (hother (d.mem_queries a hcall).1 (by decide)).elim
  | received hstep => exact (hother (d.mem_queries a hcall).1 (by decide)).elim
  | panicked e => cases hcall
  | bootstrapped htable => cases hcall
  | stored => cases hcall
  | hit hv => cases hcall
  | missed => cases hcall

theorem not_begun_of_turned {a : SocketAddr} {s : DHTServer} {operation : Operation}
    {stage : Stage} {turn : Turn SocketAddr} (h : d.Turned a s operation stage turn) :
    turn.stage ≠ .begun := by
  cases h with
  | _ => simp

theorem begun_of_heard {a : SocketAddr} {operation : Operation} {slot : Slot}
    {result : Except IoError Message} {stage stage' : Stage}
    (h : d.Heard a operation slot result stage stage') (hbegun : stage' = .begun) :
    stage = .begun := by
  cases h with
  | ignored => exact hbegun
  | _ => cases hbegun

theorem Quiet.sole (h : Quiet key c) {P : Peer → Prop} (hc : Meets (known d S P) c) (v : Bytes) :
    Sole key v c := by
  refine ⟨fun task htask w hoperation hbegun => ?_, fun x hx point hprogress hrpc hkey => ?_⟩
  · obtain ⟨id, hid⟩ := List.mem_iff_getElem?.mp htask
    exact absurd hbegun (h id task w hid hoperation).1
  · obtain ⟨task, htask, hapt⟩ := hc.exchanges x hx
    have hrequests := hapt.call.2.1
    cases hoperation : task.operation with
    | bootstrap =>
        rw [hoperation] at hrequests
        rcases hrequests with ⟨hfind, -⟩ | ⟨hping, -⟩
        · cases hfind.symm.trans hrpc
        · cases hping.symm.trans hrpc
    | findValue key' =>
        rw [hoperation] at hrequests
        cases hrequests.1.symm.trans hrpc
    | store key' w =>
        rw [hoperation] at hrequests
        rw [hrequests.2] at hkey
        obtain rfl : key' = key := keyToBytes_injective hkey
        exact absurd hprogress ((h x.caller task w htask hoperation).2 x hx rfl point)

section Step

variable [DecidableEq SocketAddr] {event : ClusterEvent SocketAddr}

theorem operation_of_step (hstep : step d c event = some c') {id : ℕ} {task : Task SocketAddr}
    (htask : c.tasks[id]? = some task) :
    ∃ task', c'.tasks[id]? = some task' ∧ task'.node = task.node ∧
      task'.operation = task.operation := by
  have hlt := (List.getElem?_eq_some_iff.mp htask).1
  have hset {j : ℕ} {t : Task SocketAddr} {stage : Stage} (ht : c.tasks[j]? = some t) :
      ∃ task', (c.tasks.set j { t with stage := stage })[id]? = some task' ∧
        task'.node = task.node ∧ task'.operation = task.operation := by
    by_cases hj : j = id
    · subst hj
      obtain rfl := Option.some.inj (htask.symm.trans ht)
      exact ⟨_, List.getElem?_set_self hlt, rfl, rfl⟩
    · exact ⟨task, (List.getElem?_set_ne hj).trans htask, rfl, rfl⟩
  cases event with
  | begin a operation =>
      obtain rfl := Option.some.inj hstep
      exact ⟨task, (List.getElem?_append_left hlt).trans htask, rfl, rfl⟩
  | advance j =>
      obtain ⟨t, turn, ht, -, rfl⟩ := advance_eq_some hstep
      exact hset ht
  | lose j p =>
      obtain ⟨t, stage, ht, -, rfl⟩ := lose_eq_some hstep
      exact hset ht
  | serve i =>
      obtain ⟨x, point, -, -, rfl⟩ := serve_eq_some hstep
      exact ⟨task, htask, rfl, rfl⟩
  | deliver i =>
      obtain ⟨x, reply, -, -, hanswer⟩ := deliver_eq_some hstep
      obtain ⟨t, ht, rfl⟩ := answer_eq_some hanswer
      exact hset ht
  | fail i error =>
      obtain ⟨x, -, hanswer⟩ := Option.bind_eq_some_iff.mp hstep
      obtain ⟨t, ht, rfl⟩ := answer_eq_some hanswer
      exact hset ht

/-- A task that has taken no turn was there before, or it begins. -/
theorem begun_of_step (hstep : step d c event = some c') {task : Task SocketAddr}
    (htask : task ∈ c'.tasks) (hbegun : task.stage = .begun) :
    task ∈ c.tasks ∨ event = .begin task.node task.operation := by
  have hheard {x : Exchange SocketAddr} {t : Task SocketAddr} {result : Except IoError Message}
      (ht : c.tasks[x.caller]? = some t) (hmem : task ∈ c.tasks.set x.caller
        { t with stage := d.hear t.node t.operation x.slot result t.stage }) : task ∈ c.tasks := by
    rcases List.mem_or_eq_of_mem_set hmem with hmem | rfl
    · exact hmem
    · have hstage := begun_of_heard (d.hear_heard t.node t.operation x.slot result t.stage) hbegun
      have hsame : (⟨t.node, t.operation, d.hear t.node t.operation x.slot result t.stage⟩ :
          Task SocketAddr) = t := by
        obtain ⟨node, operation, stage⟩ := t
        exact congrArg (Task.mk node operation) (hbegun.trans hstage.symm)
      rw [hsame]
      exact List.mem_of_getElem? ht
  cases event with
  | begin a operation =>
      obtain rfl := Option.some.inj hstep
      rcases List.mem_append.mp htask with htask | htask
      · exact .inl htask
      · obtain rfl := List.mem_singleton.mp htask
        exact .inr rfl
  | advance id =>
      obtain ⟨t, turn, -, hturned, rfl⟩ := advance_eq_some hstep
      rcases List.mem_or_eq_of_mem_set htask with htask | rfl
      · exact .inl htask
      · exact absurd hbegun (not_begun_of_turned hturned)
  | lose id p =>
      obtain ⟨t, stage, -, hlose, rfl⟩ := lose_eq_some hstep
      obtain ⟨_, _, _, -, -, -, rfl⟩ := Deployment.lose_eq_some hlose
      rcases List.mem_or_eq_of_mem_set htask with htask | rfl
      · exact .inl htask
      · cases hbegun
  | serve i =>
      obtain ⟨x, point, -, -, rfl⟩ := serve_eq_some hstep
      exact .inl htask
  | deliver i =>
      obtain ⟨x, reply, -, -, hanswer⟩ := deliver_eq_some hstep
      obtain ⟨t, ht, rfl⟩ := answer_eq_some hanswer
      exact .inl (hheard ht htask)
  | fail i error =>
      obtain ⟨x, -, hanswer⟩ := Option.bind_eq_some_iff.mp hstep
      obtain ⟨t, ht, rfl⟩ := answer_eq_some hanswer
      exact .inl (hheard ht htask)

theorem Sole.step (h : Sole key v c) (honly : ∀ a w, event = .begin a (.store key w) → w = v)
    (hstep : Cluster.step d c event = some c') : Sole key v c' := by
  refine ⟨fun task htask w hoperation hbegun => ?_, fun x' hx' point hprogress hrpc hkey => ?_⟩
  · rcases begun_of_step hstep htask hbegun with htask | rfl
    · exact h.tasks task htask w hoperation hbegun
    · exact honly task.node w (by rw [hoperation])
  · rcases exchange_origin hstep hx' with ⟨x, hx, hcall, -, hsame⟩ |
      ⟨i, x, point', -, hx, hrunning, hcall, -, -, -⟩ | ⟨task, turn, -, htask, hturned, hcall, -⟩
    · rw [hcall] at hrpc hkey ⊢
      exact h.calls x hx point (hsame.symm.trans hprogress) hrpc hkey
    · rw [hcall] at hrpc hkey ⊢
      exact h.calls x (List.mem_of_getElem? hx) point' hrunning hrpc hkey
    · obtain ⟨key', w, hoperation, hbegun, hrequest⟩ := store_of_turned hturned hcall hrpc
      rw [hrequest] at hkey ⊢
      obtain rfl : key' = key := keyToBytes_injective hkey
      exact h.tasks task (List.mem_of_getElem? htask) w hoperation hbegun

/-- A node that changes what it holds under the key takes the value. -/
theorem Sole.value {P : Peer → Prop} (h : Sole key v c) (hc : Meets (known d S P) c)
    (hstep : Cluster.step d c event = some c') (b : SocketAddr) :
    (c'.nodes b).kvstore.store (keyToBytes key) = (c.nodes b).kvstore.store (keyToBytes key) ∨
      (c'.nodes b).kvstore.store (keyToBytes key) = some v := by
  refine (value_of_step hstep b (keyToBytes key)).imp_right ?_
  rintro ⟨x, hx, hprogress, -, hkey, hvalue⟩
  obtain ⟨task, -, hapt⟩ := hc.exchanges x hx
  rw [hvalue, h.calls x hx .storing hprogress (hapt.running _ hprogress).symm hkey]

/-! ### The store -/

/-- Whoever has answered a store with a number from `n` on holds the value. -/
def Written (key : U128) (v : Bytes) (n : ℕ) (c : Cluster SocketAddr) : Prop :=
  ∀ x ∈ c.exchanges, ∀ task, n ≤ x.caller → c.tasks[x.caller]? = some task →
    ∀ w, task.operation = .store key w → ∀ reply, x.progress = .replied reply → Accepts reply →
      (c.nodes x.target).kvstore.store (keyToBytes key) = some v

theorem Written.step {P : Peer → Prop} (h : Written key v n c) (hc : Meets (known d S P) c)
    (hsole : Sole key v c) (hstep : Cluster.step d c event = some c') : Written key v n c' := by
  intro x' hx' task' hid htask' w hoperation' reply hreply haccepts
  have hkeeps {b : SocketAddr}
      (hb : (c.nodes b).kvstore.store (keyToBytes key) = some v) :
      (c'.nodes b).kvstore.store (keyToBytes key) = some v :=
    (hsole.value hc hstep b).elim (fun heq => heq.trans hb) id
  -- the task had this operation before
  have htask {x : Exchange SocketAddr} (hx : x ∈ c.exchanges) (hcaller : x'.caller = x.caller) :
      ∃ task, c.tasks[x.caller]? = some task ∧ task.operation = .store key w ∧
        Apt (known d S P) task.node task.operation x := by
    obtain ⟨task, htask, hapt⟩ := hc.exchanges x hx
    obtain ⟨t, ht, -, hsame⟩ := operation_of_step hstep htask
    obtain rfl := Option.some.inj (ht.symm.trans (hcaller ▸ htask'))
    exact ⟨task, htask, hsame.symm.trans hoperation', hapt⟩
  rcases exchange_origin hstep hx' with ⟨x, hx, hcall, hcaller, hsame⟩ |
    ⟨i, x, point, -, hx, hrunning, hcall, hcaller, hserved, hnode⟩ | ⟨_, _, -, -, -, -, hopened⟩
  · obtain ⟨task, htask, hoperation, -⟩ := htask hx hcaller
    rw [hcall]
    exact hkeeps (h x hx task (hcaller ▸ hid) htask w hoperation reply (hsame.symm.trans hreply)
      haccepts)
  · have hmem := List.mem_of_getElem? hx
    obtain ⟨task, -, hoperation, hapt⟩ := htask hmem hcaller
    have hrequests := hapt.call.2.1
    rw [hoperation] at hrequests
    have hput := put_of_accepts ((hapt.running point hrunning).trans hrequests.1)
      (hserved.symm.trans hreply) haccepts
    have hkey : x.request.key = keyToBytes key := by rw [hrequests.2]; rfl
    rw [hcall, hnode, ← hkey, hput, hsole.calls x hmem point hrunning hrequests.1 hkey]
  · cases hopened.symm.trans hreply

/-- What a small network keeps whose nodes know each other, as long as no call
fails and nothing else is stored under the key. -/
structure Writing (d : Deployment SocketAddr) (S : SocketAddr → Prop) (key : U128) (v : Bytes)
    (n : ℕ) (c : Cluster SocketAddr) : Prop where
  linked : Linked d S c
  sole : Sole key v c
  written : Written key v n c
  stores : AllReplicate S (fun key' b => key' = key →
    (c.nodes b).kvstore.store (keyToBytes key) = some v) n c

theorem Writing.step (hd : d.Connected S) (hfits : d.Fits S) (h : Writing d S key v n c)
    (hasks : Asks S event) (honly : ∀ a w, event = .begin a (.store key w) → w = v)
    (hfail : Unfailing event) (hstep : Cluster.step d c event = some c') :
    Writing d S key v n c' := by
  refine ⟨h.linked.step hd hasks hstep, h.sole.step honly hstep,
    h.written.step h.linked.known h.sole hstep,
    h.stores.step hd hfits h.linked (fun key' b hb hkey => ?_)
      (fun x hx task hid htask key' w hoperation reply hreply haccepts hkey => ?_) hfail hstep⟩
  · exact (h.sole.value h.linked.known hstep b).elim (fun heq => heq.trans (hb hkey)) id
  · subst hkey
    exact h.written x hx task hid htask w hoperation reply hreply haccepts

theorem writing_run (hd : d.Connected S) (hfits : d.Fits S)
    {events more : List (ClusterEvent SocketAddr)}
    (hrun : Run.run (Cluster.step d) (new d) events = some c)
    (hmore : Run.run (Cluster.step d) c more = some c') (hS : ∀ a, Asked c' a → S a)
    (hknown : ∀ a, S a → d.Everyone S a (c.nodes a).routingTable.peers)
    (hquiet : Quiet key c) (honly : ∀ a w, ClusterEvent.begin a (.store key w) ∈ more → w = v)
    (hfail : ∀ i e, ClusterEvent.fail i e ∉ more) : Writing d S key v c.tasks.length c' := by
  have hS₀ (a : SocketAddr) (ha : Asked c a) : S a := hS a (asked_run hmore ha)
  have hlinked := linked_run hd hrun hS₀ hknown
  refine Run.run_invariant_along
    (P := fun _ event => (Asks S event ∧ Unfailing event) ∧
      ∀ a w, event = .begin a (.store key w) → w = v)
    (fun _ _ _ h hevent hstep =>
      h.step hd hfits hevent.1.1 hevent.2 hevent.1.2 hstep)
    ⟨hlinked, hquiet.sole hlinked.known v, fun x hx task hid htask => ?_,
      allReplicate_length S _ c⟩
    (Run.along_of_forall_mem (fun event hevent _ =>
      ⟨⟨asks_of_run hS hmore event hevent, unfailing_of_run hfail event hevent⟩, ?_⟩) _) hmore
  · exact absurd (List.getElem?_eq_some_iff.mp htask).1 (not_lt.mpr hid)
  · rintro a w rfl
    exact honly a w hevent

end Step

/-! ### The lookups -/

/-- The nodes of the kind `H` hold the value under the key, and what any node of
the network holds meets `V`. -/
def latest (S H : SocketAddr → Prop) (V : Bytes → Prop) (key : U128) (v : Bytes) :
    Assertion SocketAddr where
  node a s := (H a → s.kvstore.store (keyToBytes key) = some v) ∧
    (S a → ∀ w, s.kvstore.store (keyToBytes key) = some w → V w)
  stage _ _ _ := True
  call _ _ _ := True
  reply _ _ _ _ := True

/-- A lookup of the key with a number from `n` on finds the value at its own node
or runs at one that need not hold it, and what it is given meets `V`. -/
def fresh (d : Deployment SocketAddr) (H : SocketAddr → Prop) (V : Bytes → Prop) (key : U128)
    (v : Bytes) (n : ℕ) : Record SocketAddr where
  task _ id a operation stage := n ≤ id → operation = .findValue key →
    (stage = .missed → ¬ H a) ∧ ∀ call, stage = .looking call →
      call.status = .returned (.ok v) ∨ ¬ H a ∧ Genuine d.parse V call
  call _ id _ operation _ progress := n ≤ id → operation = .findValue key →
    ∀ reply, progress = .replied reply → ∀ w, carriedValue (.ok reply) = some w → V w

section Fresh

variable {H : SocketAddr → Prop} {V : Bytes → Prop} {id : ℕ} {nodes nodes' : Network SocketAddr}
  {a : SocketAddr} {operation : Operation}

theorem fresh_step {call call' : Call} {event : Event}
    (h : call.status = .returned (.ok v) ∨ ¬ H a ∧ Genuine d.parse V call)
    (hsent : ∀ p r, event = .send p r → ∀ w, carriedValue r = some w → V w)
    (hstep : DHTClient.step d.parse (d.client a) key call event = some call') :
    ¬ H a ∧ Genuine d.parse V call' := by
  obtain ⟨hawait, -⟩ := step_stepped hstep
  rcases h with hreturned | ⟨hno, hgenuine⟩
  · cases hreturned.symm.trans hawait
  · exact ⟨hno, hgenuine.step hsent hstep⟩

theorem fresh_turned {s : DHTServer} {stage : Stage} {turn : Turn SocketAddr} (ha : S a)
    (hnode : (latest S H V key v).node a s)
    (htask : (fresh d H V key v n).task nodes id a operation stage)
    (h : d.turn a operation s stage = some turn) :
    (fresh d H V key v n).task nodes' id a operation turn.stage := by
  intro hid hoperation
  subst hoperation
  have hturned := Deployment.turn_turned h
  cases hturned with
  | panicked e => exact ⟨by simp, by simp⟩
  | hit hv =>
      refine ⟨by simp, fun call hcall => ?_⟩
      obtain rfl := Stage.looking.inj hcall
      by_cases hH : H a
      · obtain rfl := Option.some.inj (hv.symm.trans (hnode.1 hH))
        exact .inl rfl
      · exact .inr ⟨hH, genuine_hit (hnode.2 ha _ hv)⟩
  | missed =>
      refine ⟨fun _ hH => ?_, by simp⟩
      -- such a node would have found the value in its own store
      simp [Deployment.turn, Deployment.findValueTurn, Deployment.caught, findValueLocal,
        MemoryStore.get_eq, hnode.1 hH] at h
  | started hcandidates =>
      refine ⟨by simp, fun call hcall => ?_⟩
      obtain rfl := Stage.looking.inj hcall
      exact .inr ⟨(htask hid rfl).1 rfl, genuine_start _ _ _ _ _⟩
  | received hstep =>
      refine ⟨by simp, fun call hcall => ?_⟩
      obtain rfl := Stage.looking.inj hcall
      exact .inr (fresh_step ((htask hid rfl).2 _ rfl) (by rintro p r ⟨⟩) hstep)

theorem fresh_served {call : RemoteCall SocketAddr} {point : Point}
    {out : EStateM.Result Panic DHTServer (Point ⊕ Message)} (htarget : S call.target)
    (hrequests : d.Requests a operation call)
    (hnode : (latest S H V key v).node call.target (nodes call.target))
    (h : AtomicStepped call.request (nodes call.target) point out) :
    (fresh d H V key v n).call nodes' id a operation call (progressAfter out) := by
  intro _ hoperation reply hreply w hw
  subst hoperation
  have hne : reply.value ≠ [] := by
    rintro hempty
    simp [carriedValue, hempty] at hw
  obtain rfl : reply.value = w := by simpa [carriedValue, hne] using hw
  have hkey : call.request.key = keyToBytes key := by rw [hrequests.2]; rfl
  cases out with
  | ok next s' =>
      cases next with
      | inl point' => cases hreply
      | inr reply' =>
          obtain rfl := Progress.replied.inj hreply
          exact hnode.2 htarget _ (hkey ▸ h.value hne)
  | error e s' => cases hreply

theorem fresh_heard {call : RemoteCall SocketAddr} {progress : Progress}
    {result : Except IoError Message} {stage : Stage}
    (htask : (fresh d H V key v n).task nodes id a operation stage)
    (hcall : (fresh d H V key v n).call nodes id a operation call progress)
    (hresult : ∀ reply, result = .ok reply → progress = .replied reply) :
    (fresh d H V key v n).task nodes id a operation
      (d.hear a operation call.slot result stage) := by
  intro hid hoperation
  obtain ⟨hmissed, hlooking⟩ := htask hid hoperation
  refine ⟨fun h => hmissed (Deployment.eq_missed_of_hear h), fun call' hcall' => ?_⟩
  obtain ⟨c, rfl, rfl | ⟨key', p, hfind, -, hstep⟩⟩ := Deployment.hear_eq_looking hcall'
  · exact hlooking _ rfl
  · obtain rfl := Operation.findValue.inj (hoperation.symm.trans hfind)
    refine .inr (fresh_step (hlooking c rfl) (fun q r hevent w hw => ?_) hstep)
    obtain ⟨-, rfl⟩ := Event.send.inj hevent
    cases result with
    | error e => cases hw
    | ok reply => exact hcall hid hoperation reply (hresult reply rfl) w hw

theorem fresh_lasting [DecidableEq SocketAddr] (hd : d.Connected S) (H : SocketAddr → Prop)
    (V : Bytes → Prop) (key : U128) (v : Bytes) (n : ℕ) :
    Lasting ((known d S (d.Node S)).and (latest S H V key v)) (fresh d H V key v n) d where
  task_grows _ _ _ _ _ _ _ _ _ h := h
  call_grows _ _ _ _ _ _ _ _ _ _ h := h
  begun _ _ _ _ _ _ := ⟨by simp, by simp⟩
  turned _ _ _ _ _ _ hnode hstage htask h :=
    ⟨fresh_turned hstage.1.1 hnode.2 htask h, by simp [fresh]⟩
  served _ _ _ _ _ _ _ hcall hnode _ _ hout := by
    obtain ⟨⟨-, hrequests, p, hp, hparse⟩, -⟩ := hcall
    exact fresh_served (hd.node_eq hp hparse).1 hrequests hnode.2 (hout ▸ atomicStep_stepped _ _ _)
  heard _ _ _ _ _ _ _ _ _ _ htask hcall hresult := fresh_heard htask hcall hresult
  lost _ _ _ _ _ _ _ _ htask hstep := by
    rintro hid hoperation
    obtain rfl := Operation.findValue.inj hoperation
    refine ⟨by simp, fun c hc => ?_⟩
    obtain rfl := Stage.looking.inj hc
    exact .inr (fresh_step ((htask hid rfl).2 _ rfl) (by rintro p r ⟨⟩) hstep)

end Fresh

section Runs

variable [DecidableEq SocketAddr] {H : SocketAddr → Prop} {V : Bytes → Prop}
  {event : ClusterEvent SocketAddr}

/-- What lookups that begin after the store can rely on. -/
structure Reading (d : Deployment SocketAddr) (S H : SocketAddr → Prop) (V : Bytes → Prop)
    (key : U128) (v : Bytes) (n : ℕ) (c : Cluster SocketAddr) : Prop where
  meets : Meets ((known d S (d.Node S)).and (latest S H V key v)) c
  sole : Sole key v c
  fresh : (fresh d H V key v n).Holds c

omit [DecidableEq SocketAddr] in
theorem meets_latest {P : Peer → Prop} (hc : Meets (known d S P) c)
    (h : ∀ a, (latest S H V key v).node a (c.nodes a)) : Meets (latest S H V key v) c :=
  ⟨h, fun _ _ => trivial, fun x hx => (hc.exchanges x hx).mono fun _ _ hapt =>
    ⟨trivial, hapt.running, fun _ _ => trivial⟩⟩

theorem Reading.step (hd : d.Connected S) (hV : V v) (h : Reading d S H V key v n c)
    (hasks : Asks S event) (honly : ∀ a w, event = .begin a (.store key w) → w = v)
    (hstep : Cluster.step d c event = some c') : Reading d S H V key v n c' := by
  obtain ⟨hknown, hlatest⟩ := meets_and.mp h.meets
  have hknown' := known_step hd.configured hknown hasks hstep
  refine ⟨meets_and.mpr ⟨hknown', meets_latest hknown' fun b => ?_⟩, h.sole.step honly hstep,
    (fresh_lasting hd H V key v n).step h.meets h.fresh hstep⟩
  rcases h.sole.value hknown hstep b with heq | heq
  · obtain ⟨hholds, hmeets⟩ := hlatest.nodes b
    exact ⟨fun hb => heq.trans (hholds hb), fun hb w hw => hmeets hb w (heq.symm.trans hw)⟩
  · refine ⟨fun _ => heq, fun _ w hw => ?_⟩
    obtain rfl := Option.some.inj (heq.symm.trans hw)
    exact hV

end Runs

/-- **The last value.** In a small network let every node know all others, and no
store of the key be under way. From there on let only the value `value` be stored
under the key, and one such store return, without failures up to then. Whatever
fails afterwards, all other nodes hold exactly this value; and a lookup of the key
that begins later and returns has found it, or it runs at the node that made the
store, and has found what this node held before or has been answered by nobody
else. -/
theorem last_write_read [DecidableEq SocketAddr] (d : Deployment SocketAddr)
    (S : SocketAddr → Prop) (hd : d.Connected S) (hfits : d.Fits S) (key : U128) (value : Bytes)
    (events more later : List (ClusterEvent SocketAddr)) (c c' c'' : Cluster SocketAddr)
    (hrun : Run.run (step d) (new d) events = some c)
    (hmore : Run.run (step d) c more = some c') (hlater : Run.run (step d) c' later = some c'')
    (hS : ∀ a, Asked c'' a → S a)
    (hkey : ∀ a, ClusterEvent.begin a (.store key []) ∉ events ++ more ++ later)
    (hknown : ∀ a, S a → d.Everyone S a (c.nodes a).routingTable.peers) (hquiet : Quiet key c)
    (honly : ∀ a w, ClusterEvent.begin a (.store key w) ∈ more ++ later → w = value)
    (hfail : ∀ i e, ClusterEvent.fail i e ∉ more)
    (id : ℕ) (hid : c.tasks.length ≤ id) (store : Task SocketAddr)
    (hstore : c'.tasks[id]? = some store) (hput : store.operation = .store key value)
    (result : Except RPCError Unit) (hstored : store.stage = .stored result) :
    (∀ b, S b → b ≠ store.node →
        (c''.nodes b).kvstore.store (keyToBytes key) = some value) ∧
      ∀ id' task call found, c'.tasks.length ≤ id' → c''.tasks[id']? = some task →
        task.operation = .findValue key → task.stage = .looking call →
        call.status = .returned found →
        found = .ok value ∨ task.node = store.node ∧
          ((∃ w, found = .ok w ∧
              (c'.nodes store.node).kvstore.store (keyToBytes key) = some w) ∨
            (∃ e, found = .error e) ∧
              ∀ q reply, (q, .ok reply) ∈ call.lookup.received →
                q = d.localPeer store.node) := by
  have hrun' : Run.run (step d) (new d) (events ++ more) = some c' := by
    rw [Run.run_append, hrun, Option.bind_some, hmore]
  have hS' (a : SocketAddr) (ha : Asked c' a) : S a := hS a (asked_run hlater ha)
  have hwriting := writing_run hd hfits hrun hmore hS' hknown hquiet
    (fun a w hbegin => honly a w (List.mem_append_left _ hbegin)) hfail
  -- the others hold the value when the store returns
  have hreplicates := hwriting.stores id store hid hstore key value hput
  rw [hstored] at hreplicates
  have hheld (b : SocketAddr) (hb : S b) (hne : b ≠ store.node) :
      (c'.nodes b).kvstore.store (keyToBytes key) = some value := (hreplicates b hb hne).2 rfl
  have hknown' := hwriting.linked.known
  have hreading : Reading d S (fun b => S b ∧ b ≠ store.node)
      (fun w => w = value ∨ (c'.nodes store.node).kvstore.store (keyToBytes key) = some w)
      key value c'.tasks.length c'' := by
    refine Run.run_invariant_along
      (P := fun _ event => Asks S event ∧ ∀ a w, event = .begin a (.store key w) → w = value)
      (fun _ _ _ h hevent hstep => h.step hd (.inl rfl) hevent.1 hevent.2 hstep)
      ⟨meets_and.mpr ⟨hknown', meets_latest hknown' fun b => ⟨fun hb => hheld b hb.1 hb.2,
          fun hb w hw => ?_⟩⟩, hwriting.sole, ⟨fun i t ht hi => ?_, fun x _ t ht hi => ?_⟩⟩
      (Run.along_of_forall_mem (fun event hevent _ =>
        ⟨asks_of_run hS hlater event hevent, ?_⟩) _) hlater
    · by_cases hne : b = store.node
      · exact .inr (hne ▸ hw)
      · exact .inl (Option.some.inj (hw.symm.trans (hheld b hb hne)))
    · exact absurd (List.getElem?_eq_some_iff.mp ht).1 (not_lt.mpr hi)
    · exact absurd (List.getElem?_eq_some_iff.mp ht).1 (not_lt.mpr hi)
    · rintro a w rfl
      exact honly a w (List.mem_append_right _ hevent)
  obtain ⟨hknown'', hlatest⟩ := meets_and.mp hreading.meets
  refine ⟨fun b hb hne => (hlatest.nodes b).1 ⟨hb, hne⟩, ?_⟩
  intro id' task call found hid' htask hoperation hstage hstatus
  cases found with
  | ok w =>
      have hnode := (hknown''.tasks task (List.mem_of_getElem? htask)).1
      rcases (hreading.fresh.tasks id' task htask hid' hoperation).2 call hstage with
        hreturned | ⟨hno, hgenuine⟩
      · exact .inl (Status.returned.inj (hstatus.symm.trans hreturned))
      · refine (hgenuine.status w hstatus).imp (congrArg Except.ok) fun hw => ?_
        exact ⟨not_not.mp fun hne => hno ⟨hnode, hne⟩, .inl ⟨w, rfl, hw⟩⟩
  | error e =>
      obtain ⟨hnode, halone⟩ := alone_of_error hd hrun' hlater hS hkey
        (fun b hb hne => Option.isSome_iff_exists.mpr ⟨_, hheld b hb hne⟩) hid' htask hoperation
        hstage hstatus
      exact .inr ⟨hnode, .inr ⟨⟨e, rfl⟩, halone⟩⟩

theorem acquainted_quiet (key : U128) : Quiet key acquainted := by
  intro id task w htask hoperation
  obtain rfl := List.mem_singleton.mp (List.mem_of_getElem? htask)
  cases hoperation

/-- The root stores a value at the node that has joined, and looks it up. -/
theorem last_write_read_offered : ∃ c' c'', Run.run (step pair) acquainted offering = some c' ∧
    Run.run (step pair) c' reading = some c'' ∧
    (∀ b, True → b ≠ true → (c''.nodes b).kvstore.store (keyToBytes 0) = some [7]) ∧
      ∀ id' task call found, c'.tasks.length ≤ id' → c''.tasks[id']? = some task →
        task.operation = .findValue 0 → task.stage = .looking call →
        call.status = .returned found →
        found = .ok [7] ∨ task.node = true ∧
          ((∃ w, found = .ok w ∧ (c'.nodes true).kvstore.store (keyToBytes 0) = some w) ∨
            (∃ e, found = .error e) ∧
              ∀ q reply, (q, .ok reply) ∈ call.lookup.received → q = pairPeer true) := by
  obtain ⟨c', c'', hoffering, hreading, htasks, -, -⟩ := offered_run
  exact ⟨c', c'', hoffering, hreading, last_write_read pair (fun _ => True) pair_connected pair_fits
    0 [7] (joining ++ introduced) offering reading acquainted c' c'' acquainted_run hoffering
    hreading (by simp) (by simp [joining, introduced, introduce, offering, reading])
    (fun a _ => acquainted_known a) (acquainted_quiet 0) (by simp [offering, reading])
    (by simp [offering]) 1 le_rfl
    { node := true, operation := .store 0 [7], stage := .stored (.ok ()) } (by rw [htasks]; rfl)
    rfl _ rfl⟩

end Cluster

end DhtKad
