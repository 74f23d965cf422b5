import DhtKad.Cluster.SelfContact
import DhtKad.Cluster.Tables
import DhtKad.RoutingTable.Layout
import DhtKad.Server.Lookup

/-!
A network in which every node runs this code.

A node believes what it is told: a reply may list anyone, and a request may name
a sender that makes its handler panic. Among nodes that all run this code there
is nobody to do so. Every request is one that the client builds, every reply
lists peers of a routing table, and so every peer that is recorded, listed or
contacted goes back to what the nodes are configured with (`known_stable`,
`known_peers`). If that is sound, nothing panics: no handler, no bootstrap, no
store, no lookup and none of its queries (`no_panic`). And if the nodes are no
more than a bucket holds, no table is ever unfolded and every search is exact
(`few_nodes_exact`).
-/

namespace DhtKad

open RoutingTable DHTServer DHTClient

variable {SocketAddr : Type}

/-- The reply decodes, to peers that meet `P`. -/
def Lists (P : Peer → Prop) (reply : Message) : Prop :=
  ∃ ps, reply.closerPeers.mapM protoPeerToPeer = .ok ps ∧ ∀ p ∈ ps, P p

namespace Deployment

variable (d : Deployment SocketAddr) (a : SocketAddr)

/-- What holds of the peers that the nodes of a kind are and of those they are
configured with. -/
structure Configured (S : SocketAddr → Prop) (P : Peer → Prop) : Prop where
  localPeer : ∀ a, S a → P (d.localPeer a)
  bootstrapPeers : ∀ a, S a → ∀ p ∈ (d.config a).bootstrapPeers, P p

/-- The peer is one of the nodes, or one that one of them is configured with. -/
def Mentions (S : SocketAddr → Prop) (p : Peer) : Prop :=
  ∃ a, S a ∧ (p = d.localPeer a ∨ p ∈ (d.config a).bootstrapPeers)

theorem configured_mentions (S : SocketAddr → Prop) : d.Configured S (d.Mentions S) where
  localPeer a ha := ⟨a, ha, .inl rfl⟩
  bootstrapPeers a ha _ hp := ⟨a, ha, .inr hp⟩

/-- The requests that an operation makes, as the client builds them. -/
def Requests (operation : Operation) (call : RemoteCall SocketAddr) : Prop :=
  match operation with
  | .bootstrap =>
      (call.rpc = .findNode ∧
        call.request = createFindNodeRequest (d.config a).id (d.localPeer a)) ∨
      (call.rpc = .ping ∧ call.request = createPingRequest (d.localPeer a))
  | .store key value =>
      call.rpc = .store ∧ call.request = createStoreRequest (d.localPeer a) key value
  | .findValue key =>
      call.rpc = .findValue ∧ call.request = createFindValueRequest key (d.localPeer a)

variable {d a} {operation : Operation} {call : RemoteCall SocketAddr}

theorem Requests.myself (h : d.Requests a operation call) :
    call.request.myself = some (protoPeerFromPeer (d.localPeer a)) := by
  cases operation with
  | bootstrap =>
      rcases h with ⟨-, h⟩ | ⟨-, h⟩
      · rw [h]; rfl
      · rw [h]; rfl
  | store key value => rw [h.2]; rfl
  | findValue key => rw [h.2]; rfl

theorem Requests.sender (h : d.Requests a operation call) {p : Peer}
    (hsent : SentBy call.request p) : p = d.localPeer a := by
  obtain ⟨-, myself, hmyself, hdecode⟩ := hsent
  obtain rfl := Option.some.inj (h.myself.symm.trans hmyself)
  rw [protoPeerToPeer_protoPeerFromPeer] at hdecode
  exact (Except.ok.inj hdecode).symm

theorem Requests.key (h : d.Requests a operation call) (hping : call.rpc ≠ .ping) :
    ∃ key, call.request.key = keyToBytes key := by
  cases operation with
  | bootstrap =>
      rcases h with ⟨-, h⟩ | ⟨hrpc, -⟩
      · exact ⟨_, by rw [h]; rfl⟩
      · exact absurd hrpc hping
  | store key value => exact ⟨key, by rw [h.2]; rfl⟩
  | findValue key => exact ⟨key, by rw [h.2]; rfl⟩

end Deployment

/-! ### What updates and lookups pass on -/

theorem RoutingTable.forall_mem_of_afterUpdates {P : Peer → Prop} {k : ℕ} {localPeer : Peer}
    {ps : List Peer} {t : RoutingTable} (hps : ∀ p ∈ ps, P p)
    (h : afterUpdates k localPeer ps = some t) : ∀ p ∈ t.peers, P p := by
  refine (Run.run_invariant_along (P := fun _ p => P p)
    (I := fun t => Held k localPeer t ∧ ∀ p ∈ t.peers, P p) ?_
    ⟨held_new k localPeer, by simp [peers, RoutingTable.new, Bucket.new]⟩
    (Run.along_of_forall_mem (fun p hp _ => hps p hp) _) h).2
  rintro t p t' ⟨ht, hall⟩ hp hnext
  obtain ⟨r, hu⟩ := exists_update_of_next hnext
  refine ⟨(ht.updated_of_update hu).2.2, fun q hq => ?_⟩
  rcases mem_peers_of_update ht hu hq with hq | ⟨rfl, -⟩
  · exact hall q hq
  · exact hp

theorem lists_createFindNodeResponse {P : Peer → Prop} {ps : List Peer} (hps : ∀ p ∈ ps, P p) :
    Lists P (createFindNodeResponse ps) :=
  ⟨ps, mapM_createFindNodeResponse ps, hps⟩

theorem lists_nil {P : Peer → Prop} {reply : Message} (h : reply.closerPeers = []) :
    Lists P reply :=
  ⟨[], by rw [h]; rfl, by simp⟩

/-- A lookup that knows only of peers that meet `P` and is told of no others. -/
structure Knows (parse : String → Option SocketAddr) (P : Peer → Prop) (call : Call) : Prop where
  inv : CallInv parse call
  seen : ∀ q ∈ seen call.lookup, P q
  channel : ∀ pr ∈ call.lookup.channel, ∀ reply, pr.2 = .ok reply → Lists P reply

section Knows

variable {parse : String → Option SocketAddr} {P : Peer → Prop} {client : DHTClient} {key : U128}
  {call call' : Call}

theorem knows_start (client : DHTClient) (key : U128) {candidates : List Peer}
    (h : ∀ q ∈ candidates, P q) : Knows parse P (client.start key candidates) := by
  refine ⟨callInv_start parse client key candidates, fun q hq => h q ?_, ?_⟩
  · have hmem := (seen_loopHead_perm client key { candidates := candidates }).mem_iff.mp hq
    simpa [DHTClient.seen] using hmem
  · rw [start, (loopHead_frame client key _).1]
    simp

theorem knows_hit (v : Bytes) :
    Knows parse P { lookup := { candidates := [] }, status := .returned (.ok v) } :=
  ⟨callInv_hit parse v, by simp [DHTClient.seen], by simp⟩

theorem Knows.tasks (h : Knows parse P call) {p : Peer} (hp : p ∈ call.lookup.tasks) : P p :=
  h.seen p (mem_seen.mpr (.inr (h.inv.books.queried_of_tasks hp)))

theorem Knows.step (h : Knows parse P call) {event : Event}
    (hsent : ∀ p r reply, event = .send p r → r = .ok reply → Lists P reply)
    (hstep : DHTClient.step parse client key call event = some call') :
    Knows parse P call' := by
  refine ⟨h.inv.step hstep, fun q hq => ?_, ?_⟩
  · rcases mem_seen_step h.inv hstep hq with hq | ⟨pr, hpr, reply, hreply, -, mp, hmp, hdecode⟩
    · exact h.seen q hq
    · obtain ⟨ps, hps, hall⟩ := h.channel pr hpr reply hreply
      exact hall q ((ExceptList.mem_of_mapM hps q).mpr ⟨mp, hmp, hdecode⟩)
  · exact h.inv.books.channel_step h.channel (fun p r hevent reply => hsent p r reply hevent) hstep

theorem Knows.not_panicked (h : Knows parse P call) (e : Panic) : call.status ≠ .panicked e := by
  intro hstatus
  have hinv := h.inv.status
  rw [hstatus] at hinv
  obtain ⟨p, r, rest, hch, -, hd⟩ := hinv
  cases r with
  | error e => cases hd
  | ok reply =>
      obtain ⟨ps, hps, -⟩ := h.channel (p, .ok reply) (by simp [hch]) reply rfl
      simp [discovered, hps, bind, Except.bind, pure, Except.pure] at hd

end Knows

namespace Cluster

/-- Only nodes of the kind `S` are asked for something, all that the nodes know of
and all that they contact meets `P`, and every request is one that an operation
makes. -/
def known (d : Deployment SocketAddr) (S : SocketAddr → Prop) (P : Peer → Prop) :
    Assertion SocketAddr where
  node a s := ∃ ps, (∀ p ∈ ps, P p) ∧
    afterUpdates (d.config a).k (d.localPeer a) ps = some s.routingTable
  stage a _ stage := S a ∧
    match stage with
    | .introducing results => ∀ reply, some (.ok reply) ∈ results → Lists P reply
    | .pinging alivePeers candidatePeers _ => ∀ p ∈ alivePeers ++ candidatePeers, P p
    | .looking call => Knows d.parse P call
    | _ => True
  call a operation call := S a ∧ d.Requests a operation call ∧
    ∃ p, P p ∧ d.parse p.address = some call.target
  reply _ _ _ reply := Lists P reply

section Stable

variable {d : Deployment SocketAddr} {S : SocketAddr → Prop} {P : Peer → Prop} {a : SocketAddr}
  {operation : Operation}

theorem known_update {s : DHTServer} {p : Peer} {t : RoutingTable}
    {r : Except NoCapacityError Unit} (hs : (known d S P).node a s) (hp : P p)
    (hu : s.routingTable.update p = .ok (t, r)) :
    (known d S P).node a { s with routingTable := t } := by
  obtain ⟨ps, hps, hafter⟩ := hs
  refine ⟨ps ++ [p], fun q hq => ?_, (afterUpdates_concat hafter p).trans (next_eq hu)⟩
  rcases List.mem_append.mp hq with hq | hq
  · exact hps q hq
  · rwa [List.mem_singleton.mp hq]

theorem known_held {s : DHTServer} (hs : (known d S P).node a s) :
    Held (d.config a).k (d.localPeer a) s.routingTable := by
  obtain ⟨ps, -, hafter⟩ := hs
  exact held_of_afterUpdates hafter

theorem known_nearest {s : DHTServer} (hs : (known d S P).node a s) {target : U128}
    {ps : List Peer} (h : s.routingTable.kNearestPeers target = .ok ps) : ∀ p ∈ ps, P p := by
  obtain ⟨qs, hqs, hafter⟩ := hs
  have hheld := held_of_afterUpdates hafter
  exact fun p hp => forall_mem_of_afterUpdates hqs hafter p
    (mem_peers_of_kNearestPeers hheld.wellFormed.nonempty h p hp)

theorem known_candidates {bootstrapPeers : List Peer} {results : Results}
    {reported : List (List Peer)}
    (hresults : ∀ reply, some (.ok reply) ∈ results → Lists P reply)
    (hreported : ((answered bootstrapPeers (Deployment.resultAt results)).mapM
      fun (_, resp) => resp.closerPeers.mapM protoPeerToPeer) = .ok reported) :
    ∀ p ∈ selectCandidates bootstrapPeers reported.flatten, P p := by
  intro p hp
  obtain ⟨ps, hps, hpps⟩ := List.mem_flatten.mp (mem_selectCandidates.mp hp).1
  obtain ⟨⟨q, reply⟩, hreply, hdecode⟩ := (ExceptList.mem_of_mapM hreported ps).mp hps
  obtain ⟨i, -, hi⟩ := mem_answered.mp hreply
  obtain ⟨ps', hps', hall⟩ := hresults reply (mem_of_resultAt hi)
  obtain rfl := Except.ok.inj (hps'.symm.trans hdecode)
  exact hall p hpps

theorem known_joined {slot : ℕ → Slot} {rpc : Rpc} {request : Message} {peers : List Peer}
    {targets : List SocketAddr}
    (ha : S a) (hrequest : ∀ call : RemoteCall SocketAddr, call.rpc = rpc →
      call.request = request → d.Requests a operation call)
    (hpeers : ∀ p ∈ peers, P p) (htargets : peers.mapM (parseAddress d.parse) = .ok targets) :
    ∀ call ∈ Deployment.joined slot rpc request targets, (known d S P).call a operation call := by
  intro call hcall
  obtain ⟨hrpc, hreq, htarget⟩ := Deployment.mem_joined hcall
  obtain ⟨p, hp, hparse⟩ := (ExceptList.mem_of_mapM htargets call.target).mp htarget
  exact ⟨ha, hrequest call hrpc hreq, p, hpeers p hp, parseAddress_eq_ok_iff.mp hparse⟩

theorem known_queries {key : U128} {ps : List Peer} (ha : S a) (hps : ∀ p ∈ ps, P p) :
    ∀ call ∈ d.queries a key ps, (known d S P).call a (.findValue key) call := by
  intro call hcall
  obtain ⟨hrpc, hrequest, p, hp, hparse⟩ := d.mem_queries a hcall
  exact ⟨ha, ⟨hrpc, hrequest⟩, p, hps p hp, hparse⟩

theorem known_turned (hd : d.Configured S P) {s : DHTServer} {stage : Stage}
    {turn : Turn SocketAddr} (hs : (known d S P).node a s)
    (hstage : (known d S P).stage a operation stage) (h : d.Turned a s operation stage turn) :
    (known d S P).node a turn.server ∧ (known d S P).stage a operation turn.stage ∧
      ∀ call ∈ turn.calls, (known d S P).call a operation call := by
  obtain ⟨ha, hstage⟩ := hstage
  cases h with
  | panicked e => exact ⟨hs, ⟨ha, trivial⟩, by simp⟩
  | introduced htargets =>
      refine ⟨hs, ⟨ha, by simp⟩, ?_⟩
      exact known_joined ha (fun call hrpc hreq => .inl ⟨hrpc, hreq⟩) (hd.bootstrapPeers a ha)
        htargets
  | pinged hreported htargets =>
      have hcandidates := known_candidates hstage hreported
      refine ⟨hs, ⟨ha, fun p hp => ?_⟩, ?_⟩
      · rcases List.mem_append.mp hp with hp | hp
        · exact hd.bootstrapPeers a ha p (mem_of_mem_answered hp)
        · exact hcandidates p hp
      · exact known_joined ha (fun call hrpc hreq => .inr ⟨hrpc, hreq⟩) hcandidates htargets
  | bootstrapped htable =>
      rename_i alivePeers candidatePeers results table
      have hall : ∀ p ∈ alivePeers ++ candidatePeers, P p := hstage
      refine ⟨?_, ⟨ha, trivial⟩, by simp⟩
      refine addAlive_invariant (I := fun t => (known d S P).node a { s with routingTable := t }) ?_
        hs htable
      intro t p t' r ht hp hu
      refine known_update (s := { s with routingTable := t }) ht (hall p ?_) hu
      rcases List.mem_append.mp hp with hp | hp
      · exact List.mem_append_left _ hp
      · exact List.mem_append_right _ (mem_of_mem_answered hp)
  | storing htargets =>
      obtain ⟨peers, hpeers, hparsed⟩ := ExceptList.bind_eq_ok_iff.mp htargets
      exact ⟨hs, ⟨ha, trivial⟩, known_joined ha (fun call hrpc hreq => ⟨hrpc, hreq⟩)
        (known_nearest hs hpeers) hparsed⟩
  | stored => exact ⟨hs, ⟨ha, trivial⟩, by simp⟩
  | hit hv => exact ⟨hs, ⟨ha, knows_hit _⟩, by simp⟩
  | missed => exact ⟨hs, ⟨ha, trivial⟩, by simp⟩
  | started hcandidates =>
      rename_i key candidates
      have hknows : Knows d.parse P ((d.client a).start key candidates) :=
        knows_start (d.client a) key (known_nearest hs hcandidates)
      exact ⟨hs, ⟨ha, hknows⟩, known_queries ha fun p hp => hknows.tasks hp⟩
  | received hstep =>
      have hknows := Knows.step hstage (by rintro p r reply ⟨⟩) hstep
      exact ⟨hs, ⟨ha, hknows⟩,
        known_queries ha fun p hp => hknows.tasks (List.mem_of_mem_drop hp)⟩

theorem known_served (hd : d.Configured S P) {call : RemoteCall SocketAddr} {point : Point}
    {s : DHTServer} {out : EStateM.Result Panic DHTServer (Point ⊕ Message)}
    (hcall : (known d S P).call a operation call) (hs : (known d S P).node call.target s)
    (h : AtomicStepped call.request s point out) :
    (known d S P).node call.target (stateAfter out) ∧
      ∀ reply s', out = .ok (.inr reply) s' → (known d S P).reply a operation call reply := by
  have hnode : (known d S P).node call.target (stateAfter out) := by
    refine h.routingTable
      (I := fun t => (known d S P).node call.target { s with routingTable := t })
      (fun p t r hsent hu => known_update hs ?_ hu) hs
    rw [hcall.2.1.sender hsent]
    exact hd.localPeer a hcall.1
  refine ⟨hnode, ?_⟩
  rintro reply s' rfl
  rcases h.closerPeers with hnil | ⟨target, peers, hpeers, rfl⟩
  · exact lists_nil hnil
  · exact lists_createFindNodeResponse (known_nearest hnode hpeers)

theorem known_heard {slot : Slot} {result : Except IoError Message} {stage stage' : Stage}
    (hstage : (known d S P).stage a operation stage)
    (hresult : ∀ reply, result = .ok reply → Lists P reply)
    (h : d.Heard a operation slot result stage stage') :
    (known d S P).stage a operation stage' := by
  obtain ⟨ha, hstage⟩ := hstage
  refine ⟨ha, ?_⟩
  cases h with
  | ignored => exact hstage
  | introduced i =>
      intro reply hreply
      rcases List.mem_or_eq_of_mem_set hreply with hreply | hreply
      · exact hstage reply hreply
      · exact hresult reply (Option.some.inj hreply).symm
  | pinged i => exact hstage
  | stored i => trivial
  | queried hoperation hstep =>
      refine Knows.step hstage ?_ hstep
      rintro p r reply hevent rfl
      obtain ⟨rfl, rfl⟩ := Event.send.inj hevent
      exact hresult reply rfl

/-- What the nodes are configured with is all that they come to know of. -/
theorem known_stable (hd : d.Configured S P) :
    Stable (known d S P) d (fun a _ => S a) (fun _ _ _ _ => True) where
  fresh a := ⟨[], by simp, rfl⟩
  begun a operation ha := ⟨ha, trivial⟩
  turned a operation s stage turn hs hstage h := known_turned hd hs hstage h
  served a operation call point s out hcall hs _ h := known_served hd hcall hs h
  heard a operation call result stage stage' hstage _ hresult h :=
    known_heard hstage (fun reply hok => (hresult reply hok).1) h
  lost a key p call call' hstage hstep :=
    ⟨hstage.1, Knows.step hstage.2 (by rintro p r reply ⟨⟩) hstep⟩

end Stable

section Runs

variable [DecidableEq SocketAddr] {d : Deployment SocketAddr} {S : SocketAddr → Prop}
  {P : Peer → Prop} {event : ClusterEvent SocketAddr} {events : List (ClusterEvent SocketAddr)}
  {c c' : Cluster SocketAddr}

def Asked (c : Cluster SocketAddr) (a : SocketAddr) : Prop := ∃ task ∈ c.tasks, task.node = a

def Asks (S : SocketAddr → Prop) : ClusterEvent SocketAddr → Prop
  | .begin a _ => S a
  | _ => True

omit [DecidableEq SocketAddr] in
theorem asked_set {tasks : List (Task SocketAddr)} {id : ℕ} {task : Task SocketAddr}
    (htask : tasks[id]? = some task) {a : SocketAddr} (h : ∃ t ∈ tasks, t.node = a)
    (stage : Stage) : ∃ t ∈ tasks.set id { task with stage := stage }, t.node = a := by
  obtain ⟨t, ht, hnode⟩ := h
  obtain ⟨j, hj⟩ := List.mem_iff_getElem?.mp ht
  obtain ⟨t', ht', hP⟩ := OfTask.set (P := fun b _ => b = a) ⟨t, hj, hnode⟩ htask stage
  exact ⟨t', List.mem_of_getElem? ht', hP⟩

theorem asked_step (hstep : step d c event = some c') {a : SocketAddr} (h : Asked c a) :
    Asked c' a := by
  cases event with
  | begin b operation =>
      obtain rfl := Option.some.inj hstep
      obtain ⟨task, htask, hnode⟩ := h
      exact ⟨task, List.mem_append_left _ htask, hnode⟩
  | advance id =>
      obtain ⟨task, turn, htask, -, rfl⟩ := advance_eq_some hstep
      exact asked_set htask h _
  | lose id p =>
      obtain ⟨task, stage, htask, -, rfl⟩ := lose_eq_some hstep
      exact asked_set htask h _
  | serve i =>
      obtain ⟨x, point, -, -, rfl⟩ := serve_eq_some hstep
      exact h
  | deliver i =>
      obtain ⟨x, reply, -, -, hanswer⟩ := deliver_eq_some hstep
      obtain ⟨task, htask, rfl⟩ := answer_eq_some hanswer
      exact asked_set htask h _
  | fail i error =>
      obtain ⟨x, -, hanswer⟩ := Option.bind_eq_some_iff.mp hstep
      obtain ⟨task, htask, rfl⟩ := answer_eq_some hanswer
      exact asked_set htask h _

theorem asked_run (hrun : Run.run (step d) c events = some c') {a : SocketAddr} (h : Asked c a) :
    Asked c' a :=
  Run.run_invariant (I := fun c => Asked c a) (fun _ _ _ h hstep => asked_step hstep h) h hrun

/-- A run asks only those who turn out to be asked in the end. -/
theorem asks_of_run (hS : ∀ a, Asked c' a → S a)
    (hrun : Run.run (step d) c events = some c') : ∀ event ∈ events, Asks S event := by
  induction events generalizing c with
  | nil => simp
  | cons event events ih =>
      obtain ⟨t, hstep, hrest⟩ := Run.run_cons_eq_some.mp hrun
      intro event' hevent
      rcases List.mem_cons.mp hevent with rfl | hevent
      · cases event' with
        | begin a operation =>
            have ha : Asked t a := by
              obtain rfl := Option.some.inj hstep
              exact ⟨{ node := a, operation := operation, stage := .begun }, by simp, rfl⟩
            exact hS a (asked_run hrest ha)
        | _ => trivial
      · exact ih hrest event' hevent

theorem known_step (hd : d.Configured S P) (hc : Meets (known d S P) c) (hasks : Asks S event)
    (hstep : step d c event = some c') : Meets (known d S P) c' := by
  refine (known_stable hd).step hc ?_ hstep
  cases event with
  | begin a operation => exact hasks
  | deliver i => exact fun _ _ _ _ _ _ => trivial
  | _ => trivial

omit [DecidableEq SocketAddr] in
theorem known_new (hd : d.Configured S P) : Meets (known d S P) (new d) :=
  ⟨(known_stable hd).fresh, by simp [new], by simp [new]⟩

theorem known_run (hd : d.Configured S P) (hS : ∀ a, Asked c a → S a)
    (hrun : Run.run (step d) (new d) events = some c) : Meets (known d S P) c :=
  Run.run_invariant_along (P := fun _ event => Asks S event)
    (fun _ _ _ hc hasks hstep => known_step hd hc hasks hstep) (known_new hd)
    (Run.along_of_forall_mem (fun event hevent _ => asks_of_run hS hrun event hevent) _) hrun

end Runs

/-- **No strangers.** In every run, whatever is begun, interleaved or lost: every
peer in a routing table, every peer a lookup has come to know, and everyone a
request goes to is a node that was asked for something or a bootstrap peer that
such a node is configured with; and every request is one that its operation
makes. -/
theorem known_peers [DecidableEq SocketAddr] (d : Deployment SocketAddr)
    (events : List (ClusterEvent SocketAddr)) (c : Cluster SocketAddr)
    (hrun : Run.run (step d) (new d) events = some c) :
    (∀ a, ∀ p ∈ (c.nodes a).routingTable.peers, d.Mentions (Asked c) p) ∧
      (∀ task ∈ c.tasks, ∀ call, task.stage = .looking call →
        ∀ p ∈ seen call.lookup, d.Mentions (Asked c) p) ∧
      ∀ x ∈ c.exchanges, ∃ task, c.tasks[x.caller]? = some task ∧
        d.Requests task.node task.operation x.toRemoteCall ∧
        ∃ p, d.Mentions (Asked c) p ∧ d.parse p.address = some x.target := by
  have hmeets := known_run (d.configured_mentions (Asked c)) (fun _ ha => ha) hrun
  refine ⟨fun a => ?_, fun task htask call hstage => ?_, fun x hx => ?_⟩
  · obtain ⟨ps, hps, hafter⟩ := hmeets.nodes a
    exact forall_mem_of_afterUpdates hps hafter
  · have hknown := (hmeets.tasks task htask).2
    rw [hstage] at hknown
    exact Knows.seen hknown
  · obtain ⟨task, htask, hapt⟩ := hmeets.exchanges x hx
    exact ⟨task, htask, hapt.call.2⟩

/-- A node has joined at another one. -/
theorem known_peers_joining :
    (∀ a, ∀ p ∈ (joined.nodes a).routingTable.peers, pair.Mentions (Asked joined) p) ∧
      (∀ task ∈ joined.tasks, ∀ call, task.stage = .looking call →
        ∀ p ∈ seen call.lookup, pair.Mentions (Asked joined) p) ∧
      ∀ x ∈ joined.exchanges, ∃ task, joined.tasks[x.caller]? = some task ∧
        pair.Requests task.node task.operation x.toRemoteCall ∧
        ∃ p, pair.Mentions (Asked joined) p ∧ pair.parse p.address = some x.target :=
  known_peers pair joining joined joining_run

/-! ### Nothing panics -/

end Cluster

namespace Deployment

variable (d : Deployment SocketAddr)

/-- Every bucket has room for a peer, and the addresses that the nodes are
configured with, their own among them, are socket addresses. -/
structure Sound : Prop where
  k_pos : ∀ a, 0 < (d.config a).k
  parses : d.Configured (fun _ => True) fun p => (d.parse p.address).isSome

variable {d} {a : SocketAddr} {operation : Operation} {s : DHTServer} {stage : Stage}
  {turn : Turn SocketAddr}

/-- The task goes on, and it does not end in a panic. -/
def GoesOn (out : Except Panic (Option (Turn SocketAddr))) : Prop :=
  ∃ turn, out = .ok turn ∧ ∀ t ∈ turn, ∀ e, t.stage ≠ .panicked e

theorem goesOn_none : GoesOn (.ok none : Except Panic (Option (Turn SocketAddr))) :=
  ⟨none, rfl, by simp⟩

theorem goesOn_some (h : ∀ e, turn.stage ≠ .panicked e) : GoesOn (.ok (some turn)) :=
  ⟨some turn, rfl, fun t ht => by rwa [← Option.mem_some.mp ht]⟩

section Turn

variable (hd : d.Sound)
  (hs : (Cluster.known d (fun _ => True) fun p => (d.parse p.address).isSome).node a s)
include hd hs

omit hd in
theorem addresses_parse : AllParse d.parse s.routingTable := by
  obtain ⟨ps, hps, hafter⟩ := hs
  exact forall_mem_of_afterUpdates hps hafter

theorem bootstrapTurn_goesOn
    (hstage : (Cluster.known d (fun _ => True) fun p => (d.parse p.address).isSome).stage a
      .bootstrap stage) :
    GoesOn (d.bootstrapTurn a s stage) := by
  obtain ⟨ps, -, hafter⟩ := hs
  have hheld := held_of_afterUpdates hafter
  cases stage with
  | begun =>
      have hwait := waitForConnection_eq hheld (dense_of_afterUpdates hafter)
      obtain ⟨targets, htargets⟩ :=
        mapM_parseAddress_isOk_iff.mpr (hd.parses.bootstrapPeers a trivial)
      rw [bootstrapTurn, hwait]
      simp only [bind, Except.bind, htargets]
      split
      · exact goesOn_none
      · exact goesOn_some (by simp)
  | introducing results =>
      have hdecode : ∃ reported, ((answered (d.config a).bootstrapPeers (resultAt results)).mapM
          fun (_, resp) => resp.closerPeers.mapM protoPeerToPeer) = .ok reported := by
        rw [ExceptList.mapM_isOk_iff]
        rintro ⟨p, reply⟩ hreply
        obtain ⟨i, -, hi⟩ := mem_answered.mp hreply
        obtain ⟨qs, hqs, -⟩ := hstage.2 reply (Cluster.mem_of_resultAt hi)
        exact ⟨qs, hqs⟩
      obtain ⟨reported, hreported⟩ := hdecode
      obtain ⟨targets, htargets⟩ := mapM_parseAddress_isOk_iff.mpr
        (Cluster.known_candidates hstage.2 hreported)
      rw [bootstrapTurn]
      simp only [hreported, bind, Except.bind, htargets]
      split
      · exact goesOn_none
      · exact goesOn_some (by simp)
  | pinging alivePeers candidatePeers results =>
      obtain ⟨table, htable⟩ : ∃ table, addAlive s.routingTable (alivePeers ++
          (answered candidatePeers (resultAt results)).map Prod.fst) = .ok table :=
        (addAlive_isOk_iff hheld).mpr (.inl (hd.k_pos a))
      rw [bootstrapTurn]
      simp only [bind, Except.bind, htable]
      split
      · exact goesOn_none
      · exact goesOn_some (by simp)
  | bootstrapped => exact goesOn_none
  | storing results => exact goesOn_none
  | stored result => exact goesOn_none
  | missed => exact goesOn_none
  | looking call => exact goesOn_none
  | panicked e => exact goesOn_none

omit hd in
theorem storeTurn_goesOn (key : U128) (value : Bytes) :
    GoesOn (d.storeTurn a key value s stage) := by
  have hall := addresses_parse hs
  obtain ⟨ps, -, hafter⟩ := hs
  have hheld := held_of_afterUpdates hafter
  cases stage with
  | begun =>
      obtain ⟨targets, htargets⟩ := storeTargets_isOk hheld.wellFormed.nonempty hall key
      rw [storeTurn]
      simp only [bind, Except.bind, htargets]
      exact goesOn_some (by simp)
  | storing results =>
      rw [storeTurn]
      split
      · exact goesOn_none
      · exact goesOn_some (by simp)
  | introducing results => exact goesOn_none
  | pinging alivePeers candidatePeers results => exact goesOn_none
  | bootstrapped => exact goesOn_none
  | stored result => exact goesOn_none
  | missed => exact goesOn_none
  | looking call => exact goesOn_none
  | panicked e => exact goesOn_none

omit hd in
theorem findValueTurn_goesOn (key : U128) : GoesOn (d.findValueTurn a key s stage) := by
  obtain ⟨ps, -, hafter⟩ := hs
  have hheld := held_of_afterUpdates hafter
  cases stage with
  | begun =>
      rw [findValueTurn]
      cases DHTClient.findValueLocal s key with
      | some v => exact goesOn_some (by simp)
      | none => exact goesOn_some (by simp)
  | missed =>
      obtain ⟨peers, hpeers⟩ := kNearestPeers_isOk hheld.wellFormed.nonempty key
      rw [findValueTurn]
      simp only [bind, Except.bind, hpeers]
      exact goesOn_some (by simp)
  | looking call =>
      rw [findValueTurn]
      cases DHTClient.step d.parse (d.client a) key call .recv with
      | some call' => exact goesOn_some (by simp)
      | none => exact goesOn_none
  | introducing results => exact goesOn_none
  | pinging alivePeers candidatePeers results => exact goesOn_none
  | bootstrapped => exact goesOn_none
  | storing results => exact goesOn_none
  | stored result => exact goesOn_none
  | panicked e => exact goesOn_none

theorem turn_not_panicked
    (hstage : (Cluster.known d (fun _ => True) fun p => (d.parse p.address).isSome).stage a
      operation stage)
    (h : d.turn a operation s stage = some turn) (e : Panic) : turn.stage ≠ .panicked e := by
  have hcaught {out : Except Panic (Option (Turn SocketAddr))} (hout : GoesOn out)
      (hturn : caught s out = some turn) : turn.stage ≠ .panicked e := by
    obtain ⟨turn', rfl, hall⟩ := hout
    exact hall turn hturn e
  cases operation with
  | bootstrap => exact hcaught (bootstrapTurn_goesOn hd hs hstage) h
  | store key value => exact hcaught (storeTurn_goesOn hs key value) h
  | findValue key => exact hcaught (findValueTurn_goesOn hs key) h

end Turn

theorem atomicStep_isOk {message : Message} {p : Peer} (hs : s.routingTable.WellFormed)
    (hk : 0 < s.routingTable.k) (hsent : validateRequest message = true → SentBy message p)
    {point : Point}
    (hkey : point.rpc ≠ .ping → ∃ key, keyFromBytes message.key = .ok key) :
    ∃ next s', atomicStep message point s = .ok next s' := by
  have hrecord (next : Point ⊕ Message) :
      ∃ next' s', recordSender message next s = .ok next' s' := by
    cases hvalid : validateRequest message with
    | false =>
        rw [recordSender, hvalid]
        exact ⟨_, _, rfl⟩
    | true =>
        obtain ⟨t, r, hu, -⟩ := hs.update_updated hk p
        exact ⟨_, _, recordSender_of_sentBy (hsent hvalid) hu next⟩
  have hnodes (hkey : ∃ key, keyFromBytes message.key = .ok key) :
      ∃ next s', (findNodeAsync message >>= fun response =>
        (pure (.inr response) : Handler (Point ⊕ Message))) s = .ok next s' := by
    rw [bind_apply]
    cases hvalid : validateRequest message with
    | false =>
        rw [show findNodeAsync message s = _ from handle_of_invalid .findNode hvalid s]
        exact ⟨_, _, rfl⟩
    | true =>
        obtain ⟨key, hkey⟩ := hkey
        obtain ⟨t, r, peers, -, -, hanswer⟩ := findNodeAsync_answers hs hk (hsent hvalid) hkey
        rw [hanswer]
        exact ⟨_, _, rfl⟩
  cases point with
  | opened rpc =>
      cases rpc with
      | store => exact hrecord _
      | findNode => exact hnodes (hkey (by decide))
      | findValue => exact hrecord _
      | ping => exact hrecord _
  | storing => exact ⟨_, _, rfl⟩
  | reading =>
      rw [atomicStep]
      simp only [bind_apply, get_apply, MemoryStore.get_eq]
      cases s.kvstore.store message.key with
      | some value => exact ⟨_, _, rfl⟩
      | none => exact ⟨_, _, rfl⟩
  | missed => exact hnodes (hkey (by decide))

end Deployment

namespace Cluster

variable [DecidableEq SocketAddr] {d : Deployment SocketAddr}
  {events : List (ClusterEvent SocketAddr)} {c c' : Cluster SocketAddr}

/-- No task has panicked and no handler has. -/
structure Unharmed (c : Cluster SocketAddr) : Prop where
  tasks : ∀ task ∈ c.tasks, ∀ e, task.stage ≠ .panicked e
  exchanges : ∀ x ∈ c.exchanges, ∀ e, x.progress ≠ .broken e

theorem unharmed_step (hd : d.Sound)
    (hc : Meets (known d (fun _ => True) fun p => (d.parse p.address).isSome) c)
    (hu : Unharmed c)
    {event : ClusterEvent SocketAddr} (hstep : step d c event = some c') : Unharmed c' := by
  have htasks {id : ℕ} {task : Task SocketAddr} {stage : Stage}
      (hstage : ∀ e, stage ≠ .panicked e) :
      ∀ t ∈ c.tasks.set id { task with stage := stage }, ∀ e, t.stage ≠ .panicked e := by
    intro t ht
    rcases List.mem_or_eq_of_mem_set ht with ht | rfl
    · exact hu.tasks t ht
    · exact hstage
  have hexchanges {i : ℕ} {x : Exchange SocketAddr} (hx : ∀ e, x.progress ≠ .broken e) :
      ∀ y ∈ c.exchanges.set i x, ∀ e, y.progress ≠ .broken e := by
    intro y hy
    rcases List.mem_or_eq_of_mem_set hy with hy | rfl
    · exact hu.exchanges y hy
    · exact hx
  -- a task that hears a result does not panic at once
  have hheard {i : ℕ} {x : Exchange SocketAddr} (hx : x ∈ c.exchanges)
      {result : Except IoError Message} (hanswer : answer d c i x result = some c') :
      Unharmed c' := by
    obtain ⟨task, htask, rfl⟩ := answer_eq_some hanswer
    refine ⟨htasks fun e he => ?_, hexchanges (hu.exchanges x hx)⟩
    have hhears := d.hear_heard task.node task.operation x.slot result task.stage
    rw [he] at hhears
    generalize hstage : task.stage = stage at hhears
    cases hhears with
    | ignored => exact hu.tasks task (List.mem_of_getElem? htask) e hstage
  cases event with
  | begin a operation =>
      obtain rfl := Option.some.inj hstep
      refine ⟨fun t ht => ?_, hu.exchanges⟩
      rcases List.mem_append.mp ht with ht | ht
      · exact hu.tasks t ht
      · obtain rfl := List.mem_singleton.mp ht
        exact nofun
  | advance id =>
      obtain ⟨task, htask, hstep⟩ := Option.bind_eq_some_iff.mp hstep
      obtain ⟨turn, hturn, hstep⟩ := Option.bind_eq_some_iff.mp hstep
      obtain rfl := Option.some.inj hstep
      refine ⟨htasks fun e => ?_, fun x hx => ?_⟩
      · exact Deployment.turn_not_panicked hd (hc.nodes _)
          (hc.tasks task (List.mem_of_getElem? htask)) hturn e
      · rcases List.mem_append.mp hx with hx | hx
        · exact hu.exchanges x hx
        · obtain ⟨call, -, rfl⟩ := List.mem_map.mp hx
          exact nofun
  | lose id p =>
      obtain ⟨task, stage, -, hlose, rfl⟩ := lose_eq_some hstep
      obtain ⟨key, call, call', -, -, -, rfl⟩ := Deployment.lose_eq_some hlose
      exact ⟨htasks nofun, hu.exchanges⟩
  | serve i =>
      obtain ⟨x, point, hx, hprogress, rfl⟩ := serve_eq_some hstep
      obtain ⟨task, -, hapt⟩ := hc.exchanges x (List.mem_of_getElem? hx)
      obtain ⟨ps, -, hafter⟩ := hc.nodes x.target
      have hheld := held_of_afterUpdates hafter
      have hok : ∃ next s', atomicStep x.request point (c.nodes x.target) = .ok next s' := by
        refine Deployment.atomicStep_isOk (p := d.localPeer task.node) hheld.wellFormed
          (hheld.k_eq ▸ hd.k_pos x.target)
          (fun hvalid => ⟨hvalid, _, hapt.call.2.1.myself, by simp⟩) fun hping => ?_
        obtain ⟨key, hkey⟩ := hapt.call.2.1.key (hapt.running point hprogress ▸ hping)
        exact ⟨key, by rw [hkey, keyFromBytes_keyToBytes]⟩
      obtain ⟨next, s', hok⟩ := hok
      refine ⟨hu.tasks, hexchanges fun e => ?_⟩
      rw [hok]
      cases next with
      | inl point' => exact nofun
      | inr reply => exact nofun
  | deliver i =>
      obtain ⟨x, reply, hx, -, hanswer⟩ := deliver_eq_some hstep
      exact hheard (List.mem_of_getElem? hx) hanswer
  | fail i error =>
      obtain ⟨x, hx, hanswer⟩ := Option.bind_eq_some_iff.mp hstep
      exact hheard (List.mem_of_getElem? hx) hanswer

/-- All that a sound deployment keeps. -/
theorem sound_run (hd : d.Sound) (hrun : Run.run (step d) (new d) events = some c) :
    Meets (known d (fun _ => True) fun p => (d.parse p.address).isSome) c ∧ Unharmed c := by
  refine Run.run_invariant (I := fun c : Cluster SocketAddr =>
    Meets (known d (fun _ => True) fun p => (d.parse p.address).isSome) c ∧ Unharmed c) ?_
    ⟨known_new hd.parses, by simp [new], by simp [new]⟩ hrun
  rintro c event c' ⟨hc, hu⟩ hstep
  exact ⟨known_step hd.parses hc (by cases event <;> trivial) hstep,
    unharmed_step hd hc hu hstep⟩

/-- **Nothing panics.** If the deployment is sound, then in every run no handler,
no bootstrap and no store panics, no lookup does and none of its queries. -/
theorem no_panic (d : Deployment SocketAddr) (hd : d.Sound)
    (events : List (ClusterEvent SocketAddr)) (c : Cluster SocketAddr)
    (hrun : Run.run (step d) (new d) events = some c) :
    (∀ x ∈ c.exchanges, ∀ e, x.progress ≠ .broken e) ∧
      ∀ task ∈ c.tasks, (∀ e, task.stage ≠ .panicked e) ∧
        ∀ call, task.stage = .looking call →
          (∀ e, call.status ≠ .panicked e) ∧ call.lookup.dead = [] := by
  obtain ⟨hmeets, hunharmed⟩ := sound_run hd hrun
  refine ⟨hunharmed.exchanges, fun task htask => ⟨hunharmed.tasks task htask, ?_⟩⟩
  intro call hstage
  have hknown := (hmeets.tasks task htask).2
  rw [hstage] at hknown
  refine ⟨Knows.not_panicked hknown, ?_⟩
  -- the task of a query dies only of an address that does not parse
  rw [List.eq_nil_iff_forall_not_mem]
  intro p hp
  have hnone := (Knows.inv hknown).dead p hp
  have hsome : (d.parse p.address).isSome := Knows.seen hknown p
    (mem_seen.mpr (.inr ((Knows.inv hknown).books.queried_of_dead hp)))
  rw [Option.isNone_iff_eq_none.mp hnone] at hsome
  cases hsome

theorem pair_sound : pair.Sound where
  k_pos a := by cases a <;> decide
  parses :=
    { localPeer := fun a _ => by cases a <;> decide
      bootstrapPeers := fun a _ => by cases a <;> decide }

theorem no_panic_joining :
    (∀ x ∈ joined.exchanges, ∀ e, x.progress ≠ .broken e) ∧
      ∀ task ∈ joined.tasks, (∀ e, task.stage ≠ .panicked e) ∧
        ∀ call, task.stage = .looking call →
          (∀ e, call.status ≠ .panicked e) ∧ call.lookup.dead = [] :=
  no_panic pair pair_sound joining joined joining_run

/-! ### Few nodes -/

/-- **Few nodes.** If all nodes that were asked for something and the bootstrap
peers they are configured with fit into one bucket of a node, then in every run
the table of the node is a single bucket, and a search finds the nearest of all
peers the node knows, in order. -/
theorem few_nodes_exact (d : Deployment SocketAddr) (events : List (ClusterEvent SocketAddr))
    (c : Cluster SocketAddr) (hrun : Run.run (step d) (new d) events = some c) (U : Finset Peer)
    (hU : d.Configured (Asked c) fun p => p ∈ U) (a : SocketAddr)
    (hfew : U.card ≤ (d.config a).k) :
    (c.nodes a).routingTable.buckets.length = 1 ∧
      ∀ target numResults, (c.nodes a).routingTable.nearestPeers target numResults =
        .ok ((SortBy.sortBy (distance target) (c.nodes a).routingTable.peers).take
          numResults) := by
  obtain ⟨ps, hps, hafter⟩ := (known_run hU (fun _ ha => ha) hrun).nodes a
  have hcard : ps.toFinset.card ≤ (d.config a).k := by
    refine (Finset.card_le_card fun p hp => ?_).trans hfew
    exact hps p (List.mem_toFinset.mp hp)
  obtain ⟨t, ht, hlength, -, hexact⟩ := few_peers_exact (d.config a).k (d.localPeer a) ps hcard
  obtain rfl := Option.some.inj (ht.symm.trans hafter)
  exact ⟨hlength, hexact⟩

theorem few_nodes_exact_joining :
    (joined.nodes true).routingTable.buckets.length = 1 ∧
      ∀ target numResults, (joined.nodes true).routingTable.nearestPeers target numResults =
        .ok ((SortBy.sortBy (distance target) (joined.nodes true).routingTable.peers).take
          numResults) :=
  few_nodes_exact pair joining joined joining_run {pairPeer true, pairPeer false}
    { localPeer := fun a _ => by cases a <;> decide
      bootstrapPeers := fun a _ => by cases a <;> decide }
    true (by decide)

end Cluster

end DhtKad
