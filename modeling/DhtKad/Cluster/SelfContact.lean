import Mathlib.Data.List.ReduceOption
import DhtKad.Client.Frontier
import DhtKad.Client.Termination
import DhtKad.Cluster.Values
import DhtKad.Service.Addresses

/-!
Whether a node contacts itself.

Nothing in the source keeps a node out of its own routing table. The peer a
node joins at records it before it looks up the nearest peers, so its reply
lists the node that asked, which then pings itself and is recorded by its own
server (`own_peer_recorded`). But a node comes to its own address in no other
way: until a reply that lists a peer there is delivered to it, all that it
knows and all that it contacts is elsewhere (`elsewhere_run`).
-/

namespace DhtKad

open RoutingTable DHTServer DHTClient

variable {SocketAddr : Type} (parse : String → Option SocketAddr) (a : SocketAddr)

/-- The peer is not at the address. -/
def Elsewhere (p : Peer) : Prop := parse p.address ≠ some a

/-- Every peer that the reply lists is elsewhere. -/
def ListsElsewhere (reply : Message) : Prop :=
  ∀ mp ∈ reply.closerPeers, ∀ p, protoPeerToPeer mp = .ok p → Elsewhere parse a p

/-- The task goes on with the peers that a reply lists. -/
def Stage.Listens : Stage → Prop
  | .introducing _ => True
  | .looking call => call.status = .awaiting
  | _ => False

variable {parse a} in
theorem ListsElsewhere.named {reply : Message} (h : ListsElsewhere parse a reply) {q : Peer}
    (hq : Named (.ok reply) q) : Elsewhere parse a q := by
  obtain ⟨response, hresponse, -, mp, hmp, hdecode⟩ := hq
  obtain rfl := Except.ok.inj hresponse
  exact h mp hmp q hdecode

namespace Cluster

/-- All that the node at `a` knows and all that it contacts is elsewhere, and
every node names itself in its requests. -/
def elsewhere (d : Deployment SocketAddr) (a : SocketAddr) : Assertion SocketAddr where
  node b s := Held (d.config b).k (d.localPeer b) s.routingTable ∧
    (b = a → ∀ p ∈ s.routingTable.peers, Elsewhere d.parse a p)
  stage b _ stage := b = a →
    match stage with
    | .introducing results =>
        ∀ reply, some (.ok reply) ∈ results → ListsElsewhere d.parse a reply
    | .pinging alivePeers candidatePeers _ =>
        ∀ p ∈ alivePeers ++ candidatePeers, Elsewhere d.parse a p
    | .looking call => Confined d.parse (Elsewhere d.parse a) call
    | _ => True
  call b _ call := call.request.myself = some (protoPeerFromPeer (d.localPeer b)) ∧
    (b = a → call.target ≠ a)
  reply _ _ _ _ := True

section Stable

variable {d : Deployment SocketAddr} {a b : SocketAddr} {operation : Operation}

theorem ne_of_parseAddress {p : Peer} {target : SocketAddr} (hp : Elsewhere d.parse a p)
    (h : parseAddress d.parse p = .ok target) : target ≠ a := by
  rintro rfl
  exact hp (parseAddress_eq_ok_iff.mp h)

theorem ne_of_mapM_parseAddress {ps : List Peer} {targets : List SocketAddr}
    (hps : ∀ p ∈ ps, Elsewhere d.parse a p) (h : ps.mapM (parseAddress d.parse) = .ok targets) :
    ∀ target ∈ targets, target ≠ a := by
  intro target htarget
  obtain ⟨p, hp, hparse⟩ := (ExceptList.mem_of_mapM h target).mp htarget
  exact ne_of_parseAddress (hps p hp) hparse

theorem getElem?_of_joined {slot : ℕ → Slot} {rpc : Rpc} {request : Message} {peers : List Peer}
    {targets : List SocketAddr} (htargets : peers.mapM (parseAddress d.parse) = .ok targets)
    {call : RemoteCall SocketAddr} (hcall : call ∈ Deployment.joined slot rpc request targets) :
    ∃ i p, call.slot = slot i ∧ peers[i]? = some p ∧ d.parse p.address = some call.target := by
  obtain ⟨⟨target, i⟩, hi, rfl⟩ := List.mem_map.mp hcall
  have htarget := List.mem_zipIdx_iff_getElem?.mp hi
  obtain ⟨hlt, hget⟩ := List.getElem?_eq_some_iff.mp htarget
  have hall := ExceptList.mapM_eq_ok_iff.mp htargets
  have hlt' : i < peers.length := hall.length_eq ▸ hlt
  have hparse := hall.get hlt' hlt
  rw [List.get_eq_getElem, List.get_eq_getElem, hget] at hparse
  exact ⟨i, _, rfl, List.getElem?_eq_getElem hlt', parseAddress_eq_ok_iff.mp hparse⟩

theorem map_some_reduceOption {results : Results} (h : none ∉ results) :
    results.reduceOption.map some = results := by
  induction results with
  | nil => rfl
  | cons o results ih =>
      obtain ⟨r, rfl⟩ := Option.ne_none_iff_exists'.mp fun ho => h (ho ▸ List.mem_cons_self)
      rw [List.reduceOption_cons_of_some, List.map_cons,
        ih fun hnone => h (List.mem_cons_of_mem _ hnone)]

theorem resultAt_eq {results : Results} (h : none ∉ results) {i : ℕ}
    {r : Except IoError Message} (hi : results[i]? = some (some r)) :
    Deployment.resultAt results i = r := by
  rw [← map_some_reduceOption h, List.getElem?_map] at hi
  obtain ⟨r', hr', hsome⟩ := Option.map_eq_some_iff.mp hi
  obtain rfl := Option.some.inj hsome
  rw [Deployment.resultAt, List.getD_eq_getElem?_getD, hr', Option.getD_some]

/-- A reply that a join takes for the result with an index is that result. -/
theorem getElem?_of_resultAt {results : Results} (h : none ∉ results) {i : ℕ} {reply : Message}
    (hi : Deployment.resultAt results i = .ok reply) : results[i]? = some (some (.ok reply)) := by
  rw [Deployment.resultAt, List.getD_eq_getElem?_getD] at hi
  rw [← map_some_reduceOption h, List.getElem?_map]
  cases hr : results.reduceOption[i]? with
  | none =>
      rw [hr] at hi
      cases hi
  | some r =>
      rw [hr] at hi
      obtain rfl : r = .ok reply := hi
      rfl

theorem not_mem_of_turn {s : DHTServer} {turn : Turn SocketAddr} {results : Results}
    {stage : Stage} (hstage : stage = .introducing results ∨
      ∃ alivePeers candidatePeers, stage = .pinging alivePeers candidatePeers results)
    (h : d.turn a .bootstrap s stage = some turn) : none ∉ results := by
  intro hnone
  rcases hstage with rfl | ⟨alivePeers, candidatePeers, rfl⟩ <;>
    simp [Deployment.turn, Deployment.bootstrapTurn, Deployment.caught, hnone] at h

theorem mem_of_resultAt {results : Results} {i : ℕ} {reply : Message}
    (h : Deployment.resultAt results i = .ok reply) : some (.ok reply) ∈ results := by
  rw [Deployment.resultAt, List.getD_eq_getElem?_getD] at h
  cases hi : results.reduceOption[i]? with
  | none =>
      rw [hi] at h
      cases h
  | some r =>
      rw [hi] at h
      obtain rfl : r = .ok reply := h
      exact List.reduceOption_mem_iff.mp (List.mem_of_getElem? hi)

theorem elsewhere_of_reported {bootstrapPeers : List Peer} {results : Results}
    {reported : List (List Peer)}
    (hresults : ∀ reply, some (.ok reply) ∈ results → ListsElsewhere d.parse a reply)
    (hreported : ((answered bootstrapPeers (Deployment.resultAt results)).mapM
      fun (_, resp) => resp.closerPeers.mapM protoPeerToPeer) = .ok reported) :
    ∀ p ∈ selectCandidates bootstrapPeers reported.flatten, Elsewhere d.parse a p := by
  intro p hp
  obtain ⟨ps, hps, hpps⟩ := List.mem_flatten.mp (mem_selectCandidates.mp hp).1
  obtain ⟨⟨q, reply⟩, hreply, hdecode⟩ := (ExceptList.mem_of_mapM hreported ps).mp hps
  obtain ⟨i, -, hi⟩ := mem_answered.mp hreply
  obtain ⟨mp, hmp, hp⟩ := (ExceptList.mem_of_mapM hdecode p).mp hpps
  exact hresults reply (mem_of_resultAt hi) mp hmp p hp

theorem elsewhere_update {p : Peer} {t t' : RoutingTable} {r : Except NoCapacityError Unit}
    (ht : Held (d.config b).k (d.localPeer b) t ∧
      (b = a → ∀ p ∈ t.peers, Elsewhere d.parse a p))
    (hp : b = a → Elsewhere d.parse a p) (hu : t.update p = .ok (t', r)) :
    Held (d.config b).k (d.localPeer b) t' ∧
      (b = a → ∀ p ∈ t'.peers, Elsewhere d.parse a p) := by
  refine ⟨(ht.1.updated_of_update hu).2.2, fun hb q hq => ?_⟩
  rcases mem_peers_of_update ht.1 hu hq with hq | ⟨rfl, -⟩
  · exact ht.2 hb q hq
  · exact hp hb

theorem elsewhere_calls {slot : ℕ → Slot} {rpc : Rpc} {request : Message}
    {targets : List SocketAddr}
    (hmyself : request.myself = some (protoPeerFromPeer (d.localPeer b)))
    (htargets : b = a → ∀ target ∈ targets, target ≠ a) :
    ∀ call ∈ Deployment.joined slot rpc request targets, (elsewhere d a).call b operation call := by
  intro call hcall
  obtain ⟨-, rfl, htarget⟩ := Deployment.mem_joined hcall
  exact ⟨hmyself, fun hb => htargets hb call.target htarget⟩

theorem elsewhere_queries {key : U128} {ps : List Peer}
    (hps : b = a → ∀ p ∈ ps, Elsewhere d.parse a p) :
    ∀ call ∈ d.queries b key ps, (elsewhere d a).call b operation call := by
  intro call hcall
  obtain ⟨-, hrequest, p, hp, hparse⟩ := d.mem_queries b hcall
  refine ⟨by rw [hrequest]; rfl, fun hb htarget => ?_⟩
  exact hps hb p hp (hparse.trans (congrArg some htarget))

theorem elsewhere_turned
    (hboot : ∀ p ∈ (d.config a).bootstrapPeers, Elsewhere d.parse a p) {s : DHTServer}
    {stage : Stage} {turn : Turn SocketAddr} (hs : (elsewhere d a).node b s)
    (hstage : (elsewhere d a).stage b operation stage) (h : d.Turned b s operation stage turn) :
    (elsewhere d a).node b turn.server ∧ (elsewhere d a).stage b operation turn.stage ∧
      ∀ call ∈ turn.calls, (elsewhere d a).call b operation call := by
  have hnearest {target : U128} {peers : List Peer}
      (hpeers : s.routingTable.kNearestPeers target = .ok peers) (hb : b = a) :
      ∀ p ∈ peers, Elsewhere d.parse a p := fun p hp =>
    hs.2 hb p (mem_peers_of_kNearestPeers hs.1.wellFormed.nonempty hpeers p hp)
  cases h with
  | panicked e => exact ⟨hs, fun _ => trivial, by simp⟩
  | introduced htargets =>
      refine ⟨hs, fun _ => by simp, elsewhere_calls rfl ?_⟩
      rintro rfl
      exact ne_of_mapM_parseAddress hboot htargets
  | pinged hreported htargets =>
      have hcandidates : b = a → ∀ p ∈ _, Elsewhere d.parse a p := fun hb =>
        elsewhere_of_reported (hstage hb) hreported
      refine ⟨hs, fun hb p hp => ?_, elsewhere_calls rfl fun hb =>
        ne_of_mapM_parseAddress (hcandidates hb) htargets⟩
      rcases List.mem_append.mp hp with hp | hp
      · subst hb
        exact hboot p (mem_of_mem_answered hp)
      · exact hcandidates hb p hp
  | bootstrapped htable =>
      refine ⟨?_, fun _ => trivial, by simp⟩
      refine addAlive_invariant (I := fun t => Held (d.config b).k (d.localPeer b) t ∧
        (b = a → ∀ p ∈ t.peers, Elsewhere d.parse a p)) ?_ hs htable
      intro t p t' r ht hp hu
      refine elsewhere_update ht (fun hb => hstage hb p ?_) hu
      rcases List.mem_append.mp hp with hp | hp
      · exact List.mem_append_left _ hp
      · exact List.mem_append_right _ (mem_of_mem_answered hp)
  | storing htargets =>
      obtain ⟨peers, hpeers, hparsed⟩ := ExceptList.bind_eq_ok_iff.mp htargets
      exact ⟨hs, fun _ => by simp, elsewhere_calls rfl fun hb =>
        ne_of_mapM_parseAddress (hnearest hpeers hb) hparsed⟩
  | stored => exact ⟨hs, fun _ => trivial, by simp⟩
  | hit hv => exact ⟨hs, fun _ => confined_hit _, by simp⟩
  | missed => exact ⟨hs, fun _ => trivial, by simp⟩
  | started hcandidates =>
      rename_i key candidates
      have haway (hb : b = a) : Confined d.parse (Elsewhere d.parse a) _ :=
        confined_start (d.client b) key (hnearest hcandidates hb)
      exact ⟨hs, haway, elsewhere_queries fun hb p hp => (haway hb).tasks hp⟩
  | received hstep =>
      have haway (hb : b = a) := Confined.step (hstage hb) (by rintro p r ⟨⟩) hstep
      exact ⟨hs, haway, elsewhere_queries fun hb p hp =>
        (haway hb).tasks (List.mem_of_mem_drop hp)⟩

theorem elsewhere_served (htext : ∀ b, d.parse (d.toString b) = some b)
    {call : RemoteCall SocketAddr} {point : Point} {s : DHTServer}
    {out : EStateM.Result Panic DHTServer (Point ⊕ Message)}
    (hcall : (elsewhere d a).call b operation call) (hs : (elsewhere d a).node call.target s)
    (h : AtomicStepped call.request s point out) :
    (elsewhere d a).node call.target (stateAfter out) := by
  refine h.routingTable (I := fun t =>
    Held (d.config call.target).k (d.localPeer call.target) t ∧
      (call.target = a → ∀ p ∈ t.peers, Elsewhere d.parse a p)) ?_ hs
  intro p t r hsent hu
  refine elsewhere_update hs (fun htarget hparse => ?_) hu
  -- the request comes from another node, and names that node
  obtain ⟨-, myself, hmyself, hdecode⟩ := hsent
  obtain rfl := Option.some.inj (hcall.1.symm.trans hmyself)
  rw [protoPeerToPeer_protoPeerFromPeer] at hdecode
  obtain rfl := Except.ok.inj hdecode
  exact hcall.2 (Option.some.inj ((htext b).symm.trans hparse)) htarget

theorem elsewhere_heard {slot : Slot} {result : Except IoError Message} {stage stage' : Stage}
    (hstage : (elsewhere d a).stage b operation stage)
    (hresult : ∀ reply, result = .ok reply → stage.Listens → b = a →
      ListsElsewhere d.parse a reply)
    (h : d.Heard b operation slot result stage stage') :
    (elsewhere d a).stage b operation stage' := by
  cases h with
  | ignored => exact hstage
  | introduced i =>
      intro hb reply hreply
      rcases List.mem_or_eq_of_mem_set hreply with hreply | hreply
      · exact hstage hb reply hreply
      · exact hresult reply (Option.some.inj hreply).symm trivial hb
  | pinged i => exact hstage
  | stored i => exact fun _ => trivial
  | queried hoperation hstep =>
      refine fun hb => Confined.step (hstage hb) ?_ hstep
      rintro p r hevent - q ⟨reply, rfl, hnamed⟩
      obtain ⟨rfl, rfl⟩ := Event.send.inj hevent
      exact (hresult reply rfl (step_stepped hstep).1 hb).named ⟨reply, rfl, hnamed⟩

theorem elsewhere_stable (htext : ∀ b, d.parse (d.toString b) = some b)
    (hboot : ∀ p ∈ (d.config a).bootstrapPeers, Elsewhere d.parse a p) :
    Stable (elsewhere d a) d (fun _ _ => True)
      (fun b _ stage reply => stage.Listens → b = a → ListsElsewhere d.parse a reply) where
  fresh b := ⟨held_new _ _, fun _ p hp => by simp [DHTServer.new, RoutingTable.new, peers,
    Bucket.new] at hp⟩
  begun b operation _ := fun _ => trivial
  turned b operation s stage turn hs hstage h := elsewhere_turned hboot hs hstage h
  served b operation call point s out hcall hs _ h :=
    ⟨elsewhere_served htext hcall hs h, fun _ _ _ => trivial⟩
  heard b operation call result stage stage' hstage _ hresult h :=
    elsewhere_heard hstage (fun reply hok => (hresult reply hok).2) h
  lost b key p call call' hstage hstep := fun hb =>
    Confined.step (hstage hb) (by rintro p r ⟨⟩) hstep

end Stable

/-- A reply that lists a peer at the address `a` is delivered to the node there,
to a bootstrap or a lookup that goes on with it. -/
def ToldOfItself (d : Deployment SocketAddr) (a : SocketAddr) (c : Cluster SocketAddr) :
    ClusterEvent SocketAddr → Prop
  | .deliver i => ∃ x task reply, c.exchanges[i]? = some x ∧ c.tasks[x.caller]? = some task ∧
      task.node = a ∧ task.stage.Listens ∧ x.progress = .replied reply ∧
      ∃ mp ∈ reply.closerPeers, ∃ p, protoPeerToPeer mp = .ok p ∧ d.parse p.address = some a
  | _ => False

/-- Until it is told of a peer at its own address, all that a node knows and all
that it contacts is elsewhere. -/
theorem elsewhere_run [DecidableEq SocketAddr] {d : Deployment SocketAddr}
    (htext : ∀ b, d.parse (d.toString b) = some b) {a : SocketAddr}
    (hboot : ∀ p ∈ (d.config a).bootstrapPeers, d.parse p.address ≠ some a)
    {events : List (ClusterEvent SocketAddr)} {c : Cluster SocketAddr}
    (hrun : Run.run (step d) (new d) events = some c)
    (htold : Run.Along (step d) (fun c event => ¬ ToldOfItself d a c event) (new d) events) :
    Meets (elsewhere d a) c := by
  have hallowed : Run.Along (step d) (Allowed (fun _ _ => True)
      fun b _ stage reply => stage.Listens → b = a → ListsElsewhere d.parse a reply)
      (new d) events := by
    refine htold.mono ?_
    intro c event hnot
    cases event with
    | begin b operation => trivial
    | advance id => trivial
    | lose id p => trivial
    | serve i => trivial
    | fail i error => trivial
    | deliver i =>
        intro x task reply hx htask hreply hlistens hnode mp hmp p hdecode hparse
        exact hnot ⟨x, task, reply, hx, htask, hnode, hlistens, hreply, mp, hmp, p, hdecode,
          hparse⟩
  exact (elsewhere_stable htext hboot).run hallowed hrun

theorem pair_text (b : Bool) : pair.parse (pair.toString b) = some b := by
  cases b <;> decide

theorem pair_bootstrapPeers (b : Bool) :
    ∀ p ∈ (pair.config b).bootstrapPeers, pair.parse p.address ≠ some b := by
  cases b <;> decide

/-- The reply is delivered, and the node pings all that it lists. -/
def introduce : List (ClusterEvent Bool) := [.deliver 0, .advance 0, .serve 1]

/-- The ping of the node to itself. -/
def selfPing : RemoteCall Bool where
  slot := .ping 0
  target := false
  rpc := .ping
  request := createPingRequest (pairPeer false)

theorem introduce_turn (s : DHTServer) :
    pair.turn false .bootstrap s
        (.introducing [some (.ok (createFindNodeResponse [pairPeer false]))]) =
      some
        { server := s
          stage := .pinging [pairPeer true] [pairPeer false] [none]
          calls := [selfPing] } := by
  have hreported : ((answered [pairPeer true] (Deployment.resultAt
      [some (.ok (createFindNodeResponse [pairPeer false]))])).mapM
        fun (_, resp) => resp.closerPeers.mapM protoPeerToPeer) = .ok [[pairPeer false]] := by
    rw [ExceptList.mapM_eq_ok_iff]
    exact .cons (mapM_createFindNodeResponse [pairPeer false]) .nil
  have hcandidates : selectCandidates [pairPeer true] [[pairPeer false]].flatten =
      [pairPeer false] := by decide
  have htargets : [pairPeer false].mapM (parseAddress pair.parse) = .ok [false] := by decide
  have hboot : (pair.config false).bootstrapPeers = [pairPeer true] := rfl
  have hall : (none : Option (Except IoError Message)) ∉
      [some (.ok (createFindNodeResponse [pairPeer false]))] := by simp
  simp only [Deployment.turn, Deployment.bootstrapTurn, if_neg hall, hboot, hreported,
    hcandidates, htargets, bind, Except.bind]
  rfl

/-- The node has recorded itself. -/
theorem own_peer_recorded :
    (∀ b, pair.parse (pair.toString b) = some b) ∧
      (∀ b b', (pair.config b).id = (pair.config b').id → b = b') ∧
      (∀ b, ∀ p ∈ (pair.config b).bootstrapPeers, pair.parse p.address ≠ some b) ∧
      ∃ c, Run.run (step pair) (new pair) (joining ++ introduce) = some c ∧
        pair.localPeer false ∈ (c.nodes false).routingTable.peers := by
  refine ⟨pair_text, by decide, pair_bootstrapPeers, ?_⟩
  have hrecord : atomicStep selfPing.request (.opened .ping)
      (DHTServer.new 20 (pairPeer false)) =
        .ok (.inr createPingResponse)
          { kvstore := .new
            routingTable := ⟨20, pairPeer false, [⟨0, [pairPeer false]⟩]⟩ } := by
    have hupdate : (RoutingTable.new 20 (pairPeer false)).update (pairPeer false) =
        .ok (⟨20, pairPeer false, [⟨0, [pairPeer false]⟩]⟩, .ok ()) := by decide
    exact recordSender_of_sentBy (sentBy_of_peer (by decide) rfl) hupdate _
  rw [Run.run_append, joining_run, Option.bind_some]
  refine ⟨_, Run.run_cons_eq_some.mpr ⟨_, rfl, Run.run_cons_eq_some.mpr
    ⟨_, advance_eq pair rfl (introduce_turn _), Run.run_cons_eq_some.mpr
      ⟨_, serve_eq rfl rfl hrecord, rfl⟩⟩⟩, ?_⟩
  exact List.mem_singleton.mpr rfl

end Cluster

end DhtKad
