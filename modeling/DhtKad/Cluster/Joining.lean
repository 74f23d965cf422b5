import DhtKad.Cluster.Acquainted
import DhtKad.Cluster.Contacts
import DhtKad.Cluster.Refinement
import DhtKad.Cluster.SelfContact

/-!
How the nodes of a small network get to know each other.

A node that joins introduces itself to its bootstrap peers and pings everyone
they name to it. Whoever it has sent a request to records it, and it records all
that were alive. Two nodes that join at the same peer are recorded there one
after the other, so the reply to the later of them names the earlier one
(`Introduced`), which it then pings. What a bootstrap has achieved so far is the
invariant of its stages (`Joins`): if nothing fails, everyone knows everyone
once all have joined (`bootstraps_acquaint`).
-/

namespace DhtKad

open RoutingTable DHTServer DHTClient

variable {SocketAddr : Type}

def Names (reply : Message) (p : Peer) : Prop :=
  ∃ ps, reply.closerPeers.mapM protoPeerToPeer = .ok ps ∧ p ∈ ps

namespace Deployment

variable {d : Deployment SocketAddr} {S : SocketAddr → Prop} {a : SocketAddr}

/-- A class that holds as many peers as a bucket holds the whole network. -/
theorem Fits.mem_of_recorded (hfits : d.Fits S) (ha : S a) {s : DHTServer}
    (hs : (Cluster.known d S (d.Node S)).node a s) {p : Peer} (hp : d.Node S p)
    (h : s.routingTable.Recorded p) : p ∈ s.routingTable.peers := by
  refine h.elim id fun hfull => ?_
  obtain ⟨U, hU, hfit⟩ := hfits
  have hmem (q : Peer) (hq : d.Node S q) : q ∈ U := by
    obtain ⟨b, hb, rfl⟩ := hq
    exact hU b hb
  have hk := (Cluster.known_held hs).k_eq
  obtain ⟨qs, hqs, hafter⟩ := hs
  have hpeers := forall_mem_of_afterUpdates hqs hafter
  have heq := Finset.eq_of_subset_of_card_le
    (fun q hq => hmem q (hpeers q (mem_classAt.mp hq).1))
    ((hfit a ha).trans (hk ▸ hfull))
  have hclass := hmem p hp
  rw [← heq] at hclass
  exact (mem_classAt.mp hclass).1

end Deployment

namespace Cluster

variable {d : Deployment SocketAddr} {S : SocketAddr → Prop} {c c' : Cluster SocketAddr}

/-! ### Two introductions at one node -/

/-- Of two nodes that were introduced at the same node, one was named to the
other. -/
def Introduced (c : Cluster SocketAddr) : Prop :=
  ∀ x y reply reply' p q, Replied c x reply → Replied c y reply' → x.rpc = .findNode →
    y.rpc = .findNode → x.target = y.target → SentBy x.request p → SentBy y.request q →
    Names reply q ∨ Names reply' p ∨ p = q

theorem names_of_served (hfits : d.Fits S) {x : RemoteCall SocketAddr} (hS : S x.target)
    {point : Point} (hpoint : point.rpc = .findNode) {q p : Peer} (hsent : SentBy x.request q)
    {s : DHTServer} {reply : Message}
    (hreply : progressAfter (atomicStep x.request point s) = .replied reply)
    (hs : (known d S (d.Node S)).node x.target (stateAfter (atomicStep x.request point s)))
    (hp : d.Node S p)
    (hrecorded : (stateAfter (atomicStep x.request point s)).routingTable.Recorded p) :
    Names reply p := by
  have hstepped := atomicStep_stepped x.request s point
  generalize atomicStep x.request point s = out at hreply hs hrecorded hstepped
  have hknown := hfits.mem_of_recorded hS hs hp hrecorded
  cases hstepped with
  | invalid hvalid => exact absurd hsent.1 (by simp [hvalid])
  | notRecorded hvalid => cases hreply
  | recorded hnext hsent' hupdate =>
      rename_i rpc next p' t r
      obtain rfl : rpc = .findNode := hpoint
      cases hnext
  | nodesFound hsent' hupdate hkey hpeers =>
      rename_i q' t r target peers
      obtain rfl := Progress.replied.inj hreply
      exact ⟨peers, mapM_createFindNodeResponse peers,
        hfits.peers_subset_nearest hS hs hpeers hknown⟩
  | nodesPanic hsent' hupdate => cases hreply
  | put => cases hpoint
  | hit hvalue => cases hpoint
  | miss hvalue => cases hpoint

theorem nodes_of_made (hd : d.Connected S) (hc : Meets (known d S (d.Node S)) c)
    {x : RemoteCall SocketAddr} (hx : Made c x) :
    (∃ a, S a ∧ SentBy x.request (d.localPeer a)) ∧ S x.target := by
  obtain ⟨x, hx, rfl⟩ := hx
  obtain ⟨task, -, hapt⟩ := hc.exchanges x hx
  obtain ⟨ha, hrequest, p, hp, hparse⟩ := hapt.call
  exact ⟨⟨_, ha, sentBy_of_peer (hd.named _) hrequest.myself⟩, (hd.node_eq hp hparse).1⟩

theorem recorded_of_replied {P : Peer → Prop} (hc : Meets (known d S P) c)
    (hcontacts : (contacts SocketAddr).Holds c) {x : RemoteCall SocketAddr} {reply : Message}
    (hx : Replied c x reply) {p : Peer} (hp : SentBy x.request p) :
    (c.nodes x.target).routingTable.Recorded p := by
  obtain ⟨x, hx, rfl, hreply⟩ := hx
  obtain ⟨task, htask, -⟩ := hc.exchanges x hx
  refine hcontacts.calls x hx task htask ?_ p hp
  rw [hreply]
  trivial

theorem introduced_step [DecidableEq SocketAddr] (hd : d.Connected S) (hfits : d.Fits S)
    (hc : Meets (known d S (d.Node S)) c) (hc' : Meets (known d S (d.Node S)) c')
    (hcontacts : (contacts SocketAddr).Holds c') (h : Introduced c)
    {event : ClusterEvent SocketAddr} (hstep : step d c event = some c') : Introduced c' := by
  -- a reply that is given now names whoever was answered before
  have hlater {x : RemoteCall SocketAddr} {y : Exchange SocketAddr} {i : ℕ} {point : Point}
      {p q : Peer} {reply reply' : Message} (hx : Replied c' x reply)
      (hxy : x.target = y.target) (hp : SentBy x.request p) (hq : SentBy y.request q)
      (hfind : y.rpc = .findNode) (hy : c.exchanges[i]? = some y)
      (hprogress : y.progress = .running point)
      (hserved : progressAfter (atomicStep y.request point (c.nodes y.target)) = .replied reply')
      (hnode : c'.nodes y.target = stateAfter (atomicStep y.request point (c.nodes y.target))) :
      Names reply' p := by
    have hrecorded := recorded_of_replied hc' hcontacts hx hp
    obtain ⟨⟨a, ha, hsent⟩, htarget⟩ := nodes_of_made hd hc' hx.made
    obtain ⟨task, -, hapt⟩ := hc.exchanges y (List.mem_of_getElem? hy)
    rw [hxy] at hrecorded htarget
    rw [hnode] at hrecorded
    exact names_of_served hfits htarget ((hapt.running point hprogress).trans hfind) hq hserved
      (hnode ▸ hc'.nodes y.target) ⟨a, ha, hp.unique hsent⟩ hrecorded
  intro x y reply reply' p q hx hy hxfind hyfind hxy hp hq
  rcases replied_of_step hstep hx with hx₀ |
    ⟨i, x, point, hevent, hix, hrunning, rfl, hserved, hnode⟩
  · rcases replied_of_step hstep hy with hy₀ | ⟨i, y, point, -, hiy, hrunning, rfl, hserved, hnode⟩
    · exact h x y reply reply' p q hx₀ hy₀ hxfind hyfind hxy hp hq
    · exact .inr (.inl (hlater hx hxy hp hq hyfind hiy hrunning hserved hnode))
  · rcases replied_of_step hstep hy with hy₀ | ⟨j, y, point', hevent', hjy, -, rfl, -, -⟩
    · exact .inl (hlater hy hxy.symm hq hp hxfind hix hrunning hserved hnode)
    · obtain rfl := ClusterEvent.serve.inj (hevent.symm.trans hevent')
      obtain rfl := Option.some.inj (hix.symm.trans hjy)
      exact .inr (.inr (hp.unique hq))

/-! ### A bootstrap without failures -/

section Joins

variable (d) (c) (a : SocketAddr)

def SentTo (p : Peer) : Prop :=
  ∃ call, Made c call ∧ SentBy call.request (d.localPeer a) ∧
    d.parse p.address = some call.target

/-- The node has introduced itself to the peer, with this reply. -/
def Told (p : Peer) (reply : Message) : Prop :=
  ∃ call, Replied c call reply ∧ call.rpc = .findNode ∧ SentBy call.request (d.localPeer a) ∧
    d.parse p.address = some call.target

/-- The node has recorded the peer, and has sent a request to it. -/
def Met (p : Peer) : Prop := (c.nodes a).routingTable.Recorded p ∧ SentTo d c a p

/-- The bootstrap peers, and all that they named to the node, meet `Q`. -/
def Gathers (Q : Peer → Prop) : Prop :=
  ∀ p ∈ (d.config a).bootstrapPeers, Q p ∧
    ∃ reply, Told d c a p reply ∧ ∀ q, Names reply q → Q q

/-- What a bootstrap has achieved. -/
def Joins : Stage → Prop
  | .introducing results =>
      results.length = (d.config a).bootstrapPeers.length ∧
        (∀ p ∈ (d.config a).bootstrapPeers, SentTo d c a p) ∧
        ∀ (i : ℕ) (r : Except IoError Message), results[i]? = some (some r) →
          ∃ reply p, r = .ok reply ∧
            (d.config a).bootstrapPeers[i]? = some p ∧ Told d c a p reply
  | .pinging alivePeers candidatePeers results =>
      results.length = candidatePeers.length ∧
        (∀ r, some r ∈ results → ∃ reply, r = .ok reply) ∧
        (∀ p ∈ alivePeers ++ candidatePeers, SentTo d c a p) ∧
        Gathers d c a fun p => p ∈ alivePeers ++ candidatePeers
  | .bootstrapped => Gathers d c a (Met d c a)
  | _ => True

variable {d c a}

theorem Gathers.imp {Q R : Peer → Prop} (h : Gathers d c a Q) (hQR : ∀ p, Q p → R p) :
    Gathers d c a R := by
  intro p hp
  obtain ⟨hQ, reply, htold, hnames⟩ := h p hp
  exact ⟨hQR p hQ, reply, htold, fun q hq => hQR q (hnames q hq)⟩

section Step

variable [DecidableEq SocketAddr] {event : ClusterEvent SocketAddr}

theorem SentTo.step {p : Peer} (h : SentTo d c a p) (hstep : step d c event = some c') :
    SentTo d c' a p := by
  obtain ⟨call, hmade, h⟩ := h
  exact ⟨call, hmade.step hstep, h⟩

theorem Told.step {p : Peer} {reply : Message} (h : Told d c a p reply)
    (hstep : step d c event = some c') : Told d c' a p reply := by
  obtain ⟨call, hreplied, h⟩ := h
  exact ⟨call, hreplied.step hstep, h⟩

theorem Gathers.step {Q : Peer → Prop} (h : Gathers d c a Q)
    (hstep : step d c event = some c') : Gathers d c' a Q := by
  intro p hp
  obtain ⟨hQ, reply, htold, hnames⟩ := h p hp
  exact ⟨hQ, reply, htold.step hstep, hnames⟩

theorem Joins.step {P : Peer → Prop} (hc : Meets (known d S P) c) {stage : Stage}
    (h : Joins d c a stage) (hstep : step d c event = some c') : Joins d c' a stage := by
  cases stage with
  | introducing results =>
      obtain ⟨hlength, hsent, hin⟩ := h
      refine ⟨hlength, fun p hp => (hsent p hp).step hstep, fun i r hi => ?_⟩
      obtain ⟨reply, p, hr, hp, htold⟩ := hin i r hi
      exact ⟨reply, p, hr, hp, htold.step hstep⟩
  | pinging alivePeers candidatePeers results =>
      obtain ⟨hlength, hin, hsent, hgathers⟩ := h
      exact ⟨hlength, hin, fun p hp => (hsent p hp).step hstep, hgathers.step hstep⟩
  | bootstrapped =>
      have hgathers : Gathers d c a (Met d c a) := h
      refine (hgathers.step hstep).imp fun p hmet => ?_
      exact ⟨hmet.1.grows (known_held (hc.nodes a)) (grows_of_step hstep a), hmet.2.step hstep⟩
  | _ => trivial

end Step

/-! What a turn of the bootstrap achieves. -/

theorem sentTo_of_joined {slot : ℕ → Slot} {rpc : Rpc} {request : Message} {peers : List Peer}
    {targets : List SocketAddr} (htargets : peers.mapM (parseAddress d.parse) = .ok targets)
    (hsent : SentBy request (d.localPeer a))
    (hmade : ∀ call ∈ Deployment.joined slot rpc request targets, Made c call) :
    ∀ p ∈ peers, SentTo d c a p := by
  intro p hp
  obtain ⟨target, hparse⟩ := ExceptList.mapM_isOk_iff.mp ⟨targets, htargets⟩ p hp
  obtain ⟨i, hi⟩ := List.mem_iff_getElem?.mp
    ((ExceptList.mem_of_mapM htargets target).mpr ⟨p, hp, hparse⟩)
  refine ⟨_, hmade _ (List.mem_map.mpr ⟨(target, i), List.mem_zipIdx_iff_getElem?.mpr hi, rfl⟩),
    hsent, parseAddress_eq_ok_iff.mp hparse⟩

theorem recorded_of_addAlive {k : ℕ} {localPeer : Peer} {t t' : RoutingTable} {ps : List Peer}
    (ht : Held k localPeer t) (h : addAlive t ps = .ok t') : ∀ p ∈ ps, t'.Recorded p := by
  induction ps generalizing t with
  | nil => simp
  | cons q ps ih =>
      rw [addAlive, List.foldlM_cons] at h
      obtain ⟨u, hu, hrest⟩ := ExceptList.bind_eq_ok_iff.mp h
      obtain ⟨⟨v, r⟩, hupdate, hret⟩ := ExceptList.bind_eq_ok_iff.mp hu
      obtain rfl := Except.ok.inj hret
      have hheld := (ht.updated_of_update hupdate).2.2
      intro p hp
      rcases List.mem_cons.mp hp with rfl | hp
      · refine (addAlive_invariant (I := fun t => Held k localPeer t ∧ t.Recorded p) ?_
          ⟨hheld, recorded_of_update ht hupdate⟩ hrest).2
        rintro s q s' r ⟨hs, hrecorded⟩ - hu
        exact ⟨(hs.updated_of_update hu).2.2, hrecorded.update hs hu⟩
      · exact ih hheld hrest p hp

theorem exists_answered {results : Results} (hnone : none ∉ results) {peers : List Peer}
    (hlength : results.length = peers.length) {Q : Peer → Message → Prop}
    (hin : ∀ (i : ℕ) (r : Except IoError Message), results[i]? = some (some r) →
      ∃ reply p, r = .ok reply ∧ peers[i]? = some p ∧ Q p reply) :
    ∀ p ∈ peers, ∃ reply, (p, reply) ∈ answered peers (Deployment.resultAt results) ∧
      Q p reply := by
  intro p hp
  obtain ⟨i, hi⟩ := List.mem_iff_getElem?.mp hp
  have hlt := (List.getElem?_eq_some_iff.mp hi).1
  obtain ⟨r, hr⟩ : ∃ r, results[i]? = some (some r) := by
    have hmem := List.getElem_mem (hlength ▸ hlt : i < results.length)
    obtain ⟨r, hr⟩ := Option.ne_none_iff_exists'.mp fun ho => hnone (ho ▸ hmem)
    exact ⟨r, by rw [List.getElem?_eq_getElem (hlength ▸ hlt), hr]⟩
  obtain ⟨reply, p', rfl, hp', hQ⟩ := hin i r hr
  obtain rfl := Option.some.inj (hi.symm.trans hp')
  exact ⟨reply, mem_answered.mpr ⟨i, hi, resultAt_eq hnone hr⟩, hQ⟩

theorem joins_turned (hd : d.Connected S) {s : DHTServer} {stage : Stage}
    {turn : Turn SocketAddr} (hheld : Held (d.config a).k (d.localPeer a) s.routingTable)
    (hnode : c.nodes a = turn.server) (hmade : ∀ call ∈ turn.calls, Made c call)
    (h : d.turn a .bootstrap s stage = some turn) (hjoins : Joins d c a stage) :
    Joins d c a turn.stage := by
  have hturned := Deployment.turn_turned h
  cases hturned with
  | panicked e => trivial
  | introduced htargets =>
      refine ⟨by simpa using Deployment.length_of_mapM_parseAddress htargets,
        sentTo_of_joined htargets (sentBy_of_peer (hd.named a) rfl) hmade, fun i r hi => ?_⟩
      rw [List.getElem?_map] at hi
      obtain ⟨target, -, hnone⟩ := Option.map_eq_some_iff.mp hi
      cases hnone
  | pinged hreported htargets =>
      rename_i results reported targets
      obtain ⟨hlength, hsent, hin⟩ := hjoins
      have hanswered := exists_answered (not_mem_of_turn (.inl rfl) h) hlength hin
      have hpings := sentTo_of_joined htargets (sentBy_of_peer (hd.named a) rfl) hmade
      refine ⟨by simpa using Deployment.length_of_mapM_parseAddress htargets, by simp,
        fun p hp => ?_, fun p hp => ?_⟩
      · rcases List.mem_append.mp hp with hp | hp
        · exact hsent p (mem_of_mem_answered hp)
        · exact hpings p hp
      · have halive (q : Peer) (hq : q ∈ (d.config a).bootstrapPeers) :
            q ∈ (answered (d.config a).bootstrapPeers (Deployment.resultAt results)).map
              Prod.fst := by
          obtain ⟨reply, hreply, -⟩ := hanswered q hq
          exact List.mem_map.mpr ⟨_, hreply, rfl⟩
        obtain ⟨reply, hreply, htold⟩ := hanswered p hp
        refine ⟨List.mem_append_left _ (halive p hp), reply, htold, ?_⟩
        rintro q ⟨ps, hps, hq⟩
        have hlisted : q ∈ reported.flatten := List.mem_flatten.mpr
          ⟨ps, (ExceptList.mem_of_mapM hreported ps).mpr ⟨_, hreply, hps⟩, hq⟩
        by_cases hboot : q ∈ (d.config a).bootstrapPeers
        · exact List.mem_append_left _ (halive q hboot)
        · exact List.mem_append_right _ (mem_selectCandidates.mpr ⟨hlisted, hboot⟩)
  | bootstrapped htable =>
      rename_i alivePeers candidatePeers results table
      obtain ⟨hlength, hin, hsent, hgathers⟩ := hjoins
      have hanswered := exists_answered (not_mem_of_turn (.inr ⟨_, _, rfl⟩) h) hlength
        (Q := fun _ _ => True) fun i r hi => by
          obtain ⟨reply, rfl⟩ := hin r (List.mem_of_getElem? hi)
          have hlt := (List.getElem?_eq_some_iff.mp hi).1
          exact ⟨reply, _, rfl, List.getElem?_eq_getElem (hlength ▸ hlt), trivial⟩
      refine hgathers.imp fun p hp => ⟨?_, hsent p hp⟩
      rw [hnode]
      refine recorded_of_addAlive hheld htable p ?_
      rcases List.mem_append.mp hp with hp | hp
      · exact List.mem_append_left _ hp
      · obtain ⟨reply, hreply, -⟩ := hanswered p hp
        exact List.mem_append_right _ (List.mem_map.mpr ⟨_, hreply, rfl⟩)

end Joins

/-- An introduction goes to the bootstrap peer that it is numbered for. -/
def introductions (d : Deployment SocketAddr) : Assertion SocketAddr where
  node _ _ := True
  stage _ _ _ := True
  call a _ call := ∀ i, call.slot = .introduction i → call.rpc = .findNode ∧
    ∃ p, (d.config a).bootstrapPeers[i]? = some p ∧ d.parse p.address = some call.target
  reply _ _ _ _ := True

theorem introductions_turned {a : SocketAddr} {s : DHTServer} {operation : Operation}
    {stage : Stage} {turn : Turn SocketAddr} (h : d.Turned a s operation stage turn) :
    ∀ call ∈ turn.calls, (introductions d).call a operation call := by
  have hqueries {key : U128} {peers : List Peer} (call : RemoteCall SocketAddr)
      (hcall : call ∈ d.queries a key peers) : (introductions d).call a operation call := by
    obtain ⟨p, -, hcall⟩ := List.mem_filterMap.mp hcall
    obtain ⟨target, -, rfl⟩ := Option.map_eq_some_iff.mp hcall
    exact fun i => nofun
  cases h with
  | introduced htargets =>
      intro call hcall i hslot
      obtain ⟨j, p, hj, hp⟩ := getElem?_of_joined htargets hcall
      obtain rfl := Slot.introduction.inj (hj.symm.trans hslot)
      exact ⟨(Deployment.mem_joined hcall).1, p, hp⟩
  | pinged hreported htargets =>
      intro call hcall i hslot
      obtain ⟨⟨target, j⟩, -, rfl⟩ := List.mem_map.mp hcall
      cases hslot
  | storing htargets =>
      intro call hcall i hslot
      obtain ⟨⟨target, j⟩, -, rfl⟩ := List.mem_map.mp hcall
      cases hslot
  | started hcandidates => exact hqueries
  | received hstep => exact hqueries
  | panicked e => exact fun _ => nofun
  | bootstrapped htable => exact fun _ => nofun
  | stored => exact fun _ => nofun
  | hit hv => exact fun _ => nofun
  | missed => exact fun _ => nofun

theorem introductions_stable (d : Deployment SocketAddr) :
    Stable (introductions d) d (fun _ _ => True) fun _ _ _ _ => True where
  fresh _ := trivial
  begun _ _ _ := trivial
  turned _ _ _ _ _ _ _ h := ⟨trivial, trivial, introductions_turned h⟩
  served _ _ _ _ _ _ _ _ _ _ := ⟨trivial, fun _ _ _ => trivial⟩
  heard _ _ _ _ _ _ _ _ _ _ := trivial
  lost _ _ _ _ _ _ _ := trivial

theorem joins_heard {a : SocketAddr} {call : RemoteCall SocketAddr} {stage : Stage}
    {reply : Message} (hcall : (introductions d).call a .bootstrap call)
    (hsent : SentBy call.request (d.localPeer a)) (hreplied : Replied c call reply)
    (hjoins : Joins d c a stage) :
    Joins d c a (d.hear a .bootstrap call.slot (.ok reply) stage) := by
  cases stage with
  | introducing results =>
      cases hslot : call.slot with
      | introduction i =>
          obtain ⟨hlength, hall, hin⟩ := hjoins
          refine ⟨by simpa using hlength, hall, fun j r hj => ?_⟩
          by_cases hij : i = j
          · subst hij
            obtain ⟨hfind, p, hp, hparse⟩ := hcall i hslot
            rw [List.getElem?_set_self'] at hj
            obtain ⟨_, -, hr⟩ := Option.map_eq_some_iff.mp hj
            obtain rfl : .ok reply = r := Option.some.inj hr
            exact ⟨reply, p, rfl, hp, call, hreplied, hfind, hsent, hparse⟩
          · rw [List.getElem?_set_ne hij] at hj
            exact hin j r hj
      | _ => exact hjoins
  | pinging alivePeers candidatePeers results =>
      cases hslot : call.slot with
      | ping i =>
          obtain ⟨hlength, hin, hrest⟩ := hjoins
          refine ⟨by simpa using hlength, fun r hr => ?_, hrest⟩
          rcases List.mem_or_eq_of_mem_set hr with hr | hr
          · exact hin r hr
          · exact ⟨reply, Option.some.inj hr⟩
      | _ => exact hjoins
  | storing results => cases call.slot <;> trivial
  | looking c => trivial
  | _ => exact hjoins

section Runs

variable [DecidableEq SocketAddr] {event : ClusterEvent SocketAddr}

def AllJoin (d : Deployment SocketAddr) (c : Cluster SocketAddr) : Prop :=
  ∀ task ∈ c.tasks, task.operation = .bootstrap → Joins d c task.node task.stage

theorem allJoin_step (hd : d.Connected S) (hc : Meets (known d S (d.Node S)) c)
    (hintroductions : Meets (introductions d) c) (h : AllJoin d c)
    (hfail : ∀ i e, event ≠ .fail i e) (hstep : step d c event = some c') : AllJoin d c' := by
  have hold (t : Task SocketAddr) (ht : t ∈ c.tasks) (hoperation : t.operation = .bootstrap) :
      Joins d c' t.node t.stage := (h t ht hoperation).step hc hstep
  cases event with
  | begin a operation =>
      obtain rfl := Option.some.inj hstep
      intro t ht hoperation
      rcases List.mem_append.mp ht with ht | ht
      · exact hold t ht hoperation
      · obtain rfl := List.mem_singleton.mp ht
        trivial
  | advance id =>
      obtain ⟨task, htask, hstep'⟩ := Option.bind_eq_some_iff.mp hstep
      obtain ⟨turn, hturn, hstep'⟩ := Option.bind_eq_some_iff.mp hstep'
      obtain rfl := Option.some.inj hstep'
      intro t ht hoperation
      rcases List.mem_or_eq_of_mem_set ht with ht | rfl
      · exact hold t ht hoperation
      · have hbootstrap : task.operation = .bootstrap := hoperation
        rw [hbootstrap] at hturn
        exact joins_turned hd (known_held (hc.nodes task.node)) (Function.update_self _ _ _)
          (fun call hcall => ⟨call.issue id,
            List.mem_append_right _ (List.mem_map.mpr ⟨call, hcall, rfl⟩), rfl⟩)
          hturn (hold task (List.mem_of_getElem? htask) hoperation)
  | lose id p =>
      obtain ⟨task, stage, htask, hlose, rfl⟩ := lose_eq_some hstep
      obtain ⟨key, call, call', hfind, -⟩ := Deployment.lose_eq_some hlose
      intro t ht hoperation
      rcases List.mem_or_eq_of_mem_set ht with ht | rfl
      · exact hold t ht hoperation
      · cases hfind.symm.trans hoperation
  | serve i =>
      obtain ⟨x, point, -, -, rfl⟩ := serve_eq_some hstep
      exact hold
  | deliver i =>
      obtain ⟨x, reply, hx, hprogress, hanswer⟩ := deliver_eq_some hstep
      obtain ⟨task, htask, rfl⟩ := answer_eq_some hanswer
      have hmem := List.mem_of_getElem? hx
      intro t ht hoperation
      rcases List.mem_or_eq_of_mem_set ht with ht | rfl
      · exact hold t ht hoperation
      · have hbootstrap : task.operation = .bootstrap := hoperation
        obtain ⟨task', htask', hapt⟩ := hintroductions.exchanges x hmem
        obtain rfl := Option.some.inj (htask.symm.trans htask')
        obtain ⟨task', htask', hapt'⟩ := hc.exchanges x hmem
        obtain rfl := Option.some.inj (htask.symm.trans htask')
        have hreplied : Replied c x.toRemoteCall reply := ⟨x, hmem, rfl, hprogress⟩
        have hjoins := joins_heard (hbootstrap ▸ hapt.call)
          (sentBy_of_peer (hd.named _) hapt'.call.2.1.myself) (hreplied.step hstep)
          (hold task (List.mem_of_getElem? htask) hoperation)
        rwa [← hbootstrap] at hjoins
  | fail i error => exact absurd rfl (hfail i error)

/-- What a run without failures keeps. -/
structure Smooth (d : Deployment SocketAddr) (S : SocketAddr → Prop) (c : Cluster SocketAddr) :
    Prop where
  known : Meets (known d S (d.Node S)) c
  introductions : Meets (introductions d) c
  contacts : (contacts SocketAddr).Holds c
  introduced : Introduced c
  joins : AllJoin d c

theorem Smooth.step (hd : d.Connected S) (hfits : d.Fits S) (h : Smooth d S c)
    (hasks : Asks S event) (hfail : ∀ i e, event ≠ .fail i e) (hstep : step d c event = some c') :
    Smooth d S c' := by
  have hknown := known_step hd.configured h.known hasks hstep
  have hcontacts := (contacts_lasting d S (d.Node S)).step h.known h.contacts hstep
  refine ⟨hknown, (introductions_stable d).step h.introductions ?_ hstep, hcontacts,
    introduced_step hd hfits h.known hknown hcontacts h.introduced hstep,
    allJoin_step hd h.known h.introductions h.joins hfail hstep⟩
  cases event with
  | begin a operation => trivial
  | deliver i => exact fun _ _ _ _ _ _ => trivial
  | _ => trivial

theorem smooth_run (hd : d.Connected S) (hfits : d.Fits S)
    {events : List (ClusterEvent SocketAddr)} (hS : ∀ a, Asked c a → S a)
    (hfail : ∀ i e, ClusterEvent.fail i e ∉ events)
    (hrun : Run.run (Cluster.step d) (new d) events = some c) : Smooth d S c := by
  refine Run.run_invariant_along
    (P := fun _ event => Asks S event ∧ ∀ i e, event ≠ .fail i e)
    (fun _ _ _ h hevent hstep => h.step hd hfits hevent.1 hevent.2 hstep) ?_
    (Run.along_of_forall_mem ?_ _) hrun
  · exact ⟨known_new hd.configured, ⟨fun _ => trivial, by simp [new], by simp [new]⟩,
      holds_new _ d, fun x _ _ _ _ _ ⟨y, hy, _⟩ => absurd hy (by simp [new]),
      by simp [AllJoin, new]⟩
  · intro event hevent _
    refine ⟨asks_of_run hS hrun event hevent, ?_⟩
    rintro i e rfl
    exact hfail i e hevent

end Runs

/-- Two nodes one of which has met the other know each other. -/
theorem Smooth.acquainted [DecidableEq SocketAddr] (hd : d.Connected S) (hfits : d.Fits S)
    (h : Smooth d S c) (hreplied : ∀ x ∈ c.exchanges, ∃ reply, x.progress = .replied reply)
    {a b : SocketAddr} (ha : S a) (hb : S b) (hmet : Met d c a (d.localPeer b)) :
    d.localPeer b ∈ (c.nodes a).routingTable.peers ∧
      d.localPeer a ∈ (c.nodes b).routingTable.peers := by
  obtain ⟨hrecorded, call, ⟨x, hx, rfl⟩, hsent, hparse⟩ := hmet
  obtain rfl : b = x.target := Option.some.inj ((hd.text b).symm.trans hparse)
  obtain ⟨reply, hreply⟩ := hreplied x hx
  refine ⟨hfits.mem_of_recorded ha (h.known.nodes a) ⟨_, hb, rfl⟩ hrecorded,
    hfits.mem_of_recorded hb (h.known.nodes x.target) ⟨a, ha, rfl⟩ ?_⟩
  exact recorded_of_replied h.known h.contacts ⟨x, hx, rfl, hreply⟩ hsent

theorem Smooth.everyone [DecidableEq SocketAddr] (hd : d.Connected S) (hfits : d.Fits S)
    (h : Smooth d S c) {root : SocketAddr} (hroot : S root)
    (hboot : ∀ a, S a → a ≠ root → d.localPeer root ∈ (d.config a).bootstrapPeers)
    (hreplied : ∀ x ∈ c.exchanges, ∃ reply, x.progress = .replied reply)
    (hjoined : ∀ a, S a → a ≠ root → ∃ task ∈ c.tasks, task.node = a ∧
      task.operation = .bootstrap ∧ task.stage = .bootstrapped) :
    ∀ a, S a → d.Everyone S a (c.nodes a).routingTable.peers := by
  -- what everyone but the root has achieved
  have hgathers (a : SocketAddr) (ha : S a) (hne : a ≠ root) :
      Met d c a (d.localPeer root) ∧ ∃ reply, Told d c a (d.localPeer root) reply ∧
        ∀ q, Names reply q → Met d c a q := by
    obtain ⟨task, htask, rfl, hoperation, hstage⟩ := hjoined a ha hne
    have hjoins := h.joins task htask hoperation
    rw [hstage] at hjoins
    exact hjoins _ (hboot _ ha hne)
  intro a ha b hb hne
  by_cases haroot : a = root
  · subst haroot
    exact (h.acquainted hd hfits hreplied hb ha (hgathers b hb hne).1).2
  by_cases hbroot : b = root
  · subst hbroot
    exact (h.acquainted hd hfits hreplied ha hb (hgathers a ha hne.symm).1).1
  -- of two that have joined, one was named to the other by the root
  obtain ⟨-, reply, ⟨x, hx, hxfind, hxsent, hxparse⟩, hnames⟩ := hgathers a ha haroot
  obtain ⟨-, reply', ⟨y, hy, hyfind, hysent, hyparse⟩, hnames'⟩ := hgathers b hb hbroot
  have htarget : x.target = y.target := Option.some.inj (hxparse.symm.trans hyparse)
  rcases h.introduced x y reply reply' _ _ hx hy hxfind hyfind htarget hxsent hysent with
    hnamed | hnamed | heq
  · exact (h.acquainted hd hfits hreplied ha hb (hnames _ hnamed)).1
  · exact (h.acquainted hd hfits hreplied hb ha (hnames' _ hnamed)).2
  · exact absurd (hd.localPeer_injective heq).symm hne

/-- **Joining through one node.** Take a small network in which everyone else is
configured with the same node, the root, and any run of it in which no call has
failed and every request has been replied to. Once everyone else has returned
from a bootstrap, every node of the network knows all others, in whatever order
they have joined. -/
theorem bootstraps_acquaint [DecidableEq SocketAddr] (d : Deployment SocketAddr)
    (S : SocketAddr → Prop) (hd : d.Connected S) (hfits : d.Fits S) (root : SocketAddr)
    (hroot : S root)
    (hboot : ∀ a, S a → a ≠ root → d.localPeer root ∈ (d.config a).bootstrapPeers)
    (events : List (ClusterEvent SocketAddr)) (c : Cluster SocketAddr)
    (hrun : Run.run (step d) (new d) events = some c) (hS : ∀ a, Asked c a → S a)
    (hfail : ∀ i e, ClusterEvent.fail i e ∉ events)
    (hreplied : ∀ x ∈ c.exchanges, ∃ reply, x.progress = .replied reply)
    (hjoined : ∀ a, S a → a ≠ root → ∃ task ∈ c.tasks, task.node = a ∧
      task.operation = .bootstrap ∧ task.stage = .bootstrapped) :
    ∀ a, S a → d.Everyone S a (c.nodes a).routingTable.peers :=
  (smooth_run hd hfits hS hfail hrun).everyone hd hfits hroot hboot hreplied hjoined

/-- The node that joins is named to itself, pings itself and returns. -/
def introduced : List (ClusterEvent Bool) :=
  introduce ++ [.deliver 1, .advance 0]

def bothKnown : RoutingTable :=
  ⟨20, pairPeer false, [⟨0, [pairPeer true, pairPeer false]⟩]⟩

def acquainted : Cluster Bool where
  nodes :=
    Function.update
      (Function.update (Function.update joined.nodes false (joined.nodes false)) false
        { kvstore := .new, routingTable := ⟨20, pairPeer false, [⟨0, [pairPeer false]⟩]⟩ })
      false { kvstore := .new, routingTable := bothKnown }
  tasks := [{ node := false, operation := .bootstrap, stage := .bootstrapped }]
  exchanges :=
    [{ introduction with awaited := false },
      { selfPing.issue 0 with progress := .replied createPingResponse, awaited := false }]

theorem introduced_run : Run.run (step pair) joined introduced = some acquainted := by
  have hupdate : (RoutingTable.new 20 (pairPeer false)).update (pairPeer false) =
      .ok (⟨20, pairPeer false, [⟨0, [pairPeer false]⟩]⟩, .ok ()) := by decide
  have hrecord : atomicStep selfPing.request (.opened .ping)
      (DHTServer.new 20 (pairPeer false)) = _ :=
    recordSender_of_sentBy (sentBy_of_peer (by decide) rfl) hupdate _
  have hreturn : pair.turn false .bootstrap
      { kvstore := .new, routingTable := ⟨20, pairPeer false, [⟨0, [pairPeer false]⟩]⟩ }
      (.pinging [pairPeer true] [pairPeer false] [some (.ok createPingResponse)]) = some
        { server := { kvstore := .new, routingTable := bothKnown }
          stage := .bootstrapped } := by
    have hadd : addAlive ⟨20, pairPeer false, [⟨0, [pairPeer false]⟩]⟩
        [pairPeer true, pairPeer false] = .ok bothKnown := by decide
    have hall : (none : Option (Except IoError Message)) ∉ [some (.ok createPingResponse)] := by
      simp
    have halive : [pairPeer true] ++ (answered [pairPeer false] (Deployment.resultAt
        [some (.ok createPingResponse)])).map Prod.fst = [pairPeer true, pairPeer false] := rfl
    simp only [Deployment.turn, Deployment.bootstrapTurn, if_neg hall, halive, hadd, bind,
      Except.bind]
    rfl
  exact Run.run_cons_eq_some.mpr ⟨_, rfl, Run.run_cons_eq_some.mpr
    ⟨_, advance_eq pair rfl (introduce_turn _), Run.run_cons_eq_some.mpr
      ⟨_, serve_eq rfl rfl hrecord, Run.run_cons_eq_some.mpr ⟨_, rfl,
        Run.run_cons_eq_some.mpr ⟨_, advance_eq pair rfl hreturn, rfl⟩⟩⟩⟩⟩

theorem acquainted_run :
    Run.run (step pair) (new pair) (joining ++ introduced) = some acquainted := by
  rw [Run.run_append, joining_run, Option.bind_some, introduced_run]

theorem acquainted_replied : ∀ x ∈ acquainted.exchanges, ∃ reply, x.progress = .replied reply := by
  intro x hx
  rcases List.mem_pair.mp hx with rfl | rfl
  · exact ⟨_, rfl⟩
  · exact ⟨_, rfl⟩

theorem acquainted_joined (a : Bool) (hne : a ≠ true) : ∃ task ∈ acquainted.tasks,
    task.node = a ∧ task.operation = .bootstrap ∧ task.stage = .bootstrapped := by
  cases a with
  | false => exact ⟨_, List.mem_singleton.mpr rfl, rfl, rfl, rfl⟩
  | true => exact absurd rfl hne

theorem pair_rooted (a : Bool) (hne : a ≠ true) :
    pair.localPeer true ∈ (pair.config a).bootstrapPeers := by
  cases a with
  | false => exact List.mem_singleton.mpr rfl
  | true => exact absurd rfl hne

/-- The root knows the node that has joined at it. -/
theorem bootstraps_acquaint_introduced :
    pair.localPeer false ∈ (acquainted.nodes true).routingTable.peers :=
  bootstraps_acquaint pair (fun _ => True) pair_connected pair_fits true trivial
    (fun a _ => pair_rooted a) (joining ++ introduced) acquainted acquainted_run (by simp)
    (by simp [joining, introduced, introduce]) acquainted_replied (fun a _ => acquainted_joined a)
    true trivial false trivial (by decide)

end Cluster

end DhtKad
