import DhtKad.Client
import DhtKad.Lib.ExceptList
import DhtKad.RoutingTable.Refinement
import DhtKad.Server.Requests

/-!
`lib.rs`: the bootstrap of a node, and a node as a whole.

What the contacted peers answer is a parameter: the result of the call with
each index. Without bootstrap peers the source first waits until the routing
table holds a peer; the wait only reads the table, and then there is nobody to
contact. A node changes by the requests it handles and by its bootstraps
(`NodeEvent`); a request or a bootstrap that panics is dropped.
-/

namespace DhtKad

open SortBy RoutingTable

/-! ### `bootstrap` -/

/-- The peers that answered, each with its reply. -/
def answered (peers : List Peer) (answer : ℕ → Except IoError Message) :
    List (Peer × Message) :=
  peers.zipIdx.filterMap fun (peer, i) =>
    match answer i with
    | .ok resp => some (peer, resp)
    | .error _ => none

/-- Removes candidates that are bootstrap peers, sorts the rest by identifier
and removes adjacent duplicates. -/
def selectCandidates (bootstrapPeers candidatePeers : List Peer) : List Peer :=
  (sortBy (fun p : Peer => p.id.toNat)
    (candidatePeers.filter fun p => p ∉ bootstrapPeers)).destutter (· ≠ ·)

def addAlive (t : RoutingTable) (alivePeers : List Peer) : Except Panic RoutingTable :=
  alivePeers.foldlM (fun t peer => do
    -- a rejected peer is only logged
    let (t', _) ← t.update peer
    return t') t

def bootstrap {SocketAddr : Type} (parse : String → Option SocketAddr)
    (bootstrapPeers : List Peer) (findNode ping : ℕ → Except IoError Message)
    (t : RoutingTable) : Except Panic RoutingTable := do
  let _ ← bootstrapPeers.mapM (parseAddress parse)
  let introductions := answered bootstrapPeers findNode
  let reported ← introductions.mapM fun (_, resp) => resp.closerPeers.mapM protoPeerToPeer
  let candidatePeers := selectCandidates bootstrapPeers reported.flatten
  let _ ← candidatePeers.mapM (parseAddress parse)
  let alivePeers := introductions.map Prod.fst ++ (answered candidatePeers ping).map Prod.fst
  addAlive t alivePeers

theorem mem_answered {peers : List Peer} {answer : ℕ → Except IoError Message} {p : Peer}
    {resp : Message} :
    (p, resp) ∈ answered peers answer ↔ ∃ i, peers[i]? = some p ∧ answer i = .ok resp := by
  rw [answered, List.mem_filterMap]
  constructor
  · rintro ⟨⟨q, i⟩, hqi, h⟩
    have hget := List.mem_zipIdx_iff_getElem?.mp hqi
    cases ha : answer i with
    | error e => simp [ha] at h
    | ok m =>
        simp only [ha, Option.some.injEq, Prod.mk.injEq] at h
        obtain ⟨rfl, rfl⟩ := h
        exact ⟨i, hget, ha⟩
  · rintro ⟨i, hget, ha⟩
    exact ⟨(p, i), List.mem_zipIdx_iff_getElem?.mpr hget, by simp [ha]⟩

theorem mem_of_mem_answered {peers : List Peer} {answer : ℕ → Except IoError Message} {p : Peer}
    (h : p ∈ (answered peers answer).map Prod.fst) : p ∈ peers := by
  obtain ⟨⟨_, resp⟩, hp, rfl⟩ := List.mem_map.mp h
  obtain ⟨i, hi, -⟩ := mem_answered.mp hp
  exact List.mem_of_getElem? hi

theorem answered_eq_nil_iff {peers : List Peer} {answer : ℕ → Except IoError Message} :
    answered peers answer = [] ↔ ∀ i < peers.length, ∃ e, answer i = .error e := by
  constructor
  · intro h i hi
    cases ha : answer i with
    | error e => exact ⟨e, rfl⟩
    | ok m =>
        have hmem : (peers[i], m) ∈ answered peers answer :=
          mem_answered.mpr ⟨i, List.getElem?_eq_getElem hi, ha⟩
        simp [h] at hmem
  · intro h
    rw [List.eq_nil_iff_forall_not_mem]
    rintro ⟨p, m⟩ hmem
    obtain ⟨i, hi, ha⟩ := mem_answered.mp hmem
    obtain ⟨e, he⟩ := h i (List.getElem?_eq_some_iff.mp hi).1
    simp [ha] at he

theorem mem_selectCandidates {bootstrapPeers candidatePeers : List Peer} {p : Peer} :
    p ∈ selectCandidates bootstrapPeers candidatePeers ↔
      p ∈ candidatePeers ∧ p ∉ bootstrapPeers := by
  rw [selectCandidates, mem_destutter_ne, mem_sortBy, List.mem_filter, decide_eq_true_eq]

/-! ### Adding the peers that are alive -/

section AddAlive

variable {k : ℕ} {localPeer : Peer} {t t' : RoutingTable} {alivePeers : List Peer}

theorem addAlive_isOk_iff (ht : Held k localPeer t) :
    (∃ t', addAlive t alivePeers = .ok t') ↔ 0 < k ∨ alivePeers = [] := by
  constructor
  · rintro ⟨t', h⟩
    cases alivePeers with
    | nil => exact .inr rfl
    | cons p ps =>
        rw [addAlive, List.foldlM_cons] at h
        obtain ⟨u, hu, -⟩ := ExceptList.bind_eq_ok_iff.mp h
        obtain ⟨⟨v, r⟩, hv, -⟩ := ExceptList.bind_eq_ok_iff.mp hu
        exact .inl ((ht.update_isOk_iff p).mp ⟨v, r, hv⟩)
  · rintro (hk | rfl)
    · obtain ⟨u, hu, -⟩ := ExceptList.foldlM_isOk (I := Held k localPeer) (l := alivePeers)
        (f := fun t peer => do
          let (t', _) ← t.update peer
          return t')
        (fun s hs p _ => by
          obtain ⟨u, r, hu⟩ := (hs.update_isOk_iff p).mpr hk
          exact ⟨u, by rw [hu]; rfl, (hs.updated_of_update hu).2.2⟩) ht
      exact ⟨u, hu⟩
    · exact ⟨t, rfl⟩

theorem addAlive_invariant {I : RoutingTable → Prop}
    (hstep : ∀ s p s' r, I s → p ∈ alivePeers → s.update p = .ok (s', r) → I s') (ht : I t)
    (h : addAlive t alivePeers = .ok t') : I t' := by
  refine ExceptList.foldlM_invariant ?_ ht h
  intro s p s' hs hp hu
  obtain ⟨⟨u, r⟩, hupdate, hret⟩ := ExceptList.bind_eq_ok_iff.mp hu
  obtain rfl := Except.ok.inj hret
  exact hstep s p u r hs hp hupdate

end AddAlive

/-! ### Bootstrap step by step -/

section Bootstrap

variable {SocketAddr : Type} {parse : String → Option SocketAddr} {bootstrapPeers : List Peer}
  {findNode ping : ℕ → Except IoError Message} {t t' : RoutingTable}

theorem mapM_parseAddress_isOk_iff {ps : List Peer} :
    (∃ addrs, ps.mapM (parseAddress parse) = .ok addrs) ↔
      ∀ p ∈ ps, (parse p.address).isSome := by
  rw [ExceptList.mapM_isOk_iff]
  exact forall₂_congr fun p _ => parseAddress_isOk_iff parse p

theorem bootstrap_eq_ok_iff :
    bootstrap parse bootstrapPeers findNode ping t = .ok t' ↔
      (∀ p ∈ bootstrapPeers, (parse p.address).isSome) ∧
        ∃ reported, ((answered bootstrapPeers findNode).mapM fun (_, resp) =>
            resp.closerPeers.mapM protoPeerToPeer) = .ok reported ∧
          (∀ p ∈ selectCandidates bootstrapPeers reported.flatten, (parse p.address).isSome) ∧
          addAlive t ((answered bootstrapPeers findNode).map Prod.fst ++
            (answered (selectCandidates bootstrapPeers reported.flatten) ping).map Prod.fst) =
              .ok t' := by
  unfold bootstrap
  simp only [ExceptList.bind_eq_ok_iff, ← mapM_parseAddress_isOk_iff]
  constructor
  · rintro ⟨addrs, haddrs, reported, hrep, addrs', haddrs', hadd⟩
    exact ⟨⟨addrs, haddrs⟩, reported, hrep, ⟨addrs', haddrs'⟩, hadd⟩
  · rintro ⟨⟨addrs, haddrs⟩, reported, hrep, ⟨addrs', haddrs'⟩, hadd⟩
    exact ⟨addrs, haddrs, reported, hrep, addrs', haddrs', hadd⟩

/-- A bootstrap that ends has parsed the address of every peer it adds. -/
theorem bootstrap_invariant {I : RoutingTable → Prop}
    (hstep : ∀ s p s' r, I s → (parse p.address).isSome → s.update p = .ok (s', r) → I s')
    (ht : I t) (h : bootstrap parse bootstrapPeers findNode ping t = .ok t') : I t' := by
  obtain ⟨hconf, reported, -, hcand, hadd⟩ := bootstrap_eq_ok_iff.mp h
  refine addAlive_invariant (fun s p s' r hs hp hu => hstep s p s' r hs ?_ hu) ht hadd
  rcases List.mem_append.mp hp with hp | hp
  · exact hconf p (mem_of_mem_answered hp)
  · exact hcand p (mem_of_mem_answered hp)

end Bootstrap

/-! ### A node -/

/-- What changes the state of a node. -/
inductive NodeEvent
  | request (rpc : Rpc) (message : Message)
  | bootstrap (findNode ping : ℕ → Except IoError Message)

namespace DHTServer

variable {SocketAddr : Type} (parse : String → Option SocketAddr) (bootstrapPeers : List Peer)

def nodeStep (s : DHTServer) : NodeEvent → Option DHTServer
  | .request rpc message => some (s.serve (rpc, message))
  | .bootstrap findNode ping =>
      match DhtKad.bootstrap parse bootstrapPeers findNode ping s.routingTable with
      | .ok t => some { s with routingTable := t }
      | .error _ => some s

variable {parse bootstrapPeers}

theorem nodeStep_routingTable {I : RoutingTable → Prop} {s s' : DHTServer} {event : NodeEvent}
    (hsent : ∀ rpc message p t t' r, event = .request rpc message → SentBy message p → I t →
      t.update p = .ok (t', r) → I t')
    (hparsed : ∀ p t t' r, (parse p.address).isSome → I t → t.update p = .ok (t', r) → I t')
    (hI : I s.routingTable) (h : nodeStep parse bootstrapPeers s event = some s') :
    I s'.routingTable := by
  cases event with
  | request rpc message =>
      obtain rfl := Option.some.inj h
      exact serve_routingTable rpc (fun p t t' r hp => hsent rpc message p t t' r rfl hp) hI
  | bootstrap findNode ping =>
      simp only [nodeStep] at h
      cases hb : DhtKad.bootstrap parse bootstrapPeers findNode ping s.routingTable with
      | error e =>
          rw [hb] at h
          obtain rfl := Option.some.inj h
          exact hI
      | ok t =>
          rw [hb] at h
          obtain rfl := Option.some.inj h
          exact bootstrap_invariant
            (fun u p u' r hu hp hupdate => hparsed p u u' r hp hu hupdate) hI hb

theorem nodeStep_isSome (s : DHTServer) (event : NodeEvent) :
    ∃ s', nodeStep parse bootstrapPeers s event = some s' := by
  cases event with
  | request rpc message => exact ⟨_, rfl⟩
  | bootstrap findNode ping =>
      simp only [nodeStep]
      cases DhtKad.bootstrap parse bootstrapPeers findNode ping s.routingTable with
      | ok t => exact ⟨_, rfl⟩
      | error e => exact ⟨_, rfl⟩

theorem nodeStep_held {k : ℕ} {localPeer : Peer} {s s' : DHTServer} {event : NodeEvent}
    (hs : Held k localPeer s.routingTable)
    (h : nodeStep parse bootstrapPeers s event = some s') : Held k localPeer s'.routingTable :=
  nodeStep_routingTable (fun _ _ _ _ _ _ _ _ hheld hu => (hheld.updated_of_update hu).2.2)
    (fun _ _ _ _ _ hheld hu => (hheld.updated_of_update hu).2.2) hs h

end DHTServer

end DhtKad
