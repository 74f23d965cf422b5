import DhtKad.Service

/-!
The addresses in the routing table of a node.

`store` unwraps the parsed address of every peer it contacts, so it relies on
all addresses in the table being socket addresses. A bootstrap establishes this
for the peers it adds. A request does not: its check asks for text only, and an
address that is text but not a socket address enters the table unless the
prefix class of its peer is full (`allParse_iff`).
-/

namespace DhtKad.DHTServer

open RoutingTable

def AllParse {SocketAddr : Type} (parse : String → Option SocketAddr) (t : RoutingTable) : Prop :=
  ∀ p ∈ t.peers, (parse p.address).isSome

/-- The event adds no peer whose address does not parse: a request that is
recorded has a sender whose address parses, or whose prefix class is full. -/
def Harmless {SocketAddr : Type} (parse : String → Option SocketAddr) (s : DHTServer) :
    NodeEvent → Prop
  | .request _ message => ∀ p, SentBy message p → (parse p.address).isSome ∨
      s.routingTable.k ≤
        (s.routingTable.classAt (classOf s.routingTable.localPeer p)).card
  | .bootstrap _ _ => True

/-! ### Peers never leave -/

section Update

variable {k : ℕ} {localPeer p : Peer} {t t' : RoutingTable} {r : Except NoCapacityError Unit}
  (h : Held k localPeer t) (hu : t.update p = .ok (t', r))
include h hu

theorem peers_subset_of_update : ∀ q ∈ t.peers, q ∈ t'.peers := by
  intro q hq
  rcases (h.updated_of_update hu).2.1.classes h.wellFormed with ⟨-, -, hmem⟩ | ⟨-, -, -, hmem⟩
  · exact (hmem q).mpr (.inl hq)
  · exact (hmem q).mpr hq

theorem card_classAt_mono (c : Fin 129) : (t.classAt c).card ≤ (t'.classAt c).card := by
  apply Finset.card_le_card
  intro q hq
  have hlocal := (h.updated_of_update hu).2.1.localPeer_eq
  rw [mem_classAt] at hq ⊢
  rw [hlocal]
  exact ⟨peers_subset_of_update h hu q hq.1, hq.2⟩

theorem mem_peers_of_room (hroom : (t.classAt (classOf t.localPeer p)).card < t.k) :
    p ∈ t'.peers := by
  rcases (h.updated_of_update hu).2.1.classes h.wellFormed with ⟨-, -, hmem⟩ | ⟨-, -, hfull, -⟩
  · exact (hmem p).mpr (.inr rfl)
  · omega

/-- An update adds at most its peer, and not that if its class is full. -/
theorem mem_peers_of_update {q : Peer} (hq : q ∈ t'.peers) :
    q ∈ t.peers ∨ q = p ∧ (p ∈ t.peers ∨ (t.classAt (classOf t.localPeer p)).card < t.k) := by
  rcases (h.updated_of_update hu).2.1.classes h.wellFormed with ⟨-, hacc, hmem⟩ | ⟨-, -, -, hmem⟩
  · rcases (hmem q).mp hq with hq | rfl
    · exact .inl hq
    · exact .inr ⟨rfl, hacc⟩
  · exact .inl ((hmem q).mp hq)

end Update

section Parse

variable {SocketAddr : Type} {parse : String → Option SocketAddr} {bootstrapPeers : List Peer}
  {k : ℕ} {localPeer : Peer} {s s' : DHTServer} {event : NodeEvent}

theorem peers_subset_of_nodeStep (hs : Held k localPeer s.routingTable)
    (hstep : nodeStep parse bootstrapPeers s event = some s') :
    ∀ q ∈ s.routingTable.peers, q ∈ s'.routingTable.peers := by
  intro q hq
  refine (nodeStep_routingTable (I := fun t => Held k localPeer t ∧ q ∈ t.peers) ?_ ?_
    ⟨hs, hq⟩ hstep).2
  · rintro rpc message p t t' r - - ⟨ht, hqt⟩ hu
    exact ⟨(ht.updated_of_update hu).2.2, peers_subset_of_update ht hu q hqt⟩
  · rintro p t t' r - ⟨ht, hqt⟩ hu
    exact ⟨(ht.updated_of_update hu).2.2, peers_subset_of_update ht hu q hqt⟩

/-! ### One event -/

theorem allParse_of_harmless (hs : Held k localPeer s.routingTable)
    (hall : AllParse parse s.routingTable) (hharmless : Harmless parse s event)
    (hstep : nodeStep parse bootstrapPeers s event = some s') :
    AllParse parse s'.routingTable := by
  -- a class that is full stays full, also for the second update of a miss
  let I (t : RoutingTable) : Prop := Held k localPeer t ∧ AllParse parse t ∧
    ∀ rpc message p, event = .request rpc message → SentBy message p →
      (parse p.address).isSome ∨ k ≤ (t.classAt (classOf localPeer p)).card
  have hI : I s'.routingTable := by
    refine nodeStep_routingTable ?_ ?_ ⟨hs, hall, ?_⟩ hstep
    · rintro rpc message p t t' r hevent hsent ⟨ht, htall, hfull⟩ hu
      refine ⟨(ht.updated_of_update hu).2.2, fun q hq => ?_, ?_⟩
      · rcases mem_peers_of_update ht hu hq with hq | ⟨rfl, hq | hroom⟩
        · exact htall q hq
        · exact htall q hq
        · rcases hfull rpc message q hevent hsent with hparse | hk
          · exact hparse
          · rw [ht.localPeer_eq, ht.k_eq] at hroom
            omega
      · intro rpc' message' q hevent' hsent'
        refine (hfull rpc' message' q hevent' hsent').imp id fun hk => ?_
        exact hk.trans (card_classAt_mono ht hu _)
    · rintro p t t' r hparse ⟨ht, htall, hfull⟩ hu
      refine ⟨(ht.updated_of_update hu).2.2, fun q hq => ?_, ?_⟩
      · rcases mem_peers_of_update ht hu hq with hq | ⟨rfl, -⟩
        · exact htall q hq
        · exact hparse
      · intro rpc' message' q hevent' hsent'
        refine (hfull rpc' message' q hevent' hsent').imp id fun hk => ?_
        exact hk.trans (card_classAt_mono ht hu _)
    · rintro rpc message p rfl hsent
      have := hharmless p hsent
      rwa [hs.k_eq, hs.localPeer_eq] at this
  exact hI.2.1

theorem sender_recorded {message : Message} {p : Peer} (hs : Held k localPeer s.routingTable)
    (hsent : SentBy message p) (rpc : Rpc)
    (hroom : (s.routingTable.classAt (classOf s.routingTable.localPeer p)).card <
      s.routingTable.k) : p ∈ (s.serve (rpc, message)).routingTable.peers := by
  have hk : 0 < k := by
    have := hs.k_eq
    omega
  obtain ⟨t, r, hu⟩ := (hs.update_isOk_iff p).mpr hk
  rw [serve_eq_stateAfter]
  refine ((handle_handled rpc message s).routingTable_of_update
    (I := fun t => Held k localPeer t ∧ p ∈ t.peers) hsent hu ?_ ?_).2
  · rintro q u u' r' - ⟨hheld, hp⟩ hu'
    exact ⟨(hheld.updated_of_update hu').2.2, peers_subset_of_update hheld hu' p hp⟩
  · exact ⟨(hs.updated_of_update hu).2.2, mem_peers_of_room hs hu hroom⟩

theorem harmless_of_allParse (hs : Held k localPeer s.routingTable)
    (hstep : nodeStep parse bootstrapPeers s event = some s')
    (hall : AllParse parse s'.routingTable) : Harmless parse s event := by
  cases event with
  | bootstrap findNode ping => trivial
  | request rpc message =>
      intro p hsent
      by_contra hnot
      rw [not_or, not_le] at hnot
      obtain rfl := Option.some.inj hstep
      exact hnot.1 (hall p (sender_recorded hs hsent rpc hnot.2))

/-! ### The client -/

theorem mem_peers_of_kNearestPeers {t : RoutingTable} (ht : t.buckets ≠ []) {target : U128}
    {peers : List Peer} (h : t.kNearestPeers target = .ok peers) : ∀ p ∈ peers, p ∈ t.peers := by
  rw [kNearestPeers, nearestPeers_eq ht] at h
  obtain rfl := Except.ok.inj h
  intro p hp
  have hwindow := SortBy.mem_sortBy.mp (List.mem_of_mem_take hp)
  obtain ⟨i, hi, -⟩ := mem_window hwindow
  exact RoutingTable.mem_peers_iff.mpr ⟨i, hi⟩

theorem storeTargets_isOk (hs : s.routingTable.buckets ≠ [])
    (hall : AllParse parse s.routingTable) (key : U128) :
    ∃ addrs, DHTClient.storeTargets parse s key = .ok addrs := by
  obtain ⟨peers, hpeers⟩ := kNearestPeers_isOk hs key
  obtain ⟨addrs, haddrs⟩ := mapM_parseAddress_isOk_iff.mpr fun p hp =>
    hall p (mem_peers_of_kNearestPeers hs hpeers p hp)
  exact ⟨addrs, by rw [DHTClient.storeTargets, hpeers]; exact haddrs⟩

/-! ### Histories of a node -/

theorem run_nodeStep_held (parse : String → Option SocketAddr) (bootstrapPeers : List Peer)
    (hs : Held k localPeer s.routingTable) (events : List NodeEvent) :
    ∃ s', Run.run (nodeStep parse bootstrapPeers) s events = some s' ∧
      Held k localPeer s'.routingTable := by
  refine Run.run_isSome (I := fun s : DHTServer => Held k localPeer s.routingTable) ?_ events hs
  intro s event hheld
  obtain ⟨s', hstep⟩ := nodeStep_isSome s event
  exact ⟨s', hstep, nodeStep_held hheld hstep⟩

theorem allParse_step_iff (hs : Held k localPeer s.routingTable)
    (hstep : nodeStep parse bootstrapPeers s event = some s') :
    AllParse parse s'.routingTable ↔
      AllParse parse s.routingTable ∧ Harmless parse s event := by
  constructor
  · intro hall
    refine ⟨fun p hp => hall p (peers_subset_of_nodeStep hs hstep p hp), ?_⟩
    exact harmless_of_allParse hs hstep hall
  · rintro ⟨hall, hharmless⟩
    exact allParse_of_harmless hs hall hharmless hstep

/-- **The addresses of a node.** Over any requests and bootstraps: every address
in the table parses, and `store` gets past the parsing for every key, exactly
if every event on the way is harmless. -/
theorem allParse_iff {SocketAddr : Type} (parse : String → Option SocketAddr) (k : ℕ)
    (localPeer : Peer) (bootstrapPeers : List Peer) (events : List NodeEvent) :
    ∃ s, Run.run (nodeStep parse bootstrapPeers) (new k localPeer) events = some s ∧
      ((AllParse parse s.routingTable ∧
          ∀ key, ∃ addrs, DHTClient.storeTargets parse s key = .ok addrs) ↔
        Run.Along (nodeStep parse bootstrapPeers) (Harmless parse) (new k localPeer) events) := by
  have hnew : Held k localPeer (new k localPeer).routingTable := held_new k localPeer
  obtain ⟨s, hrun, hs⟩ := run_nodeStep_held parse bootstrapPeers hnew events
  have hempty : AllParse parse (new k localPeer).routingTable := by
    intro p hp
    simp [new, RoutingTable.new, RoutingTable.peers, Bucket.new] at hp
  have hiff : AllParse parse s.routingTable ↔
      AllParse parse (new k localPeer).routingTable ∧
        Run.Along (nodeStep parse bootstrapPeers) (Harmless parse) (new k localPeer) events :=
    Run.run_iff_along (I := fun s : DHTServer => Held k localPeer s.routingTable)
      (D := fun s : DHTServer => AllParse parse s.routingTable)
      (fun u event u' hu hstep => ⟨nodeStep_held hu hstep, allParse_step_iff hu hstep⟩) hnew hrun
  refine ⟨s, hrun, fun h => (hiff.mp h.1).2, fun halong => ?_⟩
  have hall := hiff.mpr ⟨hempty, halong⟩
  exact ⟨hall, fun key => storeTargets_isOk hs.wellFormed.nonempty hall key⟩

end Parse

/-! ### An address that is not one -/

/-- A parser that knows a single socket address. -/
def parseOne (s : String) : Option Unit := if s = "0.0.0.0:1" then some () else none

def namelessPeer : Peer := { id := 1, address := "somewhere" }

/-- One ping puts an address into the table on which every `store` panics. -/
theorem ping_breaks_store :
    parseOne "0.0.0.0:1" = some () ∧
      ∃ s, Run.run (nodeStep parseOne []) (new 20 { id := 0, address := "0.0.0.0:1" })
          [.request .ping (createPingRequest namelessPeer)] = some s ∧
        ¬ AllParse parseOne s.routingTable ∧
        DHTClient.storeTargets parseOne s 0 = .error .addrParse := by
  have hu : (RoutingTable.new 20 { id := 0, address := "0.0.0.0:1" }).update namelessPeer =
      .ok (⟨20, { id := 0, address := "0.0.0.0:1" }, [⟨0, [namelessPeer]⟩]⟩, .ok ()) := by decide
  have hsent : SentBy (createPingRequest namelessPeer) namelessPeer :=
    sentBy_of_peer (by decide) rfl
  have hping : handle .ping (createPingRequest namelessPeer)
      (new 20 { id := 0, address := "0.0.0.0:1" }) = _ := pingAsync_eq hsent hu
  refine ⟨rfl, ⟨.new, ⟨20, { id := 0, address := "0.0.0.0:1" }, [⟨0, [namelessPeer]⟩]⟩⟩, ?_⟩
  refine ⟨?_, ?_, by decide⟩
  · rw [Run.run_cons, nodeStep, serve, hping]
    rfl
  · intro hall
    have := hall namelessPeer (by decide)
    simp [parseOne, namelessPeer] at this

end DhtKad.DHTServer
