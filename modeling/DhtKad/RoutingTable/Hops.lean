import DhtKad.RoutingTable.Nearest

/-!
How far a search leads.

A lookup goes from node to node, and each of them answers with the nearest peers
it finds. An answer leads on if its first peer shares a longer prefix with the
target than the node itself does. The peers that do are those of one class, the
one that the target is in, and all of them are in the home bucket of the target,
where the search begins. So although it looks at three buckets only, it leads on
whenever the table knows anybody who does (`nearestPeers_advances_iff`).
-/

namespace DhtKad.RoutingTable

open SortBy XorMetric

section Hops

variable {t : RoutingTable} {target : U128} {p q : Peer} {numResults : ℕ}

/-- The peers that share more with the target than the node does are those that
part from the node where the target does. -/
theorem advances_iff (localPeer p : Peer) (target : U128) :
    commonPrefixLength target localPeer.id < commonPrefixLength target p.id ↔
      target ≠ localPeer.id ∧
        commonPrefixLength localPeer.id p.id = commonPrefixLength localPeer.id target :=
  prefixLength_lt_prefixLength_iff

theorem WellFormed.mem_window_of_class (ht : t.WellFormed) (hq : q ∈ t.peers)
    (hclass : commonPrefixLength t.localPeer.id q.id = commonPrefixLength t.localPeer.id target) :
    q ∈ t.window target numResults := by
  refine mem_window_iff.mpr ⟨_, ht.mem_peers_iff.mp hq, .inl ?_⟩
  rw [homeIndex, homeIndex, hclass]

theorem exists_head_of_mem_window (hn : 0 < numResults) (hq : q ∈ t.window target numResults) :
    ∃ p, ((sortBy (distance target) (t.window target numResults)).take numResults).head? =
        some p ∧
      p ∈ t.window target numResults ∧
      commonPrefixLength target q.id ≤ commonPrefixLength target p.id := by
  cases hsort : sortBy (distance target) (t.window target numResults) with
  | nil =>
      have hmem : q ∈ sortBy (distance target) (t.window target numResults) := mem_sortBy.mpr hq
      rw [hsort] at hmem
      cases hmem
  | cons p rest =>
      obtain ⟨hp, hleast⟩ := head_of_sortBy_eq_cons hsort
      refine ⟨p, ?_, hp, ?_⟩
      · rw [List.head?_take, if_neg hn.ne', List.head?_cons]
      · have hle := hleast q hq
        rw [distance_eq_dist, distance_eq_dist] at hle
        exact prefixLength_le_of_dist_le hle

theorem WellFormed.head_advances_iff (ht : t.WellFormed) (target : U128) (hn : 0 < numResults) :
    (∃ p, ((sortBy (distance target) (t.window target numResults)).take numResults).head? =
        some p ∧ commonPrefixLength target t.localPeer.id < commonPrefixLength target p.id) ↔
      ∃ q ∈ t.peers, commonPrefixLength target t.localPeer.id < commonPrefixLength target q.id := by
  constructor
  · rintro ⟨p, hp, hadvances⟩
    have hmem := mem_sortBy.mp (List.mem_of_mem_take (List.mem_of_head? hp))
    obtain ⟨i, hi, -⟩ := mem_window hmem
    exact ⟨p, RoutingTable.mem_peers_iff.mpr ⟨i, hi⟩, hadvances⟩
  · rintro ⟨q, hq, hadvances⟩
    have hclass := ((advances_iff t.localPeer q target).mp hadvances).2
    obtain ⟨p, hp, -, hle⟩ := exists_head_of_mem_window hn (ht.mem_window_of_class hq hclass)
    exact ⟨p, hp, hadvances.trans_le hle⟩

end Hops

/-- **Hops.** On every table a history of updates leads to, and for every target
and every positive number of results: the first peer of the answer shares a
longer prefix with the target than the node itself exactly if some peer of the
whole table does. -/
theorem nearestPeers_advances_iff (k : ℕ) (hk : 1 ≤ k) (localPeer : Peer) (ps : List Peer)
    (target : U128) (numResults : ℕ) (hn : 1 ≤ numResults) :
    ∃ t out, afterUpdates k localPeer ps = some t ∧ t.nearestPeers target numResults = .ok out ∧
      ((∃ p, out.head? = some p ∧
          commonPrefixLength target localPeer.id < commonPrefixLength target p.id) ↔
        ∃ q ∈ t.peers,
          commonPrefixLength target localPeer.id < commonPrefixLength target q.id) := by
  obtain ⟨t, ht, hreached⟩ := afterUpdates_reached hk localPeer ps
  refine ⟨t, _, ht, nearestPeers_eq hreached.wellFormed.nonempty target numResults, ?_⟩
  rw [← hreached.localPeer_eq]
  exact hreached.wellFormed.head_advances_iff target hn

/-- A table of two peers, none of which is of the class of the target. -/
theorem nearestPeers_advances_iff_empty :
    ∃ t out, afterUpdates 1 ⟨0, "0.0.0.0:1"⟩ [⟨1, "0.0.0.0:2"⟩, ⟨1#128 <<< 127, "0.0.0.0:3"⟩] =
        some t ∧ t.nearestPeers (1#128 <<< 126) 1 = .ok out ∧
      ((∃ p, out.head? = some p ∧
          commonPrefixLength (1#128 <<< 126) 0 < commonPrefixLength (1#128 <<< 126) p.id) ↔
        ∃ q ∈ t.peers,
          commonPrefixLength (1#128 <<< 126) 0 < commonPrefixLength (1#128 <<< 126) q.id) :=
  nearestPeers_advances_iff 1 (by decide) _ _ _ 1 (by decide)

end DhtKad.RoutingTable
