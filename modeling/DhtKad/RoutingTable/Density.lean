import DhtKad.RoutingTable.Nearest

/-!
How far the table unfolds, and how full it is at its end.

Unfolding goes on as long as a whole bucket moves on, and remote nodes choose
the identifiers that decide this. It ends because no prefix is longer than 128
bits: bucket 129 stays empty, so there are at most 130 buckets
(`unfolding_bounded`). A chain of splits may leave any number of empty buckets
behind, but its last split took a full bucket apart, so the last two buckets
hold `k` peers from then on (`Dense`). This is what a search that looks at no
more than three buckets rests on when its target is close to the local
identifier: it finds as many peers as there are, up to `k`, and it finds one
whenever there is one (`dense_end`).
-/

namespace DhtKad.RoutingTable

open SortBy

section Unfolding

variable {t u : RoutingTable} {p : Peer}

/-! ### The length of a chain of splits -/

theorem WellFormed.le_of_mem_peersAt (ht : t.WellFormed) {i : ℕ} (hp : p ∈ t.peersAt i) :
    i ≤ 128 :=
  (ht.le_of_mem hp).trans (commonPrefixLength_le _ _)

theorem WellFormed.peersAt_eq_nil (ht : t.WellFormed) {i : ℕ} (hi : 128 < i) :
    t.peersAt i = [] := by
  rw [List.eq_nil_iff_forall_not_mem]
  intro p hp
  have := ht.le_of_mem_peersAt hp
  omega

theorem WellFormed.unfolds (ht : t.WellFormed) (hk : 0 < t.k)
    (hfull : t.k ≤ (t.peersAt (t.buckets.length - 1)).length) :
    ∃ u, (∀ depth, unfoldDepth ≤ depth → unfoldBuckets depth t = .ok u) ∧ Unfolds t u := by
  have hpos := length_pos ht.nonempty
  obtain ⟨u, hu, hunf⟩ := unfoldBuckets_unfolds ht.nonempty ht.indexed
    (fun p hp => ht.le_of_mem hp) hk hfull
    (show 130 ≤ t.buckets.length + unfoldDepth by unfold unfoldDepth; omega)
  exact ⟨u, fun depth hle => unfoldBuckets_mono ht.nonempty hu hle, hunf⟩

section Full

variable (ht : t.WellFormed) (hk : 0 < t.k)
  (hfull : t.k ≤ (t.peersAt (t.buckets.length - 1)).length) (hu : Unfolds t u)
include ht hfull hu

theorem Unfolds.full_end :
    t.k ≤ ((t.peersAt (t.buckets.length - 1)).filter fun p =>
      u.buckets.length - 2 ≤ commonPrefixLength t.localPeer.id p.id).length := by
  have hlt := hu.length_lt
  have hpos := length_pos ht.nonempty
  rcases Nat.lt_or_ge (t.buckets.length + 1) u.buckets.length with hmore | hone
  · rw [← hu.k_eq]
    exact hu.full _ (by omega) (by omega)
  · -- there was a single split, of the last bucket itself
    rw [List.filter_eq_self.mpr]
    · exact hfull
    · intro p hp
      have hle := ht.le_of_mem hp
      rw [decide_eq_true_eq]
      omega

include hk in
theorem Unfolds.length_le : u.buckets.length ≤ 130 := by
  -- one peer of the bucket that was split last is enough to bound its position
  obtain ⟨p, hp⟩ := List.exists_mem_of_length_pos (hk.trans_le (hu.full_end ht hfull))
  have hle : u.buckets.length - 2 ≤ commonPrefixLength t.localPeer.id p.id := by
    simpa using (List.mem_filter.mp hp).2
  have hbound := commonPrefixLength_le t.localPeer.id p.id
  omega

end Full

/-! ### The last two buckets -/

/-- The peers of the last bucket and of the one in front of it. -/
def endPeers (t : RoutingTable) : List Peer :=
  t.prevPeers (t.buckets.length - 1) ++ t.peersAt (t.buckets.length - 1)

/-- The table has not unfolded too far, and if it has at all its end is full. -/
structure Dense (t : RoutingTable) : Prop where
  length_le : t.buckets.length ≤ 130
  full : 1 < t.buckets.length → t.k ≤ t.endPeers.length

theorem dense_new (k : ℕ) (localPeer : Peer) : (new k localPeer).Dense :=
  ⟨by simp [new], fun h => absurd h (by simp [new])⟩

/-- Peers that a full bucket had to hand on sit in the last two buckets. -/
theorem Unfolds.length_endPeers (hu : Unfolds t u) (hpos : 0 < t.buckets.length) :
    u.endPeers.length = ((t.peersAt (t.buckets.length - 1)).filter fun p =>
      u.buckets.length - 2 ≤ commonPrefixLength t.localPeer.id p.id).length := by
  have hlt := hu.length_lt
  -- a peer that got as far as the last split went to one of its two halves
  have hhalf (i : ℕ) (b : Peer → Bool)
      (hb : ∀ q, b q = true ∧ u.buckets.length - 2 ≤ commonPrefixLength t.localPeer.id q.id ↔
        u.homeIndex q.id = i) :
      (t.peersAt (t.buckets.length - 1)).filter (fun q => u.homeIndex q.id = i) =
        ((t.peersAt (t.buckets.length - 1)).filter fun q =>
          u.buckets.length - 2 ≤ commonPrefixLength t.localPeer.id q.id).filter b := by
    rw [List.filter_filter]
    apply List.filter_congr
    intro q _
    rw [Bool.eq_iff_iff, Bool.and_eq_true, decide_eq_true_iff, decide_eq_true_iff]
    exact (hb q).symm
  have hlast := hhalf (u.buckets.length - 1)
    (fun q => decide (u.homeIndex q.id = u.buckets.length - 1)) fun q => by
      rw [decide_eq_true_iff, hu.homeIndex_eq]
      omega
  have hprev := hhalf (u.buckets.length - 1 - 1)
    (fun q => !decide (u.homeIndex q.id = u.buckets.length - 1)) fun q => by
      rw [Bool.not_eq_true', decide_eq_false_iff_not, hu.homeIndex_eq]
      omega
  rw [endPeers, prevPeers, if_pos (by omega), List.length_append, hu.after _ (by omega),
    hu.after _ (by omega), hlast, hprev, Nat.add_comm]
  exact (List.length_eq_length_filter_add _).symm

theorem Unfolds.dense (ht : t.WellFormed) (hk : 0 < t.k)
    (hfull : t.k ≤ (t.peersAt (t.buckets.length - 1)).length) (hu : Unfolds t u) : u.Dense := by
  refine ⟨hu.length_le ht hk hfull, fun _ => ?_⟩
  rw [hu.k_eq, hu.length_endPeers (length_pos ht.nonempty)]
  exact hu.full_end ht hfull

theorem Dense.modifyPeers (h : t.Dense) {i : ℕ} (hi : i < t.buckets.length)
    {f : List Peer → List Peer} (hf : (t.peersAt i).length ≤ (f (t.peersAt i)).length) :
    (t.modifyPeers i f).Dense := by
  have hgrow (j : ℕ) : (t.peersAt j).length ≤ ((t.modifyPeers i f).peersAt j).length := by
    rw [peersAt_modifyPeers t hi]
    split
    · subst j
      exact hf
    · exact le_rfl
  refine ⟨(length_modifyPeers t i f).trans_le h.length_le, fun hlen => ?_⟩
  rw [length_modifyPeers] at hlen
  refine (h.full hlen).trans ?_
  unfold endPeers prevPeers
  rw [length_modifyPeers, if_pos (by omega), if_pos (by omega), List.length_append,
    List.length_append]
  exact Nat.add_le_add (hgrow _) (hgrow _)

theorem Updated.dense {t' : RoutingTable} {r : Except NoCapacityError Unit} (ht : t.WellFormed)
    (hk : 0 < t.k) (hd : t.Dense) (h : Updated t p t' r) : t'.Dense := by
  have hhome {u : RoutingTable} (hu : u.WellFormed) := homeIndex_lt hu.nonempty p.id
  cases h with
  | refreshed hp => exact hd.modifyPeers (hhome ht) (refresh_perm hp).length_eq.ge
  | added hp hroom => exact hd.modifyPeers (hhome ht) (by simp)
  | rejected hp hfull hinner => exact hd
  | unfoldedAdded u hp hfull hlast hu hroom =>
      rw [show t.homeIndex p.id = t.buckets.length - 1 by omega] at hfull
      exact (hu.dense ht hk hfull).modifyPeers (hhome (hu.wellFormed ht)) (by simp)
  | unfoldedRejected u hp hfull hlast hu hufull =>
      rw [show t.homeIndex p.id = t.buckets.length - 1 by omega] at hfull
      exact hu.dense ht hk hfull

end Unfolding

theorem dense_of_afterUpdates {k : ℕ} {localPeer : Peer} {ps : List Peer} {t : RoutingTable}
    (h : afterUpdates k localPeer ps = some t) : t.Dense := by
  refine (Run.run_invariant (I := fun t => Held k localPeer t ∧ t.Dense) ?_
    ⟨held_new k localPeer, dense_new k localPeer⟩ h).2
  rintro t p t' ⟨ht, hd⟩ hnext
  obtain ⟨r, hu⟩ := exists_update_of_next hnext
  obtain ⟨hk, hupd, hheld⟩ := ht.updated_of_update hu
  exact ⟨hheld, hupd.dense ht.wellFormed (ht.k_eq ▸ hk) hd⟩

/-! ### What a search near the local identifier finds -/

section Search

variable {t : RoutingTable} (ht : t.WellFormed) (hd : t.Dense)
include ht

omit ht in
/-- A search looks at all three buckets unless the first has enough. -/
theorem le_length_window (t : RoutingTable) (target : U128) (n : ℕ) :
    min n ((t.peersAt (t.homeIndex target)).length + (t.prevPeers (t.homeIndex target)).length +
      (t.peersAt (t.homeIndex target + 1)).length) ≤ (t.window target n).length := by
  by_cases hmore : (t.peersAt (t.homeIndex target)).length < n
  · rw [window_of_lt hmore, List.length_append, List.length_append]
    exact Nat.min_le_right _ _
  · rw [window_of_le (not_lt.mp hmore)]
    omega

theorem length_window_le (target : U128) (n : ℕ) :
    (t.window target n).length ≤ t.peers.length := by
  have hlen := (window_append_leftOut_perm ht target n).length_eq
  rw [List.length_append] at hlen
  omega

include hd

theorem Dense.min_le_endPeers : min t.k t.peers.length ≤ t.endPeers.length := by
  have hpos := length_pos ht.nonempty
  by_cases hone : t.buckets.length = 1
  · obtain ⟨b, hb⟩ := List.length_eq_one_iff.mp hone
    simp [endPeers, prevPeers, peers, peersAt, hb]
  · exact (Nat.min_le_left _ _).trans (hd.full (by omega))

theorem Dense.length_window {target : U128}
    (hx : t.buckets.length - 1 ≤ commonPrefixLength t.localPeer.id target) :
    min t.k (t.window target t.k).length = min t.k t.peers.length := by
  have htarget : t.homeIndex target = t.buckets.length - 1 := by
    unfold homeIndex
    omega
  have hend := hd.min_le_endPeers ht
  have hle := le_length_window t target t.k
  have hge := length_window_le ht target t.k
  rw [endPeers, List.length_append] at hend
  rw [htarget] at hle
  omega

/-- The local identifier belongs to one of the last two buckets, and behind it
there is nothing. -/
theorem Dense.endPeers_le : t.endPeers.length ≤
    (t.peersAt (t.homeIndex t.localPeer.id)).length +
      (t.prevPeers (t.homeIndex t.localPeer.id)).length := by
  have hlen := hd.length_le
  have hself : commonPrefixLength t.localPeer.id t.localPeer.id = 128 := by
    simp [commonPrefixLength]
  rw [endPeers, List.length_append, homeIndex, hself]
  -- only in a table of 130 buckets does the local identifier not belong to the last one
  by_cases hlong : t.buckets.length = 130
  · rw [hlong, prevPeers, if_pos (by decide), ht.peersAt_eq_nil (i := 130 - 1) (by decide)]
    exact Nat.le_add_right _ _
  · rw [Nat.min_eq_right (by omega), Nat.add_comm]

theorem Dense.window_localPeer (hk : 0 < t.k) {n : ℕ} (hn : 0 < n) :
    0 < (t.window t.localPeer.id n).length ↔ t.peers ≠ [] := by
  have hend := hd.min_le_endPeers ht
  have hnear := hd.endPeers_le ht
  have hle := le_length_window t t.localPeer.id n
  have hge := length_window_le ht t.localPeer.id n
  rw [← List.length_pos_iff]
  omega

end Search

theorem Held.window_localPeer {k : ℕ} {localPeer : Peer} {t : RoutingTable}
    (ht : Held k localPeer t) (hd : t.Dense) {n : ℕ} (hn : 0 < n) :
    0 < (t.window localPeer.id n).length ↔ t.peers ≠ [] := by
  rw [← ht.localPeer_eq]
  rcases Nat.eq_zero_or_pos t.k with hk | hk
  · have hnone : t.peers = [] := by
      rw [peers, ht.untouched hk]
      rfl
    have hle := length_window_le ht.wellFormed t.localPeer.id n
    rw [hnone, List.length_nil] at hle
    simp only [hnone, ne_eq, not_true, iff_false]
    omega
  · exact hd.window_localPeer ht.wellFormed hk hn

/-- **The end of the table is dense.** After every history of updates the last
two buckets together hold as many peers as there are, up to `k`. So a target
that belongs to the last bucket gets that many peers, and the poll of
`wait_for_connection` succeeds exactly if the table holds a peer at all. -/
theorem dense_end (k : ℕ) (hk : 1 ≤ k) (localPeer : Peer) (ps : List Peer) :
    ∃ t, afterUpdates k localPeer ps = some t ∧
      min k t.peers.length ≤
        (t.prevPeers (t.buckets.length - 1)).length +
          (t.peersAt (t.buckets.length - 1)).length ∧
      (∀ target, t.buckets.length - 1 ≤ commonPrefixLength localPeer.id target →
        ∃ out, t.kNearestPeers target = .ok out ∧ out.length = min k t.peers.length) ∧
      ∃ out, t.nearestPeers localPeer.id 2 = .ok out ∧ (out.length ≥ 1 ↔ t.peers ≠ []) := by
  obtain ⟨t, ht, hwf, rfl, rfl⟩ := afterUpdates_reached hk localPeer ps
  have hd := dense_of_afterUpdates ht
  refine ⟨t, ht, ?_, fun target hx => ?_, ?_⟩
  · rw [← List.length_append]
    exact hd.min_le_endPeers hwf
  · refine ⟨_, nearestPeers_eq hwf.nonempty target t.k, ?_⟩
    rw [List.length_take, length_sortBy]
    exact hd.length_window hwf hx
  · refine ⟨_, nearestPeers_eq hwf.nonempty t.localPeer.id 2, ?_⟩
    rw [← hd.window_localPeer hwf hk (n := 2) (by decide), List.length_take, length_sortBy]
    omega

/-- A chain of splits has left two empty buckets in front of the last two. -/
theorem dense_end_skewed :
    ∃ t, afterUpdates 1 ⟨0, "0.0.0.0:1"⟩
        [⟨1#128 <<< 125, "0.0.0.0:2"⟩, ⟨3#128 <<< 124, "0.0.0.0:3"⟩] = some t ∧
      min 1 t.peers.length ≤
        (t.prevPeers (t.buckets.length - 1)).length +
          (t.peersAt (t.buckets.length - 1)).length ∧
      (∀ target, t.buckets.length - 1 ≤ commonPrefixLength 0 target →
        ∃ out, t.kNearestPeers target = .ok out ∧ out.length = min 1 t.peers.length) ∧
      ∃ out, t.nearestPeers 0 2 = .ok out ∧ (out.length ≥ 1 ↔ t.peers ≠ []) :=
  dense_end 1 (by decide) _ _

/-- **The unfolding is bounded.** After every history of updates each further
update returns, so none of its indices is out of range, and there are never
more than 130 buckets. The unfolding that a full last bucket calls for ends in
one and the same table, whatever depth it is given from 129 on, and leaves room
in the new last bucket. -/
theorem unfolding_bounded (k : ℕ) (hk : 1 ≤ k) (localPeer : Peer) (ps : List Peer) :
    ∃ t, afterUpdates k localPeer ps = some t ∧ t.buckets.length ≤ 130 ∧
      (∀ id, t.homeIndex id < t.buckets.length) ∧
      (∀ p, ∃ t' r, t.update p = .ok (t', r) ∧ t'.buckets.length ≤ 130) ∧
      (k ≤ (t.peersAt (t.buckets.length - 1)).length →
        ∃ u, (∀ depth, unfoldDepth ≤ depth → unfoldBuckets depth t = .ok u) ∧
          t.buckets.length < u.buckets.length ∧ u.buckets.length ≤ 130 ∧
          (∀ id, u.homeIndex id < u.buckets.length) ∧
          (u.peersAt (u.buckets.length - 1)).length < k) := by
  obtain ⟨t, ht, hwf, rfl, rfl⟩ := afterUpdates_reached hk localPeer ps
  have hd := dense_of_afterUpdates ht
  refine ⟨t, ht, hd.length_le, homeIndex_lt hwf.nonempty, fun p => ?_, fun hfull => ?_⟩
  · obtain ⟨t', r, hupdate, hupd⟩ := hwf.update_updated hk p
    exact ⟨t', r, hupdate, (hupd.dense hwf hk hd).length_le⟩
  · obtain ⟨u, hu, hunf⟩ := hwf.unfolds hk hfull
    exact ⟨u, hu, hunf.length_lt, hunf.length_le hwf hk hfull, homeIndex_lt hunf.nonempty,
      hunf.k_eq ▸ hunf.room⟩

/-- Peers with the local identifier at different addresses unfold the table as
far as it goes. -/
theorem unfolding_bounded_local :
    ∃ t, afterUpdates 1 ⟨0, "0.0.0.0:1"⟩ [⟨0, "0.0.0.0:2"⟩, ⟨0, "0.0.0.0:3"⟩] = some t ∧
      t.buckets.length ≤ 130 ∧ (∀ id, t.homeIndex id < t.buckets.length) ∧
      (∀ p, ∃ t' r, t.update p = .ok (t', r) ∧ t'.buckets.length ≤ 130) ∧
      (1 ≤ (t.peersAt (t.buckets.length - 1)).length →
        ∃ u, (∀ depth, unfoldDepth ≤ depth → unfoldBuckets depth t = .ok u) ∧
          t.buckets.length < u.buckets.length ∧ u.buckets.length ≤ 130 ∧
          (∀ id, u.homeIndex id < u.buckets.length) ∧
          (u.peersAt (u.buckets.length - 1)).length < 1) :=
  unfolding_bounded 1 (by decide) _ _

/-! ### The bound is attained -/

/-- The peers with the local identifier, told apart by their addresses. -/
def localTwin (localPeer : Peer) (i : ℕ) : Peer :=
  { id := localPeer.id, address := String.ofList (List.replicate i 'a') }

theorem localTwin_injective (localPeer : Peer) : Function.Injective (localTwin localPeer) := by
  intro i j hij
  have haddr := String.ofList_injective (congrArg Peer.address hij)
  simpa using congrArg List.length haddr

/-- Peers that share all of the local identifier move on as long as there is a
position to move on to. -/
theorem Unfolds.length_of_local {t u : RoutingTable} (ht : t.WellFormed) (hk : 0 < t.k)
    (hfull : t.k ≤ (t.peersAt (t.buckets.length - 1)).length) (hu : Unfolds t u)
    (hlocal : ∀ p ∈ t.peersAt (t.buckets.length - 1), p.id = t.localPeer.id) :
    u.buckets.length = 130 := by
  have hle := hu.length_le ht hk hfull
  have hlt := hu.length_lt
  have hroom := hu.room
  by_contra hne
  -- otherwise all of them belong to the new last bucket, which has room
  rw [hu.after _ (by omega), List.filter_eq_self.mpr, hu.k_eq] at hroom
  · omega
  · intro p hp
    rw [decide_eq_true_iff, hu.homeIndex_eq, hlocal p hp]
    simp [commonPrefixLength]
    omega

/-- As long as there is room they share the only bucket. -/
theorem afterUpdates_localTwins {k n : ℕ} (localPeer : Peer) (hn : n ≤ k) :
    ∃ t, afterUpdates k localPeer ((List.range n).map (localTwin localPeer)) = some t ∧
      t.buckets.length = 1 ∧ t.peersAt 0 = (List.range n).map (localTwin localPeer) := by
  induction n with
  | zero => exact ⟨_, rfl, rfl, rfl⟩
  | succ n ih =>
      obtain ⟨t, ht, hlen, hpeers⟩ := ih (by omega)
      have hreached := reached_of_afterUpdates (by omega) ht
      have hhome : t.homeIndex (localTwin localPeer n).id = 0 := by simp [homeIndex, hlen]
      have hnew : localTwin localPeer n ∉ t.peersAt 0 := by
        rw [hpeers, List.mem_map_of_injective (localTwin_injective localPeer)]
        simp
      have hroom : (t.peersAt 0).length < t.k := by
        rw [hpeers, hreached.k_eq, List.length_map, List.length_range]
        omega
      refine ⟨t.insert (localTwin localPeer n), ?_, by simp [insert, hlen], ?_⟩
      · rw [List.range_succ, List.map_append, List.map_singleton, afterUpdates_concat ht]
        apply next_eq
        rw [update_eq hreached.wellFormed.nonempty, hhome, if_neg hnew, if_pos hroom]
      · rw [peersAt_insert hreached.wellFormed.nonempty, hhome, if_pos rfl, hpeers,
          List.range_succ, List.map_append, List.map_singleton]

/-- With one peer more than there is room for, anyone can unfold a new table as
far as it goes. -/
theorem unfolding_bound_attained (k : ℕ) (hk : 1 ≤ k) (localPeer : Peer) :
    ∃ t, afterUpdates k localPeer ((List.range (k + 1)).map (localTwin localPeer)) = some t ∧
      t.buckets.length = 130 := by
  obtain ⟨t, ht, hlen, hpeers⟩ := afterUpdates_localTwins localPeer (le_refl k)
  obtain ⟨hwf, hkt, hlt⟩ := reached_of_afterUpdates hk ht
  have hhome : t.homeIndex (localTwin localPeer k).id = 0 := by simp [homeIndex, hlen]
  have hlast : t.peersAt (t.buckets.length - 1) = (List.range k).map (localTwin localPeer) := by
    rw [hlen]
    exact hpeers
  have hunfold {u : RoutingTable} (hu : Unfolds t u) : u.buckets.length = 130 := by
    refine hu.length_of_local hwf (hkt ▸ hk) (by simp [hlast, hkt]) fun p hp => ?_
    rw [hlast] at hp
    obtain ⟨i, -, rfl⟩ := List.mem_map.mp hp
    exact (congrArg Peer.id hlt).symm
  obtain ⟨t', r, hupdate, hupd⟩ := hwf.update_updated (hkt ▸ hk) (localTwin localPeer k)
  refine ⟨t', ?_, ?_⟩
  · rw [List.range_succ, List.map_append, List.map_singleton, afterUpdates_concat ht]
    exact next_eq hupdate
  · cases hupd with
    | refreshed hp =>
        rw [hhome, hpeers, List.mem_map_of_injective (localTwin_injective localPeer)] at hp
        simp at hp
    | added hp hroom =>
        rw [hhome, hpeers, hkt] at hroom
        simp at hroom
    | rejected hp hfull hinner => omega
    | unfoldedAdded u hp hfull hlast hu hroom =>
        rw [insert, length_modifyPeers]
        exact hunfold hu
    | unfoldedRejected u hp hfull hlast hu hufull => exact hunfold hu

/-- Two peers with the identifier of the node. -/
theorem unfolding_bound_attained_one :
    ∃ t, afterUpdates 1 ⟨0, "0.0.0.0:1"⟩
        ((List.range 2).map (localTwin ⟨0, "0.0.0.0:1"⟩)) = some t ∧ t.buckets.length = 130 :=
  unfolding_bound_attained 1 le_rfl ⟨0, "0.0.0.0:1"⟩

end DhtKad.RoutingTable
