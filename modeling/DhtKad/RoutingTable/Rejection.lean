import DhtKad.RoutingTable.Nearest

/-!
What a rejected update does to the answers of the table.

An update is rejected either at once, or after unfolding. In the second case
the whole last bucket, `k` peers, turns out to be of the class of the rejected
peer: it is moved as a whole to the position of that class, and every position
in between is left empty (`Skewed`). A search that stops at the neighbours of
the home bucket may then no longer reach it. `AnswerKept` says for which
targets and sizes it does.
-/

namespace DhtKad.RoutingTable

open SortBy

/-- The table after an unfolding that ends in a rejection: the last bucket has
moved to position `c`, everything around it is empty. -/
structure Skewed (t u : RoutingTable) (c : ℕ) : Prop where
  localPeer_eq : u.localPeer = t.localPeer
  length_eq : u.buckets.length = c + 2
  le : t.buckets.length ≤ c + 1
  card : (t.peersAt (t.buckets.length - 1)).length = t.k
  before : ∀ j, j + 1 < t.buckets.length → u.peersAt j = t.peersAt j
  moved : u.peersAt c = t.peersAt (t.buckets.length - 1)
  empty : ∀ j, t.buckets.length ≤ j + 1 → j ≠ c → u.peersAt j = []

section Full

variable {t u : RoutingTable} {p : Peer} (ht : t.WellFormed) (hu : Unfolds t u)
  (hlast : t.homeIndex p.id + 1 = t.buckets.length)
  (hufull : u.k ≤ (u.peersAt (u.homeIndex p.id)).length)
include hu hlast hufull

/-- The last bucket has room after an unfolding, so a peer that finds its bucket
full belongs in front of it. -/
theorem Unfolds.homeIndex_of_full :
    u.homeIndex p.id = commonPrefixLength t.localPeer.id p.id ∧
      t.buckets.length ≤ commonPrefixLength t.localPeer.id p.id + 1 := by
  have hinner := hu.inner_of_full (homeIndex_lt hu.nonempty p.id) hufull
  have heq : u.homeIndex p.id = commonPrefixLength t.localPeer.id p.id := by
    rw [hu.homeIndex_eq] at hinner ⊢
    omega
  exact ⟨heq, heq ▸ hu.le_homeIndex hlast⟩

include ht

theorem Unfolds.all_of_full :
    (t.peersAt (t.buckets.length - 1)).length = t.k ∧
      ∀ q ∈ t.peersAt (t.buckets.length - 1),
        u.homeIndex q.id = commonPrefixLength t.localPeer.id p.id := by
  obtain ⟨huc, hle⟩ := hu.homeIndex_of_full hlast hufull
  have hcap := ht.capacity (t.buckets.length - 1)
  rw [huc, hu.after _ hle, hu.k_eq] at hufull
  have hlen : ((t.peersAt (t.buckets.length - 1)).filter fun q =>
      u.homeIndex q.id = commonPrefixLength t.localPeer.id p.id).length =
        (t.peersAt (t.buckets.length - 1)).length :=
    le_antisymm (List.length_filter_le _ _) (hcap.trans hufull)
  refine ⟨le_antisymm hcap (hlen ▸ hufull), fun q hq => ?_⟩
  simpa using List.length_filter_eq_length_iff.mp hlen q hq

theorem Unfolds.skewed (hk : 0 < t.k) :
    Skewed t u (commonPrefixLength t.localPeer.id p.id) := by
  obtain ⟨huc, hle⟩ := hu.homeIndex_of_full hlast hufull
  obtain ⟨hcard, hall⟩ := hu.all_of_full ht hlast hufull
  have hinner := hu.inner_of_full (homeIndex_lt hu.nonempty p.id) hufull
  refine ⟨hu.localPeer_eq, ?_, hle, hcard, hu.before, ?_, ?_⟩
  · set c := commonPrefixLength t.localPeer.id p.id
    by_contra hlen'
    have hfull := hu.full (c + 1) hle (by omega)
    have hnil : (t.peersAt (t.buckets.length - 1)).filter
        (fun q => c + 1 ≤ commonPrefixLength t.localPeer.id q.id) = [] := by
      simp only [List.filter_eq_nil_iff, decide_eq_true_eq]
      intro q hq
      have hqc := hall q hq
      rw [hu.homeIndex_eq] at hqc
      omega
    rw [hnil, List.length_nil, hu.k_eq] at hfull
    exact absurd hk (not_lt.mpr hfull)
  · rw [hu.after _ hle, List.filter_eq_self]
    exact fun q hq => decide_eq_true (hall q hq)
  · intro j hj hjc
    rw [hu.after j hj]
    simp only [List.filter_eq_nil_iff, decide_eq_true_eq]
    intro q hq h
    exact hjc (h.symm.trans (hall q hq))

end Full

/-- The condition under which the answer to a query survives the rejection of
`p`: nothing is unfolded; or the target belongs to an inner bucket and does not
need the last one, or finds it in its old place; or the target belongs to the
last bucket, still finds it from its new home, and does not need the bucket in
front of it unless it still finds that one as well. -/
def AnswerKept (t : RoutingTable) (p : Peer) (target : U128) (numResults : ℕ) : Prop :=
  let last := t.buckets.length - 1
  let cpl := commonPrefixLength t.localPeer.id p.id
  let home := commonPrefixLength t.localPeer.id target
  cpl < last ∨
    (home < last ∧ (cpl = last ∨ home + 1 < last ∨ numResults ≤ (t.peersAt home).length)) ∨
    (last ≤ home ∧ (numResults = 0 ∨
      (cpl ≤ home + 1 ∧ (numResults ≤ t.k ∨ t.prevPeers last = [] ∨ home = last))))

section Skewed

variable {t u : RoutingTable} {c : ℕ} (ht : t.WellFormed) (h : Skewed t u c)
include h

theorem Skewed.homeIndex_eq (target : U128) :
    u.homeIndex target = min (commonPrefixLength t.localPeer.id target) (c + 1) := by
  rw [homeIndex, h.localPeer_eq, h.length_eq]
  rfl

theorem Skewed.prevPeers_of_lt {j : ℕ} (hj : j < t.buckets.length) :
    u.prevPeers j = t.prevPeers j := by
  unfold prevPeers
  split
  · exact h.before _ (by omega)
  · rfl

theorem Skewed.prevPeers_nil {j : ℕ} (hj : t.buckets.length ≤ j) (hjc : j ≠ c + 1) :
    u.prevPeers j = [] := by
  unfold prevPeers
  split
  · exact h.empty _ (by omega) (by omega)
  · rfl

/-- A target that belongs to an inner bucket sees the same peers as before
unless it looked at the last bucket and that has moved. -/
theorem Skewed.window_inner {target : U128} {n : ℕ}
    (hx : commonPrefixLength t.localPeer.id target + 1 < t.buckets.length) :
    u.window target n =
      if c + 1 = t.buckets.length ∨
          commonPrefixLength t.localPeer.id target + 2 < t.buckets.length ∨
          n ≤ (t.peersAt (commonPrefixLength t.localPeer.id target)).length then
        t.window target n
      else t.peersAt (commonPrefixLength t.localPeer.id target) ++
        t.prevPeers (commonPrefixLength t.localPeer.id target) := by
  have hle := h.le
  have hut : u.homeIndex target = commonPrefixLength t.localPeer.id target := by
    rw [h.homeIndex_eq]
    omega
  have htt : t.homeIndex target = commonPrefixLength t.localPeer.id target := by
    rw [homeIndex]
    omega
  unfold window
  simp only [hut, htt]
  set x := commonPrefixLength t.localPeer.id target
  rw [h.before x hx, h.prevPeers_of_lt (by omega)]
  by_cases hn : (t.peersAt x).length < n
  · rw [if_pos hn, if_pos hn]
    by_cases hx' : x + 2 < t.buckets.length
    · rw [if_pos (.inr (.inl hx')), h.before (x + 1) (by omega)]
    · by_cases hc : c + 1 = t.buckets.length
      · rw [if_pos (.inl hc), show x + 1 = c by omega, h.moved,
          show c = t.buckets.length - 1 by omega]
      · rw [if_neg (by omega), h.empty (x + 1) (by omega) (by omega), List.append_nil]
  · rw [if_neg hn, if_neg hn, if_pos (.inr (.inr (by omega)))]

/-- What a target past the old last position sees after the rejection, if it is not
too far from the moved bucket: that bucket. -/
theorem Skewed.window_last {target : U128} {n : ℕ} (hn : 0 < n)
    (hc : c ≤ commonPrefixLength t.localPeer.id target + 1)
    (hxl : t.buckets.length ≤ commonPrefixLength t.localPeer.id target) :
    u.window target n = t.peersAt (t.buckets.length - 1) := by
  have hle := h.le
  have hut := h.homeIndex_eq target
  set x := commonPrefixLength t.localPeer.id target
  unfold window
  simp only [hut]
  rcases Nat.lt_or_ge c x with hlt | hge
  · -- the home is the new last bucket
    rw [Nat.min_eq_right (by omega), h.empty (c + 1) (by omega) (by omega),
      h.empty (c + 1 + 1) (by omega) (by omega), if_pos (by simpa using hn), prevPeers,
      if_pos (by omega), Nat.add_sub_cancel, h.moved]
    simp
  · rw [Nat.min_eq_left (by omega)]
    rcases Nat.lt_or_eq_of_le hge with hxc | rfl
    · -- the home is the empty bucket in front of the moved one
      rw [h.empty x (by omega) (by omega), if_pos (by simpa using hn),
        h.prevPeers_nil (by omega) (by omega), show x + 1 = c by omega, h.moved]
      simp
    · rw [h.moved, h.prevPeers_nil (by omega) (by omega),
        h.empty (x + 1) (by omega) (by omega)]
      simp

/-- Too far from the moved bucket, a target sees none of its peers. -/
theorem Skewed.not_mem_window {target : U128} {n : ℕ}
    (hc : commonPrefixLength t.localPeer.id target + 1 < c) :
    ∀ q ∈ u.window target n, ∃ j, j + 1 < t.buckets.length ∧ q ∈ t.peersAt j := by
  intro q hq
  obtain ⟨j, hqj, hj, -⟩ := mem_window hq
  rw [h.homeIndex_eq] at hj
  by_cases hjt : j + 1 < t.buckets.length
  · exact ⟨j, hjt, h.before j hjt ▸ hqj⟩
  · rw [h.empty j (by omega) (by omega)] at hqj
    simp at hqj

end Skewed

section Answers

variable {t u : RoutingTable} {c : ℕ} {target : U128} (ht : t.WellFormed)
include ht

theorem answer_last (hx : t.buckets.length ≤ commonPrefixLength t.localPeer.id target + 1)
    (n : ℕ) :
    (sortBy (distance target) (t.window target n)).take n =
      (sortBy (distance target) (t.peersAt (t.buckets.length - 1)) ++
        sortBy (distance target) (t.prevPeers (t.buckets.length - 1))).take n := by
  have htt : t.homeIndex target = t.buckets.length - 1 := by
    rw [homeIndex]
    omega
  have hpos := length_pos ht.nonempty
  by_cases hn : (t.peersAt (t.homeIndex target)).length < n
  · rw [window_of_lt hn, htt, peersAt_eq_nil_of_le (i := t.buckets.length - 1 + 1)
      (by omega), List.append_nil, sortBy_append_of_lt]
    intro p hp q hq
    obtain ⟨j, hj, hq⟩ := mem_prevPeers.mp hq
    exact distance_lt_of_home ht (htt ▸ hp) hq (by omega)
  · rw [window_of_le (not_lt.mp hn), htt, List.take_append_of_le_length]
    rw [length_sortBy, ← htt]
    omega

/-- A target next to the last bucket is answered from its own bucket first, from
the last one next and from the one in front at the end. -/
theorem sortBy_window_next (hx : t.homeIndex target + 2 = t.buckets.length) {n : ℕ}
    (hn : (t.peersAt (t.homeIndex target)).length < n) :
    sortBy (distance target) (t.window target n) =
      sortBy (distance target) (t.peersAt (t.homeIndex target)) ++
        sortBy (distance target) (t.peersAt (t.homeIndex target + 1)) ++
        sortBy (distance target) (t.prevPeers (t.homeIndex target)) := by
  have hfront : ∀ p ∈ t.peersAt (t.homeIndex target) ++ t.peersAt (t.homeIndex target + 1),
      ∀ q ∈ t.prevPeers (t.homeIndex target), distance target p < distance target q := by
    intro p hp q hq
    obtain ⟨j, hj, hq⟩ := mem_prevPeers.mp hq
    rcases List.mem_append.mp hp with hp | hp
    · exact distance_lt_of_shallow ht hp hq (by omega) (by omega)
    · exact distance_lt_of_shallow ht hp hq (by omega) (by omega)
  have hnext : ∀ p ∈ t.peersAt (t.homeIndex target), ∀ q ∈ t.peersAt (t.homeIndex target + 1),
      distance target p < distance target q :=
    fun p hp q hq => distance_lt_of_home ht hp hq (by omega)
  have hcomm : sortBy (distance target)
      (t.prevPeers (t.homeIndex target) ++ t.peersAt (t.homeIndex target + 1)) =
        sortBy (distance target)
          (t.peersAt (t.homeIndex target + 1) ++ t.prevPeers (t.homeIndex target)) :=
    sortBy_append_comm fun q hq p hp => (hfront p (List.mem_append_right _ hp) q hq).ne'
  rw [window_of_lt hn, List.append_assoc, sortBy_append_congr hcomm,
    ← List.append_assoc, sortBy_append_of_lt hfront, sortBy_append_of_lt hnext]

/-- For an inner target the answer changes exactly if it reached into the last
bucket and that has moved. -/
theorem answer_inner_iff (h : Skewed t u c) (hk : 0 < t.k)
    (hx : commonPrefixLength t.localPeer.id target + 1 < t.buckets.length) (n : ℕ) :
    (sortBy (distance target) (u.window target n)).take n =
        (sortBy (distance target) (t.window target n)).take n ↔
      c + 1 = t.buckets.length ∨
        commonPrefixLength t.localPeer.id target + 2 < t.buckets.length ∨
        n ≤ (t.peersAt (commonPrefixLength t.localPeer.id target)).length := by
  rw [h.window_inner hx]
  split
  · rename_i hkept
    exact iff_of_true rfl hkept
  · rename_i hlost
    refine iff_of_false ?_ hlost
    push Not at hlost
    obtain ⟨hc, hx', hn⟩ := hlost
    have htt : t.homeIndex target = commonPrefixLength t.localPeer.id target := by
      rw [homeIndex]
      omega
    rw [← htt] at hn hx' hx ⊢
    have hlast : t.homeIndex target + 1 = t.buckets.length - 1 := by omega
    intro heq
    -- the first peer of the old last bucket was in the answer and is out of reach now
    obtain ⟨b, s, hb⟩ := List.exists_cons_of_length_pos
      (l := sortBy (distance target) (t.peersAt (t.homeIndex target + 1)))
      (by rw [length_sortBy, hlast, h.card]; exact hk)
    have hbL : b ∈ t.peersAt (t.homeIndex target + 1) := (head_of_sortBy_eq_cons hb).1
    have hmem : b ∈ (sortBy (distance target) (t.window target n)).take n := by
      rw [sortBy_window_next ht (by omega) hn, hb]
      apply mem_take_append_cons
      rwa [length_sortBy]
    rw [← heq] at hmem
    have hb' := mem_sortBy.mp (List.mem_of_mem_take hmem)
    rcases List.mem_append.mp hb' with hb' | hb'
    · exact ht.disjoint (by omega) b hb' b hbL rfl
    · obtain ⟨j, hj, hb'⟩ := mem_prevPeers.mp hb'
      exact ht.disjoint (by omega) b hb' b hbL rfl

/-- The answer from the bucket of a target that sits in the old last position,
which the move to the next position does not hide. -/
theorem answer_last_same (h : Skewed t u c)
    (hx : commonPrefixLength t.localPeer.id target + 1 = t.buckets.length)
    (hc : c ≤ commonPrefixLength t.localPeer.id target + 1) (n : ℕ) :
    (sortBy (distance target) (u.window target n)).take n =
      (sortBy (distance target) (t.peersAt (t.buckets.length - 1)) ++
        sortBy (distance target) (t.prevPeers (t.buckets.length - 1))).take n := by
  have hle := h.le
  have hut : u.homeIndex target = t.buckets.length - 1 := by
    rw [h.homeIndex_eq]
    omega
  have htt : t.homeIndex target = t.buckets.length - 1 := by
    rw [homeIndex]
    omega
  have hprev := h.prevPeers_of_lt (j := t.buckets.length - 1) (by omega)
  rcases Nat.lt_or_eq_of_le hle with hlt | heq
  · -- the last bucket has moved by one position and is still a neighbour
    have hwin : (sortBy (distance target) (u.window target n)).take n =
        (sortBy (distance target) (t.prevPeers (t.buckets.length - 1) ++
          t.peersAt (t.buckets.length - 1))).take n := by
      cases n with
      | zero => simp
      | succ n =>
          have hnil : u.peersAt (u.homeIndex target) = [] := by
            rw [hut]
            exact h.empty _ (by omega) (by omega)
          rw [window_of_lt (by rw [hnil]; exact Nat.succ_pos n), hnil, hut, hprev,
            show t.buckets.length - 1 + 1 = c by omega, h.moved, List.nil_append]
    have hfar : ∀ p ∈ t.peersAt (t.buckets.length - 1),
        ∀ q ∈ t.prevPeers (t.buckets.length - 1), distance target p < distance target q := by
      intro p hp q hq
      obtain ⟨j, hj, hq⟩ := mem_prevPeers.mp hq
      exact distance_lt_of_home ht (htt ▸ hp) hq (by omega)
    rw [hwin, sortBy_append_comm (fun q hq p hp => (hfar p hp q hq).ne'),
      sortBy_append_of_lt hfar]
  · have hwin : u.window target n = t.window target n := by
      unfold window
      simp only [hut, htt]
      have hc' : t.buckets.length - 1 = c := by omega
      rw [hprev, h.empty (t.buckets.length - 1 + 1) (by omega) (by omega),
        peersAt_eq_nil_of_le (t := t) (i := t.buckets.length - 1 + 1) (by omega),
        show u.peersAt (t.buckets.length - 1) = t.peersAt (t.buckets.length - 1) from
          (congrArg u.peersAt hc').trans h.moved]
    rw [hwin, answer_last ht (by omega)]

/-- For a target of the last bucket the answer survives if the bucket is still
in reach, and the one in front of it is too or is not needed. -/
theorem answer_last_iff (h : Skewed t u c) (hk : 0 < t.k)
    (hx : t.buckets.length ≤ commonPrefixLength t.localPeer.id target + 1) (n : ℕ) :
    (sortBy (distance target) (u.window target n)).take n =
        (sortBy (distance target) (t.window target n)).take n ↔
      n = 0 ∨ (c ≤ commonPrefixLength t.localPeer.id target + 1 ∧
        (n ≤ t.k ∨ t.prevPeers (t.buckets.length - 1) = [] ∨
          commonPrefixLength t.localPeer.id target + 1 = t.buckets.length)) := by
  rw [answer_last ht hx]
  rcases Nat.eq_zero_or_pos n with rfl | hn
  · simp
  by_cases hc : c ≤ commonPrefixLength t.localPeer.id target + 1
  · by_cases hxl : commonPrefixLength t.localPeer.id target + 1 = t.buckets.length
    · exact iff_of_true (answer_last_same ht h hxl hc n) (.inr ⟨hc, .inr (.inr hxl)⟩)
    · rw [h.window_last hn hc (by omega)]
      have hcard : (sortBy (distance target) (t.peersAt (t.buckets.length - 1))).length =
          t.k := by
        rw [length_sortBy, h.card]
      constructor
      · intro heq
        refine .inr ⟨hc, ?_⟩
        have hlen := congrArg List.length heq
        simp only [List.length_take, List.length_append, length_sortBy] at hlen hcard
        rw [hcard] at hlen
        by_cases hnk : n ≤ t.k
        · exact .inl hnk
        · exact .inr (.inl (List.length_eq_zero_iff.mp (by omega)))
      · rintro (rfl | ⟨-, hnk | hnil | hxl'⟩)
        · rfl
        · rw [List.take_append_of_le_length (hcard.symm ▸ hnk)]
        · rw [hnil, sortBy_nil, List.append_nil]
        · exact absurd hxl' hxl
  · refine iff_of_false ?_ (by omega)
    intro heq
    obtain ⟨b, s, hb⟩ := List.exists_cons_of_length_pos
      (l := sortBy (distance target) (t.peersAt (t.buckets.length - 1)))
      (by rw [length_sortBy, h.card]; exact hk)
    have hbL : b ∈ t.peersAt (t.buckets.length - 1) := (head_of_sortBy_eq_cons hb).1
    have hmem : b ∈ (sortBy (distance target) (u.window target n)).take n := by
      obtain ⟨m, rfl⟩ := Nat.exists_eq_succ_of_ne_zero hn.ne'
      rw [heq, hb, List.cons_append, List.take_succ_cons]
      exact List.mem_cons_self
    obtain ⟨j, hj, hbj⟩ := h.not_mem_window (by omega) b
      (mem_sortBy.mp (List.mem_of_mem_take hmem))
    exact ht.disjoint (by omega) b hbj b hbL rfl

end Answers

/-- **When a rejected update shows.** For every table a history of updates
leads to and every peer it rejects, a query is answered as before exactly under
`AnswerKept`. -/
theorem rejected_answer_iff (k : ℕ) (hk : 1 ≤ k) (localPeer : Peer) (ps : List Peer) (p : Peer)
    (t t' : RoutingTable) (ht : afterUpdates k localPeer ps = some t)
    (hrej : t.update p = .ok (t', .error {})) (target : U128) (numResults : ℕ) :
    t'.nearestPeers target numResults = t.nearestPeers target numResults ↔
      AnswerKept t p target numResults := by
  have hreached := reached_of_afterUpdates hk ht
  have hwf := hreached.wellFormed
  have hkt : 0 < t.k := hreached.k_eq ▸ hk
  have hupd := hwf.updated_of_update hkt hrej
  have hpos := length_pos hwf.nonempty
  rw [nearestPeers_eq (hupd.wellFormed hwf).nonempty, nearestPeers_eq hwf.nonempty,
    Except.ok.injEq]
  unfold AnswerKept
  simp only
  cases hupd with
  | rejected hp hfull hinner =>
      refine iff_of_true rfl (.inl ?_)
      unfold homeIndex at hinner
      omega
  | unfoldedRejected u hp hfull hlast hu hufull =>
      have hskew := hu.skewed hwf hlast hufull hkt
      have hle := hskew.le
      by_cases hx : commonPrefixLength t.localPeer.id target + 1 < t.buckets.length
      · rw [answer_inner_iff hwf hskew hkt hx]
        omega
      · rw [answer_last_iff hwf hskew hkt (by omega)]
        constructor
        · rintro (hn | ⟨hc, hrest⟩)
          · exact .inr (.inr ⟨by omega, .inl hn⟩)
          · refine .inr (.inr ⟨by omega, .inr ⟨hc, ?_⟩⟩)
            rcases hrest with h | h | h
            · exact .inl h
            · exact .inr (.inl h)
            · exact .inr (.inr (by omega))
        · rintro (h | ⟨h, -⟩ | ⟨-, h | ⟨hc, h | h | h⟩⟩)
          · omega
          · omega
          · exact .inl h
          · exact .inr ⟨hc, .inl h⟩
          · exact .inr ⟨hc, .inr (.inl h)⟩
          · exact .inr ⟨hc, .inr (.inr (by omega))⟩

set_option maxRecDepth 4000 in
theorem rejected_answer_iff_skewed :
    (RoutingTable.mk 1 ⟨0, "0.0.0.0:1"⟩ [⟨0, []⟩, ⟨1, []⟩,
          ⟨2, [⟨1#128 <<< 125, "0.0.0.0:2"⟩]⟩, ⟨3, []⟩]).nearestPeers 0 1 =
        (RoutingTable.mk 1 ⟨0, "0.0.0.0:1"⟩
          [⟨0, [⟨1#128 <<< 125, "0.0.0.0:2"⟩]⟩]).nearestPeers 0 1 ↔
      AnswerKept (RoutingTable.mk 1 ⟨0, "0.0.0.0:1"⟩
        [⟨0, [⟨1#128 <<< 125, "0.0.0.0:2"⟩]⟩]) ⟨3#128 <<< 124, "0.0.0.0:3"⟩ 0 1 :=
  rejected_answer_iff 1 (by decide) ⟨0, "0.0.0.0:1"⟩ [⟨1#128 <<< 125, "0.0.0.0:2"⟩]
    ⟨3#128 <<< 124, "0.0.0.0:3"⟩ _ _ rfl rfl 0 1

set_option maxRecDepth 4000 in
/-- With one peer in the only bucket, the rejection of a second one of its class
moves it three positions back, out of the reach of a query from the other half
of the identifiers. -/
theorem rejected_update_loses_peer :
    ∃ t t', afterUpdates 1 ⟨0, "0.0.0.0:1"⟩ [⟨1#128 <<< 125, "0.0.0.0:2"⟩] = some t ∧
      t.update ⟨3#128 <<< 124, "0.0.0.0:3"⟩ = .ok (t', .error {}) ∧
      t.nearestPeers (1#128 <<< 127) 1 = .ok [⟨1#128 <<< 125, "0.0.0.0:2"⟩] ∧
      t'.nearestPeers (1#128 <<< 127) 1 = .ok [] ∧
      t'.nearestPeers (1#128 <<< 127) 1 ≠ t.nearestPeers (1#128 <<< 127) 1 := by
  refine ⟨_, _, rfl, rfl, rfl, rfl, ?_⟩
  intro h
  cases h

end DhtKad.RoutingTable
