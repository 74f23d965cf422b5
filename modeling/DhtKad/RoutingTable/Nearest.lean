import DhtKad.RoutingTable.Invariant

/-!
Which peers `nearest_peers` finds.

Seen from a target, the home bucket is nearest; then come the buckets after it,
all of them before any bucket in front of it, and those in front from the back
to the front (`distance_lt_of_home`, `distance_lt_of_shallow`). Among the
buckets after the home bucket the bit of the target that follows the shared
prefix decides whether the first one comes first or last
(`distance_lt_next_iff`). The search looks at the home bucket and at its two
neighbours, so it is exact in the cases `NeighboursSuffice` lists and in no
others.
-/

namespace DhtKad.RoutingTable

open SortBy XorMetric

theorem distance_eq_dist (target : U128) (p : Peer) : distance target p = dist target p.id := by
  rw [distance, dist_comm]
  rfl

theorem distance_injective {target : U128} {p q : Peer}
    (h : distance target p = distance target q) : p.id = q.id := by
  rw [distance_eq_dist, distance_eq_dist] at h
  exact dist_injective h

/-! ### The order of the buckets as seen from a target -/

section Order

variable {t : RoutingTable} (ht : t.WellFormed) {target : U128} {p q : Peer} {i j : ℕ}
include ht

theorem distance_lt_of_home (hp : p ∈ t.peersAt (t.homeIndex target)) (hq : q ∈ t.peersAt j)
    (hj : j ≠ t.homeIndex target) : distance target p < distance target q := by
  rw [distance_eq_dist, distance_eq_dist]
  apply dist_lt_of_prefixLength_lt
  have hpl : commonPrefixLength t.localPeer.id target = prefixLength t.localPeer.id target := rfl
  have hlt := homeIndex_lt ht.nonempty target
  have hjlt := lt_length_of_mem_peersAt hq
  have hqle := ht.le_of_mem hq
  have hple := ht.le_of_mem hp
  rw [commonPrefixLength_eq] at hqle hple
  unfold homeIndex at hj hlt hple
  rcases Nat.lt_or_gt_of_ne hj with hshallow | hdeep
  · -- `q` parts from the local id, and so from the target, before the home position
    have hqj := ht.inner (p := q) (i := j) (by omega) hq
    rw [commonPrefixLength_eq] at hqj
    have htq : prefixLength target q.id = j := by
      rw [prefixLength_comm, ← hqj]
      exact prefixLength_eq_of_lt (by omega)
    rw [htq]
    exact lt_of_lt_of_le hshallow (le_prefixLength_of_le (min_le_left _ _) hple)
  · -- the home bucket is inner: `p` agrees with the target where `q` does not
    have hph := ht.inner (p := p) (i := t.homeIndex target)
      (by unfold homeIndex; omega) hp
    rw [commonPrefixLength_eq] at hph
    unfold homeIndex at hph
    have htq : prefixLength target q.id = prefixLength t.localPeer.id target :=
      prefixLength_eq_of_lt (by omega)
    rw [htq]
    have hw := prefixLength_le t.localPeer.id q.id
    exact prefixLength_lt_of_eq (by omega) (by omega)

/-- A bucket in front of the home bucket is farther than every bucket after it. -/
theorem distance_lt_of_shallow (hp : p ∈ t.peersAt i) (hq : q ∈ t.peersAt j)
    (hj : j < t.homeIndex target) (hij : j < i) :
    distance target p < distance target q := by
  rw [distance_eq_dist, distance_eq_dist]
  apply dist_lt_of_prefixLength_lt
  have hilt := lt_length_of_mem_peersAt hp
  have hqj := ht.inner (p := q) (i := j) (by omega) hq
  have hple := ht.le_of_mem hp
  have hpl : commonPrefixLength t.localPeer.id target = prefixLength t.localPeer.id target := rfl
  rw [commonPrefixLength_eq] at hqj hple
  unfold homeIndex at hj
  have htq : prefixLength target q.id = j := by
    rw [prefixLength_comm, ← hqj]
    exact prefixLength_eq_of_lt (by omega)
  rw [htq]
  exact le_prefixLength_of_le (a := t.localPeer.id) (by omega) (by omega)

/-- Among the buckets after the home bucket, the first one is nearer than the
others if the target differs from the local id in the bit of that bucket, and
farther otherwise. -/
theorem distance_lt_next_iff (hp : p ∈ t.peersAt i) (hq : q ∈ t.peersAt j) (hij : i < j) :
    distance target p < distance target q ↔ target.getMsbD i ≠ t.localPeer.id.getMsbD i := by
  rw [distance_eq_dist, distance_eq_dist]
  have hjlt := lt_length_of_mem_peersAt hq
  have hpi := ht.inner (p := p) (i := i) (by omega) hp
  have hqle := ht.le_of_mem hq
  rw [commonPrefixLength_eq] at hpi hqle
  have h := dist_lt_iff_of_prefixLength_lt (l := t.localPeer.id) (t := target)
    (a := p.id) (b := q.id) (by omega)
  rwa [hpi] at h

end Order

/-! ### The search as a function of the table -/

/-- The bucket in front of a position. -/
def prevPeers (t : RoutingTable) (i : ℕ) : List Peer := if 0 < i then t.peersAt (i - 1) else []

/-- The peers `nearest_peers` looks at. -/
def window (t : RoutingTable) (target : U128) (numResults : ℕ) : List Peer :=
  let home := t.homeIndex target
  if (t.peersAt home).length < numResults then
    t.peersAt home ++ t.prevPeers home ++ t.peersAt (home + 1)
  else t.peersAt home

theorem mem_prevPeers {t : RoutingTable} {i : ℕ} {p : Peer} :
    p ∈ t.prevPeers i ↔ ∃ j, j + 1 = i ∧ p ∈ t.peersAt j := by
  unfold prevPeers
  constructor
  · intro hp
    split at hp
    · exact ⟨i - 1, by omega, hp⟩
    · simp at hp
  · rintro ⟨j, rfl, hp⟩
    simpa using hp

theorem map_bucketAt {t : RoutingTable} {i : ℕ} (hi : i < t.buckets.length) :
    Bucket.peers <$> t.bucketAt i = .ok (t.peersAt i) := by
  obtain ⟨b, -, hat, hpeers⟩ := exists_bucket hi
  rw [hat, hpeers]
  rfl

theorem surroundingPeers_eq {t : RoutingTable} {i : ℕ} (hi : i < t.buckets.length) :
    t.surroundingPeers i = .ok (t.prevPeers i ++ t.peersAt (i + 1)) := by
  have ht : t.buckets ≠ [] := List.length_pos_iff.mp (by omega)
  have hprev : (if i > 0 then Bucket.peers <$> t.bucketAt (i - 1) else pure []) =
      (.ok (t.prevPeers i) : Except Panic (List Peer)) := by
    unfold prevPeers
    split
    · exact map_bucketAt (by omega)
    · rfl
  have hnext : (if i < t.buckets.length - 1 then Bucket.peers <$> t.bucketAt (i + 1)
      else pure []) = (.ok (t.peersAt (i + 1)) : Except Panic (List Peer)) := by
    split
    · exact map_bucketAt (by omega)
    · rw [peersAt_eq_nil_of_le (by omega)]
      rfl
  rw [surroundingPeers, hprev, lastIndex_eq ht]
  simp only [bind, Except.bind, hnext]
  rfl

theorem nearestPeers_eq {t : RoutingTable} (ht : t.buckets ≠ []) (target : U128)
    (numResults : ℕ) :
    t.nearestPeers target numResults =
      .ok ((sortBy (distance target) (t.window target numResults)).take numResults) := by
  have hlt := homeIndex_lt ht target
  have hindex : (if t.buckets.length ≤ commonPrefixLength t.localPeer.id target then t.lastIndex
      else pure (commonPrefixLength t.localPeer.id target)) = .ok (t.homeIndex target) := by
    rw [lastIndex_eq ht, homeIndex]
    split
    · rw [Nat.min_eq_right (by omega)]
    · rw [Nat.min_eq_left (by omega)]
      rfl
  obtain ⟨b, -, hat, hpeers⟩ := exists_bucket hlt
  rw [nearestPeers, hindex]
  simp only [bind, Except.bind, hat, window, hpeers, surroundingPeers_eq hlt]
  by_cases hmore : b.peers.length < numResults
  · simp only [if_pos hmore, List.append_assoc]
    rfl
  · simp only [if_neg hmore, pure, Except.pure, List.append_nil]

section Search

variable {t : RoutingTable} {target : U128} {numResults : ℕ}

theorem window_of_le (hhome : numResults ≤ (t.peersAt (t.homeIndex target)).length) :
    t.window target numResults = t.peersAt (t.homeIndex target) := by
  rw [window]
  exact if_neg (by omega)

theorem window_of_lt (hmore : (t.peersAt (t.homeIndex target)).length < numResults) :
    t.window target numResults =
      t.peersAt (t.homeIndex target) ++ t.prevPeers (t.homeIndex target) ++
        t.peersAt (t.homeIndex target + 1) := by
  rw [window]
  exact if_pos hmore

theorem mem_window_iff {p : Peer} :
    p ∈ t.window target numResults ↔ ∃ i, p ∈ t.peersAt i ∧ (i = t.homeIndex target ∨
      (t.peersAt (t.homeIndex target)).length < numResults ∧
        (i + 1 = t.homeIndex target ∨ i = t.homeIndex target + 1)) := by
  by_cases hmore : (t.peersAt (t.homeIndex target)).length < numResults
  · rw [window_of_lt hmore, List.mem_append, List.mem_append, mem_prevPeers]
    constructor
    · rintro ((h | ⟨i, hi, h⟩) | h)
      · exact ⟨_, h, .inl rfl⟩
      · exact ⟨i, h, .inr ⟨hmore, .inl hi⟩⟩
      · exact ⟨_, h, .inr ⟨hmore, .inr rfl⟩⟩
    · rintro ⟨i, h, rfl | ⟨-, hi | rfl⟩⟩
      · exact .inl (.inl h)
      · exact .inl (.inr ⟨i, hi, h⟩)
      · exact .inr h
  · rw [window_of_le (not_lt.mp hmore)]
    constructor
    · exact fun h => ⟨_, h, .inl rfl⟩
    · rintro ⟨i, h, rfl | ⟨hlt, -⟩⟩
      · exact h
      · exact absurd hlt hmore

theorem mem_window {p : Peer} (h : p ∈ t.window target numResults) :
    ∃ i, p ∈ t.peersAt i ∧ i ≤ t.homeIndex target + 1 ∧ t.homeIndex target ≤ i + 1 := by
  obtain ⟨i, hp, hi⟩ := mem_window_iff.mp h
  exact ⟨i, hp, by omega, by omega⟩

end Search

section Window

variable {t : RoutingTable} (ht : t.WellFormed) (target : U128) (numResults : ℕ)
include ht

theorem WellFormed.disjoint {i j : ℕ} (hij : i ≠ j) :
    ∀ p ∈ t.peersAt i, ∀ q ∈ t.peersAt j, p ≠ q := by
  rintro p hp _ hq rfl
  exact hij ((ht.home i p hp).symm.trans (ht.home j p hq))

theorem nodup_window : (t.window target numResults).Nodup := by
  have hprev : (t.prevPeers (t.homeIndex target)).Nodup := by
    unfold prevPeers
    split
    · exact ht.nodup _
    · exact List.nodup_nil
  by_cases hmore : (t.peersAt (t.homeIndex target)).length < numResults
  · rw [window_of_lt hmore]
    refine List.nodup_append.mpr ⟨List.nodup_append.mpr ⟨ht.nodup _, hprev, ?_⟩,
      ht.nodup _, ?_⟩
    · intro p hp q hq
      obtain ⟨j, hj, hq⟩ := mem_prevPeers.mp hq
      exact ht.disjoint (by omega) p hp q hq
    · intro p hp q hq
      rcases List.mem_append.mp hp with hp | hp
      · exact ht.disjoint (by omega) p hp q hq
      · obtain ⟨j, hj, hp⟩ := mem_prevPeers.mp hp
        exact ht.disjoint (by omega) p hp q hq
  · rw [window_of_le (not_lt.mp hmore)]
    exact ht.nodup _

/-- The peers `nearest_peers` does not look at. -/
def leftOut (t : RoutingTable) (target : U128) (numResults : ℕ) : List Peer :=
  t.peers.filter fun p => p ∉ t.window target numResults

theorem window_append_leftOut_perm :
    (t.window target numResults ++ t.leftOut target numResults).Perm t.peers := by
  rw [List.perm_ext_iff_of_nodup ?_ ht.nodup_peers]
  · intro p
    rw [List.mem_append, leftOut, List.mem_filter, decide_eq_true_eq]
    constructor
    · rintro (hp | hp)
      · obtain ⟨i, hp, -, -⟩ := mem_window hp
        exact mem_peers_iff.mpr ⟨i, hp⟩
      · exact hp.1
    · intro hp
      by_cases hw : p ∈ t.window target numResults
      · exact .inl hw
      · exact .inr ⟨hp, hw⟩
  · refine List.nodup_append.mpr ⟨nodup_window ht target numResults,
      ht.nodup_peers.filter _, ?_⟩
    rintro p hp _ hq rfl
    rw [leftOut, List.mem_filter, decide_eq_true_eq] at hq
    exact hq.2 hp

end Window

/-! ### The home bucket comes first -/

/-- How many of the results the home bucket has to offer. -/
def homeCount (t : RoutingTable) (target : U128) (numResults : ℕ) : ℕ :=
  min numResults (t.peersAt (t.homeIndex target)).length

/-- The result begins with the home bucket: no other peer of the table is as
near, and the first places go to its nearest peers, in order, as if there were
no other bucket. -/
structure HomeFirst (t : RoutingTable) (target : U128) (numResults : ℕ)
    (out : List Peer) : Prop where
  nearer : ∀ p ∈ t.peersAt (t.homeIndex target), ∀ i, i ≠ t.homeIndex target →
    ∀ q ∈ t.peersAt i, distance target p < distance target q
  length : (out.take (t.homeCount target numResults)).length = t.homeCount target numResults
  home : ∀ p ∈ out.take (t.homeCount target numResults), p ∈ t.peersAt (t.homeIndex target)
  undisplaced : out.take (t.homeCount target numResults) =
    (sortBy (distance target) (t.peersAt (t.homeIndex target))).take numResults
  least : (out.take (t.homeCount target numResults)).map (distance target) =
    ((t.peers.map (distance target)).insertionSort (· ≤ ·)).take (t.homeCount target numResults)

section HomeFirst

variable {t : RoutingTable} (ht : t.WellFormed) (target : U128) (numResults : ℕ)
include ht

theorem exists_window_eq_append :
    ∃ rest, t.window target numResults = t.peersAt (t.homeIndex target) ++ rest ∧
      ∀ p ∈ t.peersAt (t.homeIndex target), ∀ q ∈ rest,
        distance target p < distance target q := by
  by_cases hmore : (t.peersAt (t.homeIndex target)).length < numResults
  · refine ⟨_, (window_of_lt hmore).trans (List.append_assoc _ _ _), fun p hp q hq => ?_⟩
    rcases List.mem_append.mp hq with hq | hq
    · obtain ⟨j, hj, hq⟩ := mem_prevPeers.mp hq
      exact distance_lt_of_home ht hp hq (by omega)
    · exact distance_lt_of_home ht hp hq (by omega)
  · refine ⟨[], ?_, by simp⟩
    rw [window_of_le (not_lt.mp hmore), List.append_nil]

theorem take_insertionSort_distance {n : ℕ}
    (hn : n ≤ (t.peersAt (t.homeIndex target)).length) :
    ((t.peers.map (distance target)).insertionSort (· ≤ ·)).take n =
      ((sortBy (distance target) (t.peersAt (t.homeIndex target))).take n).map
        (distance target) := by
  have hperm : t.peers.Perm (t.peersAt (t.homeIndex target) ++
      t.peers.filter fun q => q ∉ t.peersAt (t.homeIndex target)) := by
    rw [List.perm_ext_iff_of_nodup ht.nodup_peers]
    · intro q
      rw [List.mem_append, List.mem_filter, decide_eq_true_eq]
      have hsub : q ∈ t.peersAt (t.homeIndex target) → q ∈ t.peers :=
        fun hq => mem_peers_iff.mpr ⟨_, hq⟩
      tauto
    · refine List.nodup_append.mpr ⟨ht.nodup _, ht.nodup_peers.filter _, ?_⟩
      rintro q hq _ hq' rfl
      exact (decide_eq_true_eq.mp (List.mem_filter.mp hq').2) hq
  rw [← map_key_sortBy, map_key_sortBy_of_perm hperm, ← List.map_take,
    take_sortBy_append_of_lt _ hn]
  intro p hp q hq
  obtain ⟨hq, hout⟩ := List.mem_filter.mp hq
  obtain ⟨i, hqi⟩ := mem_peers_iff.mp hq
  refine distance_lt_of_home ht hp hqi fun hi => ?_
  exact (decide_eq_true_eq.mp hout) (hi ▸ hqi)

theorem homeFirst_window :
    HomeFirst t target numResults
      ((sortBy (distance target) (t.window target numResults)).take numResults) := by
  have hle : t.homeCount target numResults ≤ (t.peersAt (t.homeIndex target)).length :=
    Nat.min_le_right _ _
  have hle' : t.homeCount target numResults ≤ numResults := Nat.min_le_left _ _
  have htake : ((sortBy (distance target) (t.window target numResults)).take numResults).take
      (t.homeCount target numResults) =
        (sortBy (distance target) (t.peersAt (t.homeIndex target))).take
          (t.homeCount target numResults) := by
    obtain ⟨rest, hw, hlt⟩ := exists_window_eq_append ht target numResults
    rw [List.take_take, Nat.min_eq_left hle', hw, take_sortBy_append_of_lt hlt hle]
  refine ⟨fun p hp i hi q hq => distance_lt_of_home ht hp hq hi, ?_, fun p hp => ?_, ?_, ?_⟩
  · rw [htake, List.length_take, length_sortBy, Nat.min_eq_left hle]
  · rw [htake] at hp
    exact mem_sortBy.mp (List.mem_of_mem_take hp)
  · rw [htake, homeCount, ← length_sortBy (distance target), ← List.take_eq_take_min]
  · rw [htake, take_insertionSort_distance ht target hle]

end HomeFirst

/-- **The home bucket is never displaced.** On every table a history of updates
leads to, the home bucket of a target is nearer to it than the rest of the
table, and a search returns its nearest peers first. -/
theorem nearestPeers_homeFirst (k : ℕ) (hk : 1 ≤ k) (localPeer : Peer) (ps : List Peer)
    (target : U128) (numResults : ℕ) :
    ∃ t out, afterUpdates k localPeer ps = some t ∧ t.nearestPeers target numResults = .ok out ∧
      HomeFirst t target numResults out := by
  obtain ⟨t, ht, hreached⟩ := afterUpdates_reached hk localPeer ps
  exact ⟨t, _, ht, nearestPeers_eq hreached.wellFormed.nonempty target numResults,
    homeFirst_window hreached.wellFormed target numResults⟩

/-- A target of the mixed last bucket that is asked for more than it holds. -/
theorem nearestPeers_homeFirst_last :
    ∃ t out, afterUpdates 1 ⟨0, "0.0.0.0:1"⟩
        [⟨1#128 <<< 127, "0.0.0.0:2"⟩, ⟨1, "0.0.0.0:3"⟩] = some t ∧
      t.nearestPeers 3 2 = .ok out ∧ HomeFirst t 3 2 out :=
  nearestPeers_homeFirst 1 (by decide) _ _ 3 2

/-! ### When the search is exact -/

/-- What `nearest_peers` is for: the nearest peers of the whole table, in
order. -/
structure NearestSpec (t : RoutingTable) (target : U128) (numResults : ℕ)
    (out : List Peer) : Prop where
  length : out.length = min numResults t.peers.length
  nodup : out.Nodup
  mem : ∀ p ∈ out, p ∈ t.peers
  sorted : out.Pairwise fun p q => distance target p ≤ distance target q
  least : out.map (distance target) =
    ((t.peers.map (distance target)).insertionSort (· ≤ ·)).take numResults

/-- The condition under which the home bucket and its two neighbours hold the
`numResults` nearest peers: the home bucket does; or else no bucket further
back holds a peer unless the next one is nearer and completes the result, and
no bucket further in front holds a peer unless the three together complete it. -/
def NeighboursSuffice (t : RoutingTable) (target : U128) (numResults : ℕ) : Prop :=
  let home := t.homeIndex target
  numResults ≤ (t.peersAt home).length ∨
    ((∀ j, home + 2 ≤ j → t.peersAt j = []) ∨
        (target.getMsbD (home + 1) ≠ t.localPeer.id.getMsbD (home + 1) ∧
          numResults ≤ (t.peersAt home).length + (t.peersAt (home + 1)).length)) ∧
      ((∀ j, j + 2 ≤ home → t.peersAt j = []) ∨
        numResults ≤ (t.peersAt home).length + (t.prevPeers home).length +
          (t.peersAt (home + 1)).length)

section Exact

variable {t : RoutingTable} (ht : t.WellFormed) (target : U128) (numResults : ℕ)
include ht

/-- The result has the least distances of the table exactly if every peer left
out has `numResults` nearer peers in the window. -/
theorem least_iff_countP :
    ((sortBy (distance target) (t.window target numResults)).take numResults).map
          (distance target) =
        ((t.peers.map (distance target)).insertionSort (· ≤ ·)).take numResults ↔
      ∀ q ∈ t.leftOut target numResults,
        numResults ≤
          (t.window target numResults).countP (distance target · < distance target q) := by
  rw [← take_sortBy_append_iff]
  · rw [← map_key_sortBy, ← map_key_sortBy_of_perm (window_append_leftOut_perm ht target _),
      List.map_take, List.map_take]
  · intro p hp q hq
    rw [leftOut, List.mem_filter, decide_eq_true_eq] at hq
    intro heq
    -- peers of equal distance share their identifier, hence their bucket
    have hid := distance_injective heq
    have hhome := (RoutingTable.WellFormed.mem_peers_iff ht).mp hq.1
    obtain ⟨i, hpi, hi⟩ := mem_window_iff.mp hp
    have hpi' := ht.home i p hpi
    rw [hid] at hpi'
    rw [hpi'] at hhome
    exact hq.2 (mem_window_iff.mpr ⟨i, hhome, hi⟩)

omit ht in
theorem mem_leftOut_iff {q : Peer} :
    q ∈ t.leftOut target numResults ↔ q ∈ t.peers ∧ q ∉ t.window target numResults := by
  rw [leftOut, List.mem_filter, decide_eq_true_eq]

/-- With enough results in the home bucket nothing else is looked at, and
nothing else is as near. -/
theorem home_suffices (hhome : numResults ≤ (t.peersAt (t.homeIndex target)).length) :
    ∀ q ∈ t.leftOut target numResults,
      numResults ≤
        (t.window target numResults).countP (distance target · < distance target q) := by
  have hw := window_of_le hhome
  intro q hq
  rw [mem_leftOut_iff, hw] at hq
  obtain ⟨j, hqj⟩ := mem_peers_iff.mp hq.1
  have hall : ∀ p ∈ t.peersAt (t.homeIndex target), distance target p < distance target q :=
    fun p hp => distance_lt_of_home ht hp hqj (fun hj => hq.2 (hj ▸ hqj))
  rw [hw, List.countP_eq_length.mpr (by simpa using hall)]
  exact hhome

section Wide

variable (hmore : (t.peersAt (t.homeIndex target)).length < numResults)
include hmore

/-- What is left out of a three-bucket search sits further back or further in
front. -/
theorem mem_leftOut_wide {q : Peer} :
    q ∈ t.leftOut target numResults ↔
      ∃ j, q ∈ t.peersAt j ∧ (t.homeIndex target + 2 ≤ j ∨ j + 2 ≤ t.homeIndex target) := by
  rw [mem_leftOut_iff, mem_window_iff, mem_peers_iff]
  constructor
  · rintro ⟨⟨j, hj⟩, hout⟩
    refine ⟨j, hj, ?_⟩
    by_contra hnear
    exact hout ⟨j, hj, by omega⟩
  · rintro ⟨j, hj, hfar⟩
    refine ⟨⟨j, hj⟩, ?_⟩
    rintro ⟨i, hi, hnear⟩
    exact ht.disjoint (by omega) q hj q hi rfl

theorem countP_shallow {q : Peer} {j : ℕ} (hq : q ∈ t.peersAt j)
    (hj : j + 2 ≤ t.homeIndex target) :
    (t.window target numResults).countP (distance target · < distance target q) =
      (t.peersAt (t.homeIndex target)).length + (t.prevPeers (t.homeIndex target)).length +
        (t.peersAt (t.homeIndex target + 1)).length := by
  rw [List.countP_eq_length.mpr, window_of_lt hmore, List.length_append,
    List.length_append]
  intro p hp
  obtain ⟨i, hp, -, hi⟩ := mem_window hp
  exact decide_eq_true (distance_lt_of_shallow ht hp hq (by omega) (by omega))

/-- Of the three buckets, the home bucket is nearer than a bucket further back,
the one in front is not, and the one after it depends on the target's bit. -/
theorem countP_deep {q : Peer} {j : ℕ} (hq : q ∈ t.peersAt j)
    (hj : t.homeIndex target + 2 ≤ j) :
    (t.window target numResults).countP (distance target · < distance target q) =
      (t.peersAt (t.homeIndex target)).length +
        if target.getMsbD (t.homeIndex target + 1) ≠
            t.localPeer.id.getMsbD (t.homeIndex target + 1)
        then (t.peersAt (t.homeIndex target + 1)).length else 0 := by
  rw [window_of_lt hmore, List.countP_append, List.countP_append]
  have hhome : (t.peersAt (t.homeIndex target)).countP
      (distance target · < distance target q) = (t.peersAt (t.homeIndex target)).length := by
    rw [List.countP_eq_length]
    intro p hp
    exact decide_eq_true (distance_lt_of_home ht hp hq (by omega))
  have hprev : (t.prevPeers (t.homeIndex target)).countP
      (distance target · < distance target q) = 0 := by
    rw [List.countP_eq_zero]
    intro p hp
    obtain ⟨i, hi, hp⟩ := mem_prevPeers.mp hp
    have hlt : distance target q < distance target p :=
      distance_lt_of_shallow ht hq hp (by omega) (by omega)
    simp only [decide_eq_true_eq]
    omega
  have hnext : (t.peersAt (t.homeIndex target + 1)).countP
      (distance target · < distance target q) =
        if target.getMsbD (t.homeIndex target + 1) ≠
            t.localPeer.id.getMsbD (t.homeIndex target + 1)
        then (t.peersAt (t.homeIndex target + 1)).length else 0 := by
    split
    · rename_i hbit
      rw [List.countP_eq_length]
      intro p hp
      exact decide_eq_true ((distance_lt_next_iff ht hp hq (by omega)).mpr hbit)
    · rename_i hbit
      rw [List.countP_eq_zero]
      intro p hp
      rw [decide_eq_true_eq, distance_lt_next_iff ht hp hq (by omega)]
      exact hbit
  rw [hhome, hprev, hnext, Nat.add_zero]

theorem wide_iff :
    (∀ q ∈ t.leftOut target numResults,
        numResults ≤
          (t.window target numResults).countP (distance target · < distance target q)) ↔
      NeighboursSuffice t target numResults := by
  have hempty {S : ℕ → Prop} (h : ¬ ∀ j, S j → t.peersAt j = []) :
      ∃ j, S j ∧ ∃ q, q ∈ t.peersAt j := by
    push Not at h
    obtain ⟨j, hS, hj⟩ := h
    exact ⟨j, hS, List.exists_mem_of_ne_nil _ hj⟩
  constructor
  · intro h
    refine .inr ⟨?_, ?_⟩
    · refine or_iff_not_imp_left.mpr fun hdeep => ?_
      obtain ⟨j, hj, q, hq⟩ := hempty hdeep
      have hcount := h q ((mem_leftOut_wide ht target numResults hmore).mpr ⟨j, hq, .inl hj⟩)
      rw [countP_deep ht target numResults hmore hq hj] at hcount
      split at hcount
      · rename_i hbit
        exact ⟨hbit, hcount⟩
      · omega
    · refine or_iff_not_imp_left.mpr fun hshallow => ?_
      obtain ⟨j, hj, q, hq⟩ := hempty hshallow
      have hcount := h q ((mem_leftOut_wide ht target numResults hmore).mpr ⟨j, hq, .inr hj⟩)
      rwa [countP_shallow ht target numResults hmore hq hj] at hcount
  · rintro (hhome | ⟨hdeep, hshallow⟩) q hq
    · omega
    · obtain ⟨j, hqj, hj | hj⟩ := (mem_leftOut_wide ht target numResults hmore).mp hq
      · rcases hdeep with hnil | ⟨hbit, hle⟩
        · simp [hnil j hj] at hqj
        · rw [countP_deep ht target numResults hmore hqj hj, if_pos hbit]
          exact hle
      · rcases hshallow with hnil | hle
        · simp [hnil j hj] at hqj
        · rw [countP_shallow ht target numResults hmore hqj hj]
          exact hle

end Wide

theorem least_iff :
    ((sortBy (distance target) (t.window target numResults)).take numResults).map
          (distance target) =
        ((t.peers.map (distance target)).insertionSort (· ≤ ·)).take numResults ↔
      NeighboursSuffice t target numResults := by
  rw [least_iff_countP ht]
  by_cases hhome : numResults ≤ (t.peersAt (t.homeIndex target)).length
  · exact iff_of_true (home_suffices ht target numResults hhome) (.inl hhome)
  · exact wide_iff ht target numResults (by omega)

/-- Whatever it misses, the result is a sorted list of distinct table entries;
so it is right exactly if its distances are. -/
theorem nearestSpec_iff :
    NearestSpec t target numResults
        ((sortBy (distance target) (t.window target numResults)).take numResults) ↔
      NeighboursSuffice t target numResults := by
  rw [← least_iff ht]
  constructor
  · exact NearestSpec.least
  · intro hleast
    refine ⟨?_, ?_, ?_, ?_, hleast⟩
    · have := congrArg List.length hleast
      rwa [List.length_map, List.length_take (l := List.insertionSort _ _),
        List.length_insertionSort, List.length_map] at this
    · exact ((sortBy_perm _).nodup_iff.mpr (nodup_window ht target numResults)).take
    · intro p hp
      obtain ⟨i, hp, -, -⟩ := mem_window (mem_sortBy.mp (List.mem_of_mem_take hp))
      exact mem_peers_iff.mpr ⟨i, hp⟩
    · exact (pairwise_sortBy _ _).take

end Exact

/-- **When `nearest_peers` finds the nearest peers.** On every table a history
of updates leads to it returns, and what it returns is the nearest peers of the
whole table exactly under `NeighboursSuffice`. -/
theorem nearestPeers_spec_iff (k : ℕ) (hk : 1 ≤ k) (localPeer : Peer) (ps : List Peer)
    (target : U128) (numResults : ℕ) :
    ∃ t out, afterUpdates k localPeer ps = some t ∧ t.nearestPeers target numResults = .ok out ∧
      (NearestSpec t target numResults out ↔ NeighboursSuffice t target numResults) := by
  obtain ⟨t, ht, hreached⟩ := afterUpdates_reached hk localPeer ps
  exact ⟨t, _, ht, nearestPeers_eq hreached.wellFormed.nonempty target numResults,
    nearestSpec_iff hreached.wellFormed target numResults⟩

theorem nearestPeers_spec_iff_skewed :
    ∃ t out, afterUpdates 1 ⟨0, "0.0.0.0:1"⟩
        [⟨1#128 <<< 125, "0.0.0.0:2"⟩, ⟨3#128 <<< 124, "0.0.0.0:3"⟩] = some t ∧
      t.nearestPeers (1#128 <<< 127) 1 = .ok out ∧
      (NearestSpec t (1#128 <<< 127) 1 out ↔ NeighboursSuffice t (1#128 <<< 127) 1) :=
  nearestPeers_spec_iff 1 (by decide) _ _ _ 1

set_option maxRecDepth 4000 in
/-- Two peers of prefix length 2 and room for one: the buckets 0 and 1 are left
empty, and a search from the other half of the identifiers finds nothing. -/
theorem nearestPeers_misses_peer :
    ∃ t out, afterUpdates 1 ⟨0, "0.0.0.0:1"⟩
        [⟨1#128 <<< 125, "0.0.0.0:2"⟩, ⟨3#128 <<< 124, "0.0.0.0:3"⟩] = some t ∧
      t.nearestPeers (1#128 <<< 127) 1 = .ok out ∧ ¬ NearestSpec t (1#128 <<< 127) 1 out := by
  refine ⟨⟨1, ⟨0, "0.0.0.0:1"⟩, [⟨0, []⟩, ⟨1, []⟩, ⟨2, [⟨1#128 <<< 125, "0.0.0.0:2"⟩]⟩, ⟨3, []⟩]⟩,
    [], rfl, rfl, fun h => ?_⟩
  have hlen := h.length
  simp [peers] at hlen

end DhtKad.RoutingTable
