import DhtKad.RoutingTable.Density
import DhtKad.RoutingTable.Refinement

/-!
How much of its history a table remembers.

Which peers a table accepts depends on the order in which they come; how it
lays out those it has accepted does not. The number of buckets can be read off
the prefix lengths of the peers: a bucket is unfolded only if it is full, and
the last bucket that was split keeps a peer (`Occupied`). So two tables that
hold the same peers agree bucket by bucket, but for a last bucket that is full
and may be unfolded or not (`layout_canonical`). As long as a table is told of
no more than `k` peers it is a single bucket and its search is exact
(`few_peers_exact`).
-/

namespace DhtKad.RoutingTable

open SortBy

/-- The buckets hold the same peers, position by position. -/
def SameLayout (t u : RoutingTable) : Prop :=
  t.buckets.length = u.buckets.length ∧ ∀ i, (t.peersAt i).Perm (u.peersAt i)

def FullEnd (t : RoutingTable) : Prop := t.k ≤ (t.peersAt (t.buckets.length - 1)).length

/-- The bucket that was split last has kept a peer. -/
def Occupied (t : RoutingTable) : Prop :=
  1 < t.buckets.length → t.peersAt (t.buckets.length - 2) ≠ []

/-! ### The bucket that was split last -/

section Occupied

variable {t u : RoutingTable} {p : Peer}

theorem occupied_new (k : ℕ) (localPeer : Peer) : (new k localPeer).Occupied :=
  fun h => absurd h (by simp [new])

/-- A full bucket was split, and less than that moved on. -/
theorem Unfolds.occupied (ht : t.WellFormed) (hfull : t.FullEnd) (hu : Unfolds t u) :
    u.Occupied := by
  intro hlen hnil
  have hend := hu.length_endPeers (length_pos ht.nonempty)
  have hmore := hu.full_end ht hfull
  have hroom := hu.room
  have hk := hu.k_eq
  have hprev : u.prevPeers (u.buckets.length - 1) = [] := by
    rw [prevPeers, if_pos (by omega)]
    exact hnil
  rw [endPeers, hprev, List.nil_append] at hend
  omega

theorem Occupied.modifyPeers (h : t.Occupied) {i : ℕ} (hi : i < t.buckets.length)
    {f : List Peer → List Peer} (hf : (t.peersAt i).length ≤ (f (t.peersAt i)).length) :
    (t.modifyPeers i f).Occupied := by
  intro hlen
  rw [length_modifyPeers] at hlen ⊢
  have hpos := List.length_pos_iff.mpr (h hlen)
  rw [peersAt_modifyPeers t hi, ← List.length_pos_iff]
  split
  · rename_i heq
    rw [heq] at hpos
    omega
  · exact hpos

theorem Updated.occupied {t' : RoutingTable} {r : Except NoCapacityError Unit}
    (ht : t.WellFormed) (ho : t.Occupied) (h : Updated t p t' r) : t'.Occupied := by
  have hhome {u : RoutingTable} (hu : u.WellFormed) := homeIndex_lt hu.nonempty p.id
  cases h with
  | refreshed hp => exact ho.modifyPeers (hhome ht) (refresh_perm hp).length_eq.ge
  | added hp hroom => exact ho.modifyPeers (hhome ht) (by simp)
  | rejected hp hfull hinner => exact ho
  | unfoldedAdded u hp hfull hlast hu hroom =>
      rw [show t.homeIndex p.id = t.buckets.length - 1 by omega] at hfull
      exact (hu.occupied ht hfull).modifyPeers (hhome (hu.wellFormed ht)) (by simp)
  | unfoldedRejected u hp hfull hlast hu hufull =>
      rw [show t.homeIndex p.id = t.buckets.length - 1 by omega] at hfull
      exact hu.occupied ht hfull

end Occupied

theorem occupied_of_afterUpdates {k : ℕ} {localPeer : Peer} {ps : List Peer} {t : RoutingTable}
    (h : afterUpdates k localPeer ps = some t) : t.Occupied := by
  refine (Run.run_invariant (I := fun t => Held k localPeer t ∧ t.Occupied) ?_
    ⟨held_new k localPeer, occupied_new k localPeer⟩ h).2
  rintro t p t' ⟨ht, ho⟩ hnext
  obtain ⟨r, hu⟩ := exists_update_of_next hnext
  obtain ⟨-, hupd, hheld⟩ := ht.updated_of_update hu
  exact ⟨hheld, hupd.occupied ht.wellFormed ho⟩

/-! ### The layout from the peers -/

section Layout

variable {t u : RoutingTable}

/-- How many peers share the first `j` bits with the local identifier. -/
def countFrom (t : RoutingTable) (j : ℕ) : ℕ :=
  t.peers.countP fun p => j ≤ commonPrefixLength t.localPeer.id p.id

theorem countFrom_antitone (t : RoutingTable) {i j : ℕ} (h : i ≤ j) :
    t.countFrom j ≤ t.countFrom i := by
  apply List.countP_mono_left
  intro p _ hp
  rw [decide_eq_true_iff] at hp ⊢
  omega

theorem WellFormed.peersAt_perm (ht : t.WellFormed) (i : ℕ) :
    (t.peersAt i).Perm (t.peers.filter fun p => t.homeIndex p.id = i) := by
  rw [List.perm_ext_iff_of_nodup (ht.nodup i) (ht.nodup_peers.filter _)]
  intro p
  rw [List.mem_filter, decide_eq_true_iff, ht.mem_peers_iff]
  constructor
  · intro hp
    have hhome := ht.home i p hp
    rw [hhome]
    exact ⟨hp, rfl⟩
  · rintro ⟨hp, rfl⟩
    exact hp

theorem WellFormed.length_last (ht : t.WellFormed) :
    (t.peersAt (t.buckets.length - 1)).length = t.countFrom (t.buckets.length - 1) := by
  rw [(ht.peersAt_perm _).length_eq, countFrom, List.countP_eq_length_filter]
  congr 1
  apply List.filter_congr
  intro p _
  unfold homeIndex
  rw [decide_eq_decide]
  omega

theorem WellFormed.length_endPeers (ht : t.WellFormed) (hlen : 1 < t.buckets.length) :
    t.endPeers.length = t.countFrom (t.buckets.length - 2) := by
  have hprev : (t.peersAt (t.buckets.length - 2)).length =
      t.peers.countP fun p => t.homeIndex p.id = t.buckets.length - 2 := by
    rw [(ht.peersAt_perm _).length_eq, List.countP_eq_length_filter]
  -- what counts from the last position but one sits there or behind it
  have hsplit : t.countFrom (t.buckets.length - 2) =
      (t.peers.countP fun p => t.homeIndex p.id = t.buckets.length - 2) +
        t.countFrom (t.buckets.length - 1) := by
    rw [countFrom, List.countP_eq_countP_filter_add t.peers _
      (fun p => decide (t.homeIndex p.id = t.buckets.length - 2)), List.countP_filter,
      List.countP_filter]
    refine congrArg₂ (· + ·) (List.countP_congr fun p _ => ?_) (List.countP_congr fun p _ => ?_)
    · rw [Bool.and_eq_true, decide_eq_true_iff, decide_eq_true_iff]
      unfold homeIndex
      omega
    · rw [Bool.and_eq_true, decide_eq_true_iff, Bool.not_eq_true', decide_eq_false_iff_not,
        decide_eq_true_iff]
      unfold homeIndex
      omega
  rw [endPeers, prevPeers, if_pos (by omega), List.length_append,
    show t.buckets.length - 1 - 1 = t.buckets.length - 2 by omega, hprev, ht.length_last, hsplit]

theorem sameLayout_of_length (ht : t.WellFormed) (hu : u.WellFormed)
    (hlocal : t.localPeer = u.localPeer) (hlen : t.buckets.length = u.buckets.length)
    (hpeers : t.peers.Perm u.peers) : SameLayout t u := by
  refine ⟨hlen, fun i => ((ht.peersAt_perm i).trans ?_).trans (hu.peersAt_perm i).symm⟩
  have hhome : t.homeIndex = u.homeIndex := by
    funext id
    rw [homeIndex, homeIndex, hlocal, hlen]
  rw [hhome]
  exact hpeers.filter _

/-- A shorter table with the same peers has a full last bucket, and unfolding it
leads to the longer one. -/
theorem sameLayout_of_unfolds (ht : t.WellFormed) (hk : 0 < t.k) (hu : u.WellFormed)
    (hd : u.Dense) (ho : u.Occupied) (hlocal : t.localPeer = u.localPeer) (hkk : t.k = u.k)
    (hpeers : t.peers.Perm u.peers) (hlt : t.buckets.length < u.buckets.length) :
    t.FullEnd ∧ ∃ v, unfoldBuckets unfoldDepth t = .ok v ∧ SameLayout v u := by
  have hpos := length_pos ht.nonempty
  have hcount (j : ℕ) : u.countFrom j = t.countFrom j := by
    rw [countFrom, countFrom, hlocal]
    exact (hpeers.countP_eq _).symm
  -- what had to be full before the last split of `u` is the last bucket of `t`
  have hdense := hd.full (by omega)
  rw [hu.length_endPeers (by omega), hcount] at hdense
  have hmono := t.countFrom_antitone
    (show t.buckets.length - 1 ≤ u.buckets.length - 2 by omega)
  have hlast := ht.length_last
  have hcap := ht.capacity (t.buckets.length - 1)
  have hfull : t.FullEnd := by
    unfold FullEnd
    omega
  obtain ⟨v, hv, hunf⟩ := ht.unfolds hk hfull
  have hvwf := hunf.wellFormed ht
  have hvpeers : v.peers.Perm t.peers := by
    rw [List.perm_ext_iff_of_nodup hvwf.nodup_peers ht.nodup_peers]
    exact fun p => hunf.mem_peers_iff ht
  have hvcount (j : ℕ) : v.countFrom j = t.countFrom j := by
    rw [countFrom, countFrom, hunf.localPeer_eq]
    exact hvpeers.countP_eq _
  have hvlt := hunf.length_lt
  have hvroom := hunf.room
  rw [hvwf.length_last, hvcount, hunf.k_eq] at hvroom
  -- the last bucket of `u` has room, since the one in front of it is occupied
  have huroom : t.countFrom (u.buckets.length - 1) < t.k := by
    have hend := hu.length_endPeers (by omega)
    have hocc := List.length_pos_iff.mpr (ho (by omega))
    rw [endPeers, prevPeers, if_pos (by omega), List.length_append,
      show u.buckets.length - 1 - 1 = u.buckets.length - 2 by omega, hu.length_last, hcount,
      hcount] at hend
    omega
  have hvfull : t.k ≤ t.countFrom (v.buckets.length - 2) := by
    have hdv := (hunf.dense ht hk hfull).full (by omega)
    rwa [hvwf.length_endPeers (by omega), hvcount, hunf.k_eq] at hdv
  have hlen : v.buckets.length = u.buckets.length := by
    rcases Nat.lt_trichotomy v.buckets.length u.buckets.length with h | h | h
    · have := t.countFrom_antitone
        (show v.buckets.length - 1 ≤ u.buckets.length - 2 by omega)
      omega
    · exact h
    · have := t.countFrom_antitone
        (show u.buckets.length - 1 ≤ v.buckets.length - 2 by omega)
      omega
  exact ⟨hfull, v, hv _ le_rfl, sameLayout_of_length hvwf hu
    (hunf.localPeer_eq.trans hlocal) hlen (hvpeers.trans hpeers)⟩

end Layout

/-- **The layout is canonical.** Two histories that lead to the same peers lead
to the same buckets, up to the order in them; only a last bucket that is full
may have been unfolded by one of them and not by the other. -/
theorem layout_canonical (k : ℕ) (hk : 1 ≤ k) (localPeer : Peer) (ps qs : List Peer) :
    ∃ t u, afterUpdates k localPeer ps = some t ∧ afterUpdates k localPeer qs = some u ∧
      ((∀ p, p ∈ t.peers ↔ p ∈ u.peers) →
        SameLayout t u ∨
          (t.FullEnd ∧ ∃ v, unfoldBuckets unfoldDepth t = .ok v ∧ SameLayout v u) ∨
          (u.FullEnd ∧ ∃ v, unfoldBuckets unfoldDepth u = .ok v ∧ SameLayout v t)) := by
  obtain ⟨t, ht, htr⟩ := afterUpdates_reached hk localPeer ps
  obtain ⟨u, hu, hur⟩ := afterUpdates_reached hk localPeer qs
  have hlocal : t.localPeer = u.localPeer := htr.localPeer_eq.trans hur.localPeer_eq.symm
  have hkk : t.k = u.k := htr.k_eq.trans hur.k_eq.symm
  have htk : 0 < t.k := htr.k_eq ▸ hk
  refine ⟨t, u, ht, hu, fun hmem => ?_⟩
  have hpeers : t.peers.Perm u.peers :=
    (List.perm_ext_iff_of_nodup htr.wellFormed.nodup_peers hur.wellFormed.nodup_peers).mpr hmem
  rcases Nat.lt_trichotomy t.buckets.length u.buckets.length with hlt | heq | hgt
  · exact .inr (.inl (sameLayout_of_unfolds htr.wellFormed htk hur.wellFormed
      (dense_of_afterUpdates hu) (occupied_of_afterUpdates hu) hlocal hkk hpeers hlt))
  · exact .inl (sameLayout_of_length htr.wellFormed hur.wellFormed hlocal heq hpeers)
  · exact .inr (.inr (sameLayout_of_unfolds hur.wellFormed (hkk ▸ htk) htr.wellFormed
      (dense_of_afterUpdates ht) (occupied_of_afterUpdates ht) hlocal.symm hkk.symm
      hpeers.symm hgt))

/-- Only one of the two histories has a peer rejected, and unfolds for it. -/
theorem layout_canonical_rejected :
    ∃ t u, afterUpdates 1 ⟨0, "0.0.0.0:1"⟩ [⟨1#128 <<< 125, "0.0.0.0:2"⟩] = some t ∧
      afterUpdates 1 ⟨0, "0.0.0.0:1"⟩
        [⟨1#128 <<< 125, "0.0.0.0:2"⟩, ⟨1#128 <<< 125, "0.0.0.0:3"⟩] = some u ∧
      ((∀ p, p ∈ t.peers ↔ p ∈ u.peers) →
        SameLayout t u ∨
          (t.FullEnd ∧ ∃ v, unfoldBuckets unfoldDepth t = .ok v ∧ SameLayout v u) ∨
          (u.FullEnd ∧ ∃ v, unfoldBuckets unfoldDepth u = .ok v ∧ SameLayout v t)) :=
  layout_canonical 1 (by decide) _ _ _

/-! ### Few peers -/

/-- A table of a single bucket that holds what it was told of. -/
structure Single (ps : List Peer) (t : RoutingTable) : Prop where
  length_eq : t.buckets.length = 1
  mem_iff : ∀ p, p ∈ t.peers ↔ p ∈ ps

section Single

variable {k : ℕ} {localPeer p : Peer} {ps : List Peer} {t : RoutingTable}

theorem Single.homeIndex_eq (h : Single ps t) (id : U128) : t.homeIndex id = 0 := by
  simp [homeIndex, h.length_eq]

theorem Single.peersAt_zero (h : Single ps t) : t.peersAt 0 = t.peers := by
  obtain ⟨b, hb⟩ := List.length_eq_one_iff.mp h.length_eq
  simp [peersAt, peers, hb]

theorem Single.room (h : Single ps t) (ht : Reached k localPeer t) (hp : p ∉ t.peers)
    (hfew : (ps ++ [p]).toFinset.card ≤ k) : t.peers.length < t.k := by
  have hnodup : (p :: t.peers).Nodup := List.nodup_cons.mpr ⟨hp, ht.wellFormed.nodup_peers⟩
  have hsubset : (p :: t.peers).toFinset ⊆ (ps ++ [p]).toFinset := by
    intro q hq
    rw [List.mem_toFinset, List.mem_cons, h.mem_iff] at hq
    rw [List.mem_toFinset, List.mem_append, List.mem_singleton]
    exact hq.symm
  have hcard := Finset.card_le_card hsubset
  rw [List.toFinset_card_of_nodup hnodup, List.length_cons] at hcard
  have := ht.k_eq
  omega

theorem Single.updated {t' : RoutingTable} {r : Except NoCapacityError Unit} (h : Single ps t)
    (ht : Reached k localPeer t) (hfew : (ps ++ [p]).toFinset.card ≤ k) (hu : Updated t p t' r) :
    Single (ps ++ [p]) t' := by
  have hhome := h.homeIndex_eq p.id
  have hnot (hp : p ∉ t.peersAt (t.homeIndex p.id))
      (hfull : t.k ≤ (t.peersAt (t.homeIndex p.id)).length) : False := by
    rw [hhome, h.peersAt_zero] at hp hfull
    have := h.room ht hp hfew
    omega
  cases hu with
  | refreshed hp =>
      refine ⟨(length_modifyPeers _ _ _).trans h.length_eq, fun q => ?_⟩
      rw [ht.wellFormed.mem_peers_refresh hp, List.mem_append, List.mem_singleton, h.mem_iff,
        or_iff_left_of_imp]
      rintro rfl
      exact (h.mem_iff q).mp (ht.wellFormed.mem_peers_iff.mpr hp)
  | added hp hroom =>
      refine ⟨(length_modifyPeers _ _ _).trans h.length_eq, fun q => ?_⟩
      rw [ht.wellFormed.mem_peers_insert hp hroom, h.mem_iff, List.mem_append,
        List.mem_singleton]
  | rejected hp hfull hinner => exact (hnot hp hfull).elim
  | unfoldedAdded u hp hfull hlast hu hroom => exact (hnot hp hfull).elim
  | unfoldedRejected u hp hfull hlast hu hufull => exact (hnot hp hfull).elim

theorem single_of_few (localPeer : Peer) (hfew : ps.toFinset.card ≤ k) :
    ∃ t, afterUpdates k localPeer ps = some t ∧ Reached k localPeer t ∧ Single ps t := by
  induction ps using List.reverseRecOn with
  | nil =>
      refine ⟨_, rfl, reached_new k localPeer, rfl, fun p => ?_⟩
      simp [peers, new, Bucket.new]
  | append_singleton ps p ih =>
      have hmono : ps.toFinset.card ≤ (ps ++ [p]).toFinset.card :=
        Finset.card_le_card fun q hq => by
          rw [List.mem_toFinset] at hq ⊢
          exact List.mem_append_left _ hq
      obtain ⟨t, ht, hreached, hsingle⟩ := ih (hmono.trans hfew)
      have hk : 0 < k := by
        have : 0 < (ps ++ [p]).toFinset.card := Finset.card_pos.mpr ⟨p, by simp⟩
        omega
      obtain ⟨t', r, hupdate, hupd⟩ := hreached.update_updated hk p
      exact ⟨t', (afterUpdates_concat ht p).trans (next_eq hupdate), hreached.updated hupd,
        hsingle.updated hreached hfew hupd⟩

end Single

/-- **Few peers.** A table that is told of no more than `k` different peers
holds all of them in a single bucket, and every search is exact: it returns the
nearest of all peers, in order. -/
theorem few_peers_exact (k : ℕ) (localPeer : Peer) (ps : List Peer)
    (hfew : ps.toFinset.card ≤ k) :
    ∃ t, afterUpdates k localPeer ps = some t ∧ t.buckets.length = 1 ∧
      (∀ p, p ∈ t.peers ↔ p ∈ ps) ∧
      ∀ target numResults, t.nearestPeers target numResults =
        .ok ((sortBy (distance target) t.peers).take numResults) := by
  obtain ⟨t, ht, hreached, hsingle⟩ := single_of_few localPeer hfew
  refine ⟨t, ht, hsingle.length_eq, hsingle.mem_iff, fun target numResults => ?_⟩
  have hwindow : t.window target numResults = t.peers := by
    by_cases hmore : (t.peersAt (t.homeIndex target)).length < numResults
    · rw [window_of_lt hmore, hsingle.homeIndex_eq, hsingle.peersAt_zero, prevPeers,
        if_neg (lt_irrefl 0), List.append_nil,
        peersAt_eq_nil_of_le (by rw [hsingle.length_eq]), List.append_nil]
    · rw [window_of_le (not_lt.mp hmore), hsingle.homeIndex_eq, hsingle.peersAt_zero]
  rw [nearestPeers_eq hreached.wellFormed.nonempty, hwindow]

end DhtKad.RoutingTable
