import DhtKad.RoutingTable.Unfold

/-!
The representation invariant of the routing table.

Its heart is the clause `home`: a peer sits in the bucket its identifier
belongs to, which for an inner bucket means a prefix length equal to the
position and for the last bucket one that is at least the position. Unfolding
keeps the clause because it distributes the last bucket by the very positions
of the longer table.
-/

namespace DhtKad.RoutingTable

/-- The invariant in the form in which the steps keep it. -/
structure WellFormed (t : RoutingTable) : Prop where
  nonempty : t.buckets ≠ []
  indexed : t.Indexed
  home : ∀ i, ∀ p ∈ t.peersAt i, t.homeIndex p.id = i
  capacity : ∀ i, (t.peersAt i).length ≤ t.k
  nodup : ∀ i, (t.peersAt i).Nodup

theorem wellFormed_new (k : ℕ) (localPeer : Peer) : (new k localPeer).WellFormed := by
  have hempty : ∀ i, (new k localPeer).peersAt i = [] := by
    intro i
    cases i <;> rfl
  refine ⟨by simp [new], ?_, ?_, ?_, ?_⟩
  · intro i b hb
    cases i with
    | zero =>
        obtain rfl := Option.some.inj hb
        rfl
    | succ i => simp [new] at hb
  · intro i p hp
    simp [hempty] at hp
  · simp [hempty]
  · simp [hempty]

section WellFormed

variable {t u : RoutingTable} {p : Peer}

theorem WellFormed.mem_peers_iff (h : t.WellFormed) :
    p ∈ t.peers ↔ p ∈ t.peersAt (t.homeIndex p.id) := by
  rw [RoutingTable.mem_peers_iff]
  constructor
  · rintro ⟨i, hp⟩
    rwa [h.home i p hp]
  · exact fun hp => ⟨_, hp⟩

theorem WellFormed.inner (h : t.WellFormed) {i : ℕ} (hi : i + 1 < t.buckets.length)
    (hp : p ∈ t.peersAt i) : commonPrefixLength t.localPeer.id p.id = i := by
  have := h.home i p hp
  unfold homeIndex at this
  omega

theorem WellFormed.le_of_mem (h : t.WellFormed) {i : ℕ} (hp : p ∈ t.peersAt i) :
    i ≤ commonPrefixLength t.localPeer.id p.id := by
  have := h.home i p hp
  unfold homeIndex at this
  omega

/-- Peers of different buckets are different, so uniqueness inside each bucket
is uniqueness in the table. -/
theorem WellFormed.nodup_peers (h : t.WellFormed) : t.peers.Nodup := by
  rw [peers, List.nodup_flatMap]
  constructor
  · intro b hb
    obtain ⟨i, hi⟩ := List.mem_iff_getElem?.mp hb
    rw [← peersAt_of_getElem? hi]
    exact h.nodup i
  · rw [List.pairwise_iff_getElem]
    intro i j hi hj hij p hpi hpj
    have hpi' : p ∈ t.peersAt i := by
      rwa [peersAt_of_getElem? (List.getElem?_eq_getElem hi)]
    have hpj' : p ∈ t.peersAt j := by
      rwa [peersAt_of_getElem? (List.getElem?_eq_getElem hj)]
    have := (h.home i p hpi').symm.trans (h.home j p hpj')
    omega

/-! ### The steps keep the invariant -/

theorem Unfolds.nonempty (hu : Unfolds t u) : u.buckets ≠ [] := by
  intro h
  have := hu.length_lt
  simp [h] at this

theorem Unfolds.homeIndex_of_lt (hu : Unfolds t u) {id : U128}
    (h : t.homeIndex id + 1 < t.buckets.length) : u.homeIndex id = t.homeIndex id := by
  have hlt := hu.length_lt
  rw [hu.homeIndex_eq]
  unfold homeIndex at h ⊢
  omega

theorem Unfolds.le_homeIndex (hu : Unfolds t u) {id : U128}
    (h : t.homeIndex id + 1 = t.buckets.length) : t.buckets.length ≤ u.homeIndex id + 1 := by
  have hlt := hu.length_lt
  rw [hu.homeIndex_eq]
  unfold homeIndex at h
  omega

/-- The last bucket has room after an unfolding, so a bucket without room is one
in front of it. -/
theorem Unfolds.inner_of_full (hu : Unfolds t u) {i : ℕ} (hi : i < u.buckets.length)
    (hfull : u.k ≤ (u.peersAt i).length) : i + 1 < u.buckets.length := by
  have hroom := hu.room
  by_contra hlast
  rw [show i = u.buckets.length - 1 by omega] at hfull
  omega

theorem Unfolds.wellFormed (ht : t.WellFormed) (hu : Unfolds t u) : u.WellFormed := by
  have hlt := hu.length_lt
  refine ⟨hu.nonempty, hu.indexed, ?_, ?_, ?_⟩
  · intro i p hp
    by_cases hi : i + 1 < t.buckets.length
    · rw [hu.before i hi] at hp
      have hhome := ht.home i p hp
      rw [hu.homeIndex_of_lt (by omega), hhome]
    · rw [hu.after i (by omega)] at hp
      simpa using (List.mem_filter.mp hp).2
  · intro i
    rw [hu.k_eq]
    by_cases hi : i + 1 < t.buckets.length
    · rw [hu.before i hi]
      exact ht.capacity i
    · rw [hu.after i (by omega)]
      exact (List.length_filter_le _ _).trans (ht.capacity _)
  · intro i
    by_cases hi : i + 1 < t.buckets.length
    · rw [hu.before i hi]
      exact ht.nodup i
    · rw [hu.after i (by omega)]
      exact (ht.nodup _).filter _

theorem Unfolds.mem_peers_iff (ht : t.WellFormed) (hu : Unfolds t u) :
    p ∈ u.peers ↔ p ∈ t.peers := by
  rw [(hu.wellFormed ht).mem_peers_iff, ht.mem_peers_iff]
  have hlt := homeIndex_lt ht.nonempty p.id
  by_cases hi : t.homeIndex p.id + 1 < t.buckets.length
  · rw [hu.homeIndex_of_lt hi, hu.before _ hi]
  · have hlast : t.homeIndex p.id = t.buckets.length - 1 := by omega
    rw [hu.after _ (hu.le_homeIndex (by omega)), List.mem_filter, hlast]
    simp

theorem WellFormed.modifyPeers (h : t.WellFormed) {i : ℕ} (hi : i < t.buckets.length)
    {f : List Peer → List Peer} (hhome : ∀ p ∈ f (t.peersAt i), t.homeIndex p.id = i)
    (hcap : (f (t.peersAt i)).length ≤ t.k) (hnodup : (f (t.peersAt i)).Nodup) :
    (t.modifyPeers i f).WellFormed := by
  refine ⟨?_, indexed_modifyPeers h.indexed i f, ?_, ?_, ?_⟩
  · rw [← List.length_pos_iff, length_modifyPeers]
    omega
  · intro j p hp
    rw [peersAt_modifyPeers t hi] at hp
    rw [homeIndex_modifyPeers]
    split at hp
    · subst j
      exact hhome p hp
    · exact h.home j p hp
  · intro j
    rw [peersAt_modifyPeers t hi]
    split
    · exact hcap
    · exact h.capacity j
  · intro j
    rw [peersAt_modifyPeers t hi]
    split
    · exact hnodup
    · exact h.nodup j

theorem peersAt_insert (ht : t.buckets ≠ []) (p : Peer) (j : ℕ) :
    (t.insert p).peersAt j =
      if j = t.homeIndex p.id then t.peersAt (t.homeIndex p.id) ++ [p] else t.peersAt j :=
  peersAt_modifyPeers t (homeIndex_lt ht p.id) _ j

theorem peersAt_refresh (ht : t.buckets ≠ []) (p : Peer) (j : ℕ) :
    (t.refresh p).peersAt j =
      if j = t.homeIndex p.id then (t.peersAt (t.homeIndex p.id)).erase p ++ [p]
      else t.peersAt j :=
  peersAt_modifyPeers t (homeIndex_lt ht p.id) _ j

theorem refresh_perm (hp : p ∈ t.peersAt (t.homeIndex p.id)) :
    ((t.peersAt (t.homeIndex p.id)).erase p ++ [p]).Perm (t.peersAt (t.homeIndex p.id)) :=
  (List.perm_append_singleton _ _).trans (List.perm_cons_erase hp).symm

theorem WellFormed.refresh (h : t.WellFormed) (hp : p ∈ t.peersAt (t.homeIndex p.id)) :
    (t.refresh p).WellFormed := by
  have hperm := refresh_perm hp
  apply h.modifyPeers (homeIndex_lt h.nonempty p.id)
  · intro q hq
    exact h.home _ q (hperm.mem_iff.mp hq)
  · rw [hperm.length_eq]
    exact h.capacity _
  · exact hperm.nodup_iff.mpr (h.nodup _)

theorem WellFormed.insert (h : t.WellFormed) (hp : p ∉ t.peersAt (t.homeIndex p.id))
    (hroom : (t.peersAt (t.homeIndex p.id)).length < t.k) : (t.insert p).WellFormed := by
  apply h.modifyPeers (homeIndex_lt h.nonempty p.id)
  · intro q hq
    rcases List.mem_append.mp hq with hq | hq
    · exact h.home _ q hq
    · rw [List.mem_singleton.mp hq]
  · rw [List.length_append, List.length_singleton]
    omega
  · refine List.nodup_append.mpr ⟨h.nodup _, List.nodup_singleton p, ?_⟩
    intro q hq q' hq'
    rw [List.mem_singleton.mp hq']
    rintro rfl
    exact hp hq

theorem Unfolds.not_mem (ht : t.WellFormed) (hu : Unfolds t u)
    (hp : p ∉ t.peersAt (t.homeIndex p.id)) : p ∉ u.peersAt (u.homeIndex p.id) := by
  rwa [← (hu.wellFormed ht).mem_peers_iff, hu.mem_peers_iff ht, ht.mem_peers_iff]

theorem Updated.wellFormed {t' : RoutingTable} {r : Except NoCapacityError Unit}
    (ht : t.WellFormed) (h : Updated t p t' r) : t'.WellFormed := by
  cases h with
  | refreshed hp => exact ht.refresh hp
  | added hp hroom => exact ht.insert hp hroom
  | rejected hp hfull hinner => exact ht
  | unfoldedAdded u hp hfull hlast hu hroom =>
      exact (hu.wellFormed ht).insert (hu.not_mem ht hp) hroom
  | unfoldedRejected u hp hfull hlast hu hufull => exact hu.wellFormed ht

theorem Updated.k_eq {t' : RoutingTable} {r : Except NoCapacityError Unit}
    (h : Updated t p t' r) : t'.k = t.k := by
  cases h with
  | refreshed hp => rfl
  | added hp hroom => rfl
  | rejected hp hfull hinner => rfl
  | unfoldedAdded u hp hfull hlast hu hroom => exact hu.k_eq
  | unfoldedRejected u hp hfull hlast hu hufull => exact hu.k_eq

theorem Updated.localPeer_eq {t' : RoutingTable} {r : Except NoCapacityError Unit}
    (h : Updated t p t' r) : t'.localPeer = t.localPeer := by
  cases h with
  | refreshed hp => rfl
  | added hp hroom => rfl
  | rejected hp hfull hinner => rfl
  | unfoldedAdded u hp hfull hlast hu hroom => exact hu.localPeer_eq
  | unfoldedRejected u hp hfull hlast hu hufull => exact hu.localPeer_eq

/-- **What a call of `update` does.** On a well-formed table with room for a
peer it returns, in one of the five ways. -/
theorem WellFormed.update_updated (ht : t.WellFormed) (hk : 0 < t.k) (p : Peer) :
    ∃ t' r, t.update p = .ok (t', r) ∧ Updated t p t' r := by
  rw [update_eq ht.nonempty]
  by_cases hp : p ∈ t.peersAt (t.homeIndex p.id)
  · rw [if_pos hp]
    exact ⟨_, _, rfl, .refreshed hp⟩
  rw [if_neg hp]
  by_cases hroom : (t.peersAt (t.homeIndex p.id)).length < t.k
  · rw [if_pos hroom]
    exact ⟨_, _, rfl, .added hp hroom⟩
  rw [if_neg hroom]
  have hfull := not_lt.mp hroom
  have hlt := homeIndex_lt ht.nonempty p.id
  have hpos := length_pos ht.nonempty
  by_cases hlast : t.homeIndex p.id = t.buckets.length - 1
  · rw [if_pos hlast]
    have hdepth : 130 ≤ t.buckets.length + unfoldDepth := by unfold unfoldDepth; omega
    obtain ⟨u, hu, hUnf⟩ := unfoldBuckets_unfolds ht.nonempty ht.indexed
      (fun q hq => ht.le_of_mem hq) hk (hlast ▸ hfull) hdepth
    have hune := hUnf.nonempty
    obtain ⟨b, hb, hat, hpeers⟩ := exists_bucket (homeIndex_lt hune p.id)
    rw [hu]
    simp only [Except.bind, lastIndex_eq hune]
    rw [← hUnf.localPeer_eq, clamp_eq_homeIndex u p.id]
    simp only [hat]
    by_cases hufull : b.peers.length ≥ u.k
    · rw [if_pos hufull]
      exact ⟨_, _, rfl, .unfoldedRejected u hp hfull (by omega) hUnf (hpeers ▸ hufull)⟩
    · rw [if_neg hufull, addPeerToBucket_homeIndex hune p]
      exact ⟨_, _, rfl, .unfoldedAdded u hp hfull (by omega) hUnf
        (hpeers ▸ not_le.mp hufull)⟩
  · rw [if_neg hlast]
    exact ⟨_, _, rfl, .rejected hp hfull (by omega)⟩

theorem WellFormed.updated_of_update (ht : t.WellFormed) (hk : 0 < t.k) {t' : RoutingTable}
    {r : Except NoCapacityError Unit} (h : t.update p = .ok (t', r)) : Updated t p t' r := by
  obtain ⟨t'', r'', heq, hupd⟩ := ht.update_updated hk p
  obtain ⟨rfl, rfl⟩ := Prod.mk.inj (Except.ok.inj (h.symm.trans heq))
  exact hupd

end WellFormed

/-! ### Histories of updates -/

/-- What is known of a table that a history of updates has led to. -/
structure Reached (k : ℕ) (localPeer : Peer) (t : RoutingTable) : Prop where
  wellFormed : t.WellFormed
  k_eq : t.k = k
  localPeer_eq : t.localPeer = localPeer

theorem reached_new (k : ℕ) (localPeer : Peer) : Reached k localPeer (new k localPeer) :=
  ⟨wellFormed_new k localPeer, rfl, rfl⟩

theorem Reached.updated {k : ℕ} {localPeer p : Peer} {t t' : RoutingTable}
    {r : Except NoCapacityError Unit} (h : Reached k localPeer t) (hu : Updated t p t' r) :
    Reached k localPeer t' :=
  ⟨hu.wellFormed h.wellFormed, hu.k_eq.trans h.k_eq, hu.localPeer_eq.trans h.localPeer_eq⟩

theorem Reached.update_updated {k : ℕ} {localPeer : Peer} {t : RoutingTable}
    (h : Reached k localPeer t) (hk : 0 < k) (p : Peer) :
    ∃ t' r, t.update p = .ok (t', r) ∧ Updated t p t' r :=
  h.wellFormed.update_updated (h.k_eq ▸ hk) p

theorem next_eq {t t' : RoutingTable} {p : Peer} {r : Except NoCapacityError Unit}
    (h : t.update p = .ok (t', r)) : t.next p = some t' := by
  rw [next, h]

theorem exists_update_of_next {t t' : RoutingTable} {p : Peer} (h : t.next p = some t') :
    ∃ r, t.update p = .ok (t', r) := by
  unfold next at h
  split at h
  · rename_i u r hu
    obtain rfl := Option.some.inj h
    exact ⟨r, hu⟩
  · cases h

theorem afterUpdates_concat {k : ℕ} {localPeer : Peer} {ps : List Peer} {t : RoutingTable}
    (ht : afterUpdates k localPeer ps = some t) (p : Peer) :
    afterUpdates k localPeer (ps ++ [p]) = t.next p := by
  rw [afterUpdates] at ht ⊢
  rw [Run.run_concat, ht, Option.bind_some]

theorem afterUpdates_reached {k : ℕ} (hk : 0 < k) (localPeer : Peer) (ps : List Peer) :
    ∃ t, afterUpdates k localPeer ps = some t ∧ Reached k localPeer t := by
  apply Run.run_isSome _ ps (reached_new k localPeer)
  intro t p ht
  obtain ⟨t', r, hupdate, hupd⟩ := ht.update_updated hk p
  exact ⟨t', next_eq hupdate, ht.updated hupd⟩

theorem reached_of_afterUpdates {k : ℕ} (hk : 0 < k) {localPeer : Peer} {ps : List Peer}
    {t : RoutingTable} (h : afterUpdates k localPeer ps = some t) : Reached k localPeer t := by
  obtain ⟨t', h', hreached⟩ := afterUpdates_reached hk localPeer ps
  obtain rfl := Option.some.inj (h.symm.trans h')
  exact hreached

/-! ### Tables without room

With `k = 0` an update does not return, so the only table there is is the new
one. -/

/-- A table without room for a peer has not been changed. -/
def Untouched (t : RoutingTable) : Prop := t.k = 0 → t.buckets = [Bucket.new 0]

theorem untouched_new (k : ℕ) (localPeer : Peer) : (new k localPeer).Untouched :=
  fun _ => rfl

/-- An update that returns has found room for a peer, and a bucket. -/
theorem Untouched.roomy_of_update {t t' : RoutingTable} (ht : t.Untouched) {p : Peer}
    {r : Except NoCapacityError Unit} (h : t.update p = .ok (t', r)) : t.Roomy := by
  constructor
  · by_contra hk
    have hk0 : t.k = 0 := by omega
    rw [update_of_zero (ht hk0) hk0] at h
    cases h
  · intro hnil
    simp [update, lastIndex, hnil, bind, Except.bind] at h

/-- The tables a node can come to hold, whatever its `k`. -/
structure Held (k : ℕ) (localPeer : Peer) (t : RoutingTable) : Prop extends
    Reached k localPeer t where
  untouched : t.Untouched

theorem held_new (k : ℕ) (localPeer : Peer) : Held k localPeer (new k localPeer) :=
  ⟨reached_new k localPeer, untouched_new k localPeer⟩

theorem Held.updated_of_update {k : ℕ} {localPeer p : Peer} {t t' : RoutingTable}
    {r : Except NoCapacityError Unit} (h : Held k localPeer t)
    (hu : t.update p = .ok (t', r)) : 0 < k ∧ Updated t p t' r ∧ Held k localPeer t' := by
  have hk := (h.untouched.roomy_of_update hu).k_pos
  have hupd := h.wellFormed.updated_of_update hk hu
  have hreached := h.toReached.updated hupd
  rw [h.k_eq] at hk
  refine ⟨hk, hupd, hreached, fun hk0 => ?_⟩
  have := hreached.k_eq
  omega

theorem held_of_afterUpdates {k : ℕ} {localPeer : Peer} {ps : List Peer} {t : RoutingTable}
    (h : afterUpdates k localPeer ps = some t) : Held k localPeer t := by
  refine Run.run_invariant (I := Held k localPeer) ?_ (held_new k localPeer) h
  intro t p t' ht hnext
  obtain ⟨r, hu⟩ := exists_update_of_next hnext
  exact (ht.updated_of_update hu).2.2

/-- An update of a table a node holds returns exactly if there is room for a
peer at all. -/
theorem Held.update_isOk_iff {k : ℕ} {localPeer : Peer} {t : RoutingTable}
    (h : Held k localPeer t) (p : Peer) : (∃ t' r, t.update p = .ok (t', r)) ↔ 0 < k := by
  constructor
  · rintro ⟨t', r, hu⟩
    exact (h.updated_of_update hu).1
  · intro hk
    obtain ⟨t', r, hu, -⟩ := h.toReached.update_updated hk p
    exact ⟨t', r, hu⟩

/-! ### The invariant as the source relies on it -/

/-- The representation invariant, clause by clause. -/
structure RepInvariant (t : RoutingTable) : Prop where
  nonempty : t.buckets ≠ []
  index_eq : ∀ (i : ℕ) (b : Bucket), t.buckets[i]? = some b → b.index = i
  inner : ∀ (i : ℕ) (b : Bucket), t.buckets[i]? = some b → i ≠ t.buckets.length - 1 →
    ∀ p ∈ b.peers, commonPrefixLength t.localPeer.id p.id = i
  last : ∀ b, t.buckets[t.buckets.length - 1]? = some b →
    ∀ p ∈ b.peers, t.buckets.length - 1 ≤ commonPrefixLength t.localPeer.id p.id
  capacity : ∀ b ∈ t.buckets, b.peers.length ≤ t.k
  nodup : t.peers.Nodup

theorem WellFormed.repInvariant {t : RoutingTable} (h : t.WellFormed) : t.RepInvariant := by
  refine ⟨h.nonempty, h.indexed, ?_, ?_, ?_, h.nodup_peers⟩
  · intro i b hb hi p hp
    have hlt := (List.getElem?_eq_some_iff.mp hb).1
    exact h.inner (by omega) (peersAt_of_getElem? hb ▸ hp)
  · intro b hb p hp
    exact h.le_of_mem (peersAt_of_getElem? hb ▸ hp)
  · intro b hb
    obtain ⟨i, hi⟩ := List.mem_iff_getElem?.mp hb
    rw [← peersAt_of_getElem? hi]
    exact h.capacity i

/-- Every sequence of updates, successful or rejected, keeps the
representation invariant. -/
theorem afterUpdates_repInvariant (k : ℕ) (hk : 1 ≤ k) (localPeer : Peer) (ps : List Peer) :
    ∃ t, afterUpdates k localPeer ps = some t ∧ t.k = k ∧ t.localPeer = localPeer ∧
      t.RepInvariant := by
  obtain ⟨t, ht, hreached⟩ := afterUpdates_reached hk localPeer ps
  exact ⟨t, ht, hreached.k_eq, hreached.localPeer_eq, hreached.wellFormed.repInvariant⟩

/-- The second peer is rejected after the only bucket has been unfolded. -/
theorem afterUpdates_repInvariant_rejected :
    ∃ t, afterUpdates 1 ⟨0, "0.0.0.0:1"⟩
        [⟨1#128 <<< 125, "0.0.0.0:2"⟩, ⟨3#128 <<< 124, "0.0.0.0:3"⟩] = some t ∧
      t.k = 1 ∧ t.localPeer = ⟨0, "0.0.0.0:1"⟩ ∧ t.RepInvariant :=
  afterUpdates_repInvariant 1 (by decide) _ _

end DhtKad.RoutingTable
