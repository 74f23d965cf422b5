import DhtKad.Lib.CappedFamily
import DhtKad.RoutingTable.Invariant

/-!
The lazily unfolded table refines the fully unfolded one.

The abstract table is a family of 129 sets of at most `k` peers, one for each
prefix length: it says what the table is for and knows nothing of buckets. The
concrete table is related to it by its classes, the peers of one prefix length
wherever they sit. Unfolding moves peers between buckets and leaves the classes
alone; room in the last bucket is room in each of the classes it mixes.
-/

namespace DhtKad.RoutingTable

/-- The class of a peer: its prefix length with the local peer. -/
def classOf (localPeer p : Peer) : Fin 129 :=
  ⟨commonPrefixLength localPeer.id p.id,
    Nat.lt_succ_of_le (commonPrefixLength_le localPeer.id p.id)⟩

def classAt (t : RoutingTable) (c : Fin 129) : Finset Peer :=
  (t.peers.filter fun p => classOf t.localPeer p = c).toFinset

/-- The fully unfolded table: one capped set for each prefix length. -/
abbrev ClassTable (k : ℕ) := CappedFamily (Fin 129) Peer k

def classesAfter (k : ℕ) (localPeer : Peer) (ps : List Peer) : ClassTable k :=
  CappedFamily.putAll (classOf localPeer) ps

theorem classOf_val (localPeer p : Peer) :
    (classOf localPeer p : ℕ) = commonPrefixLength localPeer.id p.id := rfl

section Classes

variable {t u : RoutingTable} {p q : Peer} {c : Fin 129}

theorem mem_classAt : q ∈ t.classAt c ↔ q ∈ t.peers ∧ classOf t.localPeer q = c := by
  simp [classAt]

theorem WellFormed.classAt_subset (ht : t.WellFormed) (p : Peer) :
    t.classAt (classOf t.localPeer p) ⊆ (t.peersAt (t.homeIndex p.id)).toFinset := by
  intro q hq
  rw [mem_classAt, ht.mem_peers_iff] at hq
  have hcls := congrArg Fin.val hq.2
  rw [classOf_val, classOf_val] at hcls
  have hhome : t.homeIndex q.id = t.homeIndex p.id := by
    unfold homeIndex
    rw [hcls]
  rw [List.mem_toFinset, ← hhome]
  exact hq.1

theorem WellFormed.classAt_inner (ht : t.WellFormed)
    (hp : t.homeIndex p.id + 1 < t.buckets.length) :
    t.classAt (classOf t.localPeer p) = (t.peersAt (t.homeIndex p.id)).toFinset := by
  apply (ht.classAt_subset p).antisymm
  intro q hq
  rw [List.mem_toFinset] at hq
  rw [mem_classAt, RoutingTable.mem_peers_iff]
  refine ⟨⟨_, hq⟩, Fin.ext ?_⟩
  have hcpl := ht.inner hp hq
  rw [classOf_val, classOf_val, hcpl]
  unfold homeIndex at hp ⊢
  omega

theorem WellFormed.card_classAt_le (ht : t.WellFormed) (p : Peer) :
    (t.classAt (classOf t.localPeer p)).card ≤ (t.peersAt (t.homeIndex p.id)).length :=
  (Finset.card_le_card (ht.classAt_subset p)).trans (List.toFinset_card_le _)

theorem WellFormed.card_classAt_inner (ht : t.WellFormed)
    (hp : t.homeIndex p.id + 1 < t.buckets.length) :
    (t.classAt (classOf t.localPeer p)).card = (t.peersAt (t.homeIndex p.id)).length := by
  rw [ht.classAt_inner hp, List.toFinset_card_of_nodup (ht.nodup _)]

/-! ### What a step does to the classes -/

theorem WellFormed.mem_peers_refresh (ht : t.WellFormed)
    (hp : p ∈ t.peersAt (t.homeIndex p.id)) : q ∈ (t.refresh p).peers ↔ q ∈ t.peers := by
  rw [(ht.refresh hp).mem_peers_iff, ht.mem_peers_iff]
  have hhome : (t.refresh p).homeIndex q.id = t.homeIndex q.id := homeIndex_modifyPeers _ _ _ _
  rw [hhome, peersAt_refresh ht.nonempty]
  split
  · rename_i heq
    rw [heq]
    exact (refresh_perm hp).mem_iff
  · exact Iff.rfl

theorem WellFormed.mem_peers_insert (ht : t.WellFormed)
    (hp : p ∉ t.peersAt (t.homeIndex p.id))
    (hroom : (t.peersAt (t.homeIndex p.id)).length < t.k) :
    q ∈ (t.insert p).peers ↔ q ∈ t.peers ∨ q = p := by
  rw [(ht.insert hp hroom).mem_peers_iff, ht.mem_peers_iff]
  have hhome : (t.insert p).homeIndex q.id = t.homeIndex q.id := homeIndex_modifyPeers _ _ _ _
  rw [hhome, peersAt_insert ht.nonempty]
  by_cases heq : t.homeIndex q.id = t.homeIndex p.id
  · rw [if_pos heq, heq, List.mem_append, List.mem_singleton]
  · rw [if_neg heq, or_iff_left]
    rintro rfl
    exact heq rfl

/-- What an update does to the set of peers and when it is rejected, with the
class of the peer in place of its bucket. -/
theorem Updated.classes {t' : RoutingTable} {r : Except NoCapacityError Unit}
    (ht : t.WellFormed) (h : Updated t p t' r) :
    (r = .ok () ∧ (p ∈ t.peers ∨ (t.classAt (classOf t.localPeer p)).card < t.k) ∧
        ∀ q, q ∈ t'.peers ↔ q ∈ t.peers ∨ q = p) ∨
      (r = .error {} ∧ p ∉ t.peers ∧ t.k ≤ (t.classAt (classOf t.localPeer p)).card ∧
        ∀ q, q ∈ t'.peers ↔ q ∈ t.peers) := by
  have hclassU {u : RoutingTable} (hu : Unfolds t u) (c : Fin 129) :
      u.classAt c = t.classAt c := by
    ext q
    rw [mem_classAt, mem_classAt, hu.mem_peers_iff ht, hu.localPeer_eq]
  cases h with
  | refreshed hp =>
      refine .inl ⟨rfl, .inl (ht.mem_peers_iff.mpr hp), fun q => ?_⟩
      rw [ht.mem_peers_refresh hp, or_iff_left_of_imp]
      rintro rfl
      exact ht.mem_peers_iff.mpr hp
  | added hp hroom =>
      exact .inl ⟨rfl, .inr ((ht.card_classAt_le p).trans_lt hroom),
        fun q => ht.mem_peers_insert hp hroom⟩
  | rejected hp hfull hinner =>
      exact .inr ⟨rfl, fun h => hp (ht.mem_peers_iff.mp h),
        (ht.card_classAt_inner hinner).symm ▸ hfull, fun q => Iff.rfl⟩
  | unfoldedAdded u hp hfull hlast hu hroom =>
      have hwf := hu.wellFormed ht
      have hcard := (hwf.card_classAt_le p).trans_lt hroom
      rw [hclassU hu, hu.localPeer_eq, hu.k_eq] at hcard
      refine .inl ⟨rfl, .inr hcard, fun q => ?_⟩
      rw [hwf.mem_peers_insert (hu.not_mem ht hp) hroom, hu.mem_peers_iff ht]
  | unfoldedRejected u hp hfull hlast hu hufull =>
      have hwf := hu.wellFormed ht
      -- the last bucket of an unfolded table has room, so the full one is inner
      have hinner : t'.homeIndex p.id + 1 < t'.buckets.length := by
        by_contra hlastU
        have hlt := homeIndex_lt hwf.nonempty p.id
        have hroom := hu.room
        rw [show t'.buckets.length - 1 = t'.homeIndex p.id by omega] at hroom
        omega
      have hcard := hwf.card_classAt_inner hinner
      rw [hclassU hu, hu.localPeer_eq] at hcard
      refine .inr ⟨rfl, fun h => hp (ht.mem_peers_iff.mp h), ?_, fun q => hu.mem_peers_iff ht⟩
      rw [hcard, ← hu.k_eq]
      exact hufull

end Classes

/-! ### The simulation -/

/-- The concrete table and the fully unfolded one hold the same classes. -/
structure Refines {k : ℕ} (localPeer : Peer) (t : RoutingTable) (E : ClassTable k) : Prop where
  reached : Reached k localPeer t
  classes : ∀ c, t.classAt c = E.cells c

theorem refines_new (k : ℕ) (localPeer : Peer) :
    Refines localPeer (new k localPeer) (CappedFamily.empty : ClassTable k) := by
  refine ⟨reached_new k localPeer, fun c => ?_⟩
  ext q
  simp [mem_classAt, peers, new, Bucket.new]

theorem Refines.mem_cells {k : ℕ} {localPeer p : Peer} {t : RoutingTable} {E : ClassTable k}
    (h : Refines localPeer t E) : p ∈ E.cells (classOf localPeer p) ↔ p ∈ t.peers := by
  rw [← h.classes, mem_classAt, h.reached.localPeer_eq]
  simp

/-- One update of the concrete table is one `put` of the abstract one, with the
same verdict. -/
theorem Refines.updated {k : ℕ} {localPeer p : Peer} {t t' : RoutingTable} {E : ClassTable k}
    {r : Except NoCapacityError Unit} (h : Refines localPeer t E) (hu : Updated t p t' r) :
    (r = .ok () ↔ E.Accepts (classOf localPeer p) p) ∧
      Refines localPeer t' (E.put (classOf localPeer p) p) := by
  have hcases := hu.classes h.reached.wellFormed
  have hreached := h.reached.updated hu
  rw [h.reached.localPeer_eq, h.reached.k_eq, h.classes, ← h.mem_cells] at hcases
  have hmem' (c : Fin 129) (q : Peer) :
      q ∈ t'.classAt c ↔ q ∈ t'.peers ∧ classOf localPeer q = c := by
    rw [mem_classAt, hreached.localPeer_eq]
  have hmem (c : Fin 129) (q : Peer) :
      q ∈ E.cells c ↔ q ∈ t.peers ∧ classOf localPeer q = c := by
    rw [← h.classes, mem_classAt, h.reached.localPeer_eq]
  rcases hcases with ⟨hr, hacc, hpeers⟩ | ⟨hr, hp, hcard, hpeers⟩
  · refine ⟨iff_of_true hr hacc, hreached, fun c => ?_⟩
    ext q
    rw [hmem', hpeers, CappedFamily.mem_cells_put_of_accepts hacc, hmem, or_and_right]
    refine or_congr Iff.rfl ⟨?_, ?_⟩
    · rintro ⟨rfl, rfl⟩
      exact ⟨rfl, rfl⟩
    · rintro ⟨rfl, rfl⟩
      exact ⟨rfl, rfl⟩
  · have hrej : ¬ E.Accepts (classOf localPeer p) p := by
      rintro (hin | hroom)
      · exact hp hin
      · omega
    refine ⟨iff_of_false (by simp [hr]) hrej, hreached, fun c => ?_⟩
    rw [CappedFamily.put_of_not_accepts hrej]
    ext q
    rw [hmem', hpeers, hmem]

theorem refines_afterUpdates {k : ℕ} (hk : 0 < k) (localPeer : Peer) (ps : List Peer) :
    ∃ t, afterUpdates k localPeer ps = some t ∧
      Refines localPeer t (classesAfter k localPeer ps) := by
  refine Run.run_simulation ?_ ps (refines_new k localPeer)
  intro t E p href
  obtain ⟨t', r, hupdate, hupd⟩ := href.reached.update_updated hk p
  exact ⟨t', next_eq hupdate, (href.updated hupd).2⟩

/-- **Refinement.** After any history, the next update is accepted exactly if
the fully unfolded table accepts it, and before and after it every class of the
concrete table is the corresponding set. So a peer is rejected exactly if it is
new and its class is full, and no peer ever leaves. -/
theorem update_refines (k : ℕ) (hk : 1 ≤ k) (localPeer : Peer) (ps : List Peer) (p : Peer) :
    ∃ t t' r, afterUpdates k localPeer ps = some t ∧ t.update p = .ok (t', r) ∧
      afterUpdates k localPeer (ps ++ [p]) = some t' ∧
      (∀ c, t.classAt c = (classesAfter k localPeer ps).cells c) ∧
      (∀ c, t'.classAt c = (classesAfter k localPeer (ps ++ [p])).cells c) ∧
      (r = .ok () ↔ (classesAfter k localPeer ps).Accepts (classOf localPeer p) p) ∧
      (r = .error {} ↔ p ∉ t.peers ∧ (t.classAt (classOf localPeer p)).card = k) ∧
      ∀ q ∈ t.peers, q ∈ t'.peers := by
  obtain ⟨t, ht, href⟩ := refines_afterUpdates hk localPeer ps
  obtain ⟨t', r, hupdate, hupd⟩ := href.reached.update_updated hk p
  obtain ⟨hacc, href'⟩ := href.updated hupd
  have hafter : afterUpdates k localPeer (ps ++ [p]) = some t' := by
    rw [afterUpdates, Run.run_concat, show Run.run next (new k localPeer) ps = some t from ht,
      Option.bind_some, next_eq hupdate]
  have hput : classesAfter k localPeer (ps ++ [p]) =
      (classesAfter k localPeer ps).put (classOf localPeer p) p :=
    CappedFamily.putAll_concat _ _ _
  refine ⟨t, t', r, ht, hupdate, hafter, href.classes, ?_, hacc, ?_, ?_⟩
  · rw [hput]
    exact href'.classes
  · rw [← href.mem_cells, href.classes, ← CappedFamily.not_accepts_iff, ← hacc]
    rcases r with ⟨⟨⟩⟩ | ⟨⟨⟩⟩ <;> simp
  · intro q hq
    rw [← href'.mem_cells]
    apply CappedFamily.cells_subset_put
    rwa [href.mem_cells]

/-- Two peers of one class and room for one. -/
theorem update_refines_full :
    ∃ t t' r, afterUpdates 1 ⟨0, "0.0.0.0:1"⟩ [⟨1#128 <<< 125, "0.0.0.0:2"⟩] = some t ∧
      t.update ⟨3#128 <<< 124, "0.0.0.0:3"⟩ = .ok (t', r) ∧
      afterUpdates 1 ⟨0, "0.0.0.0:1"⟩
        ([⟨1#128 <<< 125, "0.0.0.0:2"⟩] ++ [⟨3#128 <<< 124, "0.0.0.0:3"⟩]) = some t' ∧
      (∀ c, t.classAt c =
        (classesAfter 1 ⟨0, "0.0.0.0:1"⟩ [⟨1#128 <<< 125, "0.0.0.0:2"⟩]).cells c) ∧
      (∀ c, t'.classAt c = (classesAfter 1 ⟨0, "0.0.0.0:1"⟩
        ([⟨1#128 <<< 125, "0.0.0.0:2"⟩] ++ [⟨3#128 <<< 124, "0.0.0.0:3"⟩])).cells c) ∧
      (r = .ok () ↔ (classesAfter 1 ⟨0, "0.0.0.0:1"⟩ [⟨1#128 <<< 125, "0.0.0.0:2"⟩]).Accepts
        (classOf ⟨0, "0.0.0.0:1"⟩ ⟨3#128 <<< 124, "0.0.0.0:3"⟩) ⟨3#128 <<< 124, "0.0.0.0:3"⟩) ∧
      (r = .error {} ↔ ⟨3#128 <<< 124, "0.0.0.0:3"⟩ ∉ t.peers ∧
        (t.classAt (classOf ⟨0, "0.0.0.0:1"⟩ ⟨3#128 <<< 124, "0.0.0.0:3"⟩)).card = 1) ∧
      ∀ q ∈ t.peers, q ∈ t'.peers :=
  update_refines 1 (by decide) _ _ _

end DhtKad.RoutingTable
