import DhtKad.RoutingTable.Invariant

/-!
A second update by the same peer.

An update that accepts a peer leaves it at the end of its bucket, where a
refresh finds it in place. An update that rejects it leaves a full bucket in
front of the last one, also when it has unfolded the table before, and there
the next one is rejected at once. Either way the table has come to rest
(`Updated.again`), so in a history an update may come any number of times in a
row (`afterUpdates_destutter`).
-/

namespace DhtKad.RoutingTable

section Repeated

variable {t t' u : RoutingTable} {p : Peer} {r : Except NoCapacityError Unit}

theorem modifyPeers_eq_self {i : ℕ} (hi : i < t.buckets.length) {f : List Peer → List Peer}
    (hf : f (t.peersAt i) = t.peersAt i) : t.modifyPeers i f = t := by
  obtain ⟨b, hb, -, hpeers⟩ := exists_bucket hi
  rw [hpeers] at hf
  obtain ⟨_, rfl⟩ := List.getElem?_eq_some_iff.mp hb
  rw [← setBucket_eq_modifyPeers hb, hf, setBucket]
  exact congrArg (fun bs => { t with buckets := bs }) (List.set_getElem_self hi)

/-- The peer is the most recently seen one of its bucket. -/
def SeenLast (t : RoutingTable) (p : Peer) : Prop :=
  ∃ ps, t.peersAt (t.homeIndex p.id) = ps ++ [p] ∧ p ∉ ps

/-- The peer is unknown, and its bucket is full and not the last one. -/
structure ShutOut (t : RoutingTable) (p : Peer) : Prop where
  unknown : p ∉ t.peersAt (t.homeIndex p.id)
  full : t.k ≤ (t.peersAt (t.homeIndex p.id)).length
  inner : t.homeIndex p.id + 1 < t.buckets.length

theorem seenLast_insert (ht : t.buckets ≠ []) (hp : p ∉ t.peersAt (t.homeIndex p.id)) :
    (t.insert p).SeenLast p := by
  refine ⟨t.peersAt (t.homeIndex p.id), ?_, hp⟩
  rw [show (t.insert p).homeIndex p.id = t.homeIndex p.id from homeIndex_modifyPeers t _ _ _,
    peersAt_insert ht, if_pos rfl]

theorem WellFormed.seenLast_refresh (ht : t.WellFormed) : (t.refresh p).SeenLast p := by
  refine ⟨(t.peersAt (t.homeIndex p.id)).erase p, ?_, (ht.nodup _).not_mem_erase⟩
  rw [show (t.refresh p).homeIndex p.id = t.homeIndex p.id from homeIndex_modifyPeers t _ _ _,
    peersAt_refresh ht.nonempty, if_pos rfl]

theorem Updated.settled (ht : t.WellFormed) (h : Updated t p t' r) :
    r = .ok () ∧ t'.SeenLast p ∨ r = .error {} ∧ t'.ShutOut p := by
  cases h with
  | refreshed hp => exact .inl ⟨rfl, ht.seenLast_refresh⟩
  | added hp hroom => exact .inl ⟨rfl, seenLast_insert ht.nonempty hp⟩
  | rejected hp hfull hinner => exact .inr ⟨rfl, hp, hfull, hinner⟩
  | unfoldedAdded u hp hfull hlast hu hroom =>
      exact .inl ⟨rfl, seenLast_insert hu.nonempty (hu.not_mem ht hp)⟩
  | unfoldedRejected u hp hfull hlast hu hufull =>
      exact .inr ⟨rfl, hu.not_mem ht hp, hufull,
        hu.inner_of_full (homeIndex_lt hu.nonempty p.id) hufull⟩

theorem SeenLast.update (ht : t.buckets ≠ []) (h : t.SeenLast p) :
    t.update p = .ok (t, .ok ()) := by
  obtain ⟨ps, hps, hp⟩ := h
  have hrest : t.refresh p = t := by
    apply modifyPeers_eq_self (homeIndex_lt ht p.id)
    rw [hps, List.erase_append_right _ hp]
    simp
  rw [update_eq ht, if_pos (by simp [hps]), hrest]

theorem ShutOut.update (ht : t.buckets ≠ []) (h : t.ShutOut p) :
    t.update p = .ok (t, .error {}) := by
  have hfull := h.full
  have hinner := h.inner
  rw [update_eq ht, if_neg h.unknown, if_neg (by omega), if_neg (by omega)]

/-- **A second update changes nothing**, and returns what the first one did. -/
theorem Updated.again (ht : t.WellFormed) (h : Updated t p t' r) : t'.update p = .ok (t', r) := by
  have hne := (h.wellFormed ht).nonempty
  rcases h.settled ht with ⟨rfl, hseen⟩ | ⟨rfl, hshut⟩
  · exact hseen.update hne
  · exact hshut.update hne

end Repeated

/-- In a history, an update that comes again at once may be left out. -/
theorem afterUpdates_destutter (k : ℕ) (hk : 1 ≤ k) (localPeer : Peer) (ps : List Peer) :
    afterUpdates k localPeer (ps.destutter (· ≠ ·)) = afterUpdates k localPeer ps := by
  apply Run.run_destutter (I := Reached k localPeer) _ ps (reached_new k localPeer)
  intro t p t' ht hnext
  obtain ⟨u, r, hupdate, hupd⟩ := ht.update_updated hk p
  obtain rfl := Option.some.inj (hnext.symm.trans (next_eq hupdate))
  exact ⟨ht.updated hupd, next_eq (hupd.again ht.wellFormed)⟩

/-- A peer that comes three times, twice in a row. -/
theorem afterUpdates_destutter_repeated :
    afterUpdates 1 ⟨0, "0.0.0.0:1"⟩ (([⟨1, "0.0.0.0:2"⟩, ⟨1, "0.0.0.0:2"⟩, ⟨2, "0.0.0.0:3"⟩,
        ⟨1, "0.0.0.0:2"⟩] : List Peer).destutter (· ≠ ·)) =
      afterUpdates 1 ⟨0, "0.0.0.0:1"⟩
        [⟨1, "0.0.0.0:2"⟩, ⟨1, "0.0.0.0:2"⟩, ⟨2, "0.0.0.0:3"⟩, ⟨1, "0.0.0.0:2"⟩] :=
  afterUpdates_destutter 1 le_rfl _ _

end DhtKad.RoutingTable
