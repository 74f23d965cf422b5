import DhtKad.RoutingTable.Recency

/-!
What an entry of the table stands for.

A place in the table is given by the identifier, but whether a peer is known is
decided by comparing whole peers. So the entries are the pairs of an identifier
and an address that were ever accepted, each once, and an identifier has as
many of them as addresses it was accepted with. All of them sit in its one
bucket, which bounds their number by `k`.
-/

namespace DhtKad.RoutingTable

section Entries

variable {k : ℕ} {localPeer p : Peer} {t t' : RoutingTable}

theorem mem_peers_iff_okAt (hk : 0 < k) (localPeer : Peer) (ps : List Peer) :
    ∃ t, afterUpdates k localPeer ps = some t ∧ Reached k localPeer t ∧
      ∀ q, q ∈ t.peers ↔ ∃ i, OkAt k localPeer ps i q := by
  induction ps using List.reverseRecOn with
  | nil =>
      refine ⟨_, rfl, reached_new k localPeer, fun q => iff_of_false ?_ ?_⟩
      · simp [new, peers, Bucket.new]
      · rintro ⟨i, hi⟩
        exact absurd hi.lt_length (Nat.not_lt_zero i)
  | append_singleton ps p ih =>
      obtain ⟨t, ht, hr, hmem⟩ := ih
      obtain ⟨t', r, hupdate, hupd⟩ := hr.update_updated hk p
      refine ⟨t', (afterUpdates_concat ht p).trans (next_eq hupdate), hr.updated hupd, fun q => ?_⟩
      simp only [okAt_concat ht hupdate, exists_or, exists_eq_left, ← hmem]
      rcases hupd.classes hr.wellFormed with ⟨hok, -, hpeers⟩ | ⟨herr, -, -, hpeers⟩
      · rw [hpeers q]
        simp [hok]
      · rw [hpeers q]
        simp [herr]

theorem WellFormed.exists_bucket_of_id (ht : t.WellFormed) (id : U128) :
    ∃ b ∈ t.buckets, b.peers.length ≤ t.k ∧ ∀ q ∈ t.peers, q.id = id → q ∈ b.peers := by
  obtain ⟨b, hb, -, hpeers⟩ := exists_bucket (homeIndex_lt ht.nonempty id)
  refine ⟨b, List.mem_of_getElem? hb, hpeers ▸ ht.capacity _, ?_⟩
  intro q hq hid
  rw [← hpeers, ← hid]
  exact ht.mem_peers_iff.mp hq

theorem WellFormed.length_filter_id_le (ht : t.WellFormed) (id : U128) :
    (t.peers.filter fun q => q.id = id).length ≤ t.k := by
  obtain ⟨b, -, hlen, hsub⟩ := ht.exists_bucket_of_id id
  refine (List.Nodup.length_le_of_subset (ht.nodup_peers.filter _) ?_).trans hlen
  intro q hq
  simp only [List.mem_filter, decide_eq_true_eq] at hq
  exact hsub q hq.1 hq.2

theorem Updated.entries_of_ok (ht : t.WellFormed) (hupd : Updated t p t' (.ok ())) :
    t'.peers.count p = 1 ∧ ∀ q, q ≠ p → (q ∈ t'.peers ↔ q ∈ t.peers) := by
  rcases hupd.classes ht with ⟨-, -, hpeers⟩ | ⟨herr, -, -, -⟩
  · refine ⟨?_, fun q hq => by rw [hpeers q, or_iff_left hq]⟩
    exact List.count_eq_one_of_mem (hupd.wellFormed ht).nodup_peers ((hpeers p).mpr (.inr rfl))
  · cases herr

end Entries

/-- **The entries of an identifier.** After every history the entries of the
table are the accepted pairs of identifier and address, each once. An update
that returns `Ok` leaves one entry for that very pair beside those of the same
identifier with other addresses. All entries of an identifier share a bucket,
so there are at most `k`. -/
theorem entries_by_id_and_address (k : ℕ) (hk : 1 ≤ k) (localPeer : Peer) (ps : List Peer) :
    ∃ t, afterUpdates k localPeer ps = some t ∧ t.peers.Nodup ∧
      (∀ q, q ∈ t.peers ↔ ∃ i, OkAt k localPeer ps i q) ∧
      (∀ p t', t.update p = .ok (t', .ok ()) →
        t'.peers.count p = 1 ∧ ∀ q, q ≠ p → (q ∈ t'.peers ↔ q ∈ t.peers)) ∧
      ∀ id, (∃ b ∈ t.buckets, ∀ q ∈ t.peers, q.id = id → q ∈ b.peers) ∧
        (t.peers.filter fun q => q.id = id).length ≤ k := by
  obtain ⟨t, ht, hr, hmem⟩ := mem_peers_iff_okAt hk localPeer ps
  refine ⟨t, ht, hr.wellFormed.nodup_peers, hmem, ?_, fun id => ⟨?_, ?_⟩⟩
  · intro p t' hupdate
    have hroom : 0 < t.k := by rwa [hr.k_eq]
    exact (hr.wellFormed.updated_of_update hroom hupdate).entries_of_ok hr.wellFormed
  · obtain ⟨b, hb, -, hsub⟩ := hr.wellFormed.exists_bucket_of_id id
    exact ⟨b, hb, hsub⟩
  · rw [← hr.k_eq]
    exact hr.wellFormed.length_filter_id_le id

/-- An identifier seen at two addresses, with room for one peer. -/
theorem entries_by_id_and_address_moved :
    ∃ t, afterUpdates 1 ⟨0, "0.0.0.0:1"⟩ [⟨1, "0.0.0.0:2"⟩, ⟨1, "0.0.0.0:3"⟩] = some t ∧
      t.peers.Nodup ∧
      (∀ q, q ∈ t.peers ↔
        ∃ i, OkAt 1 ⟨0, "0.0.0.0:1"⟩ [⟨1, "0.0.0.0:2"⟩, ⟨1, "0.0.0.0:3"⟩] i q) ∧
      (∀ p t', t.update p = .ok (t', .ok ()) →
        t'.peers.count p = 1 ∧ ∀ q, q ≠ p → (q ∈ t'.peers ↔ q ∈ t.peers)) ∧
      ∀ id, (∃ b ∈ t.buckets, ∀ q ∈ t.peers, q.id = id → q ∈ b.peers) ∧
        (t.peers.filter fun q => q.id = id).length ≤ 1 :=
  entries_by_id_and_address 1 (by decide) _ _

/-- The second address of a known identifier is accepted and gets a place of
its own, in the bucket of the first. -/
theorem known_id_takes_two_places :
    ∃ t t', afterUpdates 20 ⟨0, "0.0.0.0:1"⟩ [⟨1, "0.0.0.0:2"⟩] = some t ∧
      t.update ⟨1, "0.0.0.0:3"⟩ = .ok (t', .ok ()) ∧
      afterUpdates 20 ⟨0, "0.0.0.0:1"⟩ [⟨1, "0.0.0.0:2"⟩, ⟨1, "0.0.0.0:3"⟩] = some t' ∧
      t'.buckets.map Bucket.peers = [[⟨1, "0.0.0.0:2"⟩, ⟨1, "0.0.0.0:3"⟩]] :=
  ⟨{ k := 20, localPeer := ⟨0, "0.0.0.0:1"⟩, buckets := [⟨0, [⟨1, "0.0.0.0:2"⟩]⟩] },
    { k := 20, localPeer := ⟨0, "0.0.0.0:1"⟩,
      buckets := [⟨0, [⟨1, "0.0.0.0:2"⟩, ⟨1, "0.0.0.0:3"⟩]⟩] },
    by decide, by decide, by decide, by decide⟩

end DhtKad.RoutingTable
