import DhtKad.RoutingTable

/-!
What `unfold_buckets` and `update` do, said once.

`Unfolds t u` describes the outcome of a whole chain of splits: the buckets
before the last one stay, and the peers of the last one are distributed, in
their order, over the positions they belong to in the longer table. `Updated`
lists the five ways in which `update` ends. Every result about the table is
derived from these two.
-/

namespace DhtKad.RoutingTable

/-- Every bucket carries its own position: `buckets[i].index = i`. -/
def Indexed (t : RoutingTable) : Prop :=
  ∀ (i : ℕ) (b : Bucket), t.buckets[i]? = some b → b.index = i

/-- The outcome of unfolding `t`. -/
structure Unfolds (t u : RoutingTable) : Prop where
  k_eq : u.k = t.k
  localPeer_eq : u.localPeer = t.localPeer
  length_lt : t.buckets.length < u.buckets.length
  indexed : u.Indexed
  before : ∀ j, j + 1 < t.buckets.length → u.peersAt j = t.peersAt j
  after : ∀ j, t.buckets.length ≤ j + 1 → u.peersAt j =
    (t.peersAt (t.buckets.length - 1)).filter fun p => u.homeIndex p.id = j
  room : (u.peersAt (u.buckets.length - 1)).length < u.k
  full : ∀ j, t.buckets.length ≤ j → j + 1 < u.buckets.length →
    u.k ≤ ((t.peersAt (t.buckets.length - 1)).filter fun p =>
      j ≤ commonPrefixLength t.localPeer.id p.id).length

theorem Unfolds.homeIndex_eq {t u : RoutingTable} (hu : Unfolds t u) (id : U128) :
    u.homeIndex id = min (commonPrefixLength t.localPeer.id id) (u.buckets.length - 1) := by
  rw [homeIndex, hu.localPeer_eq]

/-- One split of the last bucket `b`. -/
def splitLast (t : RoutingTable) (b : Bucket) : RoutingTable :=
  { t with
    buckets := (t.setBucket (t.buckets.length - 1) (b.split t.localPeer.id).1).buckets ++
      [(b.split t.localPeer.id).2] }

@[simp] theorem splitLast_k (t : RoutingTable) (b : Bucket) : (t.splitLast b).k = t.k := rfl

@[simp] theorem splitLast_localPeer (t : RoutingTable) (b : Bucket) :
    (t.splitLast b).localPeer = t.localPeer := rfl

@[simp] theorem length_splitLast (t : RoutingTable) (b : Bucket) :
    (t.splitLast b).buckets.length = t.buckets.length + 1 := by
  simp [splitLast]

theorem splitLast_ne_nil (t : RoutingTable) (b : Bucket) : (t.splitLast b).buckets ≠ [] := by
  simp [splitLast]

theorem unfoldBuckets_succ {t : RoutingTable} {b : Bucket} (depth : ℕ)
    (hb : t.buckets[t.buckets.length - 1]? = some b) :
    unfoldBuckets (depth + 1) t =
      if (b.split t.localPeer.id).2.peers.length ≥ t.k then
        unfoldBuckets depth (t.splitLast b)
      else .ok (t.splitLast b) := by
  have ht : t.buckets ≠ [] := by
    rintro h
    simp [h] at hb
  have hat : t.bucketAt (t.buckets.length - 1) = .ok b := by simp [bucketAt, hb]
  rw [unfoldBuckets, lastIndex_eq ht]
  simp only [bind, Except.bind, hat]
  rfl

/-- Without room for a single peer the unfolding does not end. -/
theorem unfoldBuckets_zero (depth : ℕ) {t : RoutingTable} (ht : t.buckets ≠ [])
    (hk : t.k = 0) : unfoldBuckets depth t = .error .stackOverflow := by
  induction depth generalizing t with
  | zero => rfl
  | succ depth ih =>
      obtain ⟨b, hb, -, -⟩ := exists_bucket (t := t) (i := t.buckets.length - 1)
        (by have := length_pos ht; omega)
      rw [unfoldBuckets_succ depth hb, if_pos (by omega)]
      exact ih (splitLast_ne_nil t b) hk

/-- With room for a peer the unfolding ends, whatever the buckets hold: a
bucket past position 128 is empty. -/
theorem unfoldBuckets_isOk {depth : ℕ} {t : RoutingTable} {b : Bucket}
    (hb : t.buckets[t.buckets.length - 1]? = some b) (hk : 0 < t.k) (hdepth : 0 < depth)
    (hd : 129 ≤ depth + b.index) :
    ∃ u, unfoldBuckets depth t = .ok u ∧ u.buckets ≠ [] ∧ u.k = t.k ∧
      u.localPeer = t.localPeer := by
  induction depth generalizing t b with
  | zero => omega
  | succ depth ih =>
      rw [unfoldBuckets_succ depth hb]
      by_cases hfull : (b.split t.localPeer.id).2.peers.length ≥ t.k
      · rw [if_pos hfull]
        have hmem : ∃ p, p ∈ (b.split t.localPeer.id).2.peers :=
          List.exists_mem_of_length_pos (hk.trans_le hfull)
        obtain ⟨p, hp⟩ := hmem
        have hcpl : b.index < commonPrefixLength p.id t.localPeer.id := by
          simpa [Bucket.split] using (List.mem_filter.mp hp).2
        have hle := commonPrefixLength_le p.id t.localPeer.id
        obtain ⟨u, hu, hne, huk, hul⟩ := ih (t := t.splitLast b) (b := (b.split t.localPeer.id).2)
          (by simp [splitLast]) hk (by omega)
          (by
            have hindex : (b.split t.localPeer.id).2.index = b.index + 1 := rfl
            omega)
        exact ⟨u, hu, hne, huk, hul⟩
      · rw [if_neg hfull]
        exact ⟨_, rfl, splitLast_ne_nil t b, rfl, rfl⟩

/-- What comes out does not depend on the depth that is left over. -/
theorem unfoldBuckets_mono {depth depth' : ℕ} {t u : RoutingTable} (ht : t.buckets ≠ [])
    (h : unfoldBuckets depth t = .ok u) (hle : depth ≤ depth') :
    unfoldBuckets depth' t = .ok u := by
  induction depth generalizing t depth' with
  | zero => cases h
  | succ depth ih =>
      cases depth' with
      | zero => omega
      | succ depth' =>
          obtain ⟨b, hb, -, -⟩ := exists_bucket (t := t) (i := t.buckets.length - 1)
            (by have := length_pos ht; omega)
          rw [unfoldBuckets_succ depth hb] at h
          rw [unfoldBuckets_succ depth' hb]
          split at h
          · rw [if_pos ‹_›]
            exact ih (splitLast_ne_nil t b) h (by omega)
          · rwa [if_neg ‹_›]

/-! ### One split -/

theorem peersAt_splitLast_length (t : RoutingTable) (b : Bucket) :
    (t.splitLast b).peersAt t.buckets.length =
      b.peers.filter fun p => commonPrefixLength p.id t.localPeer.id > b.index := by
  unfold peersAt splitLast setBucket
  rw [List.getElem?_append_right (by simp)]
  simp [Bucket.split, Bucket.new]

section SplitLast

variable {t : RoutingTable} {b : Bucket} (hb : t.buckets[t.buckets.length - 1]? = some b)
include hb

theorem length_pos_of_last : 0 < t.buckets.length := by
  have h := (List.getElem?_eq_some_iff.mp hb).1
  omega

theorem peersAt_splitLast_of_lt {j : ℕ} (hj : j + 1 < t.buckets.length) :
    (t.splitLast b).peersAt j = t.peersAt j := by
  have hlen := length_pos_of_last hb
  unfold peersAt splitLast setBucket
  rw [List.getElem?_append_left (by simp; omega), List.getElem?_set_ne (by omega)]

theorem peersAt_splitLast_last :
    (t.splitLast b).peersAt (t.buckets.length - 1) =
      b.peers.filter fun p => ¬ commonPrefixLength p.id t.localPeer.id > b.index := by
  have hlen := length_pos_of_last hb
  unfold peersAt splitLast setBucket
  rw [List.getElem?_append_left (by simp; omega), List.getElem?_set_self (by omega)]
  rfl

theorem indexed_splitLast (hi : t.Indexed) : (t.splitLast b).Indexed := by
  have hlen := length_pos_of_last hb
  intro i c hc
  unfold splitLast setBucket at hc
  rcases lt_trichotomy i (t.buckets.length) with hlt | heq | hgt
  · rw [List.getElem?_append_left (by simpa using hlt)] at hc
    by_cases hl : i = t.buckets.length - 1
    · rw [hl, List.getElem?_set_self (by omega)] at hc
      obtain rfl := Option.some.inj hc
      rw [hl]
      exact hi _ b hb
    · rw [List.getElem?_set_ne (by omega)] at hc
      exact hi i c hc
  · rw [heq, List.getElem?_append_right (by simp)] at hc
    have hc' : c = (b.split t.localPeer.id).2 := by simpa using hc.symm
    have hindex := hi _ _ hb
    rw [hc', heq]
    change b.index + 1 = t.buckets.length
    omega
  · rw [List.getElem?_eq_none (by simp; omega)] at hc
    cases hc

end SplitLast

/-! ### The whole chain of splits -/

theorem homeIndex_splitLast (t : RoutingTable) (b : Bucket) (id : U128) :
    (t.splitLast b).homeIndex id =
      min (commonPrefixLength t.localPeer.id id) t.buckets.length := by
  rw [homeIndex, length_splitLast, splitLast_localPeer, Nat.add_sub_cancel]

section Chain

variable {t u : RoutingTable} {b : Bucket} (hindex : t.Indexed)
  (hb : t.buckets[t.buckets.length - 1]? = some b)
include hindex hb

theorem peersAt_splitLast_new :
    (t.splitLast b).peersAt t.buckets.length =
      (t.peersAt (t.buckets.length - 1)).filter fun p =>
        t.buckets.length ≤ commonPrefixLength t.localPeer.id p.id := by
  have hlen := length_pos_of_last hb
  have hbi : b.index = t.buckets.length - 1 := hindex _ _ hb
  rw [peersAt_splitLast_length, peersAt_of_getElem? hb]
  apply List.filter_congr
  intro p _
  rw [commonPrefixLength_comm, decide_eq_decide]
  omega

variable (hplace : ∀ p ∈ t.peersAt (t.buckets.length - 1),
  t.buckets.length - 1 ≤ commonPrefixLength t.localPeer.id p.id)
include hplace

theorem peersAt_splitLast_old :
    (t.splitLast b).peersAt (t.buckets.length - 1) =
      (t.peersAt (t.buckets.length - 1)).filter fun p =>
        commonPrefixLength t.localPeer.id p.id = t.buckets.length - 1 := by
  have hbi : b.index = t.buckets.length - 1 := hindex _ _ hb
  rw [peersAt_of_getElem? hb] at hplace ⊢
  rw [peersAt_splitLast_last hb]
  apply List.filter_congr
  intro p hp
  have hle := hplace p hp
  rw [commonPrefixLength_comm, decide_eq_decide]
  omega

/-- A split that leaves room in the new bucket is a whole unfolding. -/
theorem unfolds_splitLast (hroom : ((t.splitLast b).peersAt t.buckets.length).length < t.k) :
    Unfolds t (t.splitLast b) := by
  have hlen := length_pos_of_last hb
  have hlen' := length_splitLast t b
  refine ⟨rfl, rfl, by omega, indexed_splitLast hb hindex,
    fun j hj => peersAt_splitLast_of_lt hb hj, fun j hj => ?_, ?_, fun j hj hju => by omega⟩
  · rcases lt_trichotomy j t.buckets.length with hlt | heq | hgt
    · rw [show j = t.buckets.length - 1 by omega, peersAt_splitLast_old hindex hb hplace]
      apply List.filter_congr
      intro p _
      rw [homeIndex_splitLast, decide_eq_decide]
      omega
    · rw [heq, peersAt_splitLast_new hindex hb]
      apply List.filter_congr
      intro p _
      rw [homeIndex_splitLast, decide_eq_decide]
      omega
    · rw [peersAt_eq_nil_of_le (by omega)]
      symm
      simp only [List.filter_eq_nil_iff, decide_eq_true_eq]
      intro p _
      rw [homeIndex_splitLast]
      omega
  · rwa [hlen', Nat.add_sub_cancel]

theorem Unfolds.of_splitLast (h : Unfolds (t.splitLast b) u)
    (hmore : t.k ≤ ((t.splitLast b).peersAt t.buckets.length).length) : Unfolds t u := by
  have hlen := length_pos_of_last hb
  have hlen' := length_splitLast t b
  have hlast : (t.splitLast b).buckets.length - 1 = t.buckets.length := by omega
  have hnew := peersAt_splitLast_new hindex hb
  have hulen := h.length_lt
  have hhome (p : Peer) : u.homeIndex p.id =
      min (commonPrefixLength t.localPeer.id p.id) (u.buckets.length - 1) :=
    h.homeIndex_eq p.id
  refine ⟨h.k_eq, h.localPeer_eq, by omega, h.indexed, ?_, ?_, h.room, ?_⟩
  · intro j hj
    rw [h.before j (by omega), peersAt_splitLast_of_lt hb hj]
  · intro j hj
    by_cases hjl : j = t.buckets.length - 1
    · rw [h.before j (by omega), hjl, peersAt_splitLast_old hindex hb hplace]
      apply List.filter_congr
      intro p _
      rw [hhome p, decide_eq_decide]
      omega
    · rw [h.after j (by omega), hlast, hnew, List.filter_filter]
      apply List.filter_congr
      intro p _
      rw [hhome p, ← Bool.decide_and, decide_eq_decide]
      omega
  · intro j hj hju
    rcases Nat.lt_or_eq_of_le hj with hlt | heq
    · have hfull := h.full j (by omega) hju
      rw [hlast, hnew, List.filter_filter] at hfull
      refine hfull.trans (List.Sublist.length_le ?_)
      apply List.monotone_filter_right
      intro p hp
      simp only [splitLast_localPeer, Bool.and_eq_true, decide_eq_true_eq] at hp
      exact hp.1
    · rw [h.k_eq, ← heq, ← hnew]
      exact hmore

end Chain

theorem unfoldBuckets_unfolds {depth : ℕ} {t : RoutingTable} (ht : t.buckets ≠ [])
    (hindex : t.Indexed)
    (hplace : ∀ p ∈ t.peersAt (t.buckets.length - 1),
      t.buckets.length - 1 ≤ commonPrefixLength t.localPeer.id p.id)
    (hk : 0 < t.k) (hfull : t.k ≤ (t.peersAt (t.buckets.length - 1)).length)
    (hdepth : 130 ≤ t.buckets.length + depth) :
    ∃ u, unfoldBuckets depth t = .ok u ∧ Unfolds t u := by
  induction depth generalizing t with
  | zero =>
      obtain ⟨p, hp⟩ := List.exists_mem_of_length_pos (hk.trans_le hfull)
      have hle := hplace p hp
      have hbound := commonPrefixLength_le t.localPeer.id p.id
      omega
  | succ depth ih =>
      obtain ⟨b, hb, -, -⟩ := exists_bucket (t := t) (i := t.buckets.length - 1)
        (by have := length_pos ht; omega)
      have hnew : (b.split t.localPeer.id).2.peers =
          (t.splitLast b).peersAt t.buckets.length := by
        rw [peersAt_splitLast_length]
        rfl
      rw [unfoldBuckets_succ depth hb, hnew]
      by_cases hmore : t.k ≤ ((t.splitLast b).peersAt t.buckets.length).length
      · -- the new last bucket is full itself: unfold on
        rw [if_pos hmore]
        have hlast : (t.splitLast b).buckets.length - 1 = t.buckets.length := by
          rw [length_splitLast, Nat.add_sub_cancel]
        have hplace' : ∀ p ∈ (t.splitLast b).peersAt t.buckets.length,
            t.buckets.length ≤ commonPrefixLength t.localPeer.id p.id := by
          rw [peersAt_splitLast_new hindex hb]
          intro p hp
          simpa using (List.mem_filter.mp hp).2
        obtain ⟨u, hu, hUnf⟩ := ih (splitLast_ne_nil t b) (indexed_splitLast hb hindex)
          (by rwa [hlast]) hk (by rwa [hlast]) (by rw [length_splitLast]; omega)
        exact ⟨u, hu, hUnf.of_splitLast hindex hb hplace hmore⟩
      · rw [if_neg hmore]
        exact ⟨_, rfl, unfolds_splitLast hindex hb hplace (not_le.mp hmore)⟩

/-! ### The five exits of `update` -/

/-- The table with the peers at one position rewritten. -/
def modifyPeers (t : RoutingTable) (i : ℕ) (f : List Peer → List Peer) : RoutingTable :=
  { t with buckets := t.buckets.modify i fun b => { b with peers := f b.peers } }

@[simp] theorem modifyPeers_k (t : RoutingTable) (i : ℕ) (f : List Peer → List Peer) :
    (t.modifyPeers i f).k = t.k := rfl

@[simp] theorem modifyPeers_localPeer (t : RoutingTable) (i : ℕ)
    (f : List Peer → List Peer) : (t.modifyPeers i f).localPeer = t.localPeer := rfl

@[simp] theorem length_modifyPeers (t : RoutingTable) (i : ℕ) (f : List Peer → List Peer) :
    (t.modifyPeers i f).buckets.length = t.buckets.length := by
  simp [modifyPeers]

@[simp] theorem homeIndex_modifyPeers (t : RoutingTable) (i : ℕ) (f : List Peer → List Peer)
    (id : U128) : (t.modifyPeers i f).homeIndex id = t.homeIndex id := by
  simp [homeIndex]

theorem peersAt_modifyPeers (t : RoutingTable) {i : ℕ} (hi : i < t.buckets.length)
    (f : List Peer → List Peer) (j : ℕ) :
    (t.modifyPeers i f).peersAt j = if j = i then f (t.peersAt i) else t.peersAt j := by
  unfold peersAt modifyPeers
  by_cases hj : j = i
  · subst hj
    simp [List.getElem?_eq_getElem hi]
  · simp [hj, Ne.symm hj]

theorem indexed_modifyPeers {t : RoutingTable} (h : t.Indexed) (i : ℕ)
    (f : List Peer → List Peer) : (t.modifyPeers i f).Indexed := by
  intro j c hc
  simp only [modifyPeers, List.getElem?_modify] at hc
  obtain ⟨b, hb, rfl⟩ := Option.map_eq_some_iff.mp hc
  have hbj := h j b hb
  by_cases hij : i = j <;> simpa [hij] using hbj

theorem setBucket_eq_modifyPeers {t : RoutingTable} {i : ℕ} {b : Bucket}
    (h : t.buckets[i]? = some b) (f : List Peer → List Peer) :
    t.setBucket i { b with peers := f b.peers } = t.modifyPeers i f := by
  unfold setBucket modifyPeers
  congr 1
  apply List.ext_getElem?
  intro j
  have hi := (List.getElem?_eq_some_iff.mp h).1
  by_cases hij : i = j
  · subst hij
    simp [List.getElem?_set_self hi, h]
  · simp [List.getElem?_set_ne hij, hij]

/-- The peer's bucket with the peer moved to its end. -/
def refresh (t : RoutingTable) (p : Peer) : RoutingTable :=
  t.modifyPeers (t.homeIndex p.id) fun ps => ps.erase p ++ [p]

/-- The peer's bucket with the peer added at its end. -/
def insert (t : RoutingTable) (p : Peer) : RoutingTable :=
  t.modifyPeers (t.homeIndex p.id) fun ps => ps ++ [p]

/-- The ways in which `update p` ends on `t`: the table it leaves and its
result. -/
inductive Updated (t : RoutingTable) (p : Peer) :
    RoutingTable → Except NoCapacityError Unit → Prop
  | refreshed (hp : p ∈ t.peersAt (t.homeIndex p.id)) : Updated t p (t.refresh p) (.ok ())
  | added (hp : p ∉ t.peersAt (t.homeIndex p.id))
      (hroom : (t.peersAt (t.homeIndex p.id)).length < t.k) :
      Updated t p (t.insert p) (.ok ())
  | rejected (hp : p ∉ t.peersAt (t.homeIndex p.id))
      (hfull : t.k ≤ (t.peersAt (t.homeIndex p.id)).length)
      (hinner : t.homeIndex p.id + 1 < t.buckets.length) :
      Updated t p t (.error {})
  | unfoldedAdded (u : RoutingTable) (hp : p ∉ t.peersAt (t.homeIndex p.id))
      (hfull : t.k ≤ (t.peersAt (t.homeIndex p.id)).length)
      (hlast : t.homeIndex p.id + 1 = t.buckets.length) (hu : Unfolds t u)
      (hroom : (u.peersAt (u.homeIndex p.id)).length < u.k) :
      Updated t p (u.insert p) (.ok ())
  | unfoldedRejected (u : RoutingTable) (hp : p ∉ t.peersAt (t.homeIndex p.id))
      (hfull : t.k ≤ (t.peersAt (t.homeIndex p.id)).length)
      (hlast : t.homeIndex p.id + 1 = t.buckets.length) (hu : Unfolds t u)
      (hufull : u.k ≤ (u.peersAt (u.homeIndex p.id)).length) :
      Updated t p u (.error {})

theorem addPeerToBucket_homeIndex {t : RoutingTable} (ht : t.buckets ≠ []) (p : Peer) :
    t.addPeerToBucket (t.homeIndex p.id) p = .ok (t.insert p) := by
  obtain ⟨b, hb, hat, -⟩ := exists_bucket (homeIndex_lt ht p.id)
  rw [addPeerToBucket, hat]
  exact congrArg Except.ok (setBucket_eq_modifyPeers hb fun ps => ps ++ [p])

/-- The position computed by `update` and `nearest_peers`. -/
theorem clamp_eq_homeIndex (t : RoutingTable) (id : U128) :
    (if commonPrefixLength t.localPeer.id id > t.buckets.length - 1 then t.buckets.length - 1
      else commonPrefixLength t.localPeer.id id) = t.homeIndex id := by
  unfold homeIndex
  split <;> omega

/-- `update` as a total function of the bucket the peer belongs to and of the
outcome of the unfolding. -/
theorem update_eq {t : RoutingTable} (ht : t.buckets ≠ []) (p : Peer) :
    t.update p =
      if p ∈ t.peersAt (t.homeIndex p.id) then .ok (t.refresh p, .ok ())
      else if (t.peersAt (t.homeIndex p.id)).length < t.k then .ok (t.insert p, .ok ())
      else if t.homeIndex p.id = t.buckets.length - 1 then
        (t.unfoldBuckets unfoldDepth).bind fun u =>
          u.lastIndex.bind fun last =>
            let i := if commonPrefixLength t.localPeer.id p.id > last then last
              else commonPrefixLength t.localPeer.id p.id
            (u.bucketAt i).bind fun b =>
              if b.peers.length ≥ u.k then .ok (u, .error {})
              else (u.addPeerToBucket i p).bind fun v => .ok (v, .ok ())
      else .ok (t, .error {}) := by
  obtain ⟨b, hb, hat, hpeers⟩ := exists_bucket (homeIndex_lt ht p.id)
  rw [update, lastIndex_eq ht]
  simp only [bind, Except.bind, clamp_eq_homeIndex, hat, Bucket.moveToFrontIfExists, hpeers]
  by_cases hp : p ∈ b.peers
  · simp only [hp, if_true]
    rw [setBucket_eq_modifyPeers hb fun ps => ps.erase p ++ [p]]
    rfl
  · simp only [hp, if_false, addPeerToBucket_homeIndex ht p]
    rfl

theorem update_isOk {t : RoutingTable} (ht : t.buckets ≠ []) (hk : 0 < t.k) (p : Peer) :
    ∃ t' r, t.update p = .ok (t', r) ∧ t'.buckets ≠ [] ∧ t'.k = t.k := by
  have hmodify (u : RoutingTable) (hu : u.buckets ≠ []) (i : ℕ) (f : List Peer → List Peer) :
      (u.modifyPeers i f).buckets ≠ [] := by
    rw [← List.length_pos_iff, length_modifyPeers]
    exact length_pos hu
  rw [update_eq ht]
  by_cases hp : p ∈ t.peersAt (t.homeIndex p.id)
  · rw [if_pos hp]
    exact ⟨_, _, rfl, hmodify t ht _ _, rfl⟩
  rw [if_neg hp]
  by_cases hroom : (t.peersAt (t.homeIndex p.id)).length < t.k
  · rw [if_pos hroom]
    exact ⟨_, _, rfl, hmodify t ht _ _, rfl⟩
  rw [if_neg hroom]
  by_cases hlast : t.homeIndex p.id = t.buckets.length - 1
  · rw [if_pos hlast]
    obtain ⟨b, hb, -, -⟩ := exists_bucket (t := t) (i := t.buckets.length - 1)
      (by have := length_pos ht; omega)
    obtain ⟨u, hu, hune, huk, hul⟩ := unfoldBuckets_isOk hb hk (show 0 < unfoldDepth by decide)
      (show 129 ≤ unfoldDepth + b.index by unfold unfoldDepth; omega)
    obtain ⟨c, hc, hat, -⟩ := exists_bucket (homeIndex_lt hune p.id)
    rw [hu]
    simp only [Except.bind, lastIndex_eq hune]
    rw [← hul, clamp_eq_homeIndex u p.id]
    simp only [hat]
    by_cases hufull : c.peers.length ≥ u.k
    · rw [if_pos hufull]
      exact ⟨_, _, rfl, hune, huk⟩
    · rw [if_neg hufull, addPeerToBucket_homeIndex hune p]
      exact ⟨_, _, rfl, hmodify u hune _ _, huk⟩
  · rw [if_neg hlast]
    exact ⟨_, _, rfl, ht, rfl⟩

/-- The table has room for peers, and a bucket. -/
structure Roomy (t : RoutingTable) : Prop where
  k_pos : 0 < t.k
  nonempty : t.buckets ≠ []

theorem Roomy.of_update {t t' : RoutingTable} (h : t.Roomy) {p : Peer}
    {r : Except NoCapacityError Unit} (hu : t.update p = .ok (t', r)) : t'.Roomy := by
  obtain ⟨u, r', hu', hne, hk⟩ := update_isOk h.nonempty h.k_pos p
  obtain ⟨rfl, -⟩ := Prod.mk.inj (Except.ok.inj (hu.symm.trans hu'))
  exact ⟨hk ▸ h.k_pos, hne⟩

theorem update_of_zero {t : RoutingTable} (hb : t.buckets = [Bucket.new 0]) (hk : t.k = 0)
    (p : Peer) : t.update p = .error .stackOverflow := by
  have ht : t.buckets ≠ [] := by simp [hb]
  have hhome : t.homeIndex p.id = 0 := by simp [homeIndex, hb]
  have hempty : t.peersAt 0 = [] := by simp [peersAt, hb, Bucket.new]
  rw [update_eq ht, hhome, hempty, if_neg (by simp), if_neg (by simp [hk]), if_pos (by simp [hb]),
    unfoldBuckets_zero unfoldDepth ht hk]
  rfl

end DhtKad.RoutingTable
