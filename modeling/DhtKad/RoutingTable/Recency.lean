import DhtKad.Lib.Recency
import DhtKad.RoutingTable.Refinement

/-!
The order inside the buckets: least recently seen first.

The table keeps no times, so the history is instrumented with them: `Clocked`
runs the very same updates and notes, for every peer, the number of the last
call for it that returned `Ok`. The invariant says that every bucket is ordered
by these notes. A refresh and an insertion put the peer at the end of its
bucket at a time past all others, and unfolding hands every bucket a sublist of
an old one, which is all there is to the proof.

The calls that returned `Ok` also say which peers the table holds. Membership
is a matter of the whole peer, so an identifier that came with several addresses
has an entry for each of them that was accepted.
-/

namespace DhtKad.RoutingTable

open Recency

/-- A table, the number of `update` calls so far, and the time of the last call
for each peer that returned `Ok`. -/
structure Clocked where
  table : RoutingTable
  now : ℕ
  lastOk : Peer → Option ℕ

namespace Clocked

def new (k : ℕ) (localPeer : Peer) : Clocked :=
  { table := RoutingTable.new k localPeer, now := 0, lastOk := fun _ => none }

/-- One call of `update`, noted if it returns `Ok`. -/
def next (s : Clocked) (p : Peer) : Option Clocked :=
  match s.table.update p with
  | .ok (t, .ok ()) =>
      some { table := t, now := s.now + 1, lastOk := Function.update s.lastOk p (some s.now) }
  | .ok (t, .error _) => some { table := t, now := s.now + 1, lastOk := s.lastOk }
  | .error _ => none

/-- The instrumented table after a sequence of `update` calls on a new table. -/
def afterUpdates (k : ℕ) (localPeer : Peer) (ps : List Peer) : Option Clocked :=
  Run.run next (new k localPeer) ps

/-- Every bucket is ordered by the notes, and these are of the past. -/
structure Noted (s : Clocked) : Prop where
  before : Before s.lastOk s.now
  ordered : ∀ i, Ordered s.lastOk (s.table.peersAt i)

theorem noted_new (k : ℕ) (localPeer : Peer) : (new k localPeer).Noted := by
  refine ⟨?_, ?_⟩
  · intro p i hp
    cases hp
  · intro i
    cases i <;> exact ordered_nil _

end Clocked

section Buckets

variable {t u : RoutingTable} {p : Peer} {stamp : Peer → Option ℕ} {now : ℕ}

/-- Unfolding fills every bucket from one bucket, in its order. -/
theorem Unfolds.exists_sublist (hu : Unfolds t u) (i : ℕ) :
    ∃ j, (u.peersAt i).Sublist (t.peersAt j) := by
  by_cases hi : i + 1 < t.buckets.length
  · exact ⟨i, hu.before i hi ▸ List.Sublist.refl _⟩
  · exact ⟨t.buckets.length - 1, hu.after i (by omega) ▸ List.filter_sublist⟩

theorem Unfolds.ordered (hu : Unfolds t u) (h : ∀ i, Ordered stamp (t.peersAt i)) (i : ℕ) :
    Ordered stamp (u.peersAt i) := by
  obtain ⟨j, hj⟩ := hu.exists_sublist i
  exact (h j).sublist hj

theorem WellFormed.not_mem_peersAt (ht : t.WellFormed) {i : ℕ} (hi : i ≠ t.homeIndex p.id) :
    p ∉ t.peersAt i :=
  fun hp => hi (ht.home i p hp).symm

theorem WellFormed.ordered_insert (ht : t.WellFormed) (h : ∀ i, Ordered stamp (t.peersAt i))
    (hnow : Before stamp now) (hp : p ∉ t.peersAt (t.homeIndex p.id)) (i : ℕ) :
    Ordered (Function.update stamp p (some now)) ((t.insert p).peersAt i) := by
  rw [peersAt_insert ht.nonempty]
  split
  · exact (h _).concat hp hnow
  · exact (h i).update (ht.not_mem_peersAt ‹_›) _

theorem WellFormed.ordered_refresh (ht : t.WellFormed) (h : ∀ i, Ordered stamp (t.peersAt i))
    (hnow : Before stamp now) (i : ℕ) :
    Ordered (Function.update stamp p (some now)) ((t.refresh p).peersAt i) := by
  rw [peersAt_refresh ht.nonempty]
  split
  · have hrest : p ∉ (t.peersAt (t.homeIndex p.id)).erase p := (ht.nodup _).not_mem_erase
    exact ((h _).sublist List.erase_sublist).concat hrest hnow
  · exact (h i).update (ht.not_mem_peersAt ‹_›) _

/-- What an update does to the order: a peer that was accepted is the most
recently seen one of its bucket, and a rejection changes nothing. -/
theorem Updated.ordered {t' : RoutingTable} {r : Except NoCapacityError Unit}
    (ht : t.WellFormed) (h : ∀ i, Ordered stamp (t.peersAt i)) (hnow : Before stamp now)
    (hupd : Updated t p t' r) (i : ℕ) :
    (r = .ok () → Ordered (Function.update stamp p (some now)) (t'.peersAt i)) ∧
      (r = .error {} → Ordered stamp (t'.peersAt i)) := by
  cases hupd with
  | refreshed hp => exact ⟨fun _ => ht.ordered_refresh h hnow i, nofun⟩
  | added hp hroom => exact ⟨fun _ => ht.ordered_insert h hnow hp i, nofun⟩
  | rejected hp hfull hinner => exact ⟨nofun, fun _ => h i⟩
  | unfoldedAdded u hp hfull hlast hu hroom =>
      have hinsert := (hu.wellFormed ht).ordered_insert (hu.ordered h) hnow (hu.not_mem ht hp) i
      exact ⟨fun _ => hinsert, nofun⟩
  | unfoldedRejected u hp hfull hlast hu hufull => exact ⟨nofun, fun _ => hu.ordered h i⟩

end Buckets

/-! ### Calls that returned `Ok` -/

/-- The call number `i` of the history was one for `q` and returned `Ok`. -/
def OkAt (k : ℕ) (localPeer : Peer) (ps : List Peer) (i : ℕ) (q : Peer) : Prop :=
  ∃ t t', ps[i]? = some q ∧ afterUpdates k localPeer (ps.take i) = some t ∧
    t.update q = .ok (t', .ok ())

/-- The call number `i` was the last one for `q` that returned `Ok`. -/
def LastOkAt (k : ℕ) (localPeer : Peer) (ps : List Peer) (i : ℕ) (q : Peer) : Prop :=
  OkAt k localPeer ps i q ∧ ∀ j, i < j → ¬ OkAt k localPeer ps j q

section History

variable {k : ℕ} {localPeer p q : Peer} {ps : List Peer} {t t' : RoutingTable} {i : ℕ}
  {r : Except NoCapacityError Unit}

theorem OkAt.lt_length (h : OkAt k localPeer ps i q) : i < ps.length := by
  obtain ⟨t, t', hi, -, -⟩ := h
  exact (List.getElem?_eq_some_iff.mp hi).1

theorem okAt_concat (ht : afterUpdates k localPeer ps = some t)
    (hupdate : t.update p = .ok (t', r)) :
    OkAt k localPeer (ps ++ [p]) i q ↔
      OkAt k localPeer ps i q ∨ (i = ps.length ∧ q = p ∧ r = .ok ()) := by
  rcases lt_trichotomy i ps.length with hlt | rfl | hgt
  · rw [or_iff_left (fun h => hlt.ne h.1), OkAt, OkAt, List.getElem?_append_left hlt,
      List.take_append_of_le_length hlt.le]
  · rw [or_iff_right (fun h => lt_irrefl _ h.lt_length)]
    rw [OkAt, List.getElem?_concat_length, List.take_left, ht]
    refine ⟨?_, ?_⟩
    · rintro ⟨u, u', hq, hu, hok⟩
      obtain rfl := Option.some.inj hq
      obtain rfl := Option.some.inj hu
      exact ⟨rfl, rfl, (Prod.mk.inj (Except.ok.inj (hupdate.symm.trans hok))).2⟩
    · rintro ⟨-, rfl, rfl⟩
      exact ⟨t, t', rfl, rfl, hupdate⟩
  · refine iff_of_false (fun h => ?_) ?_
    · have hlen := h.lt_length
      rw [List.length_append, List.length_singleton] at hlen
      omega
    · rintro (h | h)
      · exact lt_asymm hgt h.lt_length
      · exact hgt.ne' h.1

theorem lastOkAt_concat_ok (ht : afterUpdates k localPeer ps = some t)
    (hupdate : t.update p = .ok (t', .ok ())) :
    LastOkAt k localPeer (ps ++ [p]) i q ↔
      if q = p then i = ps.length else LastOkAt k localPeer ps i q := by
  have hok (j : ℕ) := okAt_concat (i := j) (q := q) ht hupdate
  rw [LastOkAt, LastOkAt]
  split
  · subst q
    refine ⟨fun ⟨hi, hlast⟩ => ?_, fun hi => ⟨(hok i).mpr (.inr ⟨hi, rfl, rfl⟩), ?_⟩⟩
    · rcases (hok i).mp hi with hi | hi
      · exact absurd ((hok ps.length).mpr (.inr ⟨rfl, rfl, rfl⟩)) (hlast _ hi.lt_length)
      · exact hi.1
    · intro j hj h
      have hlen := h.lt_length
      rw [List.length_append, List.length_singleton] at hlen
      omega
  · rename_i hq
    have hsame (j : ℕ) : OkAt k localPeer (ps ++ [p]) j q ↔ OkAt k localPeer ps j q :=
      (hok j).trans (or_iff_left fun h => hq h.2.1)
    simp only [hsame]

theorem lastOkAt_concat_error (ht : afterUpdates k localPeer ps = some t)
    (hupdate : t.update p = .ok (t', .error {})) :
    LastOkAt k localPeer (ps ++ [p]) i q ↔ LastOkAt k localPeer ps i q := by
  have hsame (j : ℕ) : OkAt k localPeer (ps ++ [p]) j q ↔ OkAt k localPeer ps j q :=
    (okAt_concat ht hupdate).trans (or_iff_left fun h => nomatch h.2.2)
  simp only [LastOkAt, hsame]

end History

namespace Clocked

variable {k : ℕ} {localPeer : Peer}

/-- What is known of the instrumented table after a history of updates. -/
structure Follows (k : ℕ) (localPeer : Peer) (ps : List Peer) (s : Clocked) : Prop where
  reached : Reached k localPeer s.table
  table : RoutingTable.afterUpdates k localPeer ps = some s.table
  now : s.now = ps.length
  noted : s.Noted
  lastOk : ∀ q i, s.lastOk q = some i ↔ LastOkAt k localPeer ps i q

theorem follows_new (k : ℕ) (localPeer : Peer) : Follows k localPeer [] (new k localPeer) := by
  refine ⟨reached_new k localPeer, rfl, rfl, noted_new k localPeer, fun q i => ?_⟩
  exact iff_of_false (fun h => nomatch h) fun h => absurd h.1.lt_length (Nat.not_lt_zero i)

theorem Follows.step {ps : List Peer} {s : Clocked} (h : Follows k localPeer ps s) (hk : 0 < k)
    (p : Peer) : ∃ s', s.next p = some s' ∧ Follows k localPeer (ps ++ [p]) s' := by
  obtain ⟨t', r, hupdate, hupd⟩ := h.reached.update_updated hk p
  have hord := hupd.ordered h.reached.wellFormed h.noted.ordered h.noted.before
  have hreached := h.reached.updated hupd
  have htable := (afterUpdates_concat h.table p).trans (next_eq hupdate)
  have hnow : s.now + 1 = (ps ++ [p]).length := by simp [h.now]
  rcases r with ⟨⟨⟩⟩ | ⟨⟨⟩⟩
  · refine ⟨_, by rw [next, hupdate], hreached, htable, hnow,
      ⟨h.noted.before.succ, fun i => (hord i).2 rfl⟩, fun q i => ?_⟩
    rw [lastOkAt_concat_error h.table hupdate, h.lastOk]
  · refine ⟨_, by rw [next, hupdate], hreached, htable, hnow,
      ⟨h.noted.before.update p, fun i => (hord i).1 rfl⟩, fun q i => ?_⟩
    show Function.update s.lastOk p (some s.now) q = some i ↔ _
    rw [lastOkAt_concat_ok h.table hupdate, Function.update_apply]
    split
    · rw [Option.some.injEq, h.now]
      exact eq_comm
    · exact h.lastOk q i

/-- Every history runs to its end in the instrumented table too. -/
theorem afterUpdates_follows (hk : 0 < k) (localPeer : Peer) (ps : List Peer) :
    ∃ s, afterUpdates k localPeer ps = some s ∧ Follows k localPeer ps s := by
  induction ps using List.reverseRecOn with
  | nil => exact ⟨_, rfl, follows_new k localPeer⟩
  | append_singleton ps p ih =>
      obtain ⟨s, hs, hfollows⟩ := ih
      obtain ⟨s', hs', hfollows'⟩ := hfollows.step hk p
      refine ⟨s', ?_, hfollows'⟩
      rw [afterUpdates] at hs ⊢
      rw [Run.run_concat, hs, Option.bind_some, hs']

end Clocked

/-- **Least recently seen first.** After every history, the peers of every
bucket are listed in strictly increasing order of the last calls for them that
returned `Ok`. -/
theorem buckets_by_recency (k : ℕ) (hk : 1 ≤ k) (localPeer : Peer) (ps : List Peer) :
    ∃ t, afterUpdates k localPeer ps = some t ∧ ∀ b ∈ t.buckets, ∃ times : List ℕ,
      List.Forall₂ (fun p i => LastOkAt k localPeer ps i p) b.peers times ∧
        times.Pairwise (· < ·) := by
  obtain ⟨s, -, h⟩ := Clocked.afterUpdates_follows hk localPeer ps
  refine ⟨s.table, h.table, fun b hb => ?_⟩
  obtain ⟨i, hi⟩ := List.mem_iff_getElem?.mp hb
  obtain ⟨times, heq, hlt⟩ := h.noted.ordered i
  rw [peersAt_of_getElem? hi, ← List.forall₂_eq_eq_eq, List.forall₂_map_left_iff,
    List.forall₂_map_right_iff] at heq
  exact ⟨times, heq.imp fun p i => (h.lastOk p i).mp, hlt⟩

/-- A refresh, an insertion and two splits with room for two peers. -/
theorem buckets_by_recency_split :
    ∃ t, afterUpdates 2 ⟨0, "0.0.0.0:1"⟩ [⟨1#128 <<< 125, "0.0.0.0:2"⟩,
        ⟨1#128 <<< 127, "0.0.0.0:3"⟩, ⟨1#128 <<< 125, "0.0.0.0:2"⟩,
        ⟨3#128 <<< 124, "0.0.0.0:4"⟩] = some t ∧
      ∀ b ∈ t.buckets, ∃ times : List ℕ,
        List.Forall₂ (fun p i => LastOkAt 2 ⟨0, "0.0.0.0:1"⟩ [⟨1#128 <<< 125, "0.0.0.0:2"⟩,
          ⟨1#128 <<< 127, "0.0.0.0:3"⟩, ⟨1#128 <<< 125, "0.0.0.0:2"⟩,
          ⟨3#128 <<< 124, "0.0.0.0:4"⟩] i p) b.peers times ∧ times.Pairwise (· < ·) :=
  buckets_by_recency 2 (by decide) _ _

end DhtKad.RoutingTable
