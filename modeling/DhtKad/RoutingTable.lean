import DhtKad.Keyutil
import DhtKad.Lib.Run
import DhtKad.Lib.SortBy

/-!
`routing_table.rs`: the lazily unfolded table of k-buckets.

The definitions follow the source function by function. Indexing a bucket
vector and computing `self.buckets.len() - 1` can panic there, so they can fail
here; the recursion of `unfold_buckets` is given a depth and fails when it is
used up. The lemmas at the end replace both by total functions on tables that
have a bucket at all: `peersAt`, the peers of the bucket at a position, and
`homeIndex`, the position an identifier belongs to.
-/

namespace DhtKad

open SortBy

structure Peer where
  id : U128
  address : String
  deriving DecidableEq, Repr

structure Bucket where
  index : ℕ
  peers : List Peer
  deriving DecidableEq, Repr

structure RoutingTable where
  k : ℕ
  localPeer : Peer
  buckets : List Bucket
  deriving DecidableEq, Repr

/-- `NoCapacityError`: the bucket has reached the `k` limit. -/
structure NoCapacityError where
  deriving DecidableEq, Repr

def Bucket.new (index : ℕ) : Bucket := { index := index, peers := [] }

/-- Moves a known peer to the end of its bucket, which is the most recently
seen end. -/
def Bucket.moveToFrontIfExists (b : Bucket) (p : Peer) : Bucket × Bool :=
  if p ∈ b.peers then ({ b with peers := b.peers.erase p ++ [p] }, true)
  else (b, false)

/-- Splits off the peers that do not belong in the bucket: what is retained,
and the bucket after it. -/
def Bucket.split (b : Bucket) (target : U128) : Bucket × Bucket :=
  let i := b.index
  ({ b with peers := b.peers.filter fun peer => ¬ commonPrefixLength peer.id target > i },
    { Bucket.new (i + 1) with
      peers := b.peers.filter fun peer => commonPrefixLength peer.id target > i })

namespace RoutingTable

def new (k : ℕ) (localPeer : Peer) : RoutingTable :=
  { k := k, localPeer := localPeer, buckets := [Bucket.new 0] }

/-- `self.buckets.len() - 1`. -/
def lastIndex (t : RoutingTable) : Except Panic ℕ :=
  if t.buckets.length = 0 then .error .subtractOverflow else .ok (t.buckets.length - 1)

/-- `self.buckets[i]`. -/
def bucketAt (t : RoutingTable) (i : ℕ) : Except Panic Bucket :=
  match t.buckets[i]? with
  | some b => .ok b
  | none => .error .indexOutOfRange

def setBucket (t : RoutingTable) (i : ℕ) (b : Bucket) : RoutingTable :=
  { t with buckets := t.buckets.set i b }

def addPeerToBucket (t : RoutingTable) (bucketIndex : ℕ) (peer : Peer) :
    Except Panic RoutingTable := do
  let b ← t.bucketAt bucketIndex
  return t.setBucket bucketIndex { b with peers := b.peers ++ [peer] }

/-- The recursion of `unfold_buckets`, at most `depth` calls deep. -/
def unfoldBuckets : ℕ → RoutingTable → Except Panic RoutingTable
  | 0, _ => .error .stackOverflow
  | depth + 1, t => do
      let index ← t.lastIndex
      let b ← t.bucketAt index
      let (retained, newBucket) := b.split t.localPeer.id
      let t' := { t with buckets := (t.setBucket index retained).buckets ++ [newBucket] }
      if newBucket.peers.length ≥ t.k then unfoldBuckets depth t'
      else return t'

/-- Prefix lengths are at most 128, so with `k ≥ 1` the recursion is at most
129 calls deep (`unfoldBuckets_unfolds`); with `k = 0` no depth is enough
(`unfoldBuckets_zero`). -/
def unfoldDepth : ℕ := 129

/-- Adds the peer, or refreshes it if it is known. The table is returned with
the result because the rejecting path may have unfolded it. -/
def update (t : RoutingTable) (p : Peer) :
    Except Panic (RoutingTable × Except NoCapacityError Unit) := do
  let cpl := commonPrefixLength t.localPeer.id p.id
  let last ← t.lastIndex
  -- if the ideal bucket does not exist choose the last bucket
  let bucketIndex := if cpl > last then last else cpl
  let bucket ← t.bucketAt bucketIndex
  match bucket.moveToFrontIfExists p with
  | (bucket', true) => return (t.setBucket bucketIndex bucket', .ok ())
  | (_, false) =>
      if bucket.peers.length < t.k then
        let t' ← t.addPeerToBucket bucketIndex p
        return (t', .ok ())
      else if bucketIndex = last then
        -- unfold and re-check the position on the new structure
        let t' ← t.unfoldBuckets unfoldDepth
        let last' ← t'.lastIndex
        let bucketIndex' := if cpl > last' then last' else cpl
        let bucket' ← t'.bucketAt bucketIndex'
        if bucket'.peers.length ≥ t'.k then
          return (t', .error {})
        else
          let t'' ← t'.addPeerToBucket bucketIndex' p
          return (t'', .ok ())
      else
        return (t, .error {})

def distance (target : U128) (p : Peer) : ℕ := (p.id ^^^ target).toNat

/-- The peers of the buckets on both sides of a position. -/
def surroundingPeers (t : RoutingTable) (bucketIndex : ℕ) : Except Panic (List Peer) := do
  let prev ← (if bucketIndex > 0 then Bucket.peers <$> t.bucketAt (bucketIndex - 1)
    else pure [])
  let last ← t.lastIndex
  let next ← (if bucketIndex < last then Bucket.peers <$> t.bucketAt (bucketIndex + 1)
    else pure [])
  return prev ++ next

def nearestPeers (t : RoutingTable) (target : U128) (numResults : ℕ) :
    Except Panic (List Peer) := do
  let cpl := commonPrefixLength t.localPeer.id target
  let bucketIndex ← (if t.buckets.length ≤ cpl then t.lastIndex else pure cpl)
  let home ← t.bucketAt bucketIndex
  -- if there are not enough results look at the surrounding buckets
  let more ← (if home.peers.length < numResults then t.surroundingPeers bucketIndex
    else pure [])
  return (sortBy (distance target) (home.peers ++ more)).take numResults

def kNearestPeers (t : RoutingTable) (target : U128) : Except Panic (List Peer) :=
  t.nearestPeers target t.k

/-- One call of `update` as a step of the table, whatever its result. -/
def next (t : RoutingTable) (p : Peer) : Option RoutingTable :=
  match t.update p with
  | .ok (t', _) => some t'
  | .error _ => none

/-- The table after a sequence of `update` calls on a new table. -/
def afterUpdates (k : ℕ) (localPeer : Peer) (ps : List Peer) : Option RoutingTable :=
  Run.run next (new k localPeer) ps

/-! ### Peers by position -/

def peers (t : RoutingTable) : List Peer := t.buckets.flatMap Bucket.peers

/-- The peers of the bucket at a position, none if there is no such bucket. -/
def peersAt (t : RoutingTable) (i : ℕ) : List Peer := (t.buckets[i]?.map Bucket.peers).getD []

/-- The position of the bucket an identifier belongs to. -/
def homeIndex (t : RoutingTable) (id : U128) : ℕ :=
  min (commonPrefixLength t.localPeer.id id) (t.buckets.length - 1)

@[simp] theorem length_setBucket (t : RoutingTable) (i : ℕ) (b : Bucket) :
    (t.setBucket i b).buckets.length = t.buckets.length := by
  simp [setBucket]

theorem peersAt_of_getElem? {t : RoutingTable} {i : ℕ} {b : Bucket}
    (h : t.buckets[i]? = some b) : t.peersAt i = b.peers := by
  simp [peersAt, h]

theorem peersAt_eq_nil_of_le {t : RoutingTable} {i : ℕ} (h : t.buckets.length ≤ i) :
    t.peersAt i = [] := by
  simp [peersAt, List.getElem?_eq_none h]

theorem exists_bucket {t : RoutingTable} {i : ℕ} (h : i < t.buckets.length) :
    ∃ b, t.buckets[i]? = some b ∧ t.bucketAt i = .ok b ∧ t.peersAt i = b.peers := by
  have hb : t.buckets[i]? = some t.buckets[i] := List.getElem?_eq_getElem h
  exact ⟨_, hb, by simp [bucketAt, hb], peersAt_of_getElem? hb⟩

theorem mem_peers_iff {t : RoutingTable} {p : Peer} :
    p ∈ t.peers ↔ ∃ i, p ∈ t.peersAt i := by
  unfold peers peersAt
  rw [List.mem_flatMap]
  constructor
  · rintro ⟨b, hb, hp⟩
    obtain ⟨i, hi⟩ := List.mem_iff_getElem?.mp hb
    exact ⟨i, by simpa [hi] using hp⟩
  · rintro ⟨i, hp⟩
    cases hb : t.buckets[i]? with
    | none => simp [hb] at hp
    | some b => exact ⟨b, List.mem_of_getElem? hb, by simpa [hb] using hp⟩

theorem lt_length_of_mem_peersAt {t : RoutingTable} {i : ℕ} {p : Peer}
    (h : p ∈ t.peersAt i) : i < t.buckets.length := by
  by_contra hi
  rw [peersAt_eq_nil_of_le (by omega)] at h
  simp at h

section Nonempty

variable {t : RoutingTable} (ht : t.buckets ≠ [])
include ht

theorem length_pos : 0 < t.buckets.length := List.length_pos_iff.mpr ht

theorem homeIndex_lt (id : U128) : t.homeIndex id < t.buckets.length := by
  have := length_pos ht
  unfold homeIndex
  omega

theorem lastIndex_eq : t.lastIndex = .ok (t.buckets.length - 1) := by
  have := length_pos ht
  rw [lastIndex, if_neg (by omega)]

end Nonempty

end RoutingTable

end DhtKad
