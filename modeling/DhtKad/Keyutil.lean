import DhtKad.Lib.ByteString
import DhtKad.Lib.XorMetric

/-!
`keyutil.rs`: 128-bit identifiers, their byte encoding and the length of the
prefix two of them share. The operations of the source that can be cut short
(a slice, an index, an `unwrap`) return `Except Panic`.
-/

namespace DhtKad

open XorMetric

/-- What cuts a computation short: the panics of the source, and the abort of
a recursion that does not end. -/
inductive Panic
  | sliceOutOfRange
  | indexOutOfRange
  | subtractOverflow
  | unwrapNone
  | invalidUtf8
  | addrParse
  | stackOverflow
  deriving DecidableEq, Repr

abbrev U128 := BitVec 128

/-- `Vec<u8>`. -/
abbrev Bytes := List UInt8

def commonPrefixLength (a b : U128) : ℕ := (a ^^^ b).clz.toNat

/-- `key_from_bytes`: the slice `k[0..16]` panics on a shorter vector, and
bytes past the sixteenth are ignored. -/
def keyFromBytes (k : Bytes) : Except Panic U128 :=
  if 16 ≤ k.length then .ok (BitVec.ofNat 128 (ByteString.ofBytes (k.take 16)))
  else .error .sliceOutOfRange

def keyToBytes (k : U128) : Bytes := ByteString.toBytes 16 k.toNat

/-! ### Prefix lengths are those of the XOR metric -/

theorem commonPrefixLength_eq (a b : U128) : commonPrefixLength a b = prefixLength a b := rfl

theorem commonPrefixLength_le (a b : U128) : commonPrefixLength a b ≤ 128 :=
  prefixLength_le a b

theorem commonPrefixLength_comm (a b : U128) :
    commonPrefixLength a b = commonPrefixLength b a :=
  prefixLength_comm a b

/-! ### Keys and bytes -/

@[simp] theorem length_keyToBytes (k : U128) : (keyToBytes k).length = 16 :=
  ByteString.length_toBytes 16 k.toNat

@[simp] theorem keyFromBytes_keyToBytes (k : U128) : keyFromBytes (keyToBytes k) = .ok k := by
  have hk : k.toNat % 256 ^ 16 = k.toNat := Nat.mod_eq_of_lt (by simpa using k.isLt)
  rw [keyFromBytes, if_pos (by simp), List.take_of_length_le (by simp), keyToBytes,
    ByteString.ofBytes_toBytes, hk, BitVec.ofNat_toNat, BitVec.setWidth_eq]

theorem keyToBytes_injective {k k' : U128} (h : keyToBytes k = keyToBytes k') : k = k' := by
  have hbytes := congrArg keyFromBytes h
  rw [keyFromBytes_keyToBytes, keyFromBytes_keyToBytes] at hbytes
  exact Except.ok.inj hbytes

theorem keyFromBytes_isOk_iff (k : Bytes) : (∃ id, keyFromBytes k = .ok id) ↔ 16 ≤ k.length := by
  unfold keyFromBytes
  by_cases h : 16 ≤ k.length <;> simp [h]

end DhtKad
