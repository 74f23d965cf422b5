import Mathlib.Data.List.Basic
import Mathlib.Tactic.Ring

/-!
Byte strings: big-endian numbers of a fixed width and UTF-8 text. Both
encoders are undone by their decoders.
-/

namespace ByteString

/-- The value of a byte string, most significant byte first. -/
def ofBytes (l : List UInt8) : ℕ := l.foldl (fun acc b => acc * 256 + b.toNat) 0

/-- The `n` low-order bytes of a number, most significant byte first. -/
def toBytes : ℕ → ℕ → List UInt8
  | 0, _ => []
  | n + 1, x => toBytes n (x / 256) ++ [UInt8.ofNat x]

@[simp] theorem length_toBytes (n x : ℕ) : (toBytes n x).length = n := by
  induction n generalizing x with
  | zero => rfl
  | succ n ih => simp [toBytes, ih]

theorem ofBytes_append_singleton (l : List UInt8) (b : UInt8) :
    ofBytes (l ++ [b]) = ofBytes l * 256 + b.toNat := by
  simp [ofBytes, List.foldl_append]

theorem ofBytes_toBytes (n x : ℕ) : ofBytes (toBytes n x) = x % 256 ^ n := by
  induction n generalizing x with
  | zero => simp [toBytes, ofBytes, Nat.mod_one]
  | succ n ih =>
      have hbyte : (UInt8.ofNat x).toNat = x % 256 := by simp
      rw [toBytes, ofBytes_append_singleton, ih, hbyte, pow_succ', Nat.mod_mul]
      ring

/-! ### Text -/

/-- The UTF-8 decoding of a byte string, if it is well formed. -/
def fromUtf8 (l : List UInt8) : Option String := String.fromUTF8? l.toByteArray

/-- The UTF-8 encoding of a string. -/
def utf8 (s : String) : List UInt8 := s.toUTF8.data.toList

theorem toByteArray_utf8 (s : String) : (utf8 s).toByteArray = s.toByteArray := by
  apply ByteArray.ext
  simp [utf8]

@[simp] theorem fromUtf8_utf8 (s : String) : fromUtf8 (utf8 s) = some s := by
  rw [fromUtf8, toByteArray_utf8, String.fromUTF8?, dif_pos s.isValidUTF8]
  rfl

@[simp] theorem utf8_eq_nil_iff (s : String) : utf8 s = [] ↔ s = "" := by
  constructor
  · intro h
    have h₁ := fromUtf8_utf8 s
    have h₂ := fromUtf8_utf8 ""
    have hempty : utf8 "" = [] := rfl
    rw [h] at h₁
    rw [hempty] at h₂
    exact Option.some.inj (h₁.symm.trans h₂)
  · rintro rfl
    rfl

end ByteString
