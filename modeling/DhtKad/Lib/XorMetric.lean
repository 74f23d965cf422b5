import Mathlib.Data.Nat.Bitwise

/-!
The XOR metric on words of a fixed width.

Two readings of the same word `a ^^^ b` are used side by side: its value,
the distance of `a` and `b`, and its number of leading zeros, the length of
the prefix they share. Everything below follows from one remark, `dist_lt_iff`:
which of two words is nearer to a third is decided by the first bit in which
the two differ.
-/

namespace XorMetric

variable {w : ℕ}

/-- The XOR distance of two words. -/
def dist (a b : BitVec w) : ℕ := (a ^^^ b).toNat

/-- The number of leading bits two words have in common. -/
def prefixLength (a b : BitVec w) : ℕ := (a ^^^ b).clz.toNat

theorem dist_comm (a b : BitVec w) : dist a b = dist b a := by
  rw [dist, dist, BitVec.xor_comm]

theorem prefixLength_comm (a b : BitVec w) : prefixLength a b = prefixLength b a := by
  rw [prefixLength, prefixLength, BitVec.xor_comm]

theorem prefixLength_le (a b : BitVec w) : prefixLength a b ≤ w := by
  have h := BitVec.le_def.mp (BitVec.clz_le (x := a ^^^ b))
  simpa [prefixLength, Nat.mod_eq_of_lt (Nat.lt_two_pow_self (n := w))] using h

theorem prefixLength_lt_iff (a b : BitVec w) : prefixLength a b < w ↔ a ≠ b := by
  have h := BitVec.clz_lt_iff_ne_zero (x := a ^^^ b)
  rw [BitVec.lt_def] at h
  simpa [prefixLength, Nat.mod_eq_of_lt (Nat.lt_two_pow_self (n := w)),
    BitVec.xor_eq_zero_iff] using h

/-! ### The shared prefix, bit by bit -/

theorem getMsbD_eq_of_lt {a b : BitVec w} {i : ℕ} (h : i < prefixLength a b) :
    a.getMsbD i = b.getMsbD i := by
  have hw : i < w := h.trans_le (prefixLength_le a b)
  have hle : w - (a ^^^ b).clz.toNat ≤ w - 1 - i := by
    unfold prefixLength at h
    omega
  have hlt : (a ^^^ b).toNat < 2 ^ (w - 1 - i) :=
    BitVec.toNat_lt_two_pow_sub_clz.trans_le
      (Nat.pow_le_pow_right Nat.zero_lt_two hle)
  have hbit : (a ^^^ b).getLsbD (w - 1 - i) = false := by
    rw [← BitVec.testBit_toNat]
    exact Nat.testBit_lt_two_pow hlt
  have hx : (a ^^^ b).getMsbD i = false := by
    rw [BitVec.getMsbD_eq_getLsbD, hbit, Bool.and_false]
  simpa [BitVec.getMsbD_xor] using hx

theorem getMsbD_ne {a b : BitVec w} (h : a ≠ b) :
    a.getMsbD (prefixLength a b) ≠ b.getMsbD (prefixLength a b) := by
  have hlt := (prefixLength_lt_iff a b).mpr h
  have hbit := BitVec.getLsbD_true_clz_of_ne_zero (x := a ^^^ b) (by omega)
    (fun h0 => h (BitVec.xor_eq_zero_iff.mp h0))
  have hx : (a ^^^ b).getMsbD (prefixLength a b) = true := by
    rw [BitVec.getMsbD_eq_getLsbD, decide_eq_true hlt, Bool.true_and]
    exact hbit
  simpa [BitVec.getMsbD_xor] using hx

theorem le_prefixLength {a b : BitVec w} {j : ℕ} (hj : j ≤ w)
    (h : ∀ i < j, a.getMsbD i = b.getMsbD i) : j ≤ prefixLength a b := by
  by_contra hlt
  push Not at hlt
  have hne : a ≠ b := (prefixLength_lt_iff a b).mp (hlt.trans_le hj)
  exact getMsbD_ne hne (h _ hlt)

/-- Two words that part from a third at different positions part from each
other at the earlier one. -/
theorem prefixLength_eq_of_lt {a b c : BitVec w}
    (h : prefixLength a b < prefixLength a c) : prefixLength b c = prefixLength a b := by
  have hne : a ≠ b := (prefixLength_lt_iff a b).mp (h.trans_le (prefixLength_le a c))
  apply le_antisymm
  · by_contra hlt
    push Not at hlt
    exact getMsbD_ne hne ((getMsbD_eq_of_lt h).trans (getMsbD_eq_of_lt hlt).symm)
  · apply le_prefixLength (prefixLength_le a b)
    intro i hi
    exact (getMsbD_eq_of_lt hi).symm.trans (getMsbD_eq_of_lt (hi.trans h))

theorem le_prefixLength_of_le {a b c : BitVec w} {j : ℕ} (hb : j ≤ prefixLength a b)
    (hc : j ≤ prefixLength a c) : j ≤ prefixLength b c :=
  le_prefixLength (hb.trans (prefixLength_le a b)) fun _ hi =>
    (getMsbD_eq_of_lt (hi.trans_le hb)).symm.trans (getMsbD_eq_of_lt (hi.trans_le hc))

/-- Words that part from a third at the same position agree there. -/
theorem prefixLength_lt_of_eq {a b c : BitVec w} (hb : prefixLength a b < w)
    (hc : prefixLength a c = prefixLength a b) : prefixLength a b < prefixLength b c := by
  have hneb := getMsbD_ne ((prefixLength_lt_iff a b).mp hb)
  have hnec := getMsbD_ne ((prefixLength_lt_iff a c).mp (hc ▸ hb))
  rw [hc] at hnec
  apply le_prefixLength hb
  intro i hi
  rcases Nat.lt_succ_iff_lt_or_eq.mp hi with hlt | rfl
  · exact (getMsbD_eq_of_lt hlt).symm.trans (getMsbD_eq_of_lt (hc ▸ hlt))
  · revert hneb hnec
    cases a.getMsbD (prefixLength a b) <;> cases b.getMsbD (prefixLength a b) <;>
      cases c.getMsbD (prefixLength a b) <;> simp

/-- Who shares more with a word than a second one does parts from that one where
the word does. -/
theorem prefixLength_lt_prefixLength_iff {a b c : BitVec w} :
    prefixLength a b < prefixLength a c ↔ a ≠ b ∧ prefixLength b c = prefixLength b a := by
  refine ⟨fun h => ⟨?_, ?_⟩, fun ⟨hab, h⟩ => ?_⟩
  · exact (prefixLength_lt_iff a b).mp (h.trans_le (prefixLength_le a c))
  · rw [prefixLength_eq_of_lt h, prefixLength_comm a b]
  · rw [prefixLength_comm a b]
    exact prefixLength_lt_of_eq ((prefixLength_lt_iff b a).mpr hab.symm) h

/-! ### The order of the distances -/

/-- Words that agree before position `d` compare as their bits at `d` do. -/
theorem toNat_lt_of_getMsbD {x y : BitVec w} {d : ℕ}
    (heq : ∀ i < d, x.getMsbD i = y.getMsbD i)
    (hx : x.getMsbD d = false) (hy : y.getMsbD d = true) : x.toNat < y.toNat := by
  have hd : d < w := BitVec.lt_of_getMsbD hy
  apply Nat.lt_of_testBit (w - 1 - d)
  · simpa [BitVec.getMsbD_eq_getLsbD, hd, BitVec.testBit_toNat] using hx
  · simpa [BitVec.getMsbD_eq_getLsbD, hd, BitVec.testBit_toNat] using hy
  · intro j hj
    rw [BitVec.testBit_toNat, BitVec.testBit_toNat, BitVec.getLsbD_eq_getMsbD,
      BitVec.getLsbD_eq_getMsbD]
    by_cases hjw : j < w
    · rw [heq (w - 1 - j) (by omega)]
    · simp [hjw]

/-- **The order of the XOR metric.** Of two words, the one nearer to `t` is
the one that agrees with `t` in the first bit in which they differ. -/
theorem dist_lt_iff {t a b : BitVec w} (hab : a ≠ b) :
    dist t a < dist t b ↔ t.getMsbD (prefixLength a b) = a.getMsbD (prefixLength a b) := by
  have hne := getMsbD_ne hab
  have heq : ∀ i < prefixLength a b, (t ^^^ a).getMsbD i = (t ^^^ b).getMsbD i := by
    intro i hi
    rw [BitVec.getMsbD_xor, BitVec.getMsbD_xor, getMsbD_eq_of_lt hi]
  constructor
  · intro hlt
    by_contra hta
    have hgt : (t ^^^ b).toNat < (t ^^^ a).toNat := by
      apply toNat_lt_of_getMsbD (d := prefixLength a b) (fun i hi => (heq i hi).symm)
      · rw [BitVec.getMsbD_xor]
        revert hne hta
        cases t.getMsbD (prefixLength a b) <;> cases a.getMsbD (prefixLength a b) <;>
          cases b.getMsbD (prefixLength a b) <;> simp
      · rw [BitVec.getMsbD_xor]
        revert hta
        cases t.getMsbD (prefixLength a b) <;> cases a.getMsbD (prefixLength a b) <;> simp
    exact absurd hlt (not_lt.mpr (le_of_lt hgt))
  · intro hta
    apply toNat_lt_of_getMsbD (d := prefixLength a b) heq
    · rw [BitVec.getMsbD_xor, hta, Bool.xor_self]
    · rw [BitVec.getMsbD_xor, hta]
      revert hne
      cases a.getMsbD (prefixLength a b) <;> cases b.getMsbD (prefixLength a b) <;> simp

theorem dist_injective {t a b : BitVec w} (h : dist t a = dist t b) : a = b := by
  by_contra hab
  rcases lt_trichotomy (dist t a) (dist t b) with hlt | heq | hgt
  · omega
  · have ha := dist_lt_iff (t := t) hab
    have hb := dist_lt_iff (t := t) (Ne.symm hab)
    rw [prefixLength_comm b a] at hb
    have hne := getMsbD_ne hab
    revert ha hb hne
    rw [h]
    cases t.getMsbD (prefixLength a b) <;> cases a.getMsbD (prefixLength a b) <;>
      cases b.getMsbD (prefixLength a b) <;> simp
  · omega

theorem dist_lt_of_prefixLength_lt {t a b : BitVec w}
    (h : prefixLength t b < prefixLength t a) : dist t a < dist t b := by
  have hba : prefixLength a b = prefixLength t b := by
    rw [prefixLength_comm a b]
    exact prefixLength_eq_of_lt h
  have hab : a ≠ b := by
    rintro rfl
    exact lt_irrefl _ h
  rw [dist_lt_iff hab, hba]
  exact getMsbD_eq_of_lt h

theorem prefixLength_le_of_dist_le {t a b : BitVec w} (h : dist t a ≤ dist t b) :
    prefixLength t b ≤ prefixLength t a :=
  not_lt.mp fun hlt => not_lt.mpr h (dist_lt_of_prefixLength_lt hlt)

/-- Of two words beyond the point where `t` parts from `l`, the one that parts
from `l` first is the nearer one exactly if `t` differs from `l` in that bit. -/
theorem dist_lt_iff_of_prefixLength_lt {l t a b : BitVec w}
    (h : prefixLength l a < prefixLength l b) :
    dist t a < dist t b ↔ t.getMsbD (prefixLength l a) ≠ l.getMsbD (prefixLength l a) := by
  have hla : l ≠ a := (prefixLength_lt_iff l a).mp (h.trans_le (prefixLength_le l b))
  have hab : a ≠ b := by
    rintro rfl
    exact lt_irrefl _ h
  have hne := getMsbD_ne hla
  rw [dist_lt_iff hab, prefixLength_eq_of_lt h]
  revert hne
  cases t.getMsbD (prefixLength l a) <;> cases a.getMsbD (prefixLength l a) <;>
    cases l.getMsbD (prefixLength l a) <;> simp

end XorMetric
