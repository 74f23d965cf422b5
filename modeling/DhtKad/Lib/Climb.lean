import Mathlib.Data.List.Chain
import Mathlib.Order.Lattice
import Mathlib.Tactic.Common

/-!
Lists that climb up to a mark.

Each entry of such a list is above the one before it, until one has reached the
mark; what comes after that does not matter (`Climbs`). An entry at the end keeps
this if it is above the last one, where no entry has reached the mark
(`Climbs.concat`). Numbers climb by at least one, so that the mark is reached
after as many entries as the first one is below it (`Climbs.reaches`).
-/

namespace Climb

section Order

variable {α : Type*} [LinearOrder α] {m x y : α} {l : List α}

/-- The list climbs until it has reached `m`. -/
def Climbs (m : α) : List α → Prop
  | x :: y :: l => x < m → x < y ∧ Climbs m (y :: l)
  | _ => True

@[simp] theorem climbs_singleton (m x : α) : Climbs m [x] := trivial

@[simp] theorem climbs_cons_cons :
    Climbs m (x :: y :: l) ↔ (x < m → x < y ∧ Climbs m (y :: l)) := Iff.rfl

theorem Climbs.concat (h : Climbs m l)
    (hnext : (∀ z ∈ l, z < m) → ∀ x ∈ l.getLast?, x < y) : Climbs m (l ++ [y]) := by
  induction l with
  | nil => trivial
  | cons x l ih =>
      cases l with
      | nil => exact fun hx => ⟨hnext (by simpa using hx) x rfl, trivial⟩
      | cons x' l =>
          intro hx
          obtain ⟨hlt, hrest⟩ := h hx
          refine ⟨hlt, ih hrest fun hall => ?_⟩
          have hboth := hnext (by simpa [hx] using hall)
          rwa [List.getLast?_cons_cons] at hboth

/-- Where the mark is not reached, the list climbs all the way. -/
theorem Climbs.pairwise (h : Climbs m l) (hbelow : ∀ z ∈ l, z < m) : l.Pairwise (· < ·) := by
  rw [← List.isChain_iff_pairwise]
  induction l with
  | nil => exact .nil
  | cons x l ih =>
      cases l with
      | nil => exact .singleton x
      | cons y l =>
          obtain ⟨hlt, hrest⟩ := h (hbelow x List.mem_cons_self)
          exact .cons_cons hlt (ih hrest fun z hz => hbelow z (List.mem_cons_of_mem _ hz))

theorem Climbs.le_last (h : Climbs m l) (hbelow : ∀ z ∈ l, z < m) (hx : x ∈ l.getLast?) :
    ∀ z ∈ l, z ≤ x := by
  obtain ⟨init, rfl⟩ := List.getLast?_eq_some_iff.mp hx
  intro z hz
  rcases List.mem_append.mp hz with hz | hz
  · exact ((List.pairwise_append.mp (h.pairwise hbelow)).2.2 z hz x (List.mem_singleton.mpr rfl)).le
  · exact (List.mem_singleton.mp hz).le

end Order

/-- Numbers reach the mark in as many steps as they are below it. -/
theorem Climbs.reaches {m x : ℕ} {l : List ℕ} (h : Climbs m (x :: l)) (hx : x < m)
    (hlength : m - x ≤ l.length) : ∃ y ∈ l.take (m - x), m ≤ y := by
  induction l generalizing x with
  | nil =>
      rw [List.length_nil] at hlength
      omega
  | cons y l ih =>
      obtain ⟨hlt, hrest⟩ := h hx
      obtain ⟨n, hn⟩ : ∃ n, m - x = n + 1 := ⟨m - x - 1, by omega⟩
      rw [hn, List.take_succ_cons]
      by_cases hy : m ≤ y
      · exact ⟨y, List.mem_cons_self, hy⟩
      · rw [List.length_cons] at hlength
        obtain ⟨z, hz, hle⟩ := ih hrest (not_le.mp hy) (by omega)
        refine ⟨z, List.mem_cons_of_mem _ ?_, hle⟩
        exact (List.take_prefix_take_left (by omega)).subset hz

end Climb
