import Mathlib.Data.Finset.Card
import Mathlib.Data.List.Induction

/-!
A family of finite sets of bounded size, filled one element at a time.

An element is put into the cell of its class. It is accepted if it is there
already or if the cell has room, and nothing ever leaves the family.
-/

/-- Sets of at most `k` elements, one for each class. -/
structure CappedFamily (ι α : Type*) (k : ℕ) where
  cells : ι → Finset α
  card_le : ∀ i, (cells i).card ≤ k

namespace CappedFamily

variable {ι α : Type*} {k : ℕ}

def empty : CappedFamily ι α k := { cells := fun _ => ∅, card_le := fun _ => by simp }

@[simp] theorem cells_empty (i : ι) : (empty : CappedFamily ι α k).cells i = ∅ := rfl

/-- An element is accepted in class `i` if it is known there or there is room. -/
def Accepts (F : CappedFamily ι α k) (i : ι) (a : α) : Prop :=
  a ∈ F.cells i ∨ (F.cells i).card < k

/-- A rejection means a new element and a full class. -/
theorem not_accepts_iff (F : CappedFamily ι α k) (i : ι) (a : α) :
    ¬ F.Accepts i a ↔ a ∉ F.cells i ∧ (F.cells i).card = k := by
  have := F.card_le i
  unfold Accepts
  constructor
  · intro h
    exact ⟨fun ha => h (.inl ha), by omega⟩
  · rintro ⟨ha, hcard⟩ (h | h)
    · exact ha h
    · omega

variable [DecidableEq ι] [DecidableEq α]

instance (F : CappedFamily ι α k) (i : ι) (a : α) : Decidable (F.Accepts i a) :=
  inferInstanceAs (Decidable (_ ∨ _))

/-- Puts an element into class `i` if it is accepted there. -/
def put (F : CappedFamily ι α k) (i : ι) (a : α) : CappedFamily ι α k :=
  if h : (F.cells i).card < k then
    { cells := Function.update F.cells i (insert a (F.cells i))
      card_le := by
        intro j
        by_cases hj : j = i
        · subst hj
          rw [Function.update_self]
          exact (Finset.card_insert_le a _).trans h
        · rw [Function.update_of_ne hj]
          exact F.card_le j }
  else F

/-- The family after putting every element into its class, from the empty one. -/
def putAll (cls : α → ι) (as : List α) : CappedFamily ι α k :=
  as.foldl (fun F a => F.put (cls a) a) empty

theorem putAll_concat (cls : α → ι) (as : List α) (a : α) :
    (putAll cls (as ++ [a]) : CappedFamily ι α k) = (putAll cls as).put (cls a) a := by
  rw [putAll, List.foldl_append]
  rfl

theorem cells_put_of_ne (F : CappedFamily ι α k) {i j : ι} (h : j ≠ i) (a : α) :
    (F.put i a).cells j = F.cells j := by
  unfold put
  split
  · exact Function.update_of_ne h _ _
  · rfl

theorem cells_put_of_accepts {F : CappedFamily ι α k} {i : ι} {a : α} (h : F.Accepts i a) :
    (F.put i a).cells i = insert a (F.cells i) := by
  unfold put
  by_cases hroom : (F.cells i).card < k
  · rw [dif_pos hroom]
    exact Function.update_self _ _ _
  · rw [dif_neg hroom, Finset.insert_eq_of_mem (h.resolve_right hroom)]

theorem put_of_not_accepts {F : CappedFamily ι α k} {i : ι} {a : α} (h : ¬ F.Accepts i a) :
    F.put i a = F := by
  rw [put, dif_neg (fun hroom => h (.inr hroom))]

theorem mem_cells_put_of_accepts {F : CappedFamily ι α k} {i j : ι} {a b : α}
    (h : F.Accepts i a) : b ∈ (F.put i a).cells j ↔ b ∈ F.cells j ∨ b = a ∧ j = i := by
  by_cases hj : j = i
  · subst hj
    rw [cells_put_of_accepts h, Finset.mem_insert, or_comm, and_iff_left rfl]
  · rw [cells_put_of_ne F hj, or_iff_left fun hb => hj hb.2]

theorem cells_subset_put (F : CappedFamily ι α k) (i j : ι) (a : α) :
    F.cells j ⊆ (F.put i a).cells j := by
  by_cases h : F.Accepts i a
  · intro b hb
    exact (mem_cells_put_of_accepts h).mpr (.inl hb)
  · rw [put_of_not_accepts h]

end CappedFamily
