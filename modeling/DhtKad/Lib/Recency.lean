import Mathlib.Data.List.Basic
import Mathlib.Logic.Function.Basic

/-!
Lists kept in the order in which their elements were last used.

A stamp is a partial map from elements to times. A list is ordered by recency
if all of its elements are stamped and their times increase strictly along the
list. Two operations keep the order: passing to a sublist, and using an element
at a time past every stamp so far, which moves it to the end of its list and
leaves every list without it alone.
-/

namespace Recency

variable {α : Type*}

/-- The elements of the list are stamped, with strictly increasing times. -/
def Ordered (stamp : α → Option ℕ) (l : List α) : Prop :=
  ∃ times : List ℕ, l.map stamp = times.map some ∧ times.Pairwise (· < ·)

/-- Every stamp lies before `now`. -/
def Before (stamp : α → Option ℕ) (now : ℕ) : Prop := ∀ a i, stamp a = some i → i < now

variable {stamp : α → Option ℕ} {l l' : List α} {now : ℕ}

theorem ordered_nil (stamp : α → Option ℕ) : Ordered stamp [] := ⟨[], rfl, .nil⟩

theorem Ordered.sublist (h : Ordered stamp l) (hl : l'.Sublist l) : Ordered stamp l' := by
  obtain ⟨times, heq, hlt⟩ := h
  have hmap : (l'.map stamp).Sublist (times.map some) := heq ▸ hl.map stamp
  obtain ⟨times', hsub, heq'⟩ := List.sublist_map_iff.mp hmap
  exact ⟨times', heq', hlt.sublist hsub⟩

theorem Before.succ (h : Before stamp now) : Before stamp (now + 1) :=
  fun b i hb => Nat.lt_succ_of_lt (h b i hb)

variable [DecidableEq α] {a : α}

theorem map_update_of_not_mem (ha : a ∉ l) (i : Option ℕ) :
    l.map (Function.update stamp a i) = l.map stamp := by
  apply List.map_congr_left
  intro b hb
  apply Function.update_of_ne
  rintro rfl
  exact ha hb

/-- Lists without the element are not affected by its use. -/
theorem Ordered.update (h : Ordered stamp l) (ha : a ∉ l) (i : Option ℕ) :
    Ordered (Function.update stamp a i) l := by
  obtain ⟨times, heq, hlt⟩ := h
  exact ⟨times, (map_update_of_not_mem ha i).trans heq, hlt⟩

/-- The element used last goes to the end. -/
theorem Ordered.concat (h : Ordered stamp l) (ha : a ∉ l) (hnow : Before stamp now) :
    Ordered (Function.update stamp a (some now)) (l ++ [a]) := by
  obtain ⟨times, heq, hlt⟩ := h
  refine ⟨times ++ [now], ?_, List.pairwise_append.mpr ⟨hlt, List.pairwise_singleton _ _, ?_⟩⟩
  · rw [List.map_append, List.map_append, map_update_of_not_mem ha, heq]
    simp
  · intro i hi j hj
    rw [List.mem_singleton.mp hj]
    have hmem : some i ∈ l.map stamp := heq ▸ List.mem_map_of_mem hi
    obtain ⟨b, -, hb⟩ := List.mem_map.mp hmem
    exact hnow b i hb

theorem Before.update (h : Before stamp now) (a : α) :
    Before (Function.update stamp a (some now)) (now + 1) := by
  intro b i hb
  by_cases hab : b = a
  · subst hab
    rw [Function.update_self] at hb
    obtain rfl := Option.some.inj hb
    exact Nat.lt_succ_self _
  · rw [Function.update_of_ne hab] at hb
    exact h.succ b i hb

end Recency
