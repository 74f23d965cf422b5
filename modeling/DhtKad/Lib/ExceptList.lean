import Mathlib.Data.List.Forall2
import Mathlib.Tactic.Common

/-!
Lists in computations that may fail: when a traversal succeeds, what it then
returns, and the invariant rules of a fold.
-/

namespace ExceptList

universe u

variable {ε : Type*} {α β σ : Type u}

theorem bind_eq_ok_iff {x : Except ε α} {f : α → Except ε β} {b : β} :
    (x >>= f) = .ok b ↔ ∃ a, x = .ok a ∧ f a = .ok b := by
  cases x <;> simp [bind, Except.bind]

theorem mapM_eq_ok_iff {f : α → Except ε β} {l : List α} {ys : List β} :
    l.mapM f = .ok ys ↔ List.Forall₂ (fun x y => f x = .ok y) l ys := by
  induction l generalizing ys with
  | nil => simp [pure, Except.pure, eq_comm]
  | cons x l ih =>
      rw [List.mapM_cons, List.forall₂_cons_left_iff, bind_eq_ok_iff]
      constructor
      · rintro ⟨y, hy, h⟩
        obtain ⟨ys', hys', h⟩ := bind_eq_ok_iff.mp h
        obtain rfl := Except.ok.inj h
        exact ⟨y, ys', hy, ih.mp hys', rfl⟩
      · rintro ⟨y, ys', hy, hys', rfl⟩
        exact ⟨y, hy, bind_eq_ok_iff.mpr ⟨ys', ih.mpr hys', rfl⟩⟩

theorem mapM_isOk_iff {f : α → Except ε β} {l : List α} :
    (∃ ys, l.mapM f = .ok ys) ↔ ∀ x ∈ l, ∃ y, f x = .ok y := by
  simp only [mapM_eq_ok_iff]
  induction l with
  | nil => simp
  | cons x l ih =>
      rw [List.forall_mem_cons, ← ih]
      constructor
      · rintro ⟨_, h⟩
        obtain ⟨y, ys, hy, hys, rfl⟩ := List.forall₂_cons_left_iff.mp h
        exact ⟨⟨y, hy⟩, ys, hys⟩
      · rintro ⟨⟨y, hy⟩, ys, hys⟩
        exact ⟨y :: ys, .cons hy hys⟩

theorem mem_of_mapM {f : α → Except ε β} {l : List α} {ys : List β} (h : l.mapM f = .ok ys)
    (y : β) : y ∈ ys ↔ ∃ x ∈ l, f x = .ok y := by
  rw [mapM_eq_ok_iff] at h
  induction h with
  | nil => simp
  | cons hx _ ih =>
      rename_i x y' l ys'
      simp [ih, hx, eq_comm]

theorem exists_of_mapM_error {f : α → Except ε β} {l : List α} {e : ε}
    (h : l.mapM f = .error e) : ∃ x ∈ l, f x = .error e := by
  induction l with
  | nil => cases h
  | cons x l ih =>
      rw [List.mapM_cons] at h
      cases hx : f x with
      | error e' =>
          rw [hx] at h
          obtain rfl := Except.error.inj h
          exact ⟨x, by simp, hx⟩
      | ok y =>
          cases hl : l.mapM f with
          | ok ys => simp [hx, hl, bind, Except.bind, pure, Except.pure] at h
          | error e' =>
              obtain rfl : e' = e := by simpa [hx, hl, bind, Except.bind] using h
              obtain ⟨z, hz, hfz⟩ := ih hl
              exact ⟨z, List.mem_cons_of_mem x hz, hfz⟩

/-- An invariant of a fold whose steps all succeed. -/
theorem foldlM_isOk {f : σ → α → Except ε σ} {I : σ → Prop} {l : List α}
    (hstep : ∀ s, I s → ∀ x ∈ l, ∃ s', f s x = .ok s' ∧ I s') {s : σ} (hs : I s) :
    ∃ s', l.foldlM f s = .ok s' ∧ I s' := by
  induction l generalizing s with
  | nil => exact ⟨s, rfl, hs⟩
  | cons x l ih =>
      obtain ⟨t, ht, hI⟩ := hstep s hs x (by simp)
      obtain ⟨s', hs', hI'⟩ := ih (fun s hs y hy => hstep s hs y (List.mem_cons_of_mem x hy)) hI
      exact ⟨s', by rw [List.foldlM_cons, ht]; exact hs', hI'⟩

theorem foldlM_invariant {f : σ → α → Except ε σ} {I : σ → Prop} {l : List α}
    (hstep : ∀ s x s', I s → x ∈ l → f s x = .ok s' → I s') {s u : σ} (hs : I s)
    (h : l.foldlM f s = .ok u) : I u := by
  induction l generalizing s with
  | nil =>
      obtain rfl := Except.ok.inj h
      exact hs
  | cons x l ih =>
      rw [List.foldlM_cons] at h
      obtain ⟨t, ht, h⟩ := bind_eq_ok_iff.mp h
      exact ih (fun s y s' hs hy => hstep s y s' hs (List.mem_cons_of_mem x hy))
        (hstep s x t hs (by simp) ht) h

end ExceptList
