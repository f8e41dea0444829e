import Mathlib.Algebra.Order.BigOperators.Group.List
import Mathlib.Algebra.Order.Group.Int
import Mathlib.Algebra.Ring.Int.Defs

/-!
# `Phxargs.Lib.Trace`: runs of a transition system

A step relation `step i s t` says that a step with the label `i` leads from `s` to `t`. A
`Trace` is a run: its steps in order, each with its label and the state in which it starts.
`Trace.invariant` is the induction over a run, and it speaks about every state on the way.
A step relation that allows fewer steps has fewer runs (`Trace.mono`).
-/

set_option autoImplicit false

namespace Lib

variable {σ ι : Type} {step step' : ι → σ → σ → Prop}

/-- A run from the first state to the last one, through these steps. -/
inductive Trace (step : ι → σ → σ → Prop) : σ → List (σ × ι) → σ → Prop
  | nil (s : σ) : Trace step s [] s
  | cons {s t u : σ} {i : ι} {steps : List (σ × ι)} :
      step i s t → Trace step t steps u → Trace step s ((s, i) :: steps) u

namespace Trace

/-- The run of one step. -/
theorem single {s t : σ} {i : ι} (h : step i s t) : Trace step s [(s, i)] t := .cons h (.nil t)

/-- Two runs one after the other. -/
theorem append {s t u : σ} {steps steps' : List (σ × ι)} (h : Trace step s steps t)
    (h' : Trace step t steps' u) : Trace step s (steps ++ steps') u := by
  induction h with
  | nil s => exact h'
  | cons hstep _ ih => exact .cons hstep (ih h')

/-- A run of a step relation is a run of every larger one. -/
theorem mono (hle : ∀ i s t, step i s t → step' i s t) {s u : σ} {steps : List (σ × ι)}
    (h : Trace step s steps u) : Trace step' s steps u := by
  induction h with
  | nil s => exact .nil s
  | cons hstep _ ih => exact .cons (hle _ _ _ hstep) ih

/-- **The invariant rule.** What each step keeps, where it meets the condition `C`, holds in
every state of a run whose steps all meet it. -/
theorem invariant_of {C : σ × ι → Prop} {I : σ → Prop}
    (hstep : ∀ i s t, C (s, i) → I s → step i s t → I t) {s u : σ} {steps : List (σ × ι)}
    (h : Trace step s steps u) (hC : ∀ p ∈ steps, C p) (hI : I s) :
    I u ∧ ∀ p ∈ steps, I p.1 := by
  induction h with
  | nil s => exact ⟨hI, List.forall_mem_nil _⟩
  | cons hfirst _ ih =>
      rw [List.forall_mem_cons] at hC
      obtain ⟨hlast, hlater⟩ := ih hC.2 (hstep _ _ _ hC.1 hI hfirst)
      exact ⟨hlast, List.forall_mem_cons.mpr ⟨hI, hlater⟩⟩

/-- The invariant rule without a condition. -/
theorem invariant {I : σ → Prop} (hstep : ∀ i s t, I s → step i s t → I t) {s u : σ}
    {steps : List (σ × ι)} (h : Trace step s steps u) (hI : I s) : I u ∧ ∀ p ∈ steps, I p.1 :=
  invariant_of (C := fun _ => True) (fun i s t _ => hstep i s t) h (fun _ _ => trivial) hI

/-- What holds in every state of a run holds in the first one. -/
theorem first {P : σ → Prop} {s u : σ} {steps : List (σ × ι)} (h : Trace step s steps u)
    (hsteps : ∀ p ∈ steps, P p.1) (hlast : P u) : P s := by
  cases h with
  | nil => exact hlast
  | cons _ _ => exact hsteps _ List.mem_cons_self

/-- **The rule of a measure.** A measure that each step raises by `δ` has been raised by the sum
of these at the end. -/
theorem measure_eq {μ : σ → Int} {δ : σ × ι → Int}
    (hstep : ∀ i s t, step i s t → μ t = μ s + δ (s, i)) {s u : σ} {steps : List (σ × ι)}
    (h : Trace step s steps u) : μ u = μ s + (steps.map δ).sum := by
  induction h with
  | nil s => simp
  | @cons s t u i steps hfirst hrest ih =>
      rw [ih, hstep i s t hfirst, List.map_cons, List.sum_cons]
      omega

/-- A measure that no step lowers ends where it started exactly if every step keeps it. -/
theorem measure_const_iff {μ : σ → Int} {δ : σ × ι → Int}
    (hstep : ∀ i s t, step i s t → μ t = μ s + δ (s, i)) {s u : σ} {steps : List (σ × ι)}
    (h : Trace step s steps u) (hnonneg : ∀ p ∈ steps, 0 ≤ δ p) :
    μ u = μ s ↔ ∀ p ∈ steps, δ p = 0 := by
  have hsum := h.measure_eq hstep
  constructor
  · intro hsame
    -- A sum of terms that are not negative is 0 only where each of them is.
    have hzero : (steps.map δ).sum = 0 := by omega
    intro p hp
    exact List.all_zero_of_le_zero_le_of_sum_eq_zero (List.forall_mem_map.mpr hnonneg) hzero
      (List.mem_map_of_mem hp)
  · intro hkeep
    rw [hsum, List.map_congr_left hkeep, List.map_const', List.sum_replicate]
    simp

/-- Each step of a run is a step of the relation, and the run goes on from where it leads. -/
theorem step_of_mem {s u : σ} {steps : List (σ × ι)} (h : Trace step s steps u) :
    ∀ p ∈ steps, ∃ t, step p.2 p.1 t ∧ ∃ before after, steps = before ++ p :: after ∧
      Trace step s before p.1 ∧ Trace step t after u := by
  induction h with
  | nil s => exact List.forall_mem_nil _
  | @cons s t u i steps hfirst hrest ih =>
      -- Either the first step, with nothing before it, or one of the rest.
      rw [List.forall_mem_cons]
      refine ⟨⟨t, hfirst, [], steps, rfl, .nil s, hrest⟩, ?_⟩
      intro p hp
      obtain ⟨t', hstep, before, after, hsplit, hbefore, hafter⟩ := ih p hp
      exact ⟨t', hstep, (s, i) :: before, after, by rw [hsplit, List.cons_append],
        .cons hfirst hbefore, hafter⟩

end Trace

/-- The steps that a deterministic system makes under these labels. -/
def stepsOf (next : ι → σ → σ) : σ → List ι → List (σ × ι)
  | _, [] => []
  | s, i :: is => (s, i) :: stepsOf next (next i s) is

/-- A list of labels is a run of a deterministic system. -/
theorem Trace.ofNext (next : ι → σ → σ) :
    ∀ (is : List ι) (s : σ),
      Trace (fun i s t => t = next i s) s (stepsOf next s is) (is.foldl (fun s i => next i s) s) := by
  intro is
  induction is with
  | nil => exact fun s => .nil s
  | cons i is ih => exact fun s => .cons rfl (ih (next i s))

/-- Some run leads from the first state to the second. -/
def Leads (step : ι → σ → σ → Prop) (s t : σ) : Prop := ∃ steps, Trace step s steps t

theorem Leads.refl (step : ι → σ → σ → Prop) (s : σ) : Leads step s s := ⟨[], .nil s⟩

theorem Leads.trans {s t u : σ} (h : Leads step s t) (h' : Leads step t u) : Leads step s u := by
  obtain ⟨steps, htrace⟩ := h
  obtain ⟨steps', htrace'⟩ := h'
  exact ⟨steps ++ steps', htrace.append htrace'⟩

theorem Leads.single {s t : σ} {i : ι} (h : step i s t) : Leads step s t := ⟨[(s, i)], .single h⟩

end Lib
