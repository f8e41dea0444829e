import Mathlib.Data.List.Basic

/-!
# `Phxargs.Lib.Override`: settings of which the last one counts

A scan over a list of settings is a fold that can fail. A class `C` of the settings overrides
itself if each of them overwrites a slot of the state completely, none of them changes anything
else, and the other settings neither read the slot nor write it. Then all settings of the class
but the last can be left out (`Overrides.keepLast`).
-/

set_option autoImplicit false

namespace Lib

variable {σ α ε ω : Type} {f : σ → α → Except ε σ}

/-! ### Scans -/

/-- A step that maps the result of a check succeeds where the check does. -/
theorem map_eq_ok {β γ : Type} {x : Except ε β} {g : β → γ} {c : γ} :
    x.map g = .ok c ↔ ∃ b, x = .ok b ∧ g b = c := by
  cases x with
  | error e => simp [Except.map]
  | ok b => simp [Except.map]

/-- A scan that succeeds: its first step does, and then the rest. -/
theorem foldlM_cons_ok {a : α} {as : List α} {s u : σ} :
    (a :: as).foldlM f s = .ok u ↔ ∃ t, f s a = .ok t ∧ as.foldlM f t = .ok u := by
  rw [List.foldlM_cons]
  cases f s a with
  | error e => simp [bind, Except.bind]
  | ok t => simp [bind, Except.bind]

/-- What is observed of the state is a fold of its own, if each step shows it. -/
theorem foldlM_observe {observe : σ → ω} {g : ω → α → ω}
    (hstep : ∀ {s t : σ} {a : α}, f s a = .ok t → observe t = g (observe s) a) :
    ∀ (as : List α) {s u : σ}, as.foldlM f s = .ok u → observe u = as.foldl g (observe s) := by
  intro as
  induction as with
  | nil => intro s u h; cases h; rfl
  | cons a as ih =>
      intro s u h
      obtain ⟨t, hfirst, hlater⟩ := foldlM_cons_ok.mp h
      rw [ih hlater, hstep hfirst, List.foldl_cons]

/-! ### The last of a class -/

variable (C : α → Prop) [DecidablePred C]

/-- The list without the settings of the class, except the last one: a setting of the class goes
if there is another one behind it. -/
def keepLast : List α → List α
  | [] => []
  | a :: as => if C a ∧ ∃ b ∈ as, C b then keepLast as else a :: keepLast as

/-- Leaving out an overridden setting leaves one of the class. -/
theorem exists_mem_keepLast {as : List α} (h : ∃ b ∈ as, C b) : ∃ b ∈ keepLast C as, C b := by
  induction as with
  | nil => simp at h
  | cons a as ih =>
      rw [keepLast]
      by_cases hlater : ∃ b ∈ as, C b
      · obtain ⟨b, hb, hC⟩ := ih hlater
        split
        · exact ⟨b, hb, hC⟩
        · exact ⟨b, List.mem_cons_of_mem a hb, hC⟩
      · rw [if_neg fun hboth => hlater hboth.2]
        have ha : C a := by
          rcases h with ⟨b, hb, hC⟩
          rcases List.mem_cons.mp hb with rfl | hmem
          · exact hC
          · exact absurd ⟨b, hmem, hC⟩ hlater
        exact ⟨a, List.mem_cons_self, ha⟩

/-- The class overrides itself: `erase` forgets the slot that its settings write. -/
structure Overrides (f : σ → α → Except ε σ) (C : α → Prop) (erase : σ → σ) : Prop where
  overwrites : ∀ {s : σ} {a : α}, C a → f (erase s) a = f s a
  slot : ∀ {s t : σ} {a : α}, C a → f s a = .ok t → erase t = erase s
  frame : ∀ {s : σ} {a : α}, ¬ C a → f (erase s) a = (f s a).map erase

namespace Overrides

variable {C} {erase : σ → σ}

/-- In front of a setting of the class, what the slot holds does not matter. Induction on the
settings in between. -/
theorem foldlM_erase (h : Overrides f C erase) :
    ∀ {as : List α} {s : σ}, (∃ b ∈ as, C b) → as.foldlM f (erase s) = as.foldlM f s := by
  intro as
  induction as with
  | nil => intro s hmem; simp at hmem
  | cons a as ih =>
      intro s hmem
      rw [List.foldlM_cons, List.foldlM_cons]
      by_cases ha : C a
      · rw [h.overwrites ha]
      · have hlater : ∃ b ∈ as, C b := by simpa [ha] using hmem
        rw [h.frame ha]
        cases f s a with
        | error e => rfl
        | ok t => exact ih hlater

omit [DecidablePred C] in
/-- Settings that are not of the class keep what the slot holds. Induction on the settings. -/
theorem foldlM_frame (h : Overrides f C erase) :
    ∀ {as : List α} {s : σ}, (∀ a ∈ as, ¬ C a) →
      as.foldlM f (erase s) = (as.foldlM f s).map erase := by
  intro as
  induction as with
  | nil => intro s _; rfl
  | cons a as ih =>
      intro s hfree
      rw [List.forall_mem_cons] at hfree
      rw [List.foldlM_cons, List.foldlM_cons, h.frame hfree.1]
      cases f s a with
      | error e => rfl
      | ok t => exact ih hfree.2

/-- **The last one counts.** A scan that succeeds has the same result without the settings of the
class that a later one of the class overrides. Induction on the settings. -/
theorem keepLast (h : Overrides f C erase) :
    ∀ (as : List α) {s u : σ}, as.foldlM f s = .ok u → (Lib.keepLast C as).foldlM f s = .ok u := by
  intro as
  induction as with
  | nil => intro s u hscan; exact hscan
  | cons a as ih =>
      intro s u hscan
      obtain ⟨t, hfirst, hlater⟩ := foldlM_cons_ok.mp hscan
      rw [Lib.keepLast]
      split
      · -- The setting only changes the slot, and the rest of the scan does not read it.
        rename_i hover
        have hmem := exists_mem_keepLast C hover.2
        rw [← h.foldlM_erase hmem, ← h.slot hover.1 hfirst, h.foldlM_erase hmem]
        exact ih hlater
      · exact foldlM_cons_ok.mpr ⟨t, hfirst, ih hlater⟩

end Overrides

end Lib
