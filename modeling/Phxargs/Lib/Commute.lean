import Phxargs.Lib.Override

/-!
# `Phxargs.Lib.Commute`: settings of different kinds can change places

A scan over a list of settings is a fold that can fail. Every setting has a kind, and two settings
of different kinds commute: where both are accepted in one order, they are in the other one, with
the same result. Then the scan depends only on the order of the settings within each kind
(`Commuting.foldlM_iff`). Two lists that agree in this are two ways to interleave the same kinds.
-/

set_option autoImplicit false

namespace Lib

variable {σ α ε κ : Type} {f : σ → α → Except ε σ} {kind : α → κ}

/-- Settings of different kinds commute. -/
structure Commuting (f : σ → α → Except ε σ) (kind : α → κ) : Prop where
  swap : ∀ {s t u : σ} {a b : α}, kind a ≠ kind b → f s a = .ok t → f t b = .ok u →
    ∃ t', f s b = .ok t' ∧ f t' a = .ok u

/-- A setting passes the settings of other kinds in front of it. Induction on these. -/
theorem Commuting.foldlM_front (h : Commuting f kind) {a : α} (later : List α) {u : σ} :
    ∀ (before : List α) {s : σ}, (∀ b ∈ before, kind b ≠ kind a) →
      ((before ++ a :: later).foldlM f s = .ok u ↔ (a :: (before ++ later)).foldlM f s = .ok u) := by
  intro before
  induction before with
  | nil => exact fun _ => Iff.rfl
  | cons b before ih =>
      intro s hbefore
      rw [List.forall_mem_cons] at hbefore
      obtain ⟨hb, hbefore⟩ := hbefore
      constructor
      · intro hfold
        obtain ⟨t, hfirst, hrest⟩ := foldlM_cons_ok.mp hfold
        obtain ⟨t', hsecond, hlater⟩ := foldlM_cons_ok.mp ((ih hbefore).mp hrest)
        obtain ⟨t'', ha, hswapped⟩ := h.swap hb hfirst hsecond
        exact foldlM_cons_ok.mpr ⟨t'', ha, foldlM_cons_ok.mpr ⟨t', hswapped, hlater⟩⟩
      · intro hfold
        obtain ⟨t, ha, hrest⟩ := foldlM_cons_ok.mp hfold
        obtain ⟨t', hfirst, hlater⟩ := foldlM_cons_ok.mp hrest
        obtain ⟨t'', hb', hswapped⟩ := h.swap hb.symm ha hfirst
        exact foldlM_cons_ok.mpr ⟨t'', hb',
          (ih hbefore).mpr (foldlM_cons_ok.mpr ⟨t', hswapped, hlater⟩)⟩

variable [DecidableEq κ]

/-- The settings of each kind are the same, in the same order. -/
def SameByKind (kind : α → κ) (as bs : List α) : Prop :=
  ∀ k, as.filter (fun a => kind a = k) = bs.filter fun a => kind a = k

/-- The first setting of one list is the first one of its kind in the other. -/
theorem SameByKind.cons_left {a : α} {as bs : List α} (h : SameByKind kind (a :: as) bs) :
    ∃ before later, bs = before ++ a :: later ∧ (∀ b ∈ before, kind b ≠ kind a) ∧
      SameByKind kind as (before ++ later) := by
  have hown := h (kind a)
  rw [List.filter_cons_of_pos (by simp)] at hown
  obtain ⟨before, later, rfl, hbefore, -, hlater⟩ := List.filter_eq_cons_iff.mp hown.symm
  have hother : ∀ b ∈ before, kind b ≠ kind a := fun b hb => by simpa using hbefore b hb
  refine ⟨before, later, rfl, hother, ?_⟩
  intro k
  have hk := h k
  rw [List.filter_append] at hk ⊢
  by_cases hkind : kind a = k
  · subst hkind
    have hnone : before.filter (fun b => kind b = kind a) = [] := by
      simpa using hother
    rw [hnone, List.nil_append, hlater]
  · rw [List.filter_cons_of_neg (by simpa using hkind),
      List.filter_cons_of_neg (by simpa using hkind)] at hk
    exact hk

theorem SameByKind.nil_left {bs : List α} (h : SameByKind kind [] bs) : bs = [] := by
  cases bs with
  | nil => rfl
  | cons b bs =>
      have hk := h (kind b)
      rw [List.filter_nil, List.filter_cons_of_pos (by simp)] at hk
      cases hk

/-- **Only the order within each kind counts.** Induction on the first list; its head is taken out
of the second one. -/
theorem Commuting.foldlM_iff (h : Commuting f kind) :
    ∀ (as : List α) {bs : List α} {s u : σ}, SameByKind kind as bs →
      (as.foldlM f s = .ok u ↔ bs.foldlM f s = .ok u) := by
  intro as
  induction as with
  | nil =>
      intro bs s u hsame
      rw [hsame.nil_left]
  | cons a as ih =>
      intro bs s u hsame
      obtain ⟨before, later, rfl, hbefore, hrest⟩ := hsame.cons_left
      rw [h.foldlM_front later before hbefore, foldlM_cons_ok, foldlM_cons_ok]
      exact exists_congr fun t => and_congr_right fun _ => ih hrest

end Lib
