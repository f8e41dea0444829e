import Mathlib.Data.List.Basic

/-!
# `Phxargs.Lib.Substitution`: replacing a pattern from the left

`Substitutes p t s s'` says that `s'` is `s` with the occurrences of `p` replaced by `t`,
where the occurrences are found from the left and do not overlap: what stands in front of the
first occurrence stays, the occurrence becomes `t`, and the search goes on behind it. The
relation determines `s'`.
-/

set_option autoImplicit false

namespace Lib

variable {α : Type} {p t : List α}

/-- Leftmost replacement of `p` by `t`. -/
inductive Substitutes (p t : List α) : List α → List α → Prop
  /-- `p` does not occur. -/
  | unmatched {s : List α} : ¬ p <:+: s → Substitutes p t s s
  /-- The first occurrence of `p` stands behind `pre`. -/
  | matched {pre s s' : List α} : (∀ k < pre.length, ¬ p <+: (pre ++ (p ++ s)).drop k) →
      Substitutes p t s s' → Substitutes p t (pre ++ (p ++ s)) (pre ++ (t ++ s'))

/-- Two ways to write a text with its first occurrence agree. -/
theorem first_occurrence_unique {pre pre' s s' : List α}
    (h : ∀ k < pre.length, ¬ p <+: (pre ++ (p ++ s)).drop k)
    (h' : ∀ k < pre'.length, ¬ p <+: (pre' ++ (p ++ s')).drop k)
    (heq : pre ++ (p ++ s) = pre' ++ (p ++ s')) : pre = pre' ∧ s = s' := by
  have hlength : pre.length = pre'.length := by
    -- The occurrence of the shorter one would be an earlier one for the other.
    rcases Nat.lt_trichotomy pre.length pre'.length with hlt | hlen | hlt
    · refine absurd ?_ (h' pre.length hlt)
      rw [← heq, List.drop_left]
      exact List.prefix_append ..
    · exact hlen
    · refine absurd ?_ (h pre'.length hlt)
      rw [heq, List.drop_left]
      exact List.prefix_append ..
  obtain ⟨hpre, hrest⟩ := List.append_inj heq hlength
  exact ⟨hpre, List.append_cancel_left hrest⟩

/-- The replacement is determined. Induction on the first derivation. -/
theorem Substitutes.unique {s a b : List α} (ha : Substitutes p t s a) (hb : Substitutes p t s b) :
    a = b := by
  induction ha generalizing b with
  | unmatched hnot =>
      cases hb with
      | unmatched _ => rfl
      | matched _ _ => exact absurd ⟨_, _, List.append_assoc ..⟩ hnot
  | @matched pre rest rest' hfirst _ ih =>
      -- The text of the second derivation has to be a variable for the case split.
      generalize htext : pre ++ (p ++ rest) = text at hb
      cases hb with
      | unmatched hnot =>
          rw [← htext] at hnot
          exact absurd ⟨_, _, List.append_assoc ..⟩ hnot
      | matched hfirst' hrest' =>
          obtain ⟨rfl, rfl⟩ := first_occurrence_unique hfirst hfirst' htext
          rw [ih hrest']

/-- A result has no elements but those of the text and of the replacement. -/
theorem Substitutes.not_mem {s s' : List α} {a : α} (h : Substitutes p t s s') (hs : a ∉ s)
    (ht : a ∉ t) : a ∉ s' := by
  induction h with
  | unmatched _ => exact hs
  | matched _ _ ih =>
      simp only [List.mem_append, not_or] at hs ⊢
      exact ⟨hs.1, ht, ih hs.2.2⟩

end Lib
