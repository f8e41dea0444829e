import Phxargs.Lib.Batches

/-!
# `Phxargs.Lib.Greedy`: no packing is better than a greedy one

Let a bound on batches hold of every consecutive part of what it holds of. Then a greedy packing
stays ahead of every other way to cut the same sequence into batches within the bound: after any
number of batches it has taken at least as much of the sequence (`Packed.staysAhead`). So no other
way needs fewer batches (`Packed.length_le`). The bound of the other way may be a stricter one.
-/

set_option autoImplicit false

namespace Lib

variable {α : Type} {fits : List α → Prop} {batches others : List (List α)}
  {batch other rest ahead : List α}

/-- What fits still fits when elements at its ends are taken away. -/
def Hereditary (fits : List α → Prop) : Prop :=
  ∀ part whole : List α, part <:+: whole → fits whole → fits part

/-- Without its first batch, a greedy packing is one of the rest. -/
theorem Packed.tail (h : Packed fits (batch :: batches)) : Packed fits batches where
  nonempty := (List.forall_mem_cons.mp h.nonempty).2
  fit := (List.forall_mem_cons.mp h.fit).2
  maximal := h.maximal.tail

/-- The first batch cannot take the first element of what follows. -/
theorem Packed.full {a : α} {later : List α} (h : Packed fits (batch :: batches))
    (hlater : batches.flatten = a :: later) : ¬ fits (batch ++ [a]) := by
  cases batches with
  | nil => cases hlater
  | cons next batches =>
      have hnext : next ≠ [] := h.nonempty next (by simp)
      apply (List.isChain_cons_cons.mp h.maximal).1
      cases next with
      | nil => exact absurd rfl hnext
      | cons b next =>
          rw [List.flatten_cons, List.cons_append] at hlater
          rw [(List.cons.inj hlater).1]
          rfl

/-- A batch of another way that does not start behind the first batch does not end behind it. -/
theorem Packed.covers (hfits : Hereditary fits) (h : Packed fits (batch :: batches))
    (hother : fits other) (hsplit : ahead ++ (batch ++ batches.flatten) = other ++ rest) :
    ∃ ahead', ahead ++ batch = other ++ ahead' ∧ rest = ahead' ++ batches.flatten := by
  rw [← List.append_assoc, List.append_eq_append_iff] at hsplit
  rcases hsplit with ⟨more, hmore, hrest⟩ | ⟨ahead', hahead, hrest⟩
  · cases more with
    | nil => exact ⟨[], by simpa using hmore.symm, by simpa using hrest.symm⟩
    | cons a more =>
        -- The other batch holds this one and the next element, which is too much.
        have hpart : batch ++ [a] <:+: other := by
          refine ⟨ahead, more, ?_⟩
          rw [hmore]
          simp
        exact absurd (hfits _ _ hpart hother) (h.full hrest)
  · exact ⟨ahead', hahead, hrest⟩

/-- The same with a lead: the greedy packing has taken `ahead` already. Induction on the number of
batches; each batch of the two keeps a lead. -/
theorem Packed.staysAhead_from (hfits : Hereditary fits) :
    ∀ (k : Nat) {batches others : List (List α)} {ahead : List α}, Packed fits batches →
      (∀ other ∈ others, fits other) → ahead ++ batches.flatten = others.flatten →
      (others.take k).flatten <+: ahead ++ (batches.take k).flatten := by
  intro k
  induction k with
  | zero =>
      intro batches others ahead _ _ _
      simp
  | succ k ih =>
      intro batches others ahead h hothers hflatten
      cases others with
      | nil => simp
      | cons other others =>
          rw [List.forall_mem_cons] at hothers
          cases batches with
          | nil =>
              -- Nothing is left, so everything is ahead.
              have hall : ahead = (other :: others).flatten := by simpa using hflatten
              rw [hall]
              refine (List.IsPrefix.trans ?_ (List.prefix_append _ _))
              refine ⟨((other :: others).drop (k + 1)).flatten, ?_⟩
              rw [← List.flatten_append, List.take_append_drop]
          | cons batch batches =>
              rw [List.flatten_cons, List.flatten_cons] at hflatten
              obtain ⟨ahead', hahead, hrest⟩ := h.covers hfits hothers.1 hflatten
              have hlead := ih h.tail hothers.2 hrest.symm
              simp only [List.take_succ_cons, List.flatten_cons]
              rw [← List.append_assoc, hahead, List.append_assoc, List.prefix_append_right_inj]
              exact hlead

/-- **A greedy packing stays ahead.** After `k` batches it has taken at least as much as any other
way to cut the sequence into batches that fit. -/
theorem Packed.staysAhead (hfits : Hereditary fits) (h : Packed fits batches)
    (hothers : ∀ other ∈ others, fits other) (hflatten : batches.flatten = others.flatten) (k : Nat) :
    (others.take k).flatten <+: (batches.take k).flatten :=
  Packed.staysAhead_from hfits k h hothers (show [] ++ batches.flatten = others.flatten from hflatten)

/-- **A greedy packing has the fewest batches.** -/
theorem Packed.length_le (hfits : Hereditary fits) (h : Packed fits batches)
    (hothers : ∀ other ∈ others, fits other) (hflatten : batches.flatten = others.flatten) :
    batches.length ≤ others.length := by
  have hahead := h.staysAhead hfits hothers hflatten others.length
  rw [List.take_length, ← hflatten] at hahead
  by_contra hmore
  -- A batch that is left would not be empty, but everything has been taken.
  have hlength := hahead.length_le
  have hsplit := congrArg (fun l => (List.flatten l).length)
    (List.take_append_drop others.length batches)
  rw [List.flatten_append, List.length_append] at hsplit
  have hnil : (batches.drop others.length).flatten = [] := by
    apply List.eq_nil_of_length_eq_zero
    omega
  have hdrop : batches.drop others.length ≠ [] := by
    intro hempty
    rw [List.drop_eq_nil_iff] at hempty
    omega
  obtain ⟨last, later, hlast⟩ := List.exists_cons_of_ne_nil hdrop
  have hmem : last ∈ batches := List.mem_of_mem_drop (hlast ▸ List.mem_cons_self)
  rw [hlast, List.flatten_cons, List.append_eq_nil_iff] at hnil
  exact h.nonempty last hmem hnil.1

end Lib
