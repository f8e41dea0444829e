import Mathlib.Data.List.Chain
import Mathlib.Data.List.Basic
import Mathlib.Data.List.TakeWhile

/-!
# `Phxargs.Lib.Batches`: splitting a sequence into batches

Two ways to split a sequence into consecutive batches, over any type of elements.

* `Packed fits batches`: what greedy packing produces. Every batch fits, and no batch can
  take the first element of the next one.
* `cutAfter p n l`: the batches of `l` cut after every `n`-th element that counts, where
  `p` says which elements count. If all elements count, these are the chunks of length `n`.

Both come with what a loop over the elements needs: how the batches change when one more
element arrives.
-/

set_option autoImplicit false

namespace Lib

variable {α : Type}

/-! ### Greedy packing -/

/-- The batches of a greedy packing under the bound `fits`. -/
structure Packed (fits : List α → Prop) (batches : List (List α)) : Prop where
  nonempty : ∀ batch ∈ batches, batch ≠ []
  fit : ∀ batch ∈ batches, fits batch
  /-- The first element of the next batch does not fit into this one. -/
  maximal : batches.IsChain fun batch next => ∀ a ∈ next.head?, ¬ fits (batch ++ [a])

variable {fits : List α → Prop} {batches : List (List α)} {batch : List α} {a : α}

theorem packed_singleton (h : fits [a]) : Packed fits [[a]] where
  nonempty := by simp
  fit := by simpa using h
  maximal := .singleton _

/-- The last batch takes one more element. Its first element stays, so the batch before it
is still maximal. -/
theorem Packed.extend (h : Packed fits (batches ++ [batch])) (hfits : fits (batch ++ [a])) :
    Packed fits (batches ++ [batch ++ [a]]) := by
  have hne : batch ≠ [] := h.nonempty batch (by simp)
  have hhead : (batch ++ [a]).head? = batch.head? := by
    cases batch with
    | nil => exact absurd rfl hne
    | cons b batch => rfl
  have hnonempty := (List.forall_mem_append.mp h.nonempty).1
  have hfit := (List.forall_mem_append.mp h.fit).1
  refine ⟨List.forall_mem_append.mpr ⟨hnonempty, by simp⟩,
    List.forall_mem_append.mpr ⟨hfit, List.forall_mem_singleton.mpr hfits⟩, ?_⟩
  · -- The batch before the last one sees the same head.
    have hchain := h.maximal
    rw [List.isChain_append] at hchain ⊢
    refine ⟨hchain.1, .singleton _, ?_⟩
    intro b hb next hnext
    obtain rfl : next = batch ++ [a] := by simpa using hnext.symm
    rw [hhead]
    exact hchain.2.2 b hb batch (by simp)

/-- The last batch is full, and the element starts the next one. -/
theorem Packed.close (h : Packed fits (batches ++ [batch])) (hfull : ¬ fits (batch ++ [a]))
    (hfits : fits [a]) : Packed fits (batches ++ [batch] ++ [[a]]) := by
  refine ⟨List.forall_mem_append.mpr ⟨h.nonempty, by simp⟩,
    List.forall_mem_append.mpr ⟨h.fit, List.forall_mem_singleton.mpr hfits⟩, ?_⟩
  · -- Only the link between the last two batches is new.
    rw [List.isChain_append]
    refine ⟨h.maximal, .singleton _, ?_⟩
    intro b hb next hnext
    obtain rfl : b = batch := by simpa using hb.symm
    obtain rfl : next = [a] := by simpa using hnext.symm
    intro c hc
    obtain rfl : c = a := by simpa using hc.symm
    exact hfull

/-! ### Cutting after every `n`-th element that counts -/

/-- The batches of `group ++ l`, where `group` is the part of the first batch that has been
read. -/
def cutFrom (p : α → Bool) (n : Nat) : List α → List α → List (List α)
  | [], [] => []
  | a :: group, [] => [a :: group]
  | group, a :: l =>
      if (group ++ [a]).countP p = n then
        (group ++ [a]) :: cutFrom p n [] l
      else
        cutFrom p n (group ++ [a]) l

/-- The batches of `l`, cut after every `n`-th element that satisfies `p`. -/
def cutAfter (p : α → Bool) (n : Nat) (l : List α) : List (List α) := cutFrom p n [] l

example : cutAfter (fun _ => true) 2 [1, 2, 3, 4, 5] = [[1, 2], [3, 4], [5]] := by decide

variable {p : α → Bool} {n : Nat} {group : List α}

@[simp] theorem cutFrom_nil_nil : cutFrom p n ([] : List α) [] = [] := rfl

theorem cutFrom_nil (h : group ≠ []) : cutFrom p n group [] = [group] := by
  cases group with
  | nil => exact absurd rfl h
  | cons b group => rfl

/-- The element completes the batch. -/
theorem cutFrom_close (h : (group ++ [a]).countP p = n) (l : List α) :
    cutFrom p n group (a :: l) = (group ++ [a]) :: cutFrom p n [] l := by
  rw [cutFrom, if_pos h]

/-- The element leaves the batch open. -/
theorem cutFrom_open (h : (group ++ [a]).countP p ≠ n) (l : List α) :
    cutFrom p n group (a :: l) = cutFrom p n (group ++ [a]) l := by
  rw [cutFrom, if_neg h]

/-- No element is lost, repeated or moved. -/
theorem flatten_cutFrom (p : α → Bool) (n : Nat) :
    ∀ (l group : List α), (cutFrom p n group l).flatten = group ++ l := by
  -- The open batch is general, because every element changes it.
  intro l
  induction l with
  | nil =>
      intro group
      cases group with
      | nil => rfl
      | cons b group => simp [cutFrom]
  | cons a l ih =>
      intro group
      by_cases hn : (group ++ [a]).countP p = n
      · rw [cutFrom_close hn, List.flatten_cons, ih, List.nil_append, List.append_assoc,
          List.singleton_append]
      · rw [cutFrom_open hn, ih, List.append_assoc, List.singleton_append]

theorem flatten_cutAfter (p : α → Bool) (n : Nat) (l : List α) :
    (cutAfter p n l).flatten = l := flatten_cutFrom p n l []

/-- Cutting commutes with a map that respects which elements count. -/
theorem cutFrom_map {β : Type} (f : β → α) (p : α → Bool) (n : Nat) :
    ∀ (l group : List β),
      cutFrom p n (group.map f) (l.map f) = (cutFrom (p ∘ f) n group l).map (List.map f) := by
  intro l
  induction l with
  | nil =>
      intro group
      cases group <;> rfl
  | cons b l ih =>
      intro group
      have hsnoc : group.map f ++ [f b] = (group ++ [b]).map f := by
        rw [List.map_append, List.map_singleton]
      have hcount : (group.map f ++ [f b]).countP p = (group ++ [b]).countP (p ∘ f) := by
        rw [hsnoc, List.countP_map]
      by_cases hclose : (group ++ [b]).countP (p ∘ f) = n
      · rw [List.map_cons, cutFrom_close (hcount.trans hclose), cutFrom_close hclose,
          List.map_cons, hsnoc]
        exact congrArg (_ :: ·) (ih [])
      · rw [List.map_cons, cutFrom_open (fun h => hclose (hcount.symm.trans h)),
          cutFrom_open hclose, hsnoc]
        exact ih (group ++ [b])

theorem cutAfter_map {β : Type} (f : β → α) (p : α → Bool) (n : Nat) (l : List β) :
    cutAfter p n (l.map f) = (cutAfter (p ∘ f) n l).map (List.map f) := cutFrom_map f p n l []

/-- The first batch starts with what has been read of it. -/
theorem cutFrom_head (p : α → Bool) (n : Nat) :
    ∀ (l group : List α), group ≠ [] →
      ∃ first later, cutFrom p n group l = first :: later ∧ group <+: first := by
  intro l
  induction l with
  | nil =>
      intro group hne
      exact ⟨group, [], cutFrom_nil hne, List.prefix_rfl⟩
  | cons a l ih =>
      intro group _
      by_cases hn : (group ++ [a]).countP p = n
      · exact ⟨_, _, cutFrom_close hn l, List.prefix_append ..⟩
      · obtain ⟨first, later, hcut, hinit⟩ := ih (group ++ [a]) (by simp)
        exact ⟨first, later, (cutFrom_open hn l).trans hcut,
          (List.prefix_append ..).trans hinit⟩

theorem countP_append_singleton_le (p : α → Bool) (group : List α) (a : α) :
    (group ++ [a]).countP p ≤ group.countP p + 1 := by
  rw [List.countP_append]
  exact Nat.add_le_add_left (List.countP_le_length ..) _

/-- Every batch but the last has been closed by its `n`-th element that counts. -/
theorem cutFrom_closed (p : α → Bool) (n : Nat) (hn : 0 < n) :
    ∀ (l group : List α), group.countP p < n →
      ∀ batch ∈ (cutFrom p n group l).dropLast,
        batch.countP p = n ∧ ∃ a ∈ batch.getLast?, p a = true := by
  intro l
  induction l with
  | nil =>
      intro group _ batch hbatch
      cases group <;> simp [cutFrom] at hbatch
  | cons a l ih =>
      intro group hopen batch hbatch
      by_cases hclose : (group ++ [a]).countP p = n
      · rw [cutFrom_close hclose] at hbatch
        -- The closed batch is not the last one only if more follow.
        cases hlater : cutFrom p n [] l with
        | nil => rw [hlater] at hbatch; simp at hbatch
        | cons next later =>
            rw [hlater, List.dropLast_cons_cons, List.mem_cons] at hbatch
            rcases hbatch with rfl | hbatch
            · -- The element before did not close it, so this one counts.
              refine ⟨hclose, a, by simp, ?_⟩
              rw [List.countP_append, List.countP_singleton] at hclose
              by_contra hpa
              rw [if_neg hpa] at hclose
              omega
            · exact ih [] (by simpa using hn) batch (by rw [hlater]; exact hbatch)
      · rw [cutFrom_open hclose] at hbatch
        refine ih (group ++ [a]) ?_ batch hbatch
        have hle := countP_append_singleton_le p group a
        omega

/-- The batches of `group ++ l`, where `group` has been read and may be a complete batch. A
loop that closes a batch only when the next element arrives is in such a state. -/
def cutPending (p : α → Bool) (n : Nat) (group l : List α) : List (List α) :=
  if group.countP p = n then group :: cutFrom p n [] l else cutFrom p n group l

theorem cutPending_full (h : group.countP p = n) (l : List α) :
    cutPending p n group l = group :: cutFrom p n [] l := if_pos h

theorem cutPending_open (h : group.countP p ≠ n) (l : List α) :
    cutPending p n group l = cutFrom p n group l := if_neg h

/-- A batch that is not complete takes the next element. -/
theorem cutPending_snoc (h : group.countP p ≠ n) (a : α) (l : List α) :
    cutPending p n group (a :: l) = cutPending p n (group ++ [a]) l := by
  rw [cutPending_open h]
  by_cases hclose : (group ++ [a]).countP p = n
  · rw [cutPending_full hclose, cutFrom_close hclose]
  · rw [cutPending_open hclose, cutFrom_open hclose]

/-- The first batch starts with what has been read of it. -/
theorem cutPending_head (p : α → Bool) (n : Nat) (l : List α) (hne : group ≠ []) :
    ∃ first later, cutPending p n group l = first :: later ∧ group <+: first := by
  by_cases hfull : group.countP p = n
  · exact ⟨group, cutFrom p n [] l, cutPending_full hfull l, List.prefix_rfl⟩
  · rw [cutPending_open hfull]
    exact cutFrom_head p n l group hne

theorem cutPending_nil (h : group ≠ []) : cutPending p n group [] = [group] := by
  by_cases hfull : group.countP p = n
  · rw [cutPending_full hfull, cutFrom_nil_nil]
  · rw [cutPending_open hfull, cutFrom_nil h]

/-! ### The first batch that fails -/

/-- What stands before the first element that fails a condition is determined. -/
theorem before_unique {p : α → Prop} {l before later before' later' : List α} {bad bad' : α}
    (h : l = before ++ bad :: later) (hgood : ∀ x ∈ before, p x) (hbad : ¬ p bad)
    (h' : l = before' ++ bad' :: later') (hgood' : ∀ x ∈ before', p x) (hbad' : ¬ p bad') :
    before = before' := by
  classical
  -- It is the longest part from the left in which the condition holds.
  have htake : ∀ {b r : List α} {x : α}, l = b ++ x :: r → (∀ y ∈ b, p y) → ¬ p x →
      l.takeWhile (fun y => decide (p y)) = b := by
    intro b r x hl hb hx
    have hbool : ∀ y ∈ b, decide (p y) = true := fun y hy => decide_eq_true (hb y hy)
    rw [hl, List.takeWhile_append_of_pos hbool, List.takeWhile_cons_of_neg (by simpa using hx),
      List.append_nil]
  exact (htake h hgood hbad).symm.trans (htake h' hgood' hbad')

end Lib
