import Mathlib.Data.List.Basic

/-!
# `Phxargs.Lib.Slots`: the slots in use of a growable array

A growable array is a block of slots of which the first `n` are in use. What stands in the others
does not matter. `InUse` says which values the slots in use have, and each rule says what one
change of the block or of `n` does to these values.
-/

set_option autoImplicit false

namespace Lib

variable {α : Type} {block : List α} {n : Nat} {values : List α}

/-- The first `n` slots of the block have these values. -/
structure InUse (block : List α) (n : Nat) (values : List α) : Prop where
  le_length : n ≤ block.length
  take_eq : block.take n = values

namespace InUse

/-- No slot is in use. -/
theorem empty (block : List α) : InUse block 0 [] := ⟨Nat.zero_le _, rfl⟩

theorem length (h : InUse block n values) : values.length = n := by
  rw [← h.take_eq, List.length_take, Nat.min_eq_left h.le_length]

/-- A slot in use. -/
theorem getElem? (h : InUse block n values) {i : Nat} (hi : i < n) : block[i]? = values[i]? := by
  rw [← h.take_eq, List.getElem?_take_of_lt hi]

/-- The last slot in use. -/
theorem getElem?_last {x : α} (h : InUse block n (values ++ [x])) : block[n - 1]? = some x := by
  have hn : n = values.length + 1 := by
    rw [← h.length, List.length_append, List.length_singleton]
  rw [h.getElem? (by omega), hn, Nat.add_sub_cancel, List.getElem?_concat_length]

/-- The block: its slots in use, and the others. -/
theorem eq_append (h : InUse block n values) : block = values ++ block.drop n := by
  rw [← h.take_eq, List.take_append_drop]

/-- A store into the first free slot takes it into use. -/
theorem store (h : InUse block n values) (hfree : n < block.length) (x : α) :
    InUse (block.set n x) (n + 1) (values ++ [x]) where
  le_length := by rw [List.length_set]; exact hfree
  take_eq := by
    have hlt : n < (block.set n x).length := by rw [List.length_set]; exact hfree
    rw [List.take_succ_eq_append_getElem hlt, List.getElem_set_self,
      List.take_set_of_le (Nat.le_refl n), h.take_eq]

/-- More slots behind the block. -/
theorem grow (h : InUse block n values) (more : List α) : InUse (block ++ more) n values where
  le_length := by
    rw [List.length_append]
    exact Nat.le_add_right_of_le h.le_length
  take_eq := by rw [List.take_append_of_le_length h.le_length, h.take_eq]

/-- The last slot in use is given up. Of an empty array, nothing is. -/
theorem dropLast (h : InUse block n values) : InUse block (n - 1) values.dropLast where
  le_length := Nat.le_trans (Nat.sub_le n 1) h.le_length
  take_eq := by
    rw [List.dropLast_eq_take, h.length, ← h.take_eq, List.take_take,
      Nat.min_eq_left (Nat.sub_le n 1)]

end InUse

end Lib
