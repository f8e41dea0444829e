import Phxargs.Model.Util

/-!
# `Phxargs.Model.CommandArgs`: the growable argument list

`command_args.c`. The source maintains the count, the capacity, the stored strings and the
running length separately. `CommandArgs` carries their agreement as fields, so a list whose
length is out of step with its strings cannot be built, and the size checks of the command
can be read over the strings themselves.
-/

set_option autoImplicit false

namespace Phxargs

/-- The bytes of a list of strings, each with its terminating NUL. -/
def totalLength (args : List CStr) : Nat := (args.map fun arg => strlen arg + 1).sum

@[simp] theorem totalLength_nil : totalLength [] = 0 := rfl

@[simp] theorem totalLength_cons (arg : CStr) (args : List CStr) :
    totalLength (arg :: args) = strlen arg + 1 + totalLength args := by
  simp [totalLength]

@[simp] theorem totalLength_append (args args' : List CStr) :
    totalLength (args ++ args') = totalLength args + totalLength args' := by
  simp [totalLength]

/-- Every string takes at least its NUL. -/
theorem length_le_totalLength (args : List CStr) : args.length ≤ totalLength args := by
  induction args with
  | nil => exact Nat.le_refl _
  | cons arg args ih =>
      rw [List.length_cons, totalLength_cons]
      omega

/-- Each string is one of the terms. -/
theorem strlen_lt_totalLength {arg : CStr} {args : List CStr} (h : arg ∈ args) :
    strlen arg < totalLength args := by
  induction args with
  | nil => exact (List.not_mem_nil h).elim
  | cons arg' args ih =>
      rw [totalLength_cons]
      rcases List.mem_cons.mp h with rfl | h
      · omega
      · have := ih h
        omega

/-- `struct command_args_s`. `args` are the strings in the first `count` slots. -/
structure CommandArgs where
  count : Nat
  capacity : Nat
  args : List CStr
  length : Nat
  count_eq : count = args.length
  length_eq : length = totalLength args
  count_le : count ≤ capacity

/-- `command_args_create_with_capacity`. -/
def commandArgsCreateWithCapacity (capacity : Nat) : CommandArgs where
  count := 0
  capacity := capacity
  args := []
  length := 0
  count_eq := rfl
  length_eq := rfl
  count_le := Nat.zero_le _

/-- `command_args_create`. -/
def commandArgsCreate : CommandArgs := commandArgsCreateWithCapacity 10

/-- `reallocate_if_needed`: afterwards one more slot is free. -/
def reallocateIfNeeded (a : CommandArgs) :
    Except Exit { b : CommandArgs // b.count < b.capacity } :=
  if hfull : a.count ≥ a.capacity then
    match hdouble : phxargsDoubleCapacity a.capacity with
    | .ok capacity =>
        -- The capacity doubles, from 0 to 1, so a slot is new.
        have hlt : a.count < capacity :=
          Nat.lt_of_le_of_lt a.count_le (lt_of_phxargsDoubleCapacity hdouble)
        .ok ⟨{ a with capacity := capacity, count_le := Nat.le_of_lt hlt }, hlt⟩
    | .error e => .error e
  else
    .ok ⟨a, Nat.lt_of_not_le hfull⟩

/-- `command_args_add`. -/
def commandArgsAdd (a : CommandArgs) (newArg : CStr) : Except Exit CommandArgs :=
  match reallocateIfNeeded a with
  | .error e => .error e
  | .ok ⟨b, hroom⟩ => .ok
      { count := b.count + 1
        capacity := b.capacity
        args := b.args ++ [newArg]
        length := b.length + (strlen newArg + 1)
        count_eq := by rw [b.count_eq, List.length_append]; rfl
        length_eq := by rw [b.length_eq, totalLength_append, totalLength_cons, totalLength_nil]
        count_le := hroom }

/-- `command_args_count`. -/
def commandArgsCount (a : CommandArgs) : Nat := a.count

/-- `command_args_length`. -/
def commandArgsLength (a : CommandArgs) : Nat := a.length

@[simp] theorem commandArgsCount_eq (a : CommandArgs) : commandArgsCount a = a.args.length :=
  a.count_eq

@[simp] theorem commandArgsLength_eq (a : CommandArgs) :
    commandArgsLength a = totalLength a.args := a.length_eq

@[simp] theorem commandArgsCreateWithCapacity_args (capacity : Nat) :
    (commandArgsCreateWithCapacity capacity).args = [] := rfl

@[simp] theorem commandArgsCreate_args : commandArgsCreate.args = [] := rfl

/-- Growing keeps the strings. -/
theorem reallocateIfNeeded_args {a : CommandArgs} {b : { b : CommandArgs // b.count < b.capacity }}
    (h : reallocateIfNeeded a = .ok b) : b.val.args = a.args := by
  unfold reallocateIfNeeded at h
  split at h
  · split at h
    · cases h; rfl
    · cases h
  · cases h; rfl

/-- An add appends the string. -/
theorem commandArgsAdd_args {a b : CommandArgs} {newArg : CStr}
    (h : commandArgsAdd a newArg = .ok b) : b.args = a.args ++ [newArg] := by
  unfold commandArgsAdd at h
  split at h
  · cases h
  · rename_i c hroom hgrow
    cases h
    exact congrArg (· ++ [newArg]) (reallocateIfNeeded_args hgrow)

/-- An add to a list of at most `SIZE_MAX / 2` strings does not exit. -/
theorem commandArgsAdd_ok {a : CommandArgs} (newArg : CStr)
    (h : a.args.length ≤ SIZE_MAX / 2) : ∃ b, commandArgsAdd a newArg = .ok b := by
  have hgrow : ∃ b, reallocateIfNeeded a = .ok b := by
    unfold reallocateIfNeeded
    split
    · rename_i hfull
      have hcap : a.capacity ≤ SIZE_MAX / 2 := by
        rw [← a.count_eq] at h
        exact Nat.le_trans hfull h
      obtain ⟨capacity, hdouble, -⟩ := phxargsDoubleCapacity_of_le hcap
      split
      · exact ⟨_, rfl⟩
      · rename_i e herror
        rw [hdouble] at herror
        cases herror
    · exact ⟨_, rfl⟩
  obtain ⟨⟨b, hroom⟩, hb⟩ := hgrow
  unfold commandArgsAdd
  rw [hb]
  exact ⟨_, rfl⟩

end Phxargs
