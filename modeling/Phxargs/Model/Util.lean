import Mathlib

/-!
# `Phxargs.Model.Util`: C strings, sizes and exits

The vocabulary of the model, and `util.c`.

A C string is the list of its bytes before the terminating NUL. Sizes are natural numbers.
A sum of `strlen`s never wraps, because the strings that it counts are in memory at the
same time. The places where the source itself guards a `size_t` compare with `SIZE_MAX`.
The model keeps these guards. The one of the token buffer is in `Phxargs.Model.Memory` only.
Allocation always succeeds.

`exit` carries its status and what the program writes to standard error just before it.
-/

set_option autoImplicit false

namespace Phxargs

/-- A C string: the bytes before its terminating NUL. -/
abbrev CStr := List UInt8

/-- `strlen`. -/
def strlen (s : CStr) : Nat := s.length

/-- The C string that starts at the first of these bytes of memory: it ends before the
first NUL. -/
def cstr (bytes : List UInt8) : CStr := bytes.takeWhile (· ≠ 0)

def SPACE : UInt8 := 32
def TAB : UInt8 := 9
def NEWLINE : UInt8 := 10
def SINGLE_QUOTE : UInt8 := 39
def DOUBLE_QUOTE : UInt8 := 34
def BACKSLASH : UInt8 := 92

/-- The largest `size_t`. -/
def SIZE_MAX : Nat := 2 ^ 64 - 1

/-- The largest `long`. -/
def LONG_MAX : Nat := 2 ^ 63 - 1

def EXIT_SUCCESS : Nat := 0
def EXIT_FAILURE : Nat := 1

/-! ### `exit_codes.h` -/

def PHXARGS_STATUS_CHILD_FAILED : Nat := 123
def PHXARGS_STATUS_HALT : Nat := 124
def PHXARGS_STATUS_SIGNALLED : Nat := 125
def PHXARGS_STATUS_INTERNAL_ERROR : Nat := 125
def PHXARGS_STATUS_NOT_EXECUTABLE : Nat := 126
def PHXARGS_STATUS_NOT_FOUND : Nat := 127

/-! ### Exits -/

/-- What the program reports on standard error before an exit. -/
inductive Diagnostic where
  /-- The tokenizer has reported the error already. -/
  | alreadyReported
  | invalidNumber (opt : Char) (arg : CStr)
  | numberTooSmall (opt : Char) (arg : CStr)
  | maxProcsTooLarge (parsed childMax : Int)
  | invalidDelimiter
  | needsArgument (opt : Char)
  | unknownOption (opt : Char)
  | promptWithParallel
  | maxLengthTooSmall (specified minLength : Nat)
  | maxLengthTooLarge (specified maxLength : Nat)
  | commandTooLong
  | replacementTooLarge
  | internalLimitExceeded
  | callocFailed
  | forkFailed
  | waitpidFailed
  | assertionFailed
  deriving DecidableEq, Repr

/-- The bytes of a C string as text. -/
def CStr.text (s : CStr) : String := String.ofList (s.map fun b => Char.ofNat b.toNat)

/-- The text of a diagnostic, as the source prints it. `perror` and `assert` append a
reason of their own. -/
def Diagnostic.text : Diagnostic → String
  | .alreadyReported => ""
  | .invalidNumber opt arg => s!"phxargs: -{opt} {CStr.text arg}: Invalid"
  | .numberTooSmall opt arg => s!"phxargs: -{opt} {CStr.text arg}: too small"
  | .maxProcsTooLarge parsed childMax =>
      s!"phxargs: -P {parsed}: too large (system limit is {childMax})"
  | .invalidDelimiter => "phxargs: invalid delimiter for -d"
  | .needsArgument opt => s!"phxargs: -{opt} needs an argument"
  | .unknownOption opt => s!"phxargs: unknown option -{opt}"
  | .promptWithParallel => "phxargs: -p and -P are mutually exclusive"
  | .maxLengthTooSmall specified minLength =>
      s!"phxargs: -s {specified}: too small (minimum {minLength} bytes)"
  | .maxLengthTooLarge specified maxLength =>
      s!"phxargs: -s {specified}: too large (maximum {maxLength} bytes)"
  | .commandTooLong => "phxargs: command too long"
  | .replacementTooLarge => "phxargs: replacement too large"
  | .internalLimitExceeded => "phxargs: internal limit exceeded"
  | .callocFailed => "phxargs: calloc"
  | .forkFailed => "phxargs: fork"
  | .waitpidFailed => "phxargs: waitpid"
  | .assertionFailed => "Assertion failed"

/-- An exit of the parent process: its status and its last report. -/
structure Exit where
  status : Nat
  diagnostic : Diagnostic
  deriving DecidableEq, Repr

/-- `fprintf(stderr, ...); exit(EXIT_FAILURE)`. -/
def Exit.failure (d : Diagnostic) : Exit := ⟨EXIT_FAILURE, d⟩

/-- The exit of `command too long`, the same wherever the size check fails. -/
def Exit.commandTooLong : Exit := Exit.failure .commandTooLong

/-! ### `util.c` -/

/-- `phxargs_double_capacity`. -/
def phxargsDoubleCapacity (capacity : Nat) : Except Exit Nat :=
  if capacity = 0 then
    .ok 1
  else if capacity > SIZE_MAX / 2 then
    .error (Exit.failure .internalLimitExceeded)
  else
    .ok (capacity * 2)

/-- `phxargs_min`. -/
def phxargsMin (a b : Nat) : Nat := if a < b then a else b

/-- The doubling: it exits above `SIZE_MAX / 2`, and else there is room for one more element and
for a spare one. -/
theorem phxargsDoubleCapacity_cases (capacity : Nat) :
    (SIZE_MAX / 2 < capacity ∧
      phxargsDoubleCapacity capacity = .error (Exit.failure .internalLimitExceeded)) ∨
    ∃ capacity', phxargsDoubleCapacity capacity = .ok capacity' ∧ capacity < capacity' ∧
      capacity' < SIZE_MAX := by
  have hmax : SIZE_MAX = 18446744073709551615 := rfl
  by_cases hguard : SIZE_MAX / 2 < capacity
  · have hpos : capacity ≠ 0 := by omega
    exact .inl ⟨hguard, by simp [phxargsDoubleCapacity, hpos, hguard]⟩
  · by_cases hzero : capacity = 0
    · exact .inr ⟨1, by simp [phxargsDoubleCapacity, hzero], by omega, by omega⟩
    · exact .inr ⟨capacity * 2, by simp [phxargsDoubleCapacity, hzero, hguard], by omega, by omega⟩

/-- Below half of `SIZE_MAX`, doubling makes room for one more element. -/
theorem phxargsDoubleCapacity_of_le {capacity : Nat} (h : capacity ≤ SIZE_MAX / 2) :
    ∃ capacity', phxargsDoubleCapacity capacity = .ok capacity' ∧ capacity < capacity' := by
  rcases phxargsDoubleCapacity_cases capacity with ⟨hguard, -⟩ | ⟨capacity', hok, hlt, -⟩
  · exact absurd h (Nat.not_le.mpr hguard)
  · exact ⟨capacity', hok, hlt⟩

/-- A doubled capacity is larger, whenever the doubling does not exit. -/
theorem lt_of_phxargsDoubleCapacity {capacity capacity' : Nat}
    (h : phxargsDoubleCapacity capacity = .ok capacity') : capacity < capacity' := by
  rcases phxargsDoubleCapacity_cases capacity with ⟨-, hexit⟩ | ⟨larger, hok, hlt, -⟩
  · rw [hexit] at h
    cases h
  · rw [hok] at h
    cases h
    exact hlt

/-- The only exit of the doubling is its guard. -/
theorem phxargsDoubleCapacity_error {capacity : Nat} {e : Exit}
    (h : phxargsDoubleCapacity capacity = .error e) :
    e = Exit.failure .internalLimitExceeded ∧ SIZE_MAX / 2 < capacity := by
  rcases phxargsDoubleCapacity_cases capacity with ⟨hguard, hexit⟩ | ⟨larger, hok, -⟩
  · rw [hexit] at h
    cases h
    exact ⟨rfl, hguard⟩
  · rw [hok] at h
    cases h

theorem phxargsMin_eq_min (a b : Nat) : phxargsMin a b = min a b := by
  unfold phxargsMin
  split <;> omega

end Phxargs
