import Phxargs.Model.Util

/-!
# `Phxargs.Model.Str`: `str_replace`

`str.c`. A pointer into a string is the rest of the string at it. Both passes of
`str_replace` search with `strstr` from the end of the last match. `countOccurrences` is the
counting pass and `copyReplaced` the copying pass. The allocation between them is computed
modulo the word size, with `SIZE_MAX` as a parameter. `copyPass` is the copying pass again, with
the memory that it writes.
-/

set_option autoImplicit false

namespace Phxargs

/-- `strstr`: the offset of the first occurrence of `needle`. -/
def strstr (needle : CStr) : CStr → Option Nat
  | [] => if needle = [] then some 0 else none
  | c :: rest =>
      if needle.isPrefixOf (c :: rest) then some 0 else (strstr needle rest).map (· + 1)

/-- `checked_mul`. -/
def checkedMul (sizeMax a b : Nat) : Except Exit Nat :=
  if a ≠ 0 ∧ b > sizeMax / a then .error (Exit.failure .replacementTooLarge) else .ok (a * b)

/-- `checked_add`. -/
def checkedAdd (sizeMax a b : Nat) : Except Exit Nat :=
  if a > sizeMax - b then .error (Exit.failure .replacementTooLarge) else .ok (a + b)

/-- The counting pass, for at most `n` matches. -/
def countOccurrences (placeholder : CStr) : Nat → CStr → Nat
  | 0, _ => 0
  | n + 1, tmp =>
      match strstr placeholder tmp with
      | none => 0
      | some offset => countOccurrences placeholder n (tmp.drop (offset + strlen placeholder)) + 1

/-- The copying pass, for at most `n` matches. The bytes after the last match are copied as
they are. -/
def copyReplaced (placeholder repl : CStr) : Nat → CStr → CStr
  | 0, pos => pos
  | n + 1, pos =>
      match strstr placeholder pos with
      | none => pos
      | some offset =>
          pos.take offset ++ repl
            ++ copyReplaced placeholder repl n (pos.drop (offset + strlen placeholder))

/-- The number of non-overlapping occurrences of `placeholder` in `s`, from the left. A
match is never empty, so `strlen s + 1` bounds the number of searches. -/
def occurrenceCount (s placeholder : CStr) : Nat :=
  countOccurrences placeholder (strlen s + 1) s

/-- The size that `str_replace` passes to `calloc`. -/
def strReplaceAlloc (sizeMax : Nat) (s placeholder repl : CStr) : Except Exit Nat := do
  let removed ← checkedMul sizeMax (occurrenceCount s placeholder) (strlen placeholder)
  let added ← checkedMul sizeMax (occurrenceCount s placeholder) (strlen repl)
  -- The source subtracts and adds the NUL without a check, so these two wrap.
  let kept := (strlen s + (sizeMax + 1) - removed) % (sizeMax + 1)
  let newLen ← checkedAdd sizeMax kept added
  return (newLen + 1) % (sizeMax + 1)

/-- `str_replace`, for a string that is not `NULL`. -/
def strReplace (s : CStr) (placeholder replacement : Option CStr) : Except Exit CStr :=
  match placeholder with
  | none => .ok s
  | some placeholder =>
      if strlen placeholder = 0 then
        .ok s
      else
        -- A `NULL` replacement deletes.
        let repl := replacement.getD []
        match strReplaceAlloc SIZE_MAX s placeholder repl with
        | .error e => .error e
        | .ok _ => .ok (copyReplaced placeholder repl (strlen s + 1) s)

/-! ### The memory that the copying pass writes -/

/-- The variable `new_len` of `str_replace`: the size of the result without its NUL. -/
def strReplaceNewLen (sizeMax : Nat) (s placeholder repl : CStr) : Except Exit Nat := do
  let removed ← checkedMul sizeMax (occurrenceCount s placeholder) (strlen placeholder)
  let added ← checkedMul sizeMax (occurrenceCount s placeholder) (strlen repl)
  checkedAdd sizeMax ((strlen s + (sizeMax + 1) - removed) % (sizeMax + 1)) added

/-- The memory of `result`, the index of `new_pos` in it, and the number of matches that the
copying pass has found. -/
structure Copy where
  result : List UInt8
  newPos : Nat
  found : Nat
  deriving DecidableEq, Repr

/-- `memcpy` to `new_pos`, which moves behind the copied bytes. It is `none` where a byte would
be written outside of the memory. -/
def Copy.memcpy (c : Copy) (src : List UInt8) : Option Copy :=
  if c.newPos + src.length ≤ c.result.length then
    some { c with
      result := c.result.take c.newPos ++ (src ++ c.result.drop (c.newPos + src.length))
      newPos := c.newPos + src.length }
  else
    none

/-- The copying pass of `str_replace` with its memory, for at most `n` matches. -/
def copyPass (placeholder repl : CStr) : Nat → CStr → Copy → Option Copy
  -- The last `memcpy` copies the NUL as well.
  | 0, pos, c => c.memcpy (pos ++ [0])
  | n + 1, pos, c =>
      match strstr placeholder pos with
      | none => c.memcpy (pos ++ [0])
      | some offset =>
          match c.memcpy (pos.take offset) with
          | none => none
          | some c =>
              match c.memcpy repl with
              | none => none
              | some c => copyPass placeholder repl n (pos.drop (offset + strlen placeholder))
                  { c with found := c.found + 1 }

end Phxargs
