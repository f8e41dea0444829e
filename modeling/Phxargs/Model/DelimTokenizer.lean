import Phxargs.Model.Buffer
import Phxargs.Model.Tokenizer

/-!
# `Phxargs.Model.DelimTokenizer`: the delimiter tokenizer

`delim_tokenizer.c`, with the buffer and the error of its base. As for the space tokenizer, the
input is the finite sequence of bytes that `getc` returns before `EOF`, and whether a read
error ended it. `fresh` is what `realloc` leaves in new memory.

The delimiter is a `char`, and `getc` returns an `int` from 0 to 255. Where `char` is signed,
a delimiter from 128 on is negative as an `int`, and no byte equals it.
-/

set_option autoImplicit false

namespace Phxargs

/-- A `char` as an `int`, where `char` is signed. -/
def charToInt (ch : UInt8) : Int := if ch < 128 then ch.toNat else (ch.toNat : Int) - 256

/-- `struct delim_tokenizer_s`, with the buffer and the error of its base. -/
structure DelimTokenizer where
  buf : Buffer
  err : TokenizerError
  tokenStart : Nat
  delim : UInt8

namespace DelimTokenizer

variable (fresh : Nat → UInt8)

/-- `delim_tokenizer_start_token`. -/
def startToken (t : DelimTokenizer) : DelimTokenizer := { t with tokenStart := t.buf.pos }

/-- `delim_tokenizer_append_to_token`. -/
def appendToToken (t : DelimTokenizer) (ch : UInt8) : DelimTokenizer :=
  { t with buf := bufferPut fresh t.buf ch }

/-- `delim_tokenizer_end_token`: the terminated token. -/
def endToken (t : DelimTokenizer) : DelimTokenizer × CStr :=
  let t := t.appendToToken fresh 0
  (t, cstr (t.buf.buf.drop t.tokenStart))

/-- `tokenizer_drop_last`. -/
def dropLast (t : DelimTokenizer) : DelimTokenizer := { t with buf := bufferDropLast t.buf }

/-- What a call of `next_delim_token` returns and leaves: the token, the number of
`on_input_boundary` calls, the tokenizer and the rest of the input. -/
structure Next where
  token : Option CStr
  boundaries : Nat
  toker : DelimTokenizer
  rest : List UInt8

/-- The end of `next_delim_token`, behind the loop. -/
def handleEof (t : DelimTokenizer) (ferror : Bool) : Next :=
  if ferror then
    ⟨none, 0, { t with err := .io }, []⟩
  -- Nothing after the last delimiter: the input ends here, without an empty item.
  else if t.tokenStart = t.buf.pos then
    ⟨none, 0, t, []⟩
  else
    -- Only a delimiter other than newline keeps the final newline out of the token.
    let t :=
      if t.delim ≠ NEWLINE ∧ t.buf.buf.getD (t.buf.pos - 1) 0 = NEWLINE then t.dropLast else t
    ⟨some (t.endToken fresh).2, 0, (t.endToken fresh).1, []⟩

/-- The loop of `next_delim_token`. -/
def next (ferror : Bool) : DelimTokenizer → List UInt8 → Next
  | t, [] => t.handleEof fresh ferror
  | t, ch :: rest =>
      -- Quotes and backslashes are bytes like any other.
      if (ch.toNat : Int) ≠ charToInt t.delim then
        next ferror (t.appendToToken fresh ch) rest
      else
        ⟨some (t.endToken fresh).2, 1, (t.endToken fresh).1, rest⟩

/-- `delim_tokenizer_create`. -/
def create (bufferSize : Nat) (argDelimiter : UInt8) : DelimTokenizer where
  buf := bufferCreate bufferSize
  err := .none
  tokenStart := 0
  delim := argDelimiter

/-- `on_input_boundary` is called at most once in a call. -/
theorem next_boundaries_le (ferror : Bool) :
    ∀ (bytes : List UInt8) (t : DelimTokenizer), (next fresh ferror t bytes).boundaries ≤ 1 := by
  intro bytes
  induction bytes with
  | nil =>
      intro t
      show (t.handleEof fresh ferror).boundaries ≤ 1
      unfold handleEof
      split
      · exact Nat.zero_le _
      · split <;> exact Nat.zero_le _
  | cons ch rest ih =>
      intro t
      rw [next]
      split
      · exact ih _
      · exact Nat.le_refl _

end DelimTokenizer

/-- `next_delim_token`. -/
def nextDelimToken (fresh : Nat → UInt8) (ferror : Bool) (t : DelimTokenizer)
    (bytes : List UInt8) : DelimTokenizer.Next :=
  -- `tokenizer_reset` keeps the memory, so the bytes of earlier items are still behind `pos`.
  DelimTokenizer.next fresh ferror ({ t with buf := bufferReset t.buf }).startToken bytes

theorem nextDelimToken_boundaries_le (fresh : Nat → UInt8) (ferror : Bool) (t : DelimTokenizer)
    (bytes : List UInt8) : (nextDelimToken fresh ferror t bytes).boundaries ≤ 1 :=
  DelimTokenizer.next_boundaries_le fresh ferror bytes _

/-- The answers of at most `n` calls of `next_delim_token`, up to the first `NULL`. -/
def delimTokensFrom (fresh : Nat → UInt8) (ferror : Bool) :
    Nat → DelimTokenizer → List UInt8 → TokenStream
  | 0, _, _ => ⟨[], 0, .none⟩
  | n + 1, t, bytes =>
      let answer := nextDelimToken fresh ferror t bytes
      match answer.token with
      | none => ⟨[], answer.boundaries, answer.toker.err⟩
      | some arg =>
          let later := delimTokensFrom fresh ferror n answer.toker answer.rest
          let token : Token :=
            { arg := arg
              boundaries := answer.boundaries
              boundaries_le := nextDelimToken_boundaries_le fresh ferror t bytes }
          { later with tokens := token :: later.tokens }

end Phxargs
