import Phxargs.Model.Tokenizer

/-!
# `Phxargs.Model.SpaceTokenizer`: the space tokenizer

`space_tokenizer.c`. The input is the finite sequence of bytes that `getc` returns before
`EOF`, and whether a read error ended it. `buf` holds the bytes before `pos` of the buffer.
Growing the buffer is not visible here: its guard is for a token of more than `SIZE_MAX / 2`
bytes, which no memory holds.

A call of `next_space_token` is a fold of the six-state automaton over the bytes, which stops
at the byte that ends a token. `spaceTokenStream` collects the answers of repeated calls up to
the first `NULL`.
-/

set_option autoImplicit false

namespace Phxargs

/-- `space_tokenizer_state`. -/
inductive SpaceTokenizerState where
  | noToken
  | noTokenEscape
  | inToken
  | inQuotedToken
  | inTokenQuoted
  | inTokenEscape
  deriving DecidableEq, Repr

/-- `struct space_tokenizer_s`, with the buffer and the error of its base. -/
structure SpaceTokenizer where
  buf : List UInt8
  err : TokenizerError
  state : SpaceTokenizerState
  quoteChar : UInt8
  tokenStart : Nat
  logicalEndOfInputMarker : Option CStr
  deriving DecidableEq

namespace SpaceTokenizer

/-- `tokenizer_add`. -/
def add (t : SpaceTokenizer) (ch : UInt8) : SpaceTokenizer := { t with buf := t.buf ++ [ch] }

/-- `space_tokenizer_no_token`. -/
def noToken (t : SpaceTokenizer) : SpaceTokenizer :=
  { t with buf := [], state := .noToken, quoteChar := 0, tokenStart := 0 }

/-- `space_tokenizer_start_quoted_token`. -/
def startQuotedToken (t : SpaceTokenizer) (quoteChar : UInt8) : SpaceTokenizer :=
  { t with state := .inQuotedToken, quoteChar := quoteChar, tokenStart := t.buf.length }

/-- `space_tokenizer_start_no_token_escape`. -/
def startNoTokenEscape (t : SpaceTokenizer) : SpaceTokenizer :=
  { t with state := .noTokenEscape, tokenStart := t.buf.length }

/-- `space_tokenizer_start_in_token_escape`. -/
def startInTokenEscape (t : SpaceTokenizer) : SpaceTokenizer := { t with state := .inTokenEscape }

/-- `space_tokenizer_end_escape`. -/
def endEscape (t : SpaceTokenizer) (ch : UInt8) : SpaceTokenizer :=
  { t with state := .inToken }.add ch

/-- `space_tokenizer_start_token`. -/
def startToken (t : SpaceTokenizer) (ch : UInt8) : SpaceTokenizer :=
  { t with state := .inToken, tokenStart := t.buf.length }.add ch

/-- `space_tokenizer_append_to_token`. -/
def appendToToken (t : SpaceTokenizer) (ch : UInt8) : SpaceTokenizer := t.add ch

/-- `space_tokenizer_end_token`. A token that equals the marker is `NULL`. -/
def endToken (t : SpaceTokenizer) : SpaceTokenizer × Option CStr :=
  let t := t.add 0
  -- `tokenizer_token` is a `char*`: a NUL byte within the token cuts it.
  let token := cstr (t.buf.drop t.tokenStart)
  (t.noToken, if t.logicalEndOfInputMarker = some token then none else some token)

/-- `tokenizer_set_error`. -/
def setError (t : SpaceTokenizer) (err : TokenizerError) : SpaceTokenizer := { t with err := err }

/-- `handle_no_token_char`. The second result is `*line_has_token`. -/
def handleNoTokenChar (t : SpaceTokenizer) (ch : UInt8) (lineHasToken : Bool) :
    SpaceTokenizer × Bool :=
  if ch = SPACE ∨ ch = TAB then
    (t, lineHasToken)
  -- No `on_input_boundary`: the line is empty, or it ended in blanks behind its last token.
  else if ch = NEWLINE then
    (t, lineHasToken)
  else if ch = SINGLE_QUOTE ∨ ch = DOUBLE_QUOTE then
    (t.startQuotedToken ch, true)
  else if ch = BACKSLASH then
    (t.startNoTokenEscape, true)
  else
    (t.startToken ch, true)

/-- What a byte does that can end a token: the tokenizer after it, the number of
`on_input_boundary` calls, and `*out` if the byte ended the call. -/
structure Handled where
  toker : SpaceTokenizer
  boundaries : Nat
  out : Option (Option CStr)

/-- `handle_in_token_char`. -/
def handleInTokenChar (t : SpaceTokenizer) (ch : UInt8) (lineHasToken : Bool) : Handled :=
  if ch = SPACE ∨ ch = TAB then
    ⟨t.endToken.1, 0, some t.endToken.2⟩
  else if ch = NEWLINE then
    -- `on_input_boundary` is called before the token is compared with the marker.
    ⟨t.endToken.1, if lineHasToken then 1 else 0, some t.endToken.2⟩
  else if ch = SINGLE_QUOTE ∨ ch = DOUBLE_QUOTE then
    ⟨{ t with state := .inTokenQuoted, quoteChar := ch }, 0, none⟩
  else if ch = BACKSLASH then
    ⟨t.startInTokenEscape, 0, none⟩
  else
    ⟨t.appendToToken ch, 0, none⟩

/-- `handle_quoted_char`. -/
def handleQuotedChar (t : SpaceTokenizer) (ch : UInt8) : Handled :=
  if ch = t.quoteChar then
    ⟨{ t with state := .inToken }, 0, none⟩
  -- A quote does not span lines.
  else if ch = NEWLINE then
    ⟨t.setError .unterminatedQuote, 0, some none⟩
  else
    ⟨t.appendToToken ch, 0, none⟩

/-- What a call of `next_space_token` returns and leaves: the token, the number of
`on_input_boundary` calls, the tokenizer and the rest of the input. -/
structure Next where
  token : Option CStr
  boundaries : Nat
  toker : SpaceTokenizer
  rest : List UInt8

/-- `handle_eof`. -/
def handleEof (t : SpaceTokenizer) (ferror lineHasToken : Bool) : Next :=
  if ferror then
    ⟨none, 0, t.setError .io, []⟩
  else if t.state = .inTokenEscape ∨ t.state = .noTokenEscape then
    ⟨none, 0, t.setError .backslashAtEof, []⟩
  else if t.state = .inQuotedToken ∨ t.state = .inTokenQuoted then
    ⟨none, 0, t.setError .unterminatedQuote, []⟩
  -- The call has started a token, and the end of the input ends it.
  else if lineHasToken then
    ⟨t.endToken.2, 1, t.endToken.1, []⟩
  else
    ⟨none, 0, t, []⟩

/-- The loop of `next_space_token`, from its state in the middle of a call. -/
def next (ferror : Bool) : SpaceTokenizer → Bool → List UInt8 → Next
  | t, lineHasToken, [] => t.handleEof ferror lineHasToken
  | t, lineHasToken, ch :: rest =>
      match t.state with
      | .noToken =>
          next ferror (t.handleNoTokenChar ch lineHasToken).1
            (t.handleNoTokenChar ch lineHasToken).2 rest
      | .noTokenEscape => next ferror (t.endEscape ch) lineHasToken rest
      | .inToken =>
          let handled := t.handleInTokenChar ch lineHasToken
          match handled.out with
          | some out => ⟨out, handled.boundaries, handled.toker, rest⟩
          | none => next ferror handled.toker lineHasToken rest
      -- The two quoted states differ in where the token started, and not in what a byte does.
      | .inQuotedToken | .inTokenQuoted =>
          let handled := t.handleQuotedChar ch
          match handled.out with
          | some out => ⟨out, handled.boundaries, handled.toker, rest⟩
          | none => next ferror handled.toker lineHasToken rest
      | .inTokenEscape => next ferror (t.endEscape ch) lineHasToken rest

/-- `space_tokenizer_create`. -/
def create (logicalEndOfInputMarker : Option CStr) : SpaceTokenizer where
  buf := []
  err := .none
  state := .noToken
  quoteChar := 0
  tokenStart := 0
  logicalEndOfInputMarker := logicalEndOfInputMarker

/-- `on_input_boundary` is called at most once in a call. -/
theorem handleEof_boundaries_le (t : SpaceTokenizer) (ferror lineHasToken : Bool) :
    (t.handleEof ferror lineHasToken).boundaries ≤ 1 := by
  unfold handleEof
  split
  · exact Nat.zero_le _
  · split
    · exact Nat.zero_le _
    · split
      · exact Nat.zero_le _
      · split
        · exact Nat.le_refl _
        · exact Nat.zero_le _

theorem handleInTokenChar_boundaries_le (t : SpaceTokenizer) (ch : UInt8) (lineHasToken : Bool) :
    (t.handleInTokenChar ch lineHasToken).boundaries ≤ 1 := by
  unfold handleInTokenChar
  split
  · exact Nat.zero_le _
  · split
    · show (if lineHasToken then 1 else 0) ≤ 1
      split <;> omega
    · split
      · exact Nat.zero_le _
      · split <;> exact Nat.zero_le _

theorem handleQuotedChar_boundaries (t : SpaceTokenizer) (ch : UInt8) :
    (t.handleQuotedChar ch).boundaries = 0 := by
  unfold handleQuotedChar
  split
  · rfl
  · split <;> rfl

theorem next_boundaries_le (ferror : Bool) :
    ∀ (bytes : List UInt8) (t : SpaceTokenizer) (lineHasToken : Bool),
      (next ferror t lineHasToken bytes).boundaries ≤ 1 := by
  intro bytes
  induction bytes with
  | nil => exact fun t lineHasToken => handleEof_boundaries_le t ferror lineHasToken
  | cons ch rest ih =>
      intro t lineHasToken
      rw [next]
      split
      · exact ih _ _
      · exact ih _ _
      · dsimp only
        split
        · exact handleInTokenChar_boundaries_le t ch lineHasToken
        · exact ih _ _
      · dsimp only
        split
        · rw [handleQuotedChar_boundaries]
          exact Nat.zero_le _
        · exact ih _ _
      · dsimp only
        split
        · rw [handleQuotedChar_boundaries]
          exact Nat.zero_le _
        · exact ih _ _
      · exact ih _ _

end SpaceTokenizer

/-- `next_space_token`. -/
def nextSpaceToken (ferror : Bool) (t : SpaceTokenizer) (bytes : List UInt8) :
    SpaceTokenizer.Next :=
  SpaceTokenizer.next ferror t false bytes

theorem nextSpaceToken_boundaries_le (ferror : Bool) (t : SpaceTokenizer) (bytes : List UInt8) :
    (nextSpaceToken ferror t bytes).boundaries ≤ 1 :=
  SpaceTokenizer.next_boundaries_le ferror bytes t false

/-- The answers of at most `n` calls of `next_space_token`, up to the first `NULL`. -/
def spaceTokensFrom (ferror : Bool) : Nat → SpaceTokenizer → List UInt8 → TokenStream
  | 0, _, _ => ⟨[], 0, .none⟩
  | n + 1, t, bytes =>
      let answer := nextSpaceToken ferror t bytes
      match answer.token with
      -- No mode calls again after `NULL`, so what follows the marker is never read.
      | none => ⟨[], answer.boundaries, answer.toker.err⟩
      | some arg =>
          let later := spaceTokensFrom ferror n answer.toker answer.rest
          let token : Token :=
            { arg := arg
              boundaries := answer.boundaries
              boundaries_le := nextSpaceToken_boundaries_le ferror t bytes }
          { later with tokens := token :: later.tokens }

/-- The stream of the space tokenizer over an input. Each token takes at least one byte, so
there are at most `bytes.length + 1` calls. -/
def spaceTokenStream (marker : Option CStr) (bytes : List UInt8) (ferror : Bool) : TokenStream :=
  spaceTokensFrom ferror (bytes.length + 1) (SpaceTokenizer.create marker) bytes

end Phxargs
