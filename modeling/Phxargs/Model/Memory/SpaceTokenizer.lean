import Phxargs.Model.Memory.Buffer
import Phxargs.Model.SpaceTokenizer

/-!
# `Phxargs.Model.Memory.SpaceTokenizer`: the space tokenizer over memory

`space_tokenizer.c` again, with the buffer in memory. What `Phxargs.Model.SpaceTokenizer` leaves
out is here: the size of the buffer, its growth, and the bytes behind `pos`.
-/

set_option autoImplicit false

namespace Phxargs.Memory

/-- `struct space_tokenizer_s`, with the buffer and the error of its base. -/
structure SpaceTokenizer where
  buf : Buffer
  err : TokenizerError
  state : SpaceTokenizerState
  quoteChar : UInt8
  tokenStart : Nat
  logicalEndOfInputMarker : Option CStr

namespace SpaceTokenizer

variable (fresh : Nat → UInt8)

/-- `tokenizer_add`. -/
def add (t : SpaceTokenizer) (ch : UInt8) : Except Fault SpaceTokenizer := do
  let buf ← bufferPut fresh t.buf ch
  return { t with buf := buf }

/-- `space_tokenizer_no_token`. -/
def noToken (t : SpaceTokenizer) : SpaceTokenizer :=
  { t with buf := bufferReset t.buf, state := .noToken, quoteChar := 0, tokenStart := 0 }

/-- `space_tokenizer_start_quoted_token`. -/
def startQuotedToken (t : SpaceTokenizer) (quoteChar : UInt8) : SpaceTokenizer :=
  { t with state := .inQuotedToken, quoteChar := quoteChar, tokenStart := t.buf.pos }

/-- `space_tokenizer_start_no_token_escape`. -/
def startNoTokenEscape (t : SpaceTokenizer) : SpaceTokenizer :=
  { t with state := .noTokenEscape, tokenStart := t.buf.pos }

/-- `space_tokenizer_start_in_token_escape`. -/
def startInTokenEscape (t : SpaceTokenizer) : SpaceTokenizer := { t with state := .inTokenEscape }

/-- `space_tokenizer_end_escape`. -/
def endEscape (t : SpaceTokenizer) (ch : UInt8) : Except Fault SpaceTokenizer :=
  { t with state := .inToken }.add fresh ch

/-- `space_tokenizer_start_token`. -/
def startToken (t : SpaceTokenizer) (ch : UInt8) : Except Fault SpaceTokenizer :=
  { t with state := .inToken, tokenStart := t.buf.pos }.add fresh ch

/-- `space_tokenizer_append_to_token`. -/
def appendToToken (t : SpaceTokenizer) (ch : UInt8) : Except Fault SpaceTokenizer :=
  t.add fresh ch

/-- `space_tokenizer_end_token`. -/
def endToken (t : SpaceTokenizer) : Except Fault (SpaceTokenizer × Option CStr) := do
  let t ← t.add fresh 0
  -- The reset of `space_tokenizer_no_token` leaves the bytes at the pointer where they are.
  let token ← t.buf.token t.tokenStart
  return (t.noToken, if t.logicalEndOfInputMarker = some token then none else some token)

/-- `tokenizer_set_error`. -/
def setError (t : SpaceTokenizer) (err : TokenizerError) : SpaceTokenizer := { t with err := err }

/-- `handle_no_token_char`. The second result is `*line_has_token`. -/
def handleNoTokenChar (t : SpaceTokenizer) (ch : UInt8) (lineHasToken : Bool) :
    Except Fault (SpaceTokenizer × Bool) :=
  if ch = SPACE ∨ ch = TAB then
    .ok (t, lineHasToken)
  else if ch = NEWLINE then
    .ok (t, lineHasToken)
  else if ch = SINGLE_QUOTE ∨ ch = DOUBLE_QUOTE then
    .ok (t.startQuotedToken ch, true)
  else if ch = BACKSLASH then
    .ok (t.startNoTokenEscape, true)
  else do
    let t ← t.startToken fresh ch
    return (t, true)

/-- What a byte does that can end a token: the tokenizer after it, the number of
`on_input_boundary` calls, and `*out` if the byte ended the call. -/
structure Handled where
  toker : SpaceTokenizer
  boundaries : Nat
  out : Option (Option CStr)

/-- `handle_in_token_char`. -/
def handleInTokenChar (t : SpaceTokenizer) (ch : UInt8) (lineHasToken : Bool) :
    Except Fault Handled :=
  if ch = SPACE ∨ ch = TAB then do
    let ended ← t.endToken fresh
    return ⟨ended.1, 0, some ended.2⟩
  else if ch = NEWLINE then do
    let ended ← t.endToken fresh
    return ⟨ended.1, if lineHasToken then 1 else 0, some ended.2⟩
  else if ch = SINGLE_QUOTE ∨ ch = DOUBLE_QUOTE then
    .ok ⟨{ t with state := .inTokenQuoted, quoteChar := ch }, 0, none⟩
  else if ch = BACKSLASH then
    .ok ⟨t.startInTokenEscape, 0, none⟩
  else do
    let t ← t.appendToToken fresh ch
    return ⟨t, 0, none⟩

/-- `handle_quoted_char`. -/
def handleQuotedChar (t : SpaceTokenizer) (ch : UInt8) : Except Fault Handled :=
  if ch = t.quoteChar then
    .ok ⟨{ t with state := .inToken }, 0, none⟩
  else if ch = NEWLINE then
    .ok ⟨t.setError .unterminatedQuote, 0, some none⟩
  else do
    let t ← t.appendToToken fresh ch
    return ⟨t, 0, none⟩

/-- `handle_eof`. -/
def handleEof (t : SpaceTokenizer) (ferror lineHasToken : Bool) :
    Except Fault (Next SpaceTokenizer) :=
  if ferror then
    .ok ⟨none, 0, t.setError .io, []⟩
  else if t.state = .inTokenEscape ∨ t.state = .noTokenEscape then
    .ok ⟨none, 0, t.setError .backslashAtEof, []⟩
  else if t.state = .inQuotedToken ∨ t.state = .inTokenQuoted then
    .ok ⟨none, 0, t.setError .unterminatedQuote, []⟩
  else if lineHasToken then do
    let ended ← t.endToken fresh
    return ⟨ended.2, 1, ended.1, []⟩
  else
    .ok ⟨none, 0, t, []⟩

/-- The loop of `next_space_token`, from its state in the middle of a call. -/
def next (ferror : Bool) :
    SpaceTokenizer → Bool → List UInt8 → Except Fault (Next SpaceTokenizer)
  | t, lineHasToken, [] => t.handleEof fresh ferror lineHasToken
  | t, lineHasToken, ch :: rest =>
      match t.state with
      | .noToken => do
          let handled ← t.handleNoTokenChar fresh ch lineHasToken
          next ferror handled.1 handled.2 rest
      | .inToken => do
          let handled ← t.handleInTokenChar fresh ch lineHasToken
          match handled.out with
          | some out => return ⟨out, handled.boundaries, handled.toker, rest⟩
          | none => next ferror handled.toker lineHasToken rest
      | .inQuotedToken | .inTokenQuoted => do
          let handled ← t.handleQuotedChar fresh ch
          match handled.out with
          | some out => return ⟨out, handled.boundaries, handled.toker, rest⟩
          | none => next ferror handled.toker lineHasToken rest
      | .noTokenEscape | .inTokenEscape => do
          let t ← t.endEscape fresh ch
          next ferror t lineHasToken rest

/-- `space_tokenizer_create`. -/
def create (bufferSize : Nat) (logicalEndOfInputMarker : Option CStr) : SpaceTokenizer :=
  noToken
    { buf := bufferCreate bufferSize
      err := .none
      state := .noToken
      quoteChar := 0
      tokenStart := 0
      logicalEndOfInputMarker := logicalEndOfInputMarker }

end SpaceTokenizer

/-- `next_space_token`. -/
def nextSpaceToken (fresh : Nat → UInt8) (ferror : Bool) (t : SpaceTokenizer)
    (bytes : List UInt8) : Except Fault (Next SpaceTokenizer) :=
  SpaceTokenizer.next fresh ferror t false bytes

/-- The answers of a new space tokenizer. -/
def spaceTokens (fresh : Nat → UInt8) (bufferSize : Nat) (marker : Option CStr) (ferror : Bool)
    (n : Nat) (bytes : List UInt8) : Answers :=
  tokensFrom (nextSpaceToken fresh ferror) SpaceTokenizer.err n
    (SpaceTokenizer.create bufferSize marker) bytes

end Phxargs.Memory
