import Phxargs.Model.DelimTokenizer
import Phxargs.Model.Memory.Buffer

/-!
# `Phxargs.Model.Memory.DelimTokenizer`: the delimiter tokenizer over memory

`delim_tokenizer.c` again, with the buffer in memory: every byte that is added can exit or fault,
and every read of a token goes through the block.
-/

set_option autoImplicit false

namespace Phxargs.Memory

/-- `struct delim_tokenizer_s`, with the buffer and the error of its base. -/
structure DelimTokenizer where
  buf : Buffer
  err : TokenizerError
  tokenStart : Nat
  delim : UInt8

namespace DelimTokenizer

variable (fresh : Nat → UInt8)

/-- `delim_tokenizer_start_token`. -/
def startToken (t : DelimTokenizer) : DelimTokenizer := { t with tokenStart := t.buf.pos }

/-- `delim_tokenizer_append_to_token`. -/
def appendToToken (t : DelimTokenizer) (ch : UInt8) : Except Fault DelimTokenizer := do
  let buf ← bufferPut fresh t.buf ch
  return { t with buf := buf }

/-- `delim_tokenizer_end_token`. -/
def endToken (t : DelimTokenizer) : Except Fault (DelimTokenizer × CStr) := do
  let t ← t.appendToToken fresh 0
  let token ← t.buf.token t.tokenStart
  return (t, token)

/-- `tokenizer_drop_last`. -/
def dropLast (t : DelimTokenizer) : DelimTokenizer := { t with buf := bufferDropLast t.buf }

/-- The final newline, which only a delimiter other than newline keeps out of the token. -/
def stripNewline (t : DelimTokenizer) : Except Fault DelimTokenizer :=
  if t.delim ≠ NEWLINE then do
    let ch ← t.buf.tokenByte (t.buf.pos - 1)
    return if ch = NEWLINE then t.dropLast else t
  else
    .ok t

/-- The end of `next_delim_token`, behind the loop. -/
def handleEof (t : DelimTokenizer) (ferror : Bool) : Except Fault (Next DelimTokenizer) :=
  if ferror then
    .ok ⟨none, 0, { t with err := .io }, []⟩
  else if t.tokenStart = t.buf.pos then
    .ok ⟨none, 0, t, []⟩
  else do
    let t ← t.stripNewline
    let ended ← t.endToken fresh
    return ⟨some ended.2, 0, ended.1, []⟩

/-- The loop of `next_delim_token`. -/
def next (ferror : Bool) : DelimTokenizer → List UInt8 → Except Fault (Next DelimTokenizer)
  | t, [] => t.handleEof fresh ferror
  | t, ch :: rest =>
      if (ch.toNat : Int) ≠ charToInt t.delim then do
        let t ← t.appendToToken fresh ch
        next ferror t rest
      else do
        let ended ← t.endToken fresh
        return ⟨some ended.2, 1, ended.1, rest⟩

/-- `delim_tokenizer_create`. -/
def create (bufferSize : Nat) (argDelimiter : UInt8) : DelimTokenizer where
  buf := bufferCreate bufferSize
  err := .none
  tokenStart := 0
  delim := argDelimiter

end DelimTokenizer

/-- `next_delim_token`. -/
def nextDelimToken (fresh : Nat → UInt8) (ferror : Bool) (t : DelimTokenizer)
    (bytes : List UInt8) : Except Fault (Next DelimTokenizer) :=
  DelimTokenizer.next fresh ferror ({ t with buf := bufferReset t.buf }).startToken bytes

/-- The answers of a new delimiter tokenizer. -/
def delimTokens (fresh : Nat → UInt8) (bufferSize : Nat) (argDelimiter : UInt8) (ferror : Bool)
    (n : Nat) (bytes : List UInt8) : Answers :=
  tokensFrom (nextDelimToken fresh ferror) DelimTokenizer.err n
    (DelimTokenizer.create bufferSize argDelimiter) bytes

end Phxargs.Memory
