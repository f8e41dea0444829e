import Phxargs.Model.Util

/-!
# `Phxargs.Model.Tokenizer`: the tokenizer interface

`tokenizer.h`. The modes see a tokenizer only through the answers of
`tokenizer_next_token` and through the calls of `on_input_boundary` that it makes on the
way. A `TokenStream` is a finite sequence of these answers.
-/

set_option autoImplicit false

namespace Phxargs

/-- `tokenizer_error`. -/
inductive TokenizerError where
  | none
  | io
  | backslashAtEof
  | unterminatedQuote
  deriving DecidableEq, Repr

/-- What the tokenizers print when they set the error. -/
def TokenizerError.text : TokenizerError → String
  | .none => ""
  | .io => "phxargs: I/O error"
  | .backslashAtEof => "phxargs: backslash at EOF"
  | .unterminatedQuote => "phxargs: unterminated quote"

/-- A call of `next_token` that returned a token. `boundaries` counts the calls of
`on_input_boundary` that it made, at most one. -/
structure Token where
  arg : CStr
  boundaries : Nat
  boundaries_le : boundaries ≤ 1
  deriving DecidableEq

/-- The answers of a tokenizer: the tokens, and then the call that returned `NULL`, with its
calls of `on_input_boundary` and the error that it left. -/
structure TokenStream where
  tokens : List Token
  endBoundaries : Nat
  endError : TokenizerError
  deriving DecidableEq

/-- The strings of the stream. -/
def TokenStream.args (stream : TokenStream) : List CStr := stream.tokens.map Token.arg

/-- The stream ends at the end of the input, not in an error. -/
def TokenStream.Clean (stream : TokenStream) : Prop := stream.endError = .none

instance (stream : TokenStream) : Decidable stream.Clean :=
  inferInstanceAs (Decidable (stream.endError = .none))

/-- The stream of an input with one of these words on each line. -/
def TokenStream.ofLines (words : List CStr) : TokenStream where
  tokens := words.map fun word => ⟨word, 1, Nat.le_refl 1⟩
  endBoundaries := 0
  endError := .none

end Phxargs
