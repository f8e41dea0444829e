import Phxargs.Model.DelimTokenizer
import Phxargs.Model.Modes
import Phxargs.Model.SpaceTokenizer

/-!
# `Phxargs.Model.TokenSource`: which tokenizer reads the input

`xargs_mode_create` chooses the tokenizer. The modes only see its answers, so a run over an input
is the run over the stream of the answers of the chosen tokenizer.
-/

set_option autoImplicit false

namespace Phxargs

/-- The delimiter tokenizer reads the input: `-0` or `-d` is in force, or `-I` has made newline
the delimiter. -/
def Options.delimited (o : Options) : Bool := o.useNulCharAsArgDelimiter || o.argDelimiter ≠ 0

/-- The answers of the tokenizer of `xargs_mode_create`. The initial size of its buffer is the
`max_length` of the command. -/
def xargsModeTokens (fresh : Nat → UInt8) (maxLength : Nat) (opts : Options)
    (bytes : List UInt8) (ferror : Bool) : TokenStream :=
  if opts.delimited then
    delimTokensFrom fresh ferror (bytes.length + 1)
      (DelimTokenizer.create maxLength opts.argDelimiter) bytes
  else
    -- Only this tokenizer is given the marker.
    spaceTokenStream opts.logicalEndOfInputMarker bytes ferror

/-- `xargs_create`, over the bytes of the input. -/
def xargsCreateOver (sys : System) (fresh : Nat → UInt8) (scanned : List Getopt) (optind : Nat)
    (argv : List CStr) (bytes : List UInt8) (ferror : Bool) : Except Exit (Options × XargsMode) := do
  let opts ← optionsCreate sys.childMax scanned optind
  let cmd ← commandCreate sys opts opts.optindVal argv
  let mode ← xargsModeCreate sys opts opts.optindVal argv
    (xargsModeTokens fresh cmd.maxLength opts bytes ferror)
  return (opts, mode)

end Phxargs
