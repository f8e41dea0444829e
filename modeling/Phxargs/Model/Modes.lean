import Phxargs.Model.XargsMode

/-!
# `Phxargs.Model.Modes`: the two modes

`appender_mode.c` and `replacer_mode.c`, and the choice between them in `xargs.c`.

The `for` loops run over `forEach`. One more round than there are tokens is enough, because
each call of `xargsModeNextToken` takes one.
-/

set_option autoImplicit false

namespace Phxargs

open Lib

/-- The state in which a mode starts its loop: as many rounds as answers of the tokenizer. -/
def XargsMode.rounds (mode : XargsMode) : Nat := mode.toker.tokens.length + 1

/-! ### `appender_mode.c` -/

/-- The second half of an iteration: adds the token and executes a completed command. The
result says whether to leave the loop. -/
def appenderModeAdd (w : World) (token : CStr) : EStateM Exit XargsMode Bool := do
  xargsModeAddInputArgument token
  if ← xargsModeShouldExecuteCommandAfterArgAdded w then
    xargsModeExecuteCommand w
    xargsModeHalted
  else
    return false

/-- An iteration of `appender_mode_run`. -/
def appenderModeIteration (w : World) (token : CStr) : EStateM Exit XargsMode Bool := do
  if ← xargsModeArgWouldExceedLimits token then
    xargsModeExecuteCommand w
    -- A `break`: the token that has been read is not added.
    if ← xargsModeHalted then
      return true
    else
      appenderModeAdd w token
  else
    appenderModeAdd w token

/-- The loop of `appender_mode_run`. The result is `input_present`. -/
def appenderModeLoop (w : World) : EStateM Exit XargsMode Bool := do
  forEach xargsModeNextToken (appenderModeIteration w) (← get).rounds false

/-- The end of `appender_mode_run`, after a clean end of the input or a halt. -/
def appenderModeFinish (w : World) (suppressExecutionOnEmptyInput inputPresent : Bool) :
    EStateM Exit XargsMode Nat := do
  if !inputPresent then
    -- Without input the command runs once on the operands alone, unless `-r` is given.
    if !suppressExecutionOnEmptyInput then
      xargsModeExecuteCommand w
    else
      pure ()
  else
    if ← xargsModeInputArgsRemain then
      xargsModeExecuteCommand w
    else
      pure ()
  return EXIT_SUCCESS ||| (← xargsModeDrain w)

/-- `appender_mode_run`. -/
def appenderModeRun (w : World) (suppressExecutionOnEmptyInput : Bool) :
    EStateM Exit XargsMode Nat := do
  let inputPresent ← appenderModeLoop w
  -- An error of the tokenizer drops the pending arguments.
  if ← xargsModeTokenizerErrored then
    xargsModeTokenizerFailure w
  else
    appenderModeFinish w suppressExecutionOnEmptyInput inputPresent

/-! ### `replacer_mode.c` -/

/-- An iteration of `replacer_mode_run`. -/
def replacerModeIteration (w : World) (token : CStr) : EStateM Exit XargsMode Bool := do
  xargsModeEnsureCommandLengthNotExceeded token
  xargsReplaceArgs token
  xargsModeExecuteCommand w
  xargsModeHalted

/-- The loop of `replacer_mode_run`. -/
def replacerModeLoop (w : World) : EStateM Exit XargsMode Bool := do
  forEach xargsModeNextToken (replacerModeIteration w) (← get).rounds false

/-- `replacer_mode_run`. -/
def replacerModeRun (w : World) : EStateM Exit XargsMode Nat := do
  let _ ← replacerModeLoop w
  if ← xargsModeTokenizerErrored then
    xargsModeTokenizerFailure w
  else
    return EXIT_SUCCESS ||| (← xargsModeDrain w)

/-! ### `xargs.c` -/

/-- `xargs_create`: the options, and the mode in the state in which it starts. -/
def xargsCreate (sys : System) (scanned : List Getopt) (optind : Nat) (argv : List CStr)
    (toker : TokenStream) : Except Exit (Options × XargsMode) := do
  let opts ← optionsCreate sys.childMax scanned optind
  let mode ← xargsModeCreate sys opts opts.optindVal argv toker
  return (opts, mode)

/-- `xargs_run`, in the mode that `xargs_create` chooses. -/
def xargsRun (w : World) (opts : Options) : EStateM Exit XargsMode Nat :=
  if opts.argPlaceholder.isNone then
    appenderModeRun w opts.suppressExecutionOnEmptyInput
  else
    replacerModeRun w

end Phxargs
