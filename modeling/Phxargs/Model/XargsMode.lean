import Phxargs.Model.ProcessPool
import Phxargs.Model.Tokenizer

/-!
# `Phxargs.Model.XargsMode`: what both modes are made of

`xargs_mode.c`, and `command_execute_async` of `command.c`. `XargsMode` owns the command,
the rest of the token stream with the error of the tokenizer, and the process pool.
-/

set_option autoImplicit false

namespace Phxargs

open Lib

/-- `struct xargs_mode_s`. `toker` are the answers that the tokenizer still has to give, and
`tokerError` is `tokenizer_get_error`. -/
structure XargsMode where
  cmd : Command
  toker : TokenStream
  tokerError : TokenizerError
  procs : Procs

/-- A pool function, called on the pool of the mode. -/
def onProcs {α : Type} (m : EStateM Exit Procs α) : EStateM Exit XargsMode α :=
  focus XargsMode.procs (fun procs mode => { mode with procs := procs }) m

/-- `xargs_mode_create`. The tokenizer enters as the stream of its answers. -/
def xargsModeCreate (sys : System) (opts : Options) (argIndex : Nat) (argv : List CStr)
    (toker : TokenStream) : Except Exit XargsMode :=
  match commandCreate sys opts argIndex argv with
  | .error e => .error e
  | .ok cmd => .ok
      { cmd := cmd
        toker := toker
        tokerError := .none
        procs :=
          { pool := processPoolCreate sys.childMax opts.maxProcs
            signals := ⟨0, 0, 0, 0⟩
            os := Os.init
            warnings := [] } }

/-- `xargs_mode_next_token`. Each `on_input_boundary` of the call is one
`command_increment_line_count`. -/
def xargsModeNextToken : EStateM Exit XargsMode (Option CStr) := do
  let mode ← get
  match mode.toker.tokens with
  | [] =>
      set { mode with
        -- A last `NULL` can come with a boundary, where the marker ends a line.
        cmd := commandIncrementLineCount mode.cmd mode.toker.endBoundaries
        tokerError := mode.toker.endError }
      return none
  | token :: tokens =>
      set { mode with
        cmd := commandIncrementLineCount mode.cmd token.boundaries
        toker := { mode.toker with tokens := tokens } }
      return some token.arg

/-- `xargs_mode_tokenizer_errored`. -/
def xargsModeTokenizerErrored : EStateM Exit XargsMode Bool := do
  return (← get).tokerError ≠ .none

/-- `xargs_mode_arg_would_exceed_limits`. -/
def xargsModeArgWouldExceedLimits (newArg : CStr) : EStateM Exit XargsMode Bool := do
  ofExcept (commandArgWouldExceedLimits (← get).cmd newArg)

/-- `xargs_mode_should_execute_command_after_arg_added`. -/
def xargsModeShouldExecuteCommandAfterArgAdded (w : World) : EStateM Exit XargsMode Bool := do
  let result := commandShouldExecuteAfterArgAdded (← get).cmd
  if result < 0 then
    -- The drained status is dropped: the exit is that of the size check.
    let _ ← onProcs (processPoolDrain w)
    throw Exit.commandTooLong
  else
    return result > 0

/-- `command_execute_async`, in the parent. -/
def commandExecuteAsync (w : World) : EStateM Exit XargsMode Pid := do
  let mode ← get
  match mode.procs.os.fork w mode.cmd with
  | none => throw (Exit.failure .forkFailed)
  | some (pid, os) =>
      set { mode with
        -- Only a successful fork recycles the command.
        cmd := recycleCommand mode.cmd
        procs := { mode.procs with os := os } }
      return pid

/-- `xargs_mode_execute_command`. -/
def xargsModeExecuteCommand (w : World) : EStateM Exit XargsMode Unit := do
  onProcs (processPoolWaitIfFull w)
  -- The wait can have reaped the child that halts. The command keeps its arguments then.
  if processPoolHalted (← get).procs.pool then
    pure ()
  else
    let pid ← commandExecuteAsync w
    onProcs (processPoolSubmit pid)

/-- `xargs_mode_halted`. -/
def xargsModeHalted : EStateM Exit XargsMode Bool := do
  return processPoolHalted (← get).procs.pool

/-- `xargs_mode_drain`. -/
def xargsModeDrain (w : World) : EStateM Exit XargsMode Nat :=
  onProcs (processPoolDrain w)

/-- `xargs_mode_add_input_argument`. -/
def xargsModeAddInputArgument (newArg : CStr) : EStateM Exit XargsMode Unit := do
  let mode ← get
  let cmd ← ofExcept (commandAddInputArgument mode.cmd newArg)
  set { mode with cmd := cmd }

/-- `xargs_mode_input_args_remain`. -/
def xargsModeInputArgsRemain : EStateM Exit XargsMode Bool := do
  return commandInputArgsRemain (← get).cmd

/-- `xargs_mode_ensure_command_length_not_exceeded`. -/
def xargsModeEnsureCommandLengthNotExceeded (newArg : CStr) : EStateM Exit XargsMode Unit := do
  ofExcept (commandEnsureLengthNotExceeded (← get).cmd newArg)

/-- `xargs_replace_args`. -/
def xargsReplaceArgs (newArg : CStr) : EStateM Exit XargsMode Unit := do
  let mode ← get
  let cmd ← ofExcept (commandReplaceArgs mode.cmd newArg)
  set { mode with cmd := cmd }

/-- The end of both modes when the tokenizer stopped in an error: the pool is drained, and
the error, which the tokenizer has reported, fails the run. -/
def xargsModeTokenizerFailure (w : World) : EStateM Exit XargsMode Nat := do
  let _ ← xargsModeDrain w
  throw (Exit.failure .alreadyReported)

end Phxargs
