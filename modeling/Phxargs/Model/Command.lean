import Phxargs.Model.CommandArgs
import Phxargs.Model.Options
import Phxargs.Model.Str

/-!
# `Phxargs.Model.Command`: the command under construction

`command.c`, the part that runs in the parent. `fork` is in `Phxargs.Model.XargsMode`, next to
the state that it changes, and `exec_child` in `Phxargs.Model.Exec`.

`command_create` fixes the first fields of `struct command_s` for the whole run. They form
`CommandSettings`, so that "nothing but the pending arguments changed" is one equation.
-/

set_option autoImplicit false

namespace Phxargs

/-- What the program reads from the system that it runs on: `environ`,
`sysconf(_SC_ARG_MAX)` and `sysconf(_SC_CHILD_MAX)`. -/
structure System where
  environ : List CStr
  argMax : Int
  childMax : Int
  argMax_le : argMax ≤ LONG_MAX

/-- A system with an empty environment and without limits. -/
def System.bare : System := ⟨[], 0, 0, by decide⟩

/-- The fields of `struct command_s` that no function changes after `command_create`. -/
structure CommandSettings where
  maxLines : Nat
  maxArgs : Nat
  maxLength : Nat
  argPlaceholder : Option CStr
  openTty : Bool
  prompt : Bool
  trace : Bool
  terminateOnTooLargeCommand : Bool
  lineMode : Bool
  envLength : Nat
  fixedArgs : CommandArgs

/-- `struct command_s`. -/
structure Command extends CommandSettings where
  lineCount : Nat
  inputArgs : CommandArgs
  replacedFixedArgs : CommandArgs

/-- `DEFAULT_CMD`, `/bin/echo`. -/
def DEFAULT_CMD : CStr := [47, 98, 105, 110, 47, 101, 99, 104, 111]

/-- `calc_env_length`. -/
def calcEnvLength (environ : List CStr) : Nat := totalLength environ

/-- `command_max_args_specified`. -/
def commandMaxArgsSpecified (cmd : Command) : Bool := cmd.maxArgs > 0

/-- `command_length`. -/
def commandLength (cmd : Command) : Nat :=
  cmd.envLength + commandArgsLength cmd.fixedArgs + commandArgsLength cmd.inputArgs

/-- `decide_max_length`. The margin is twice the environment and 2048 bytes. -/
def decideMaxLength (argMax : Int) (cmd : Command) (opts : Options) : Except Exit Nat :=
  let maxLength :=
    if argMax > 0 then
      let margin := 2 * cmd.envLength + 2048
      -- The source guards the subtraction, where `size_t` would wrap.
      if argMax.toNat > margin then argMax.toNat - margin else 0
    else
      128 * 1024
  if !opts.maxCommandLengthSpecified then
    .ok (phxargsMin (128 * 1024) maxLength)
  else
    -- `input_args` is still empty: this is the environment and the operands.
    let minLength := commandLength cmd
    let specified := opts.maxCommandLength
    if specified < minLength then
      .error (Exit.failure (.maxLengthTooSmall specified minLength))
    else if specified > maxLength then
      .error (Exit.failure (.maxLengthTooLarge specified maxLength))
    else
      .ok specified

/-- The list that `recycle_command` and `command_create` give `input_args`. -/
def freshInputArgs (settings : CommandSettings) : CommandArgs :=
  if settings.maxArgs > 0 then
    commandArgsCreateWithCapacity settings.maxArgs
  else
    commandArgsCreate

/-- `recycle_command`. -/
def recycleCommand (cmd : Command) : Command :=
  { cmd with
    lineCount := 0
    replacedFixedArgs :=
      if cmd.argPlaceholder.isSome then
        commandArgsCreateWithCapacity (commandArgsCount cmd.fixedArgs)
      else
        cmd.replacedFixedArgs
    inputArgs := freshInputArgs cmd.toCommandSettings }

/-- `build_exec_args`: the argv of the child. -/
def buildExecArgs (cmd : Command) : List CStr :=
  let fixedArgsInPlay :=
    if cmd.argPlaceholder.isSome then cmd.replacedFixedArgs else cmd.fixedArgs
  fixedArgsInPlay.args ++ cmd.inputArgs.args

/-- The loop of `command_create`: adds the operands in order. -/
def addFixedArguments : CommandArgs → List CStr → Except Exit CommandArgs
  | a, [] => .ok a
  | a, arg :: args =>
      match commandArgsAdd a arg with
      | .ok b => addFixedArguments b args
      | .error e => .error e

/-- `command_create`. `argIndex` is the index of the first operand in `argv`. -/
def commandCreate (sys : System) (opts : Options) (argIndex : Nat) (argv : List CStr) :
    Except Exit Command :=
  let fixed :=
    -- Without operands the command is `DEFAULT_CMD`.
    if argIndex = argv.length then
      addFixedArguments (commandArgsCreateWithCapacity 1) [DEFAULT_CMD]
    else
      addFixedArguments (commandArgsCreateWithCapacity (argv.length - argIndex))
        (argv.drop argIndex)
  match fixed with
  | .error e => .error e
  | .ok fixedArgs =>
      let settings : CommandSettings :=
        { maxLines := opts.maxLinesPerCommand
          maxArgs := opts.maxArgsPerCommand
          maxLength := 0
          argPlaceholder := opts.argPlaceholder
          openTty := opts.openTty
          prompt := opts.prompt
          trace := opts.trace
          terminateOnTooLargeCommand := opts.terminateOnTooLargeCommand
          lineMode := opts.lineModeSpecified
          envLength := calcEnvLength sys.environ
          fixedArgs := fixedArgs }
      let cmd : Command :=
        { settings with
          lineCount := 0
          inputArgs := freshInputArgs settings
          replacedFixedArgs := commandArgsCreateWithCapacity (commandArgsCount fixedArgs) }
      -- `decide_max_length` reads the other fields, so `max_length` is the last one to be set.
      match decideMaxLength sys.argMax cmd opts with
      | .error e => .error e
      | .ok maxLength => .ok { cmd with maxLength := maxLength }

/-- `command_ensure_length_not_exceeded`. -/
def commandEnsureLengthNotExceeded (cmd : Command) (newArg : CStr) : Except Exit Unit :=
  -- A command with arguments can be executed before the next one is added, so it is not checked
  -- here.
  if cmd.argPlaceholder.isSome ∨ commandArgsCount cmd.inputArgs = 0 then
    let newLength := commandLength cmd + strlen newArg + 1
    if newLength > cmd.maxLength then .error Exit.commandTooLong else .ok ()
  else
    .ok ()

/-- `command_arg_would_exceed_limits`. -/
def commandArgWouldExceedLimits (cmd : Command) (newArg : CStr) : Except Exit Bool :=
  match commandEnsureLengthNotExceeded cmd newArg with
  | .error e => .error e
  | .ok () =>
      let newLength := commandLength cmd + strlen newArg + 1
      -- With `-L` a line is never split: its length is checked after the argument is added.
      let wouldExceedSize := !cmd.lineMode && newLength > cmd.maxLength
      if commandMaxArgsSpecified cmd then
        let atMaxArgs : Bool := commandArgsCount cmd.inputArgs = cmd.maxArgs
        -- With `-n` and `-x` the size does not close the command; the check after the add exits.
        if cmd.terminateOnTooLargeCommand then
          .ok atMaxArgs
        else
          .ok (atMaxArgs || wouldExceedSize)
      else
        .ok wouldExceedSize

/-- `command_should_execute_after_arg_added`: `1` to execute, `0` not to, `-1` when the
length limit has been exceeded. -/
def commandShouldExecuteAfterArgAdded (cmd : Command) : Int :=
  if cmd.terminateOnTooLargeCommand ∧ commandLength cmd > cmd.maxLength then
    -1
  else if cmd.lineMode then
    if cmd.lineCount = cmd.maxLines then 1 else 0
  else
    0

/-- The loop of `command_replace_args`: adds each string with the placeholder replaced. -/
def addReplacedArguments (placeholder : Option CStr) (newArg : CStr) :
    CommandArgs → List CStr → Except Exit CommandArgs
  | a, [] => .ok a
  | a, arg :: args =>
      match strReplace arg placeholder (some newArg) with
      | .error e => .error e
      | .ok replaced =>
          match commandArgsAdd a replaced with
          | .ok b => addReplacedArguments placeholder newArg b args
          | .error e => .error e

/-- `command_replace_args`. The command word is copied as it is. -/
def commandReplaceArgs (cmd : Command) (newArg : CStr) : Except Exit Command :=
  match cmd.fixedArgs.args with
  | [] => .ok cmd
  | commandWord :: args =>
      match commandArgsAdd cmd.replacedFixedArgs commandWord with
      | .error e => .error e
      | .ok a =>
          match addReplacedArguments cmd.argPlaceholder newArg a args with
          | .error e => .error e
          | .ok b => .ok { cmd with replacedFixedArgs := b }

/-- `command_add_input_argument`. -/
def commandAddInputArgument (cmd : Command) (newArg : CStr) : Except Exit Command :=
  match commandArgsAdd cmd.inputArgs newArg with
  | .error e => .error e
  | .ok b => .ok { cmd with inputArgs := b }

/-- `command_input_args_remain`. -/
def commandInputArgsRemain (cmd : Command) : Bool := commandArgsCount cmd.inputArgs > 0

/-- `command_increment_line_count`, called once for each of `n` boundaries. -/
def commandIncrementLineCount (cmd : Command) (n : Nat) : Command :=
  { cmd with lineCount := cmd.lineCount + n }

end Phxargs
