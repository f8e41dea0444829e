import Phxargs.Lib.Heap
import Phxargs.Model.Command
import Phxargs.Model.Memory.Buffer
import Phxargs.Model.ProcessPool
import Phxargs.Model.Tokenizer

/-!
# `Phxargs.Model.OnHeap.Command`: the command with its pointers

`command_args.c` and `command.c` again, with every `malloc`, `realloc` and `free`. A structure is a
block of the heap whose fields are pointers, and only the code keeps the blocks together: a function
that frees a block too early, twice or not at all can be written here. `Phxargs.Model.Command` has
the values that the blocks stand for, and no pointers.

`realloc` always moves the block, so a pointer to the old one is invalid behind it. What `malloc`
returns is `Cell.raw` until it is written, and no function can read it before.
-/

set_option autoImplicit false

namespace Phxargs.OnHeap

open Lib

/-! ### The blocks -/

/-- `struct command_args_s`. -/
structure ArgsBlock where
  count : Nat
  capacity : Nat
  args : Ptr
  length : Nat

/-- `struct command_s`. -/
structure CommandBlock where
  maxLines : Nat
  maxArgs : Nat
  maxLength : Nat
  argPlaceholder : Option Ptr
  openTty : Bool
  prompt : Bool
  trace : Bool
  terminateOnTooLargeCommand : Bool
  lineMode : Bool
  lineCount : Nat
  envLength : Nat
  fixedArgs : Ptr
  inputArgs : Ptr
  replacedFixedArgs : Ptr

/-- `struct buffer_s`. -/
structure BufferBlock where
  buf : Ptr
  sz : Nat
  pos : Nat

/-- `space_tokenizer_ops` and `delim_tokenizer_ops`. -/
inductive TokenizerOps where
  | space
  | delim
  deriving DecidableEq

/-- `struct tokenizer_s`. -/
structure TokenizerBlock where
  ops : TokenizerOps
  buf : Ptr
  impl : Ptr
  err : TokenizerError

/-- The pointers of `struct space_tokenizer_s`. `cmd` is `on_input_boundary_ctx`. -/
structure SpaceTokenizerBlock where
  base : Option Ptr
  logicalEndOfInputMarker : Option Ptr
  cmd : Ptr

/-- The pointers of `struct delim_tokenizer_s`, and the delimiter. -/
structure DelimTokenizerBlock where
  base : Option Ptr
  delim : UInt8
  cmd : Ptr

/-- `struct process_pool_s`. -/
structure PoolBlock where
  maxProcs : Nat
  capacity : Nat
  childMax : Int
  count : Nat
  status : Nat
  halt : Bool
  pids : Ptr

/-- `appender_mode_ops` and `replacer_mode_ops`. -/
inductive ModeOps where
  | appender
  | replacer
  deriving DecidableEq

/-- `struct xargs_mode_s`. `argSource` is `none` for `stdin`, which is not allocated. -/
structure ModeBlock where
  ops : ModeOps
  argSource : Option Ptr
  cmd : Ptr
  toker : Ptr
  pool : Ptr
  impl : Ptr

/-- What a block holds. -/
inductive Cell where
  /-- What `malloc` returns. -/
  | raw
  /-- A C string. -/
  | string (s : CStr)
  /-- An array of `char*`. A slot is `none` until a pointer is written into it. -/
  | pointers (slots : List (Option Ptr))
  /-- An array of `char`. -/
  | bytes (block : List UInt8)
  /-- An array of `pid_t`. -/
  | pids (block : List Pid)
  | options (opts : Options)
  | commandArgs (args : ArgsBlock)
  | command (cmd : CommandBlock)
  | buffer (buf : BufferBlock)
  | tokenizer (toker : TokenizerBlock)
  | spaceTokenizer (toker : SpaceTokenizerBlock)
  | delimTokenizer (toker : DelimTokenizerBlock)
  | pool (pool : PoolBlock)
  | mode (mode : ModeBlock)
  /-- `struct appender_mode_s`. -/
  | appenderMode (base : Option Ptr) (suppressExecutionOnEmptyInput : Bool)
  /-- `struct replacer_mode_s`. -/
  | replacerMode (base : Option Ptr)
  /-- `struct xargs_s`. -/
  | xargs (mode : Ptr)
  /-- A `FILE` that `fopen` has opened. -/
  | file

namespace Cell

def asString : Cell → Option CStr
  | .string s => some s
  | _ => none

def asPointers : Cell → Option (List (Option Ptr))
  | .pointers slots => some slots
  | _ => none

def asBytes : Cell → Option (List UInt8)
  | .bytes block => some block
  | _ => none

def asPids : Cell → Option (List Pid)
  | .pids block => some block
  | _ => none

def asOptions : Cell → Option Options
  | .options opts => some opts
  | _ => none

def asCommandArgs : Cell → Option ArgsBlock
  | .commandArgs args => some args
  | _ => none

def asCommand : Cell → Option CommandBlock
  | .command cmd => some cmd
  | _ => none

def asBuffer : Cell → Option BufferBlock
  | .buffer buf => some buf
  | _ => none

def asTokenizer : Cell → Option TokenizerBlock
  | .tokenizer toker => some toker
  | _ => none

def asSpaceTokenizer : Cell → Option SpaceTokenizerBlock
  | .spaceTokenizer toker => some toker
  | _ => none

def asDelimTokenizer : Cell → Option DelimTokenizerBlock
  | .delimTokenizer toker => some toker
  | _ => none

def asPool : Cell → Option PoolBlock
  | .pool block => some block
  | _ => none

def asMode : Cell → Option ModeBlock
  | .mode block => some block
  | _ => none

def asXargs : Cell → Option Ptr
  | .xargs p => some p
  | _ => none

end Cell

/-- Programs on the heap of phxargs. -/
abbrev M (β : Type) := HeapM Exit Cell β

/-! ### Strings and arrays -/

/-- `phxargs_strdup`. -/
def phxargsStrdup (s : CStr) : M Ptr := malloc (.string s)

/-- `phxargs_strdup`, of a pointer that can be `NULL`. -/
def phxargsStrdupOrNull : Option CStr → M (Option Ptr)
  | none => pure none
  | some s => do return some (← phxargsStrdup s)

/-- Reads a string at a pointer that can be `NULL`. -/
def loadStringOrNull : Option Ptr → M (Option CStr)
  | none => return none
  | some p => do return some (← loadAs Cell.asString p)

/-- The pointer in a slot of an array. -/
def loadSlot (array : Ptr) (i : Nat) : M Ptr := do
  match (← loadAs Cell.asPointers array)[i]? with
  | some (some p) => return p
  | _ => throw (.invalid array)

/-- Writes a slot of an array. -/
def storeSlot (array : Ptr) (i : Nat) (p : Ptr) : M Unit := do
  let slots ← loadAs Cell.asPointers array
  if i < slots.length then
    store array (.pointers (slots.set i (some p)))
  else
    throw (.invalid array)

/-- `phxargs_realloc`, of an array of pointers. -/
def reallocPointers (array : Ptr) (size : Nat) : M Ptr := do
  let slots ← loadAs Cell.asPointers array
  free array
  malloc (.pointers (slots.take size ++ List.replicate (size - slots.length) none))

/-- `for (i = from; i < from + n; ++i)` over the pointers of an array. -/
def foldSlots {β : Type} (array : Ptr) (body : Nat → β → Ptr → M β) : Nat → Nat → β → M β
  | _, 0, acc => return acc
  | i, n + 1, acc => do
      let p ← loadSlot array i
      let acc ← body i acc p
      foldSlots array body (i + 1) n acc

/-! ### `command_args.c` -/

/-- `command_args_create_with_capacity`. -/
def commandArgsCreateWithCapacity (capacity : Nat) : M Ptr := do
  let args ← malloc .raw
  let array ← malloc (.pointers (List.replicate capacity none))
  store args (.commandArgs ⟨0, capacity, array, 0⟩)
  return args

/-- `command_args_create`. -/
def commandArgsCreate : M Ptr := commandArgsCreateWithCapacity 10

/-- `reallocate_if_needed`. -/
def reallocateIfNeeded (args : Ptr) : M Unit := do
  let a ← loadAs Cell.asCommandArgs args
  if a.count ≥ a.capacity then
    let capacity ← orExit (phxargsDoubleCapacity a.capacity)
    let array ← reallocPointers a.args capacity
    store args (.commandArgs { a with capacity := capacity, args := array })
  else
    return ()

/-- `command_args_add`. -/
def commandArgsAdd (args : Ptr) (newArg : CStr) : M Unit := do
  reallocateIfNeeded args
  let a ← loadAs Cell.asCommandArgs args
  let copy ← phxargsStrdup newArg
  storeSlot a.args a.count copy
  store args (.commandArgs
    { a with count := a.count + 1, length := a.length + (strlen newArg + 1) })

/-- `command_args_at`. -/
def commandArgsAt (args : Ptr) (i : Nat) : M Ptr := do
  loadSlot (← loadAs Cell.asCommandArgs args).args i

/-- `command_args_destroy`. -/
def commandArgsDestroy (args : Ptr) : M Unit := do
  let a ← loadAs Cell.asCommandArgs args
  foldSlots a.args (fun _ _ p => free p) 0 a.count ()
  free a.args
  free args

/-! ### `command.c` -/

/-- The list that `recycle_command` and `command_create` give `input_args`. -/
def freshInputArgs (maxArgs : Nat) : M Ptr :=
  if maxArgs > 0 then commandArgsCreateWithCapacity maxArgs else commandArgsCreate

/-- The loop of `command_create`. -/
def addFixedArguments (args : Ptr) : List CStr → M Unit
  | [] => return ()
  | arg :: argv => do
      commandArgsAdd args arg
      addFixedArguments args argv

/-- `command_length`. -/
def commandLength (cmd : Ptr) : M Nat := do
  let c ← loadAs Cell.asCommand cmd
  let fixed ← loadAs Cell.asCommandArgs c.fixedArgs
  let input ← loadAs Cell.asCommandArgs c.inputArgs
  return c.envLength + fixed.length + input.length

/-- `decide_max_length`. -/
def decideMaxLength (argMax : Int) (cmd : Ptr) (opts : Options) : M Nat := do
  let envLength := (← loadAs Cell.asCommand cmd).envLength
  let maxLength :=
    if argMax > 0 then
      let margin := 2 * envLength + 2048
      if argMax.toNat > margin then argMax.toNat - margin else 0
    else
      128 * 1024
  if !opts.maxCommandLengthSpecified then
    return phxargsMin (128 * 1024) maxLength
  else
    let minLength ← commandLength cmd
    let specified := opts.maxCommandLength
    if specified < minLength then
      throw (.exit (Exit.failure (.maxLengthTooSmall specified minLength)))
    else if specified > maxLength then
      throw (.exit (Exit.failure (.maxLengthTooLarge specified maxLength)))
    else
      return specified

/-- `command_create`. The fields that have no value yet are written behind it. -/
def commandCreate (sys : System) (opts : Options) (argIndex : Nat) (argv : List CStr) : M Ptr := do
  let cmd ← malloc .raw
  let argPlaceholder ← phxargsStrdupOrNull opts.argPlaceholder
  let fixedArgs ← commandArgsCreateWithCapacity
    (if argIndex = argv.length then 1 else argv.length - argIndex)
  addFixedArguments fixedArgs (if argIndex = argv.length then [DEFAULT_CMD] else argv.drop argIndex)
  let inputArgs ← freshInputArgs opts.maxArgsPerCommand
  let c : CommandBlock :=
    { maxLines := opts.maxLinesPerCommand
      maxArgs := opts.maxArgsPerCommand
      maxLength := 0
      argPlaceholder := argPlaceholder
      openTty := opts.openTty
      prompt := opts.prompt
      trace := opts.trace
      terminateOnTooLargeCommand := opts.terminateOnTooLargeCommand
      lineMode := opts.lineModeSpecified
      lineCount := 0
      envLength := calcEnvLength sys.environ
      fixedArgs := fixedArgs
      inputArgs := inputArgs
      replacedFixedArgs := 0 }
  store cmd (.command c)
  let maxLength ← decideMaxLength sys.argMax cmd opts
  let count := (← loadAs Cell.asCommandArgs fixedArgs).count
  let replacedFixedArgs ← commandArgsCreateWithCapacity count
  store cmd (.command { c with maxLength := maxLength, replacedFixedArgs := replacedFixedArgs })
  return cmd

/-- `recycle_command`. -/
def recycleCommand (cmd : Ptr) : M Unit := do
  let c ← loadAs Cell.asCommand cmd
  commandArgsDestroy c.inputArgs
  let replacedFixedArgs ←
    if c.argPlaceholder.isSome then do
      commandArgsDestroy c.replacedFixedArgs
      let count := (← loadAs Cell.asCommandArgs c.fixedArgs).count
      commandArgsCreateWithCapacity count
    else
      pure c.replacedFixedArgs
  let inputArgs ← freshInputArgs c.maxArgs
  store cmd (.command
    { c with lineCount := 0, replacedFixedArgs := replacedFixedArgs, inputArgs := inputArgs })

/-- A round of the loop of `command_replace_args`, on a string of `fixed_args`. The result of
`str_replace` is copied once more and freed. -/
def replaceFixedArg (c : CommandBlock) (newArg : CStr) (p : Ptr) : M Unit := do
  let arg ← loadAs Cell.asString p
  let placeholder ← loadStringOrNull c.argPlaceholder
  let result ← orExit (strReplace arg placeholder (some newArg))
  let replaced ← malloc (.string result)
  commandArgsAdd c.replacedFixedArgs (← loadAs Cell.asString replaced)
  free replaced

/-- `command_replace_args`. -/
def commandReplaceArgs (cmd : Ptr) (newArg : CStr) : M Unit := do
  let c ← loadAs Cell.asCommand cmd
  let commandWord ← loadAs Cell.asString (← commandArgsAt c.fixedArgs 0)
  commandArgsAdd c.replacedFixedArgs commandWord
  let fixed ← loadAs Cell.asCommandArgs c.fixedArgs
  foldSlots fixed.args (fun _ _ p => replaceFixedArg c newArg p) 1 (fixed.count - 1) ()

/-- `command_add_input_argument`. -/
def commandAddInputArgument (cmd : Ptr) (newArg : CStr) : M Unit := do
  commandArgsAdd (← loadAs Cell.asCommand cmd).inputArgs newArg

/-- `command_increment_line_count`. -/
def commandIncrementLineCount (cmd : Ptr) : M Unit := do
  let c ← loadAs Cell.asCommand cmd
  store cmd (.command { c with lineCount := c.lineCount + 1 })

/-- `command_destroy`. -/
def commandDestroy (cmd : Ptr) : M Unit := do
  let c ← loadAs Cell.asCommand cmd
  commandArgsDestroy c.inputArgs
  commandArgsDestroy c.fixedArgs
  commandArgsDestroy c.replacedFixedArgs
  freeOrNull c.argPlaceholder
  free cmd

/-! ### The child -/

/-- A loop of `build_exec_args`: copies the strings of a list into the slots from `offset` on. -/
def copyArgs (execArgs : Ptr) (offset : Nat) (args : ArgsBlock) : M Unit :=
  foldSlots args.args (fun i _ p => do
    let copy ← phxargsStrdup (← loadAs Cell.asString p)
    storeSlot execArgs (offset + i) copy) 0 args.count ()

/-- `build_exec_args`: the array, and `*exec_args_count`. The last slot stays `NULL`. -/
def buildExecArgs (cmd : Ptr) : M (Ptr × Nat) := do
  let c ← loadAs Cell.asCommand cmd
  let inPlay ← loadAs Cell.asCommandArgs
    (if c.argPlaceholder.isSome then c.replacedFixedArgs else c.fixedArgs)
  let input ← loadAs Cell.asCommandArgs c.inputArgs
  let execArgs ← malloc (.pointers (List.replicate (inPlay.count + input.count + 1) none))
  copyArgs execArgs 0 inPlay
  copyArgs execArgs inPlay.count input
  return (execArgs, inPlay.count + input.count)

/-- The strings of an argv. -/
def loadArgv (execArgs : Ptr) (execArgsCount : Nat) : M (List CStr) :=
  foldSlots execArgs (fun _ argv p => do return argv ++ [← loadAs Cell.asString p]) 0 execArgsCount []

/-- `memcpy` into an array of `char`. -/
def storeBytes (block : Ptr) (pos : Nat) (src : List UInt8) : M Unit := do
  let bytes ← loadAs Cell.asBytes block
  if pos + src.length ≤ bytes.length then
    store block (.bytes (bytes.take pos ++ (src ++ bytes.drop (pos + src.length))))
  else
    throw (.invalid block)

/-- The first loop of `write_trace`, from the `i`-th of `count` strings on. -/
def traceLength (count : Nat) : Nat → List CStr → Nat
  | _, [] => 0
  | i, arg :: argv =>
      strlen arg + (if i < count - 1 then 1 else 0) + traceLength count (i + 1) argv

/-- The second loop of `write_trace`. The result is `p`, as an index. -/
def copyTrace (traceBuf : Ptr) (count : Nat) : Nat → Nat → List CStr → M Nat
  | _, p, [] => return p
  | i, p, arg :: argv => do
      storeBytes traceBuf p arg
      if i < count - 1 then
        storeBytes traceBuf (p + strlen arg) [SPACE]
        copyTrace traceBuf count (i + 1) (p + strlen arg + 1) argv
      else
        copyTrace traceBuf count (i + 1) (p + strlen arg) argv

/-- `write_trace`: the bytes that it passes to `write`. `fresh` is what `malloc` leaves in
`trace_buf`. -/
def writeTrace (fresh : Nat → UInt8) (execArgs : Ptr) (execArgsCount : Nat) (withNewline : Bool) :
    M (List UInt8) := do
  let argv ← loadArgv execArgs execArgsCount
  let traceLen := traceLength execArgsCount 0 argv + if withNewline then 1 else 0
  let traceBuf ← malloc (.bytes ((List.range (traceLen + 1)).map fresh))
  let p ← copyTrace traceBuf execArgsCount 0 0 argv
  if withNewline then
    storeBytes traceBuf p [NEWLINE]
  let written := (← loadAs Cell.asBytes traceBuf).take traceLen
  free traceBuf
  return written

/-- The `FILE` of `confirm_execution`: it opens the terminal and closes it again. -/
def confirmExecution : M Unit := do
  let tty ← malloc .file
  free tty

/-- What `exec_child` does with the heap where the command is declined: the argv that it has built,
and the trace, if there is one. -/
def execChildDeclined (fresh : Nat → UInt8) (cmd : Ptr) : M (List CStr × Option (List UInt8)) := do
  let (execArgs, execArgsCount) ← buildExecArgs cmd
  let c ← loadAs Cell.asCommand cmd
  let traced ←
    if c.trace then do
      pure (some (← writeTrace fresh execArgs execArgsCount (!c.prompt)))
    else
      pure none
  confirmExecution
  let argv ← loadArgv execArgs execArgsCount
  foldSlots execArgs (fun _ _ p => free p) 0 execArgsCount ()
  free execArgs
  return (argv, traced)

end Phxargs.OnHeap
