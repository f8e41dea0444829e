import Phxargs.Model.OnHeap.Command
import Phxargs.Model.Parts

/-!
# `Phxargs.Model.OnHeap.Main`: all objects of the program

`xargs_create` and `xargs_destroy` with everything that they allocate and free: the options, the
mode, the command, the tokenizer with its buffer, the pool, and the `FILE` of `-a`. Between the two,
a run changes these objects by the calls of `Call`.

Three pointers do not own what they point to. The tokenizer has one to the command, for
`on_input_boundary`; the mode has one to its `impl`, and the `impl` one back to the mode.
-/

set_option autoImplicit false

namespace Phxargs.OnHeap

open Lib

/-! ### `buffer.c` and `tokenizer.c` -/

/-- `phxargs_realloc`, of an array of `char`. -/
def reallocBytes (fresh : Nat → UInt8) (block : Ptr) (size : Nat) : M Ptr := do
  let bytes ← loadAs Cell.asBytes block
  free block
  malloc (.bytes (Memory.phxargsRealloc fresh bytes size))

/-- `buffer_create`. -/
def bufferCreate (sz : Nat) : M Ptr := do
  let buf ← malloc .raw
  let block ← malloc (.bytes (Memory.phxargsCalloc (Memory.sizeSucc sz)))
  store buf (.buffer ⟨block, sz, 0⟩)
  return buf

/-- The start of `buffer_put`. -/
def bufferMakeRoom (fresh : Nat → UInt8) (buf : Ptr) : M Unit := do
  let b ← loadAs Cell.asBuffer buf
  if b.pos = b.sz then
    let sz ← orExit (phxargsDoubleCapacity b.sz)
    let block ← reallocBytes fresh b.buf (Memory.sizeSucc sz)
    store buf (.buffer { b with buf := block, sz := sz })
  else
    return ()

/-- `buffer_put`. -/
def bufferPut (fresh : Nat → UInt8) (buf : Ptr) (ch : UInt8) : M Unit := do
  bufferMakeRoom fresh buf
  let b ← loadAs Cell.asBuffer buf
  storeBytes b.buf b.pos [ch]
  store buf (.buffer { b with pos := b.pos + 1 })

/-- `buffer_drop_last`. -/
def bufferDropLast (buf : Ptr) : M Unit := do
  let b ← loadAs Cell.asBuffer buf
  if b.pos > 0 then
    store buf (.buffer { b with pos := b.pos - 1 })
  else
    return ()

/-- `buffer_reset`. -/
def bufferReset (buf : Ptr) : M Unit := do
  let b ← loadAs Cell.asBuffer buf
  store buf (.buffer { b with pos := 0 })

/-- `buffer_destroy`. -/
def bufferDestroy (buf : Ptr) : M Unit := do
  let b ← loadAs Cell.asBuffer buf
  free b.buf
  free buf

/-- `tokenizer_create`. -/
def tokenizerCreate (ops : TokenizerOps) (bufferSize : Nat) (impl : Ptr) : M Ptr := do
  let t ← malloc .raw
  let buf ← bufferCreate bufferSize
  store t (.tokenizer ⟨ops, buf, impl, .none⟩)
  return t

/-- `space_tokenizer_create`, with `space_tokenizer_as_tokenizer`. -/
def spaceTokenizerCreate (bufferSize : Nat) (logicalEndOfInputMarker : Option CStr) (cmd : Ptr) :
    M Ptr := do
  let t ← malloc .raw
  let marker ← phxargsStrdupOrNull logicalEndOfInputMarker
  store t (.spaceTokenizer ⟨none, marker, cmd⟩)
  let base ← tokenizerCreate .space bufferSize t
  store t (.spaceTokenizer ⟨some base, marker, cmd⟩)
  -- `space_tokenizer_no_token`.
  bufferReset (← loadAs Cell.asTokenizer base).buf
  return base

/-- `delim_tokenizer_create`, with `delim_tokenizer_as_tokenizer`. -/
def delimTokenizerCreate (bufferSize : Nat) (argDelimiter : UInt8) (cmd : Ptr) : M Ptr := do
  let t ← malloc .raw
  store t (.delimTokenizer ⟨none, argDelimiter, cmd⟩)
  let base ← tokenizerCreate .delim bufferSize t
  store t (.delimTokenizer ⟨some base, argDelimiter, cmd⟩)
  return base

/-- `space_tokenizer_destroy_impl` and `delim_tokenizer_destroy_impl`. -/
def tokenizerDestroyImpl (ops : TokenizerOps) (impl : Ptr) : M Unit :=
  match ops with
  | .space => do
      let t ← loadAs Cell.asSpaceTokenizer impl
      freeOrNull t.logicalEndOfInputMarker
      free impl
  | .delim => free impl

/-- `tokenizer_destroy`. -/
def tokenizerDestroy (toker : Ptr) : M Unit := do
  let t ← loadAs Cell.asTokenizer toker
  tokenizerDestroyImpl t.ops t.impl
  bufferDestroy t.buf
  free toker

/-! ### `process_pool.c` -/

/-- The pool that a block and its table stand for. -/
def PoolBlock.value (p : PoolBlock) (pids : List Pid) : ProcessPool where
  maxProcs := p.maxProcs
  capacity := p.capacity
  childMax := p.childMax
  count := p.count
  status := p.status
  halt := p.halt
  pids := pids

/-- `phxargs_realloc`, of the table. The value has zeros in the new slots. -/
def reallocPids (table : Ptr) (size : Nat) : M Ptr := do
  let pids ← loadAs Cell.asPids table
  free table
  malloc (.pids (pids ++ List.replicate (size - pids.length) 0))

/-- Reads a slot of the table. -/
def loadPid (table : Ptr) (i : Nat) : M Pid := do
  match (← loadAs Cell.asPids table)[i]? with
  | some pid => return pid
  | none => throw (.invalid table)

/-- Writes a slot of the table. -/
def storePid (table : Ptr) (i : Nat) (pid : Pid) : M Unit := do
  let pids ← loadAs Cell.asPids table
  if i < pids.length then
    store table (.pids (pids.set i pid))
  else
    throw (.invalid table)

/-- `process_pool_create`. -/
def processPoolCreate (childMax : Int) (maxProcs : Nat) : M Ptr := do
  let pool ← malloc .raw
  let capacity := if maxProcs = 0 then 16 else maxProcs
  let table ← malloc (.pids (List.replicate capacity 0))
  store pool (.pool ⟨maxProcs, capacity, childMax, 0, 0, false, table⟩)
  return pool

/-- A new capacity, with a table of this size. -/
def growPool (pool : Ptr) (capacity : Nat) : M Unit := do
  let p ← loadAs Cell.asPool pool
  let table ← reallocPids p.pids capacity
  store pool (.pool { p with capacity := capacity, pids := table })

/-- `process_pool_submit`. -/
def processPoolSubmit (pool : Ptr) (pid : Pid) : M Unit := do
  let p ← loadAs Cell.asPool pool
  if p.count = p.capacity then
    growPool pool (← orExit (phxargsDoubleCapacity p.capacity))
  else
    pure ()
  let p ← loadAs Cell.asPool pool
  storePid p.pids p.count pid
  store pool (.pool { p with count := p.count + 1 })

/-- The end of `apply_signal_adjustments`, for these differences of the counters. -/
def applyAdjustment (pool : Ptr) (u1 u2 : Int) : M Unit := do
  let p ← loadAs Cell.asPool pool
  if p.maxProcs = 0 then
    return ()
  else
    let newMax := (adjustedMaxProcs (p.value []) u1 u2).toNat
    if newMax > p.capacity then
      growPool pool newMax
    else
      pure ()
    let p ← loadAs Cell.asPool pool
    store pool (.pool { p with maxProcs := newMax })

/-- `n - 1` as a `size_t`. -/
def sizePred (n : Nat) : Nat := if n = 0 then SIZE_MAX else n - 1

/-- `reap_one`, behind the `waitpid` that has returned this child. -/
def reapChild (ndebug : Bool) (pool : Ptr) (child : Child) : M Unit := do
  let p ← loadAs Cell.asPool pool
  let pids ← loadAs Cell.asPids p.pids
  let slot := (p.value pids).slotOf child.pid
  if slot < p.count then
    storePid p.pids slot (← loadPid p.pids (sizePred p.count))
  else if ndebug then
    pure ()
  else
    throw (.exit ⟨ABORT_STATUS, .assertionFailed⟩)
  let reaped := (p.value pids).countReaped child.status
  store pool (.pool
    { p with count := sizePred p.count, status := reaped.status, halt := reaped.halt })

/-- `process_pool_destroy`. -/
def processPoolDestroy (pool : Ptr) : M Unit := do
  let p ← loadAs Cell.asPool pool
  free p.pids
  free pool

/-! ### `xargs_mode.c`, the modes and `xargs.c` -/

/-- `options_create`. -/
def optionsCreate (childMax : Int) (argv : List CStr) : M Ptr := do
  let opts ← malloc .raw
  let o ← orExit (optionsCreateFrom childMax argv)
  store opts (.options o)
  return opts

/-- `arg_source_open`. A failed `fopen` has been reported with its own text. -/
def argSourceOpen (m : Machine) : Option CStr → M (Option Ptr)
  | none => return none
  | some path =>
      match m.fopen path with
      | .ok _ => do return some (← malloc .file)
      | .error _ => throw (.exit (Exit.failure .alreadyReported))

/-- The tokenizer of `xargs_mode_create`. -/
def createTokenizer (opts : Options) (cmd : Ptr) : M Ptr := do
  let maxLength := (← loadAs Cell.asCommand cmd).maxLength
  if opts.delimited then
    delimTokenizerCreate maxLength opts.argDelimiter cmd
  else
    spaceTokenizerCreate maxLength opts.logicalEndOfInputMarker cmd

/-- `command_create`, with the calls of `calloc` that can fail. Those for the pool and the tokenizer
come before their first blocks, and not behind them: they exit, and nothing is freed either way. -/
def commandCreateFrom (m : Machine) (opts : Options) (argv : List CStr) : M Ptr := do
  orExit (m.phxargsCalloc opts.inputArgSlots SIZEOF_POINTER)
  let cmd ← commandCreate m.sys opts opts.optindVal argv
  let c ← loadAs Cell.asCommand cmd
  let pool := Phxargs.processPoolCreate m.sys.childMax opts.maxProcs
  orExit (m.phxargsCalloc pool.capacity SIZEOF_PID)
  orExit (m.phxargsCalloc (c.maxLength + 1) 1)
  return cmd

/-- `xargs_mode_create`. -/
def xargsModeCreate (m : Machine) (ops : ModeOps) (opts : Options) (argv : List CStr) (impl : Ptr) :
    M Ptr := do
  let mode ← malloc .raw
  let argSource ← argSourceOpen m opts.argFilePath
  let cmd ← commandCreateFrom m opts argv
  let pool ← processPoolCreate m.sys.childMax opts.maxProcs
  let toker ← createTokenizer opts cmd
  store mode (.mode ⟨ops, argSource, cmd, toker, pool, impl⟩)
  return mode

/-- `appender_mode_create`, with `appender_mode_as_xargs_mode`. -/
def appenderModeCreate (m : Machine) (opts : Options) (argv : List CStr) : M Ptr := do
  let mode ← malloc .raw
  store mode (.appenderMode none opts.suppressExecutionOnEmptyInput)
  let base ← xargsModeCreate m .appender opts argv mode
  store mode (.appenderMode (some base) opts.suppressExecutionOnEmptyInput)
  return base

/-- `replacer_mode_create`, with `replacer_mode_as_xargs_mode`. -/
def replacerModeCreate (m : Machine) (opts : Options) (argv : List CStr) : M Ptr := do
  let mode ← malloc .raw
  store mode (.replacerMode none)
  let base ← xargsModeCreate m .replacer opts argv mode
  store mode (.replacerMode (some base))
  return base

/-- `xargs_create`. The options are destroyed at its end. -/
def xargsCreate (m : Machine) (argv : List CStr) : M Ptr := do
  let opts ← optionsCreate m.sys.childMax argv
  let o ← loadAs Cell.asOptions opts
  let x ← malloc .raw
  let mode ←
    if o.argPlaceholder.isNone then appenderModeCreate m o argv else replacerModeCreate m o argv
  store x (.xargs mode)
  free opts
  return x

/-- `xargs_mode_destroy`. Both `destroy_impl` free the structure of the mode. -/
def xargsModeDestroy (mode : Ptr) : M Unit := do
  let s ← loadAs Cell.asMode mode
  free s.impl
  commandDestroy s.cmd
  tokenizerDestroy s.toker
  processPoolDestroy s.pool
  -- `arg_source_close`.
  freeOrNull s.argSource
  free mode

/-- `xargs_destroy`. -/
def xargsDestroy (x : Ptr) : M Unit := do
  xargsModeDestroy (← loadAs Cell.asXargs x)
  free x

/-! ### The calls of a run -/

/-- The command that `on_input_boundary` is called with. -/
def boundaryCtx (t : TokenizerBlock) : M Ptr :=
  match t.ops with
  | .space => do return (← loadAs Cell.asSpaceTokenizer t.impl).cmd
  | .delim => do return (← loadAs Cell.asDelimTokenizer t.impl).cmd

/-- A call on the objects of a mode. -/
def runCall (fresh : Nat → UInt8) (s : ModeBlock) : Call → M Unit
  | .tokenizerAdd ch => do bufferPut fresh (← loadAs Cell.asTokenizer s.toker).buf ch
  | .tokenizerDropLast => do bufferDropLast (← loadAs Cell.asTokenizer s.toker).buf
  | .tokenizerReset => do bufferReset (← loadAs Cell.asTokenizer s.toker).buf
  | .inputBoundary => do
      commandIncrementLineCount (← boundaryCtx (← loadAs Cell.asTokenizer s.toker))
  | .addInputArgument newArg => commandAddInputArgument s.cmd newArg
  | .replaceArgs newArg => commandReplaceArgs s.cmd newArg
  | .recycle => recycleCommand s.cmd
  | .submit pid => processPoolSubmit s.pool pid
  | .adjust u1 u2 => applyAdjustment s.pool u1 u2
  | .reap ndebug child => reapChild ndebug s.pool child

/-- The calls of a run, one after the other. -/
def runCalls (fresh : Nat → UInt8) (x : Ptr) : List Call → M Unit
  | [] => return ()
  | call :: calls => do
      let s ← loadAs Cell.asMode (← loadAs Cell.asXargs x)
      runCall fresh s call
      runCalls fresh x calls

/-- `main`, for a run that makes these calls. -/
def mainWith (m : Machine) (argv : List CStr) (calls : List Call) : M Unit := do
  let x ← xargsCreate m argv
  runCalls m.fresh x calls
  xargsDestroy x

/-- The child of a run that has made these calls, up to its exit where it is declined. -/
def childWith (m : Machine) (argv : List CStr) (calls : List Call) :
    M (Ptr × List CStr × Option (List UInt8)) := do
  let x ← xargsCreate m argv
  runCalls m.fresh x calls
  let s ← loadAs Cell.asMode (← loadAs Cell.asXargs x)
  let child ← execChildDeclined m.fresh s.cmd
  return (x, child)

end Phxargs.OnHeap
