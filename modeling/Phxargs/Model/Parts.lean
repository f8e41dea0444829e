import Phxargs.Model.Buffer
import Phxargs.Model.Main

/-!
# `Phxargs.Model.Parts`: what a run does to its objects

The command, the token buffer and the pool of a run, and the calls that change them, as the files
export them: `tokenizer.h`, `command.h` and `process_pool.h`. A run makes these calls in some order,
and the modes decide in which. Here only the objects matter, so a run is any list of calls. One
thing is left to the callers: `reap_one` is called only where a slot is in use (`Parts.Allows`).

`buffer_put` and `process_pool_submit` have the guard of the doubling here.
-/

set_option autoImplicit false

namespace Phxargs

/-! ### The calls on one object -/

/-- `buffer_put`, with the guard that `Phxargs.bufferPut` leaves out. -/
def Buffer.put (fresh : Nat → UInt8) (b : Buffer) (ch : UInt8) : Except Exit Buffer :=
  if b.pos = b.sz then
    match phxargsDoubleCapacity b.sz with
    | .error e => .error e
    | .ok _ => .ok (bufferPut fresh b ch)
  else
    .ok (bufferPut fresh b ch)

/-- A table of this many slots. -/
def ProcessPool.grow (pool : ProcessPool) (capacity : Nat) : ProcessPool :=
  { pool with
    pids := pool.pids ++ List.replicate (capacity - pool.capacity) 0
    capacity := capacity }

/-- The start of `process_pool_submit`. -/
def ProcessPool.makeRoom (pool : ProcessPool) : Except Exit ProcessPool :=
  if pool.count = pool.capacity then
    match phxargsDoubleCapacity pool.capacity with
    | .error e => .error e
    | .ok capacity => .ok (pool.grow capacity)
  else
    .ok pool

/-- `process_pool_submit`, as a function of the pool. -/
def ProcessPool.submit (pool : ProcessPool) (pid : Pid) : Except Exit ProcessPool :=
  match pool.makeRoom with
  | .error e => .error e
  | .ok room => .ok { room with pids := room.pids.set room.count pid, count := room.count + 1 }

/-- What `reap_one` does to the pool, behind the `waitpid` that has returned this child. The build flag
`NDEBUG` removes the assertion. -/
def ProcessPool.reap (ndebug : Bool) (pool : ProcessPool) (child : Child) :
    Except Exit ProcessPool :=
  if ¬ pool.slotOf child.pid < pool.count ∧ ¬ ndebug then
    .error ⟨ABORT_STATUS, .assertionFailed⟩
  else
    .ok ((pool.replaceWithLast child.pid).countReaped child.status)

/-! ### All objects -/

/-- The objects of a run that change. -/
structure Parts where
  cmd : Command
  buf : Buffer
  pool : ProcessPool

/-- What a run does to its objects. -/
inductive Call where
  /-- `tokenizer_add`. -/
  | tokenizerAdd (ch : UInt8)
  /-- `tokenizer_drop_last`. -/
  | tokenizerDropLast
  /-- `tokenizer_reset`. -/
  | tokenizerReset
  /-- `on_input_boundary`. -/
  | inputBoundary
  /-- `command_add_input_argument`. -/
  | addInputArgument (newArg : CStr)
  /-- `command_replace_args`. -/
  | replaceArgs (newArg : CStr)
  /-- `command_execute_async`, in the parent. -/
  | recycle
  /-- `process_pool_submit`. -/
  | submit (pid : Pid)
  /-- The end of `apply_signal_adjustments`. -/
  | adjust (u1 u2 : Int)
  /-- `reap_one`, in a build with this flag. -/
  | reap (ndebug : Bool) (child : Child)

namespace Parts

/-- A call of the tokenizer. -/
def onBuffer (s : Parts) (r : Except Exit Buffer) : Except Exit Parts :=
  r.map fun b => { s with buf := b }

/-- A call on the command. -/
def onCommand (s : Parts) (r : Except Exit Command) : Except Exit Parts :=
  r.map fun cmd => { s with cmd := cmd }

/-- A call on the pool. -/
def onPool (s : Parts) (r : Except Exit ProcessPool) : Except Exit Parts :=
  r.map fun pool => { s with pool := pool }

/-- One call. -/
def call (fresh : Nat → UInt8) (s : Parts) : Call → Except Exit Parts
  | .tokenizerAdd ch => s.onBuffer (s.buf.put fresh ch)
  | .tokenizerDropLast => s.onBuffer (.ok (bufferDropLast s.buf))
  | .tokenizerReset => s.onBuffer (.ok (bufferReset s.buf))
  | .inputBoundary => s.onCommand (.ok (commandIncrementLineCount s.cmd 1))
  | .addInputArgument newArg => s.onCommand (commandAddInputArgument s.cmd newArg)
  | .replaceArgs newArg => s.onCommand (commandReplaceArgs s.cmd newArg)
  | .recycle => s.onCommand (.ok (recycleCommand s.cmd))
  | .submit pid => s.onPool (s.pool.submit pid)
  | .adjust u1 u2 => s.onPool (.ok (s.pool.adjust u1 u2))
  | .reap ndebug child => s.onPool (s.pool.reap ndebug child)

/-- The calls of a run, one after the other. -/
def run (fresh : Nat → UInt8) (s : Parts) (calls : List Call) : Except Exit Parts :=
  calls.foldlM (call fresh) s

/-- The call can be made here: a reap needs a slot in use. -/
def Enabled (s : Parts) : Call → Prop
  | .reap _ _ => 0 < s.pool.count
  | _ => True

/-- Every call of a run is made where it can be. -/
def Allows (fresh : Nat → UInt8) : Parts → List Call → Prop
  | _, [] => True
  | s, call :: calls => s.Enabled call ∧
      match s.call fresh call with
      | .error _ => True
      | .ok t => t.Allows fresh calls

/-- `xargs_mode_create`. A failed `fopen` has been reported with its own text. -/
def createMode (m : Machine) (opts : Options) (argv : List CStr) : Except Exit Parts :=
  match argSourceOpen m opts.argFilePath with
  | .error _ => .error (Exit.failure .alreadyReported)
  | .ok _ =>
      match commandCreateFrom m opts argv with
      | .error e => .error e
      | .ok cmd =>
          .ok ⟨cmd, bufferCreate cmd.maxLength, processPoolCreate m.sys.childMax opts.maxProcs⟩

/-- `xargs_create`. -/
def create (m : Machine) (argv : List CStr) : Except Exit Parts :=
  match optionsCreateFrom m.sys.childMax argv with
  | .error e => .error e
  | .ok opts => createMode m opts argv

/-! ### Valid objects -/

/-- The table of pids is as large as the capacity says, and the command has a word. -/
structure Valid (s : Parts) : Prop where
  slots : s.pool.pids.length = s.pool.capacity
  count_le : s.pool.count ≤ s.pool.capacity
  fixedArgs_ne : s.cmd.fixedArgs.args ≠ []

end Parts

end Phxargs
