import Phxargs.Model.CommandLine
import Phxargs.Model.Exec
import Phxargs.Model.Stdio
import Phxargs.Model.TokenSource

/-!
# `Phxargs.Model.Main`: the whole program

`main.c`, `xargs_create` of `xargs.c` with everything that it calls, and `arg_source.c`. `Machine`
is what the parent process is given in a run: its system, the bytes of its standard input and of the
files that it can open, and what is in new memory. Together with the `World` of its children it
decides how a run over an `argv` ends.

The bytes of an input are those that `getc` returns in the run. A file with this content does not
always give them, because the children share its offset: `Reads` of `Phxargs.Model.Stdio` says which
ones it gives, where the children end like `Programs.childEnds`.

The steps of `xargs_create` come in the order of the source: the options, the input, the command.
So an option that is refused is reported before the file of `-a` is opened, and this one before
the limits are checked.

A `calloc` can fail where the command line says how much it asks for: the slots of `-n`, those of
`-P`, and the buffer of `-s`. The slots of `-n` are asked for again whenever the command is recycled,
but behind a `free` of the same size. This request and all others are taken to succeed.
-/

set_option autoImplicit false

namespace Phxargs

open Lib

/-- A `FILE*`: the bytes that `getc` returns in the run before `EOF`, and whether a read error ended
them. Behind the last call of `getc` there may be any bytes. -/
structure ArgSource where
  bytes : List UInt8
  ferror : Bool
  deriving DecidableEq, Repr

/-- What the parent process is given in a run. `fopen` opens a file for reading, or fails with the
text of `strerror(errno)`. `calloc` says whether there is memory for so many elements of such a size.
-/
structure Machine where
  sys : System
  stdin : ArgSource
  fopen : CStr → Except String ArgSource
  fresh : Nat → UInt8
  calloc : Nat → Nat → Bool

/-- How the process ends: its exit status, the kernel as it leaves it, and what it has written to
standard error itself. This is the report of the failure that ended it, empty without one, and the
warnings of the pool. A report may stand before the warnings of the drain behind it. -/
structure ProcessEnd where
  status : Nat
  report : String
  warnings : List String
  os : Os

/-- An `exit` of the options or of the command: nothing has been forked yet. -/
def ProcessEnd.refused (e : Exit) : ProcessEnd := ⟨e.status, e.diagnostic.text, [], Os.init⟩

/-- `arg_source_open`. -/
def argSourceOpen (m : Machine) : Option CStr → Except ProcessEnd ArgSource
  | none => .ok m.stdin
  | some path =>
      match m.fopen path with
      | .ok source => .ok source
      | .error reason =>
          .error ⟨EXIT_FAILURE, s!"phxargs: {CStr.text path}: {reason}", [], Os.init⟩

/-- The slots that a new command has for input arguments. -/
def Options.inputArgSlots (opts : Options) : Nat :=
  if opts.maxArgsPerCommand > 0 then opts.maxArgsPerCommand else commandArgsCreate.capacity

/-- `sizeof(char*)`. -/
def SIZEOF_POINTER : Nat := 8

/-- `sizeof(pid_t)`. -/
def SIZEOF_PID : Nat := 4

/-- `phxargs_calloc`, of a size that the command line decides. -/
def Machine.phxargsCalloc (m : Machine) (count size : Nat) : Except Exit Unit :=
  if m.calloc count size then .ok () else .error (Exit.failure .callocFailed)

/-- `command_create`, and what `xargs_mode_create` asks `calloc` for behind it: the table of the pool
and the buffer of the tokenizer. The input arguments come behind the operands, and before the
limits. -/
def commandCreateFrom (m : Machine) (opts : Options) (argv : List CStr) : Except Exit Command :=
  match m.phxargsCalloc opts.inputArgSlots SIZEOF_POINTER with
  | .error e => .error e
  | .ok () =>
      match commandCreate m.sys opts opts.optindVal argv with
      | .error e => .error e
      | .ok cmd =>
          let pool := processPoolCreate m.sys.childMax opts.maxProcs
          match m.phxargsCalloc pool.capacity SIZEOF_PID with
          | .error e => .error e
          | .ok () =>
              match m.phxargsCalloc (cmd.maxLength + 1) 1 with
              | .error e => .error e
              | .ok () => .ok cmd

/-- `xargs_create`. -/
def xargsCreateFrom (m : Machine) (argv : List CStr) : Except ProcessEnd (Options × XargsMode) :=
  match optionsCreateFrom m.sys.childMax argv with
  | .error e => .error (.refused e)
  | .ok opts =>
      match argSourceOpen m opts.argFilePath with
      | .error ended => .error ended
      | .ok source =>
          match commandCreateFrom m opts argv with
          | .error e => .error (.refused e)
          | .ok cmd =>
              -- The tokenizer is created behind the command, whose `max_length` sizes its buffer.
              match xargsModeCreate m.sys opts opts.optindVal argv
                  (xargsModeTokens m.fresh cmd.maxLength opts source.bytes source.ferror) with
              | .error e => .error (.refused e)
              | .ok mode => .ok (opts, mode)

/-- The report of an exit in the middle of a run. The tokenizers report their errors themselves. -/
def reportOf (e : Exit) (mode : XargsMode) : String :=
  match e.diagnostic with
  | .alreadyReported => mode.tokerError.text
  | diagnostic => diagnostic.text

/-- `main`. -/
def phxargsMain (m : Machine) (w : World) (argv : List CStr) : ProcessEnd :=
  match xargsCreateFrom m argv with
  | .error ended => ended
  | .ok (opts, mode) =>
      match xargsRun w opts mode with
      | .ok executionStatus mode' =>
          ⟨executionStatus, "", mode'.procs.warnings, mode'.procs.os⟩
      | .error e mode' => ⟨e.status, reportOf e mode', mode'.procs.warnings, mode'.procs.os⟩

/-! ### The children of a run -/

/-- What decides how the children end: what each of them gets from its system, and how the program
ends that it becomes. Both are indexed by the number of the fork. -/
structure Programs where
  exec : Nat → ExecWorld
  run : Nat → List CStr → RawStatus

/-- How the `k`-th child ends. -/
def Programs.status (p : Programs) (k : Nat) (image : Command) : RawStatus :=
  match (execChild (p.exec k) image).result with
  | .executes argv => p.run k argv
  -- The status of an `exit` is a byte.
  | .exits status _ => .exited (UInt8.ofNat status)

/-- The children end as these programs do. -/
def Programs.Explains (p : Programs) (os : Os) : Prop :=
  os.forkedChildren.map Child.status = os.forked.mapIdx p.status

instance (p : Programs) (os : Os) : Decidable (p.Explains os) :=
  inferInstanceAs (Decidable (os.forkedChildren.map Child.status = os.forked.mapIdx p.status))

/-- What the `k`-th child does to its copy of the input. The `freopen` of `-o` closes it only if the
input is standard input. -/
def Programs.childEnd (p : Programs) (fromStdin : Bool) (k : Nat) (image : Command) : ChildEnd :=
  match (execChild (p.exec k) image).result with
  | .executes _ => if image.openTty && fromStdin then .reopened else .executed
  | .exits status _ => if status = EXIT_SUCCESS then .declined else .notExecuted

/-- What the children do to their copies, in the order of the forks. -/
def Programs.childEnds (p : Programs) (fromStdin : Bool) (os : Os) : List ChildEnd :=
  os.forked.mapIdx (p.childEnd fromStdin)

end Phxargs
