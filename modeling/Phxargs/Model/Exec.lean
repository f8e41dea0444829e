import Phxargs.Model.Command

/-!
# `Phxargs.Model.Exec`: what the child does

`exec_child` of `command.c` and what it calls. It runs behind the `fork`, on the copy of the
command that the child inherits, and ends in `execvp` or in an exit.

`execvp` is not part of the program. `ExecWorld` has its answers, and those of the terminal.
`ExecWorld.Accounts` is how a kernel decides about `E2BIG`: it counts the strings of the argv and
of the environment, and a pointer for each of them. `command_length` counts no pointers.
-/

set_option autoImplicit false

namespace Phxargs

/-- The values of `errno` that `phxargs_exec` tells apart. -/
inductive Errno where
  | e2big
  | enoent
  | other (code : Nat)
  deriving DecidableEq, Repr

/-- What the child gets from its system. -/
structure ExecWorld where
  /-- What can be read from `/dev/tty`, `none` where it cannot be opened. -/
  tty : Option CStr
  /-- Whether `freopen` can make `/dev/tty` the standard input. -/
  reopensTty : Bool
  /-- `execvp`: the `errno` of a failure, `none` where the image is replaced. -/
  execvp : List CStr → Option Errno
  strerror : Errno → String

/-- How a child leaves the program: another image runs with this argv, or it exits with this
status after this report. -/
inductive ChildResult where
  | executes (argv : List CStr)
  | exits (status : Nat) (report : String)

/-- What a child writes to standard error before it leaves, and how it leaves. -/
structure ChildRun where
  traced : String
  result : ChildResult

/-- `phxargs_exec`. -/
def phxargsExec (e : ExecWorld) (execArgs : List CStr) (openTty : Bool) : ChildResult :=
  if openTty && !e.reopensTty then
    .exits EXIT_FAILURE "phxargs: cannot reopen stdin as /dev/tty"
  else
    match e.execvp execArgs with
    | none => .executes execArgs
    | some failedResult =>
        if failedResult = .e2big then
          .exits PHXARGS_STATUS_INTERNAL_ERROR "phxargs: command line too long -- this is a bug\n"
        else
          .exits
            (if failedResult = .enoent then PHXARGS_STATUS_NOT_FOUND
              else PHXARGS_STATUS_NOT_EXECUTABLE)
            s!"phxargs: {CStr.text (execArgs.headD [])}: {e.strerror failedResult}\n"

/-- `confirm_execution`. The rest of the line is read and ignored. -/
def confirmExecution (e : ExecWorld) : Except ChildResult Bool :=
  match e.tty with
  | none => .error (.exits EXIT_FAILURE "phxargs: cannot open /dev/tty")
  -- `first` is the first byte of the answer, `EOF` if there is none.
  | some answer => .ok (answer.head? = some 121 || answer.head? = some 89)

/-- `write_trace`: the argv, separated by spaces. -/
def writeTrace (execArgs : List CStr) (withNewline : Bool) : CStr :=
  (execArgs.intersperse [SPACE]).flatten ++ if withNewline then [NEWLINE] else []

/-- `exec_child`. -/
def execChild (e : ExecWorld) (cmd : Command) : ChildRun :=
  let execArgs := buildExecArgs cmd
  let trace := if cmd.trace then CStr.text (writeTrace execArgs (!cmd.prompt)) else ""
  if cmd.prompt then
    ⟨trace ++ "?...",
      match confirmExecution e with
      | .error result => result
      | .ok true => phxargsExec e execArgs cmd.openTty
      | .ok false => .exits EXIT_SUCCESS ""⟩
  else
    ⟨trace, phxargsExec e execArgs cmd.openTty⟩

/-! ### `E2BIG` -/

/-- The size of a pointer. -/
def PTR_SIZE : Nat := 8

/-- What the kernel counts for `execve`: the strings with their NULs, and the two pointer arrays
with theirs. -/
def execSize (argv environ : List CStr) : Nat :=
  totalLength argv + totalLength environ
    + PTR_SIZE * ((argv.length + 1) + (environ.length + 1))

/-- `execvp` fails with `E2BIG` exactly where the size is above `ARG_MAX`. -/
def ExecWorld.Accounts (e : ExecWorld) (sys : System) : Prop :=
  ∀ argv, e.execvp argv = some .e2big ↔ sys.argMax.toNat < execSize argv sys.environ

/-- Only the branch for `E2BIG` ends in an internal error. -/
theorem phxargsExec_internalError {e : ExecWorld} {execArgs : List CStr} {openTty : Bool}
    {report : String}
    (h : phxargsExec e execArgs openTty = .exits PHXARGS_STATUS_INTERNAL_ERROR report) :
    e.execvp execArgs = some .e2big := by
  unfold phxargsExec at h
  split at h
  · cases h
  · split at h
    · cases h
    · rename_i failedResult hfailed
      split at h
      · rename_i he2big
        rw [hfailed, he2big]
      · -- The other two statuses are 127 and 126.
        split at h <;> cases h

/-- Without a terminal the child fails before it comes to `execvp`. -/
theorem confirmExecution_error {e : ExecWorld} {result : ChildResult}
    (h : confirmExecution e = .error result) :
    result = .exits EXIT_FAILURE "phxargs: cannot open /dev/tty" := by
  unfold confirmExecution at h
  cases htty : e.tty with
  | none =>
      rw [htty] at h
      cases h
      rfl
  | some answer =>
      rw [htty] at h
      cases h

/-- The same for the child as a whole. -/
theorem execChild_internalError {e : ExecWorld} {cmd : Command} {report : String}
    (h : (execChild e cmd).result = .exits PHXARGS_STATUS_INTERNAL_ERROR report) :
    e.execvp (buildExecArgs cmd) = some .e2big := by
  unfold execChild at h
  dsimp only at h
  split at h
  · cases hconfirm : confirmExecution e with
    | error result =>
        simp only [hconfirm, confirmExecution_error hconfirm] at h
        cases h
    | ok execute =>
        rw [hconfirm] at h
        cases execute with
        | true => exact phxargsExec_internalError h
        | false => cases h
  · exact phxargsExec_internalError h

end Phxargs
