import Phxargs.Model.Command

/-!
# `Phxargs.Model.Os`: fork, waitpid and signals

What the program sees of the operating system. `Os` is the state of the kernel: the children
of the process that `waitpid` has not reported yet, and the history of the forks and the
reports. `World` are the answers that the program does not control. A statement about every
behaviour of the children is a statement about every `World`:

* whether each `fork` succeeds, and how its child will end;
* which of its children each `waitpid` reports. This covers every order in which the children
  end: from the parent's side an end is visible only in `waitpid`;
* how often the signal handlers run before each read of their counters.

A `fork` copies the process, so the history records the `Command` that the child runs.
-/

set_option autoImplicit false

namespace Phxargs

abbrev Pid := Nat

/-- The largest `pid_t`. Live children have different pids, so there are never more. -/
def PID_MAX : Nat := 2 ^ 31 - 1

/-- How a child ended, as `waitpid` with no options reports it. -/
inductive RawStatus where
  | exited (code : UInt8)
  | signaled (sig : Nat)
  deriving DecidableEq, Repr

/-- A child process and the status with which it ends. -/
structure Child where
  pid : Pid
  status : RawStatus
  deriving DecidableEq, Repr

/-- The answers of the environment. `fork` and `wait` are indexed by the length of the
history, `usr1` and `usr2` by the number of reads of the signal counters. `ndebug` is the
build flag that removes `assert`. -/
structure World where
  ndebug : Bool
  fork : Nat → Option Child
  wait : Nat → Nat
  usr1 : Nat → Nat
  usr2 : Nat → Nat

/-- The world in which every `fork` succeeds, every child exits with status 0, the children
are reported in fork order, and no signal arrives. -/
def World.quiet : World where
  ndebug := false
  fork := fun n => some ⟨n + 1, .exited 0⟩
  wait := fun _ => 0
  usr1 := fun _ => 0
  usr2 := fun _ => 0

/-- An entry of the history. -/
inductive OsEvent where
  /-- `fork` made this child, which runs this copy of the command. -/
  | forked (image : Command) (child : Child)
  /-- `waitpid` reported this child. -/
  | reaped (child : Child)

/-- The command of a fork. -/
def OsEvent.image? : OsEvent → Option Command
  | .forked image _ => some image
  | .reaped _ => none

/-- The child of a fork. -/
def OsEvent.child? : OsEvent → Option Child
  | .forked _ child => some child
  | .reaped _ => none

/-- The child of a report. -/
def OsEvent.reaped? : OsEvent → Option Child
  | .forked _ _ => none
  | .reaped child => some child

/-- The state of the kernel, as far as this process is concerned. -/
structure Os where
  children : List Child
  log : List OsEvent
  reads : Nat

/-- No children yet. -/
def Os.init : Os := ⟨[], [], 0⟩

/-- The commands of all forks, in fork order. -/
def Os.forked (os : Os) : List Command := os.log.filterMap OsEvent.image?

/-- The children of all forks, in fork order. -/
def Os.forkedChildren (os : Os) : List Child := os.log.filterMap OsEvent.child?

/-- The children that have been reported, in the order of the reports. -/
def Os.reapedChildren (os : Os) : List Child := os.log.filterMap OsEvent.reaped?

@[simp] theorem Os.forked_init : Os.init.forked = [] := rfl

/-- `fork`, seen by the parent. It fails when the world says so, and when no pid is free. -/
def Os.fork (w : World) (image : Command) (os : Os) : Option (Pid × Os) :=
  if os.children.length ≥ PID_MAX then
    none
  else
    match w.fork os.log.length with
    | none => none
    -- The child inherits the parent as it is here, so its argv is that of `image`.
    | some child => some (child.pid,
        { os with children := os.children ++ [child], log := os.log ++ [.forked image child] })

/-- `waitpid(-1, &raw_status, 0)`. It fails when the process has no child. The retry after
`EINTR` is part of the call: an interrupted `waitpid` reports nothing. -/
def Os.waitpid (w : World) (os : Os) : Option (Child × Os) :=
  let i := w.wait os.log.length % os.children.length
  -- `i` is in range but for the empty list, where `waitpid` fails with `ECHILD`.
  match os.children[i]? with
  | none => none
  | some child => some (child,
      { os with children := os.children.eraseIdx i, log := os.log ++ [.reaped child] })

/-- Every fork makes one child. -/
theorem Os.length_forkedChildren (os : Os) :
    os.forkedChildren.length = os.forked.length := by
  show (os.log.filterMap OsEvent.child?).length = (os.log.filterMap OsEvent.image?).length
  induction os.log with
  | nil => rfl
  | cons event log ih =>
      cases event with
      | forked image child =>
          show _ + 1 = _ + 1
          rw [ih]
      | reaped child => exact ih

/-- What a successful `fork` does. -/
theorem Os.fork_some {w : World} {image : Command} {os os' : Os} {pid : Pid}
    (h : os.fork w image = some (pid, os')) :
    ∃ child, child.pid = pid ∧ w.fork os.log.length = some child ∧
      os.children.length < PID_MAX ∧ os'.children = os.children ++ [child] ∧
      os'.forked = os.forked ++ [image] ∧
      os'.forkedChildren = os.forkedChildren ++ [child] := by
  unfold Os.fork at h
  split at h
  · cases h
  · rename_i hfree
    split at h
    · cases h
    · rename_i child hchild
      cases h
      exact ⟨child, rfl, hchild, by omega, rfl,
        by simp [Os.forked, List.filterMap_append, OsEvent.image?],
        by simp [Os.forkedChildren, List.filterMap_append, OsEvent.child?]⟩

/-- What a successful `waitpid` does: the child leaves the table, and nothing is forked. -/
theorem Os.waitpid_some {w : World} {os os' : Os} {child : Child}
    (h : os.waitpid w = some (child, os')) :
    os.children.Perm (child :: os'.children) ∧ os'.forked = os.forked ∧
      os'.forkedChildren = os.forkedChildren := by
  unfold Os.waitpid at h
  dsimp only at h
  split at h
  · cases h
  · rename_i c hc
    cases h
    obtain ⟨hi, hget⟩ := List.getElem?_eq_some_iff.mp hc
    refine ⟨?_, by simp [Os.forked, List.filterMap_append, OsEvent.image?],
      by simp [Os.forkedChildren, List.filterMap_append, OsEvent.child?]⟩
    rw [← hget]
    exact (List.getElem_cons_eraseIdx_perm hi).symm

/-- `waitpid` reports a child whenever there is one. -/
theorem Os.waitpid_isSome {w : World} {os : Os} (h : os.children ≠ []) :
    ∃ child os', os.waitpid w = some (child, os') := by
  have hlt : w.wait os.log.length % os.children.length < os.children.length :=
    Nat.mod_lt _ (List.length_pos_iff.mpr h)
  unfold Os.waitpid
  simp only [List.getElem?_eq_getElem hlt]
  exact ⟨_, _, rfl⟩

/-- The history after a successful `fork`. -/
theorem Os.fork_log {w : World} {image : Command} {os os' : Os} {pid : Pid}
    (h : os.fork w image = some (pid, os')) :
    ∃ child, child.pid = pid ∧ os'.log = os.log ++ [.forked image child] ∧
      os'.children = os.children ++ [child] := by
  unfold Os.fork at h
  split at h
  · cases h
  · split at h
    · cases h
    · cases h
      exact ⟨_, rfl, rfl, rfl⟩

/-- The history after a successful `waitpid`. -/
theorem Os.waitpid_log {w : World} {os os' : Os} {child : Child}
    (h : os.waitpid w = some (child, os')) : os'.log = os.log ++ [.reaped child] := by
  unfold Os.waitpid at h
  dsimp only at h
  split at h
  · cases h
  · cases h
    rfl

end Phxargs
