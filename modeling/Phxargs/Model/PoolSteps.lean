import Phxargs.Lib.Trace
import Phxargs.Model.ProcessPool

/-!
# `Phxargs.Model.PoolSteps`: the pool as a transition system

Everything that happens to the pool is one of three steps: the adjustment of the limit, the
reap of one child, and a fork with its submission. `process_pool_wait_if_full` and
`process_pool_drain` are an adjustment and reaps in a row. A run of the pool is a sequence of
such steps in any order. `reap_one` is called only where a slot is in use.

`ModeStep` are the steps in the order in which `xargs_mode_execute_command` makes them: it
forks only after the wait, so only with room in the pool, and only without a halt.
-/

set_option autoImplicit false

namespace Phxargs

open Lib

/-- The functions that change the pool. -/
inductive PoolCall where
  | adjust
  | reap
  | submit (image : Command)

/-- `command_execute_async` and `process_pool_submit`, without the command. -/
def forkAndSubmit (w : World) (image : Command) : EStateM Exit Procs Unit := do
  let s ← get
  match s.os.fork w image with
  | none => throw (Exit.failure .forkFailed)
  | some (pid, os) =>
      set { s with os := os }
      processPoolSubmit pid

/-- The function of a call. -/
def poolCall (w : World) : PoolCall → EStateM Exit Procs Unit
  | .adjust => applySignalAdjustments w
  | .reap => reapOne w
  | .submit image => forkAndSubmit w image

/-- A call is made here: a reap needs a slot in use. -/
def PoolCall.Enabled (s : Procs) : PoolCall → Prop
  | .reap => 0 < s.pool.count
  | _ => True

/-- A call that returns. -/
structure PoolStep (w : World) (call : PoolCall) (s t : Procs) : Prop where
  enabled : call.Enabled s
  returns : poolCall w call s = .ok () t

/-- A call that `xargs_mode_execute_command` and the drains make. -/
structure ModeStep (w : World) (call : PoolCall) (s t : Procs) : Prop extends
    PoolStep w call s t where
  ready : ∀ image, call = .submit image → s.pool.halt = false ∧ s.pool.full = false

/-- The state in which the pool starts, with these children inherited from before. -/
def Procs.start (childMax : Int) (maxProcs : Nat) (inherited : List Child) : Procs where
  pool := processPoolCreate childMax maxProcs
  signals := ⟨0, 0, 0, 0⟩
  os := ⟨inherited, [], 0⟩
  warnings := []

/-! ### Signals at an adjustment -/

/-- The `u1` of an adjustment: what is pending at the read of `sigusr1_count`. -/
def Procs.pendingSigusr1 (w : World) (s : Procs) : Int :=
  (s.deliverSignals w).signals.sigusr1Count - s.signals.appliedSigusr1

/-- The `u2` of an adjustment: what is pending at the read of `sigusr2_count`, the next one. -/
def Procs.pendingSigusr2 (w : World) (s : Procs) : Int :=
  ((s.deliverSignals w).deliverSignals w).signals.sigusr2Count - s.signals.appliedSigusr2

/-- The pool behind an adjustment. -/
def Procs.adjustedPool (w : World) (s : Procs) : ProcessPool :=
  if s.pendingSigusr1 w = 0 ∧ s.pendingSigusr2 w = 0 then
    s.pool
  else
    s.pool.adjust (s.pendingSigusr1 w) (s.pendingSigusr2 w)

/-! ### What each step does -/

theorem PoolStep.adjust_cases {w : World} {s t : Procs} (h : PoolStep w .adjust s t) :
    t.pool = s.adjustedPool w ∧ t.os.children = s.os.children ∧ t.os.log = s.os.log ∧
      t.warnings = s.warnings := by
  have hrun : wp (applySignalAdjustments w)
      (fun _ t => t.pool = s.adjustedPool w ∧ t.os.children = s.os.children ∧
        t.os.log = s.os.log ∧ t.warnings = s.warnings) (fun _ _ => False) s := by
    simp only [applySignalAdjustments, readSigusr1Count, readSigusr2Count, wp_bind, wp_get, wp_ite,
      wp_pure, wp_modify]
    unfold Procs.adjustedPool
    split
    · rename_i hnone
      have hpending : s.pendingSigusr1 w = 0 ∧ s.pendingSigusr2 w = 0 := hnone
      rw [if_pos hpending]
      exact ⟨rfl, rfl, rfl, rfl⟩
    · rename_i hsome
      have hpending : ¬ (s.pendingSigusr1 w = 0 ∧ s.pendingSigusr2 w = 0) := hsome
      rw [if_neg hpending]
      exact ⟨rfl, rfl, rfl, rfl⟩
  exact (wp_of_ok h.returns).mp hrun

theorem PoolStep.reap_cases {w : World} {s t : Procs} (h : PoolStep w .reap s t) :
    ∃ child, s.os.waitpid w = some (child, t.os) ∧
      (s.pool.slotOf child.pid < s.pool.count ∨ w.ndebug = true) ∧
      t.pool = (s.pool.replaceWithLast child.pid).countReaped child.status ∧
      t.warnings = s.warnings ++ childExitWarnings child.status := by
  have hrun : wp (reapOne w)
      (fun _ t => ∃ child, s.os.waitpid w = some (child, t.os) ∧
        (s.pool.slotOf child.pid < s.pool.count ∨ w.ndebug = true) ∧
        t.pool = (s.pool.replaceWithLast child.pid).countReaped child.status ∧
        t.warnings = s.warnings ++ childExitWarnings child.status)
      (fun _ _ => True) s := by
    simp only [reapOne, wp_bind, wp_get]
    cases hwait : s.os.waitpid w with
    | none => exact trivial
    | some answer =>
        obtain ⟨child, os⟩ := answer
        simp only [wp_bind, wp_set, wp_ite, wp_throw, wp_modify]
        split
        · exact trivial
        · rename_i hfound
          refine ⟨child, rfl, ?_, rfl, rfl⟩
          by_contra hnot
          rw [not_or] at hnot
          exact hfound hnot
  exact (wp_of_ok h.returns).mp hrun

/-- With a successful `fork`, what is left of the step is the submission. -/
theorem forkAndSubmit_of_fork {w : World} {image : Command} {s : Procs} {pid : Pid} {os : Os}
    (h : s.os.fork w image = some (pid, os)) :
    forkAndSubmit w image s = processPoolSubmit pid { s with os := os } := by
  show (match s.os.fork w image with
    | none => throw (Exit.failure .forkFailed)
    | some (pid, os) => do
        set ({ s with os := os } : Procs)
        processPoolSubmit pid : EStateM Exit Procs Unit) s = _
  rw [h]
  rfl

/-- What a fork and its submission change. -/
structure Procs.Submits (w : World) (image : Command) (s : Procs) (child : Child) (t : Procs) :
    Prop where
  fork : s.os.fork w image = some (child.pid, t.os)
  log : t.os.log = s.os.log ++ [.forked image child]
  children : t.os.children = s.os.children ++ [child]
  count : t.pool.count = s.pool.count + 1
  maxProcs : t.pool.maxProcs = s.pool.maxProcs
  childMax : t.pool.childMax = s.pool.childMax
  status : t.pool.status = s.pool.status
  halt : t.pool.halt = s.pool.halt
  warnings : t.warnings = s.warnings

/-- The history has one fork more. -/
theorem Procs.Submits.forked {w : World} {image : Command} {s t : Procs} {child : Child}
    (h : s.Submits w image child t) : t.os.forked = s.os.forked ++ [image] := by
  rw [Os.forked, h.log, List.filterMap_append]
  rfl

theorem PoolStep.submit_cases {w : World} {image : Command} {s t : Procs}
    (h : PoolStep w (.submit image) s t) : ∃ child, s.Submits w image child t := by
  have hrun : wp (forkAndSubmit w image) (fun _ t => ∃ child, s.Submits w image child t)
      (fun _ _ => True) s := by
    simp only [forkAndSubmit, wp_bind, wp_get]
    cases hfork : s.os.fork w image with
    | none => exact trivial
    | some answer =>
        obtain ⟨pid, os⟩ := answer
        obtain ⟨child, rfl, hlog, hchildren⟩ := Os.fork_log hfork
        simp only [wp_bind, wp_set]
        apply wp_mono (processPoolSubmit_submitted child.pid { s with os := os })
        · intro _ t hsubmit
          obtain ⟨hpool, rfl, hwarnings⟩ := hsubmit
          exact ⟨child, hfork, hlog, hchildren, hpool.count, hpool.maxProcs, hpool.childMax,
            hpool.status, hpool.halt, hwarnings⟩
        · exact fun _ _ _ => trivial
  exact (wp_of_ok h.returns).mp hrun

end Phxargs
