import Phxargs.Abstract.Plan
import Phxargs.Model.PoolSteps
import Phxargs.Proofs.Pool

/-!
# `Phxargs.Proofs.Rules`: the rules of the functions of the modes

One rule for each function that both the plans and the statements about runs go through. The
premises of a rule are the ways in which its function can go on, with what the code has
checked before it goes there. So a statement about an iteration names its reason in each of
these cases, and does not look into the functions of `xargs_mode.c`.

`wp_executeCommand` is the only place that looks into the pool: executing a command either
forks it and recycles, or finds the pool halted and does nothing.
-/

set_option autoImplicit false

namespace Phxargs

open Lib

namespace XargsMode

/-- The commands that the run has forked so far. -/
def forked (s : XargsMode) : List Command := s.procs.os.forked

/-- `process_pool_halted`. -/
def halted (s : XargsMode) : Bool := s.procs.pool.halt

end XargsMode

/-- The exit of a failed `fork`. -/
def Exit.forkFailed : Exit := Exit.failure .forkFailed

/-- A halt contradicts a pool that is running. -/
theorem XargsMode.not_halted {s : XargsMode} (hrunning : s.halted = false) : ¬ s.halted = true :=
  fun hhalt => Bool.false_ne_true (hrunning.symm.trans hhalt)

section Rules

variable {w : World} {s : XargsMode} {arg : CStr} {E : Exit → XargsMode → Prop}

/-! ### Executing a command -/

/-- The rule of `xargs_mode_execute_command`. `R` is what is known of the pool behind the wait.
A halted pool executes nothing, a `fork` that fails exits, and otherwise the fork and the
submission are one step of the pool. -/
theorem wp_executeCommand {R : Procs → Prop} {Q : Unit → XargsMode → Prop} (hinv : s.procs.Inv)
    (hwait : wp (processPoolWaitIfFull w) (fun _ p => R p) (fun _ _ => False) s.procs)
    (hhalted : ∀ p, R p → p.Inv → p.pool.halt = true → Q () { s with procs := p })
    (hfailed : ∀ p, R p → p.Inv → p.pool.halt = false → p.os.fork w s.cmd = none →
      E Exit.forkFailed { s with procs := p })
    (hforked : ∀ p q, R p → p.Inv → q.Inv → ModeStep w (.submit s.cmd) p q →
      Q () { s with cmd := recycleCommand s.cmd, procs := q }) :
    wp (xargsModeExecuteCommand w) Q E s := by
  simp only [xargsModeExecuteCommand, onProcs, wp_bind, wp_focus, wp_get, wp_ite, wp_pure]
  apply wp_mono (wp_and hwait (processPoolWaitIfFull_spec w hinv))
  · rintro _ p ⟨hR, hinv', -, hfull⟩
    -- The wait can have reaped the child that halts the pool.
    split
    · rename_i hhalt
      exact hhalted p hR hinv' hhalt
    · rename_i hrunning
      replace hrunning : p.pool.halt = false := by simpa [processPoolHalted] using hrunning
      simp only [commandExecuteAsync, wp_bind, wp_get]
      cases hfork : p.os.fork w s.cmd with
      | none => exact hfailed p hR hinv' hrunning hfork
      | some answer =>
          obtain ⟨pid, os⟩ := answer
          obtain ⟨child, rfl, -, hroom, hchildren, -, hborn⟩ := Os.fork_some hfork
          -- Between `fork` and the submission, the newest child has no slot yet.
          have hunsubmitted : Procs.Unsubmitted { p with os := os } child p :=
            ⟨hinv', rfl, hchildren, hborn, hroom⟩
          simp only [wp_bind, wp_set, wp_pure]
          apply wp_mono_run (processPoolSubmit_spec hunsubmitted)
          · intro _ q hsubmit hq
            have hreturns := (forkAndSubmit_of_fork hfork).trans hsubmit
            exact hforked p q hR hinv' hq.1
              ⟨⟨trivial, hreturns⟩, fun _ _ => ⟨hrunning, hfull⟩⟩
          · exact fun _ _ _ h => h.elim
  · exact fun _ _ h => h.1.elim

/-! ### The iterations -/

/-- The rule of the second half of an appender iteration. The check after the add has three
answers: the command is too long, it is complete, or it takes more arguments. -/
theorem wp_appenderModeAdd {Q : Bool → XargsMode → Prop}
    (herror : ∀ e, commandAddInputArgument s.cmd arg = .error e → E e s)
    (hlong : ∀ cmd, commandAddInputArgument s.cmd arg = .ok cmd →
      commandShouldExecuteAfterArgAdded cmd < 0 →
      wp (xargsModeDrain w) (fun _ t => E Exit.commandTooLong t) E { s with cmd := cmd })
    (hdone : ∀ cmd, commandAddInputArgument s.cmd arg = .ok cmd →
      commandShouldExecuteAfterArgAdded cmd > 0 →
      wp (xargsModeExecuteCommand w) (fun _ t => Q t.halted t) E { s with cmd := cmd })
    (hmore : ∀ cmd, commandAddInputArgument s.cmd arg = .ok cmd →
      ¬ commandShouldExecuteAfterArgAdded cmd < 0 → ¬ commandShouldExecuteAfterArgAdded cmd > 0 →
      Q false { s with cmd := cmd }) :
    wp (appenderModeAdd w arg) Q E s := by
  simp only [appenderModeAdd, xargsModeAddInputArgument,
    xargsModeShouldExecuteCommandAfterArgAdded, xargsModeHalted, wp_bind, wp_get]
  cases hadd : commandAddInputArgument s.cmd arg with
  | error e => exact herror e hadd
  | ok cmd =>
      simp only [wp_ofExcept_ok, wp_set, wp_ite, wp_bind, wp_get, wp_throw, wp_pure,
        decide_eq_true_eq]
      -- `-1`, `1` and `0`, in the order in which the source tests them.
      by_cases hnegative : commandShouldExecuteAfterArgAdded cmd < 0
      · rw [if_pos hnegative]
        exact hlong cmd hadd hnegative
      · rw [if_neg hnegative]
        by_cases hpositive : commandShouldExecuteAfterArgAdded cmd > 0
        · rw [if_pos hpositive]
          exact hdone cmd hadd hpositive
        · rw [if_neg hpositive]
          exact hmore cmd hadd hnegative hpositive

/-- The rule of an appender iteration. A token that would exceed a limit flushes the command
first, and is added unless this finds a halt. -/
theorem wp_appenderModeIteration {Q : Bool → XargsMode → Prop}
    (herror : ∀ e, commandArgWouldExceedLimits s.cmd arg = .error e → E e s)
    (hflush : commandArgWouldExceedLimits s.cmd arg = .ok true →
      wp (xargsModeExecuteCommand w) (fun _ t => (t.halted = true → Q true t) ∧
        (t.halted = false → wp (appenderModeAdd w arg) Q E t)) E s)
    (hadd : commandArgWouldExceedLimits s.cmd arg = .ok false →
      wp (appenderModeAdd w arg) Q E s) :
    wp (appenderModeIteration w arg) Q E s := by
  simp only [appenderModeIteration, xargsModeArgWouldExceedLimits, xargsModeHalted, wp_bind,
    wp_get]
  cases hexceeds : commandArgWouldExceedLimits s.cmd arg with
  | error e => exact herror e hexceeds
  | ok exceeds =>
      cases exceeds with
      | false => exact hadd hexceeds
      -- The flush. A halt leaves the loop, with the token neither added nor executed.
      | true =>
          simp only [wp_ofExcept_ok, if_true, wp_bind, wp_get, wp_pure, wp_ite]
          refine wp_mono_return (hflush hexceeds) ?_
          rintro _ t ⟨hhalted, hrunning⟩
          cases hhalt : t.halted with
          | true =>
              rw [if_pos (show processPoolHalted t.procs.pool = true from hhalt)]
              exact hhalted hhalt
          | false =>
              rw [if_neg (show ¬ processPoolHalted t.procs.pool = true from
                XargsMode.not_halted hhalt)]
              exact hrunning hhalt

/-- The rule of a replacer iteration. Both checks come before the command is executed. -/
theorem wp_replacerModeIteration {Q : Bool → XargsMode → Prop}
    (hlength : ∀ e, commandEnsureLengthNotExceeded s.cmd arg = .error e → E e s)
    (hreplace : ∀ e, commandEnsureLengthNotExceeded s.cmd arg = .ok () →
      commandReplaceArgs s.cmd arg = .error e → E e s)
    (hexecute : ∀ cmd, commandEnsureLengthNotExceeded s.cmd arg = .ok () →
      commandReplaceArgs s.cmd arg = .ok cmd →
      wp (xargsModeExecuteCommand w) (fun _ t => Q t.halted t) E { s with cmd := cmd }) :
    wp (replacerModeIteration w arg) Q E s := by
  simp only [replacerModeIteration, xargsModeEnsureCommandLengthNotExceeded, xargsReplaceArgs,
    xargsModeHalted, wp_bind, wp_get]
  cases hshort : commandEnsureLengthNotExceeded s.cmd arg with
  | error e => exact hlength e hshort
  | ok _ =>
      simp only [wp_ofExcept_ok]
      cases hreplaced : commandReplaceArgs s.cmd arg with
      | error e => exact hreplace e hshort hreplaced
      | ok cmd =>
          simp only [wp_ofExcept_ok, wp_set, wp_pure]
          exact hexecute cmd hshort hreplaced

/-! ### The runs -/

/-- The rule of the end of an appender run: a last command or none, and then the drain. -/
theorem wp_appenderModeFinish {suppress present : Bool} {Q : Nat → XargsMode → Prop}
    (hexecute : appenderLast suppress present s.cmd = [s.cmd] →
      wp (xargsModeExecuteCommand w)
        (fun _ t => wp (xargsModeDrain w) (fun status u => Q (EXIT_SUCCESS ||| status) u) E t) E s)
    (hdrain : appenderLast suppress present s.cmd = [] →
      wp (xargsModeDrain w) (fun status u => Q (EXIT_SUCCESS ||| status) u) E s) :
    wp (appenderModeFinish w suppress present) Q E s := by
  simp only [appenderModeFinish, xargsModeInputArgsRemain, wp_bind, wp_ite, wp_get, wp_pure]
  cases present with
  -- No token was read: one command, unless `-r` suppresses it.
  | false =>
      cases suppress with
      | false => exact hexecute rfl
      | true => exact hdrain rfl
  | true =>
      -- A command that was executed last has no arguments left.
      cases hremain : commandInputArgsRemain s.cmd with
      | false => exact hdrain (by simp [appenderLast, hremain])
      | true => exact hexecute (by simp [appenderLast, hremain])

/-- The rule of a run of either mode: its loop, and behind it the end of the mode, or the drain
and the exit after a tokenizer error. -/
theorem wp_loopAndFinish {loop : EStateM Exit XargsMode Bool}
    {finish : Bool → EStateM Exit XargsMode Nat} {Q : Nat → XargsMode → Prop}
    (h : wp loop (fun present t =>
      (t.tokerError = .none → wp (finish present) Q E t) ∧
      (t.tokerError ≠ .none →
        wp (xargsModeDrain w) (fun _ u => E (Exit.failure .alreadyReported) u) E t)) E s) :
    wp (do
        let present ← loop
        if ← xargsModeTokenizerErrored then
          xargsModeTokenizerFailure w
        else
          finish present) Q E s := by
  simp only [xargsModeTokenizerErrored, xargsModeTokenizerFailure, wp_bind, wp_get, wp_pure,
    wp_ite, wp_throw, decide_eq_true_eq]
  refine wp_mono_return h ?_
  rintro present t ⟨hclean, herrored⟩
  by_cases hnone : t.tokerError = .none
  · rw [if_neg (not_not.mpr hnone)]
    exact hclean hnone
  · rw [if_pos hnone]
    exact herrored hnone

end Rules

end Phxargs
