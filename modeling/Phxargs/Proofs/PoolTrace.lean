import Phxargs.Model.PoolSteps
import Phxargs.Proofs.Refinement

/-!
# `Phxargs.Proofs.PoolTrace`: every run is a run of the pool

Whatever a mode does to its pool is a sequence of `ModeStep`s. So what every step of the pool
keeps holds in every state of every run, and the order of the steps is that of
`xargs_mode_execute_command`: a fork comes only after the wait.

`XargsMode.Steps` is the relation between the states of a mode. It is a preorder, and the
functions of both modes move along it.
-/

set_option autoImplicit false

namespace Phxargs

open Lib

/-! ### The steps of the pool -/

/-- A reap answers with one child, and the pool forgets this one. -/
theorem PoolStep.reap_forgets {w : World} {s t : Procs} (h : PoolStep w .reap s t) :
    ∃ child, s.os.waitpid w = some (child, t.os) ∧ s.pool.Forgets child t.pool := by
  obtain ⟨child, hwait, -, hpool, -⟩ := h.reap_cases
  exact ⟨child, hwait, hpool ▸ s.pool.forgets child⟩

/-- A run in the order of the mode is a run of the pool. -/
theorem leads_toPool {w : World} {s t : Procs} (h : Leads (ModeStep w) s t) :
    Leads (PoolStep w) s t := by
  obtain ⟨steps, hsteps⟩ := h
  exact ⟨steps, hsteps.mono fun _ _ _ hstep => hstep.toPoolStep⟩

theorem Procs.inv_start (childMax : Int) (maxProcs : Nat) :
    (Procs.start childMax maxProcs []).Inv :=
  Procs.inv_create childMax maxProcs ⟨0, 0, 0, 0⟩

/-! ### The functions of the pool -/

/-- `apply_signal_adjustments` is one step. -/
theorem applySignalAdjustments_leads (w : World) {s : Procs} (hinv : s.Inv) :
    wp (applySignalAdjustments w) (fun _ t => t.Inv ∧ Leads (ModeStep w) s t) (fun _ _ => False)
      s := by
  apply wp_mono_run (applySignalAdjustments_spec w hinv)
  · intro _ t hrun ht
    have hstep : ModeStep w .adjust s t := ⟨⟨trivial, hrun⟩, fun image h => by cases h⟩
    exact ⟨ht.1, .single hstep⟩
  · exact fun _ _ _ h => h

/-- A loop of reaps is a sequence of steps. -/
theorem reapWhile_leads (w : World) {cond : Procs → Bool}
    (hcond : ∀ s : Procs, cond s = true → 0 < s.pool.count) {s : Procs} (hinv : s.Inv) :
    wp (whileDo cond (reapOne w) s.pool.count)
      (fun _ t => (t.Inv ∧ Leads (ModeStep w) s t) ∧ cond t = false) (fun _ _ => False) s := by
  -- The loop carries the steps that have been made so far.
  refine wp_reapWhile hcond ?_ ⟨hinv, .refl _ s⟩
  rintro t ⟨hinv', hleads⟩ hpos
  apply wp_mono_run (reapOne_spec w hinv' hpos)
  · rintro _ u hrun ⟨hinv'', -, hcount, -⟩
    have hreap : ModeStep w .reap t u := ⟨⟨hpos, hrun⟩, fun image h => by cases h⟩
    exact ⟨⟨hinv'', hleads.trans (.single hreap)⟩, by omega⟩
  · exact fun _ _ _ h => h

theorem processPoolWaitIfFull_leads (w : World) {s : Procs} (hinv : s.Inv) :
    wp (processPoolWaitIfFull w)
      (fun _ t => t.Inv ∧ Leads (ModeStep w) s t ∧ t.pool.full = false) (fun _ _ => False) s := by
  simp only [processPoolWaitIfFull, wp_bind, wp_get]
  refine wp_mono_return (applySignalAdjustments_leads w hinv) ?_
  rintro _ t ⟨hinv', hleads⟩
  refine wp_mono_return (reapWhile_leads w (fun _ => ProcessPool.count_pos_of_full) hinv') ?_
  rintro _ u ⟨⟨hinv'', hleads'⟩, hfull⟩
  exact ⟨hinv'', hleads.trans hleads', hfull⟩

/-- A drain reaps until no child is left, and returns the status. -/
theorem processPoolDrain_leads (w : World) {s : Procs} (hinv : s.Inv) :
    wp (processPoolDrain w)
      (fun status t => t.Inv ∧ Leads (ModeStep w) s t ∧ t.os.children = [] ∧
        status = t.pool.status) (fun _ _ => False) s := by
  simp only [processPoolDrain, wp_bind, wp_get, wp_pure]
  refine wp_mono_return (reapWhile_leads w (fun _ => of_decide_eq_true) hinv) ?_
  rintro _ t ⟨⟨hinv', hleads⟩, hc⟩
  have hzero : t.pool.count = 0 := by simpa using hc
  rw [hinv'.count_eq] at hzero
  exact ⟨hinv', hleads, List.length_eq_zero_iff.mp hzero, trivial⟩

/-! ### The functions of a mode -/

/-- A mode that goes from `s` to `t` has made steps of the pool only. -/
def XargsMode.Steps (w : World) (s t : XargsMode) : Prop :=
  s.procs.Inv → t.procs.Inv ∧ Leads (ModeStep w) s.procs t.procs

namespace XargsMode

variable {w : World}

theorem Steps.refl (s : XargsMode) : s.Steps w s := fun hinv => ⟨hinv, .refl _ _⟩

theorem Steps.trans (s t u : XargsMode) (h : s.Steps w t) (h' : t.Steps w u) : s.Steps w u := by
  intro hinv
  obtain ⟨hinv', hleads⟩ := h hinv
  obtain ⟨hinv'', hleads'⟩ := h' hinv'
  exact ⟨hinv'', hleads.trans hleads'⟩

/-- What does not touch the pool. -/
theorem Steps.of_procs {s t : XargsMode} (h : t.procs = s.procs) : s.Steps w t :=
  fun hinv => ⟨h ▸ hinv, h ▸ .refl _ _⟩

end XargsMode

section Moves

variable (w : World)

/-- What a program does from a state without the invariant does not matter. -/
theorem moves_of_inv {α : Type} {m : EStateM Exit XargsMode α}
    (h : ∀ s : XargsMode, s.procs.Inv →
      wp m (fun _ t => t.procs.Inv ∧ Leads (ModeStep w) s.procs t.procs)
        (fun _ t => t.procs.Inv ∧ Leads (ModeStep w) s.procs t.procs) s) :
    Moves (XargsMode.Steps w) m := by
  intro s
  -- `Steps` is an implication, and without the invariant it holds of every pair of states.
  by_cases hinv : s.procs.Inv
  · exact wp_mono_state (h s hinv) fun t ht _ => ht
  · unfold wp
    split
    · exact fun hinv' => absurd hinv' hinv
    · exact fun hinv' => absurd hinv' hinv

theorem xargsModeNextToken_moves : Moves (XargsMode.Steps w) xargsModeNextToken := by
  intro s
  simp only [xargsModeNextToken, wp_bind, wp_get]
  split
  · simp only [wp_bind, wp_set, wp_pure]
    exact .of_procs rfl
  · simp only [wp_bind, wp_set, wp_pure]
    exact .of_procs rfl

theorem xargsModeExecuteCommand_moves : Moves (XargsMode.Steps w) (xargsModeExecuteCommand w) := by
  apply moves_of_inv
  intro s hinv
  have hwait : wp (processPoolWaitIfFull w) (fun _ p => Leads (ModeStep w) s.procs p)
      (fun _ _ => False) s.procs :=
    wp_mono_return (processPoolWaitIfFull_leads w hinv) fun _ _ hp => hp.2.1
  -- A halt, a failed fork and a submission: only the last one adds a step to those of the wait.
  apply wp_executeCommand hinv hwait
  · exact fun p hleads hinv' _ => ⟨hinv', hleads⟩
  · exact fun p hleads hinv' _ _ => ⟨hinv', hleads⟩
  · exact fun p q hleads _ hinv'' hstep => ⟨hinv'', hleads.trans (.single hstep)⟩

/-- A drain of the pool, in the middle of a mode. -/
theorem processPoolDrain_moves : Moves (XargsMode.Steps w) (onProcs (processPoolDrain w)) := by
  apply moves_of_inv
  intro s hinv
  simp only [onProcs, wp_focus]
  exact wp_mono_noExit (processPoolDrain_leads w hinv) fun _ p hp => ⟨hp.1, hp.2.1⟩

theorem xargsModeHalted_moves : Moves (XargsMode.Steps w) xargsModeHalted :=
  .bind .trans (.get .refl) fun _ => .pure .refl _

theorem xargsModeTokenizerErrored_moves :
    Moves (XargsMode.Steps w) xargsModeTokenizerErrored :=
  .bind .trans (.get .refl) fun _ => .pure .refl _

/-- The functions that change the command only. -/
theorem setCommand_moves (f : Command → Except Exit Command) :
    Moves (XargsMode.Steps w) (do
      let mode ← get
      let cmd ← ofExcept (f mode.cmd)
      set { mode with cmd := cmd } : EStateM Exit XargsMode PUnit) := by
  intro s
  simp only [wp_bind, wp_get]
  -- Whether the command is replaced or the program exits, the pool is as before.
  cases f s.cmd with
  | error e => exact .of_procs rfl
  | ok cmd => exact .of_procs rfl

theorem appenderModeAdd_moves (arg : CStr) : Moves (XargsMode.Steps w) (appenderModeAdd w arg) := by
  have hadd : Moves (XargsMode.Steps w) (xargsModeAddInputArgument arg) :=
    setCommand_moves w (commandAddInputArgument · arg)
  have hcheck : Moves (XargsMode.Steps w) (xargsModeShouldExecuteCommandAfterArgAdded w) := by
    refine .bind .trans (.get .refl) fun mode => ?_
    refine .ite _ ?_ (.pure .refl _)
    exact .bind .trans (processPoolDrain_moves w) fun _ => .throw .refl _
  refine .bind .trans hadd fun _ => .bind .trans hcheck fun execute => ?_
  refine .ite _ ?_ (.pure .refl _)
  exact .bind .trans (xargsModeExecuteCommand_moves w) fun _ => xargsModeHalted_moves w

theorem appenderModeIteration_moves (arg : CStr) :
    Moves (XargsMode.Steps w) (appenderModeIteration w arg) := by
  have hexceeds : Moves (XargsMode.Steps w) (xargsModeArgWouldExceedLimits arg) :=
    .bind .trans (.get .refl) fun _ => .ofExcept .refl _
  refine .bind .trans hexceeds fun exceeds => .ite _ ?_ (appenderModeAdd_moves w arg)
  refine .bind .trans (xargsModeExecuteCommand_moves w) fun _ => ?_
  exact .bind .trans (xargsModeHalted_moves w) fun halted =>
    .ite _ (.pure .refl _) (appenderModeAdd_moves w arg)

theorem replacerModeIteration_moves (arg : CStr) :
    Moves (XargsMode.Steps w) (replacerModeIteration w arg) := by
  have hlength : Moves (XargsMode.Steps w) (xargsModeEnsureCommandLengthNotExceeded arg) :=
    .bind .trans (.get .refl) fun _ => .ofExcept .refl _
  have hreplace : Moves (XargsMode.Steps w) (xargsReplaceArgs arg) :=
    setCommand_moves w (commandReplaceArgs · arg)
  refine .bind .trans hlength fun _ => .bind .trans hreplace fun _ => ?_
  exact .bind .trans (xargsModeExecuteCommand_moves w) fun _ => xargsModeHalted_moves w

/-- The loop of either mode. -/
theorem loop_moves {iteration : CStr → EStateM Exit XargsMode Bool}
    (h : ∀ arg, Moves (XargsMode.Steps w) (iteration arg)) :
    Moves (XargsMode.Steps w)
      (do forEach xargsModeNextToken iteration (← get).rounds false) :=
  .bind .trans (.get .refl) fun _ =>
    .forEach .refl .trans (xargsModeNextToken_moves w) h _ _

theorem xargsModeTokenizerFailure_moves :
    Moves (XargsMode.Steps w) (xargsModeTokenizerFailure w) :=
  .bind .trans (processPoolDrain_moves w) fun _ => .throw .refl _

theorem appenderModeFinish_moves (suppress present : Bool) :
    Moves (XargsMode.Steps w) (appenderModeFinish w suppress present) := by
  have hdrain : Moves (XargsMode.Steps w) (do return EXIT_SUCCESS ||| (← xargsModeDrain w)) :=
    .bind .trans (processPoolDrain_moves w) fun _ => .pure .refl _
  have hexecute := xargsModeExecuteCommand_moves w
  have hremain : Moves (XargsMode.Steps w) xargsModeInputArgsRemain :=
    .bind .trans (.get .refl) fun _ => .pure .refl _
  unfold appenderModeFinish
  cases present with
  | false =>
      cases suppress with
      | false => exact .bind .trans hexecute fun _ => hdrain
      | true => exact hdrain
  | true =>
      refine .bind .trans hremain fun remain => ?_
      cases remain with
      | false => exact hdrain
      | true => exact .bind .trans hexecute fun _ => hdrain

theorem appenderModeRun_moves (suppress : Bool) :
    Moves (XargsMode.Steps w) (appenderModeRun w suppress) := by
  refine .bind .trans (loop_moves w (appenderModeIteration_moves w)) fun present => ?_
  refine .bind .trans (xargsModeTokenizerErrored_moves w) fun errored => ?_
  exact .ite _ (xargsModeTokenizerFailure_moves w) (appenderModeFinish_moves w suppress present)

theorem replacerModeRun_moves : Moves (XargsMode.Steps w) (replacerModeRun w) := by
  refine .bind .trans (loop_moves w (replacerModeIteration_moves w)) fun present => ?_
  refine .bind .trans (xargsModeTokenizerErrored_moves w) fun errored => ?_
  refine .ite _ (xargsModeTokenizerFailure_moves w) ?_
  exact .bind .trans (processPoolDrain_moves w) fun _ => .pure .refl _

theorem xargsRun_moves (opts : Options) : Moves (XargsMode.Steps w) (xargsRun w opts) := by
  unfold xargsRun
  split
  · exact appenderModeRun_moves w _
  · exact replacerModeRun_moves w

end Moves

/-- **Simulation.** Every run is a run of the pool. -/
theorem xargsRun_leads (w : World) (opts : Options) {s : XargsMode} (hinv : s.procs.Inv) :
    Leads (ModeStep w) s.procs (finalState (xargsRun w opts s)).procs := by
  have hsteps := wp_finalState (P := fun _ t => s.Steps w t) (xargsRun_moves w opts s)
  exact (hsteps hinv).2

end Phxargs
