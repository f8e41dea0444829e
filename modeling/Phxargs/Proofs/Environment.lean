import Phxargs.Lib.Mirror
import Phxargs.Proofs.Ledger
import Phxargs.Proofs.Parallelism

/-!
# `Phxargs.Proofs.Environment`: what a run sees of the environment

The size of the environment is a field of the command, `env_length`, and it is part of every
length that is compared with the limit of `-s`. No function changes it, and apart from these
comparisons no function looks at it. So a run with another environment is the same run with
the field replaced (`withEnv`), as long as each comparison has the same answer for both sizes.

`ChecksAlike` is this condition along the tokens of the input. It depends on the options, the
operands, the tokens and the two sizes alone.
-/

set_option autoImplicit false

namespace Phxargs

open Lib

/-! ### Another environment -/

/-- The command with another size of the environment. -/
def Command.withEnv (envLength : Nat) (cmd : Command) : Command :=
  { cmd with envLength := envLength }

def OsEvent.withEnv (envLength : Nat) : OsEvent → OsEvent
  | .forked image child => .forked (image.withEnv envLength) child
  | .reaped child => .reaped child

def Os.withEnv (envLength : Nat) (os : Os) : Os :=
  { os with log := os.log.map (OsEvent.withEnv envLength) }

def Procs.withEnv (envLength : Nat) (s : Procs) : Procs :=
  { s with os := s.os.withEnv envLength }

/-- The mode, with the command and the history of another environment. -/
def XargsMode.withEnv (envLength : Nat) (s : XargsMode) : XargsMode :=
  { s with cmd := s.cmd.withEnv envLength, procs := s.procs.withEnv envLength }

/-- The argv of a child does not hold the environment. -/
theorem XargsMode.argvs_withEnv (envLength : Nat) (s : XargsMode) :
    (s.withEnv envLength).argvs = s.argvs := by
  show (((s.procs.os.log.map (OsEvent.withEnv envLength)).filterMap OsEvent.image?).map
    buildExecArgs) = (s.procs.os.log.filterMap OsEvent.image?).map buildExecArgs
  induction s.procs.os.log with
  | nil => rfl
  | cons event log ih =>
      cases event with
      | forked image child => exact congrArg (buildExecArgs image :: ·) ih
      | reaped child => exact ih

/-! ### The pool -/

section Pool

variable (w : World) (envLength : Nat)

/-- The answers of the world depend on the number of entries in the history. -/
theorem Os.fork_withEnv (image : Command) (os : Os) :
    (os.withEnv envLength).fork w (image.withEnv envLength)
      = (os.fork w image).map fun answer => (answer.1, answer.2.withEnv envLength) := by
  unfold Os.fork
  simp only [Os.withEnv, List.length_map]
  split
  · rfl
  · cases w.fork os.log.length with
    | none => rfl
    | some child => simp [OsEvent.withEnv]

theorem Os.waitpid_withEnv (os : Os) :
    (os.withEnv envLength).waitpid w
      = (os.waitpid w).map fun answer => (answer.1, answer.2.withEnv envLength) := by
  unfold Os.waitpid
  simp only [Os.withEnv, List.length_map]
  cases os.children[w.wait os.log.length % os.children.length]? with
  | none => rfl
  | some child => simp [OsEvent.withEnv]

theorem reapOne_mirrors (s : Procs) :
    Mirrors (Procs.withEnv envLength) (reapOne w) (reapOne w) s := by
  have hwait : (s.withEnv envLength).os.waitpid w
      = (s.os.waitpid w).map fun answer => (answer.1, answer.2.withEnv envLength) :=
    Os.waitpid_withEnv w envLength s.os
  unfold reapOne
  refine .get_bind ?_
  rw [hwait]
  -- A child carries no command, so the pool sees the same child on both sides.
  cases s.os.waitpid w with
  | none => exact .throw _
  | some answer =>
      refine .bind (.set rfl) ?_
      intro _ t _
      exact .ite Iff.rfl (fun _ => .throw _) fun _ => .modify rfl

theorem readSigusr1Count_mirrors (s : Procs) :
    Mirrors (Procs.withEnv envLength) (readSigusr1Count w) (readSigusr1Count w) s := rfl

theorem readSigusr2Count_mirrors (s : Procs) :
    Mirrors (Procs.withEnv envLength) (readSigusr2Count w) (readSigusr2Count w) s := rfl

theorem applySignalAdjustments_mirrors (s : Procs) :
    Mirrors (Procs.withEnv envLength) (applySignalAdjustments w) (applySignalAdjustments w) s := by
  unfold applySignalAdjustments
  refine .bind (readSigusr1Count_mirrors w envLength s) fun count1 t _ => .get_bind ?_
  refine .bind (readSigusr2Count_mirrors w envLength t) fun count2 u _ => .get_bind ?_
  refine .ite Iff.rfl (fun _ => .pure ()) fun _ => ?_
  refine .bind (readSigusr1Count_mirrors w envLength u) fun seen1 v _ => ?_
  refine .bind (.modify rfl) fun _ v' _ => ?_
  refine .bind (readSigusr2Count_mirrors w envLength v') fun seen2 x _ => ?_
  exact .bind (.modify rfl) fun _ x' _ => .modify rfl

theorem processPoolWaitIfFull_mirrors (s : Procs) :
    Mirrors (Procs.withEnv envLength) (processPoolWaitIfFull w) (processPoolWaitIfFull w) s :=
  .bind (applySignalAdjustments_mirrors w envLength s) fun _ t _ =>
    .get_bind (.whileDo (fun _ => rfl) (reapOne_mirrors w envLength) t.pool.count t)

theorem processPoolDrain_mirrors (s : Procs) :
    Mirrors (Procs.withEnv envLength) (processPoolDrain w) (processPoolDrain w) s :=
  .get_bind <| .bind (.whileDo (fun _ => rfl) (reapOne_mirrors w envLength) s.pool.count s)
    fun _ _ _ => .get_bind (.pure _)

theorem processPoolSubmit_mirrors (pid : Pid) (s : Procs) :
    Mirrors (Procs.withEnv envLength) (processPoolSubmit pid) (processPoolSubmit pid) s := by
  unfold processPoolSubmit
  refine .get_bind (.ite Iff.rfl (fun _ => ?_) fun _ => .modify rfl)
  exact .bind (.ofExcept _) fun _ _ _ => .modify rfl

end Pool

/-! ### The mode -/

section Mode

variable (w : World) (envLength : Nat)

/-- A function of the pool, called on the pool of the mode. -/
theorem onProcs_mirrors {α : Type} {m : EStateM Exit Procs α} {s : XargsMode}
    (h : Mirrors (Procs.withEnv envLength) m m s.procs) :
    Mirrors (XargsMode.withEnv envLength) (onProcs m) (onProcs m) s :=
  .focus rfl (fun _ => rfl) h

theorem xargsModeNextToken_mirrors (s : XargsMode) :
    Mirrors (XargsMode.withEnv envLength) xargsModeNextToken xargsModeNextToken s := by
  have hsame : (s.withEnv envLength).toker = s.toker := rfl
  unfold xargsModeNextToken
  refine .get_bind ?_
  rw [hsame]
  cases s.toker.tokens with
  | nil => exact .bind (.set rfl) fun _ _ _ => .pure none
  | cons token tokens => exact .bind (.set rfl) fun _ _ _ => .pure _

theorem commandExecuteAsync_mirrors (s : XargsMode) :
    Mirrors (XargsMode.withEnv envLength) (commandExecuteAsync w) (commandExecuteAsync w) s := by
  have hfork : (s.withEnv envLength).procs.os.fork w (s.withEnv envLength).cmd
      = (s.procs.os.fork w s.cmd).map fun answer => (answer.1, answer.2.withEnv envLength) :=
    Os.fork_withEnv w envLength s.cmd s.procs.os
  unfold commandExecuteAsync
  refine .get_bind ?_
  rw [hfork]
  cases s.procs.os.fork w s.cmd with
  | none => exact .throw _
  | some answer => exact .bind (.set rfl) fun _ _ _ => .pure _

theorem xargsModeExecuteCommand_mirrors (s : XargsMode) :
    Mirrors (XargsMode.withEnv envLength) (xargsModeExecuteCommand w) (xargsModeExecuteCommand w)
      s := by
  unfold xargsModeExecuteCommand
  refine .bind (onProcs_mirrors envLength (processPoolWaitIfFull_mirrors w envLength s.procs)) ?_
  intro _ t _
  refine .get_bind (.ite Iff.rfl (fun _ => .pure ()) fun _ => ?_)
  refine .bind (commandExecuteAsync_mirrors w envLength t) fun pid u _ => ?_
  exact onProcs_mirrors envLength (processPoolSubmit_mirrors envLength pid u.procs)

theorem xargsModeHalted_mirrors (s : XargsMode) :
    Mirrors (XargsMode.withEnv envLength) xargsModeHalted xargsModeHalted s :=
  .get_bind (.pure _)

theorem xargsModeDrain_mirrors (s : XargsMode) :
    Mirrors (XargsMode.withEnv envLength) (xargsModeDrain w) (xargsModeDrain w) s :=
  onProcs_mirrors envLength (processPoolDrain_mirrors w envLength s.procs)

theorem xargsModeTokenizerErrored_mirrors (s : XargsMode) :
    Mirrors (XargsMode.withEnv envLength) xargsModeTokenizerErrored xargsModeTokenizerErrored s :=
  .get_bind (.pure _)

theorem xargsModeTokenizerFailure_mirrors (s : XargsMode) :
    Mirrors (XargsMode.withEnv envLength) (xargsModeTokenizerFailure w)
      (xargsModeTokenizerFailure w) s :=
  .bind (xargsModeDrain_mirrors w envLength s) fun _ _ _ => .throw _

/-- The functions that grow a list do not look at the environment. -/
theorem commandAddInputArgument_withEnv (cmd : Command) (arg : CStr) :
    commandAddInputArgument (cmd.withEnv envLength) arg
      = (commandAddInputArgument cmd arg).map (Command.withEnv envLength) := by
  simp only [commandAddInputArgument, Command.withEnv]
  cases commandArgsAdd cmd.inputArgs arg with
  | error e => rfl
  | ok b => rfl

theorem commandReplaceArgs_withEnv (cmd : Command) (arg : CStr) :
    commandReplaceArgs (cmd.withEnv envLength) arg
      = (commandReplaceArgs cmd arg).map (Command.withEnv envLength) := by
  simp only [commandReplaceArgs, Command.withEnv]
  cases cmd.fixedArgs.args with
  | nil => rfl
  | cons commandWord args =>
      dsimp only
      cases commandArgsAdd cmd.replacedFixedArgs commandWord with
      | error e => rfl
      | ok a =>
          dsimp only
          cases addReplacedArguments cmd.argPlaceholder arg a args with
          | error e => rfl
          | ok b => rfl

theorem xargsModeAddInputArgument_mirrors (arg : CStr) (s : XargsMode) :
    Mirrors (XargsMode.withEnv envLength) (xargsModeAddInputArgument arg)
      (xargsModeAddInputArgument arg) s := by
  unfold xargsModeAddInputArgument
  refine .get_bind ?_
  show Mirrors _ _ (ofExcept (commandAddInputArgument (s.cmd.withEnv envLength) arg) >>= _) s
  rw [commandAddInputArgument_withEnv]
  cases commandAddInputArgument s.cmd arg with
  | error e => exact .throw e
  | ok cmd => exact .set rfl

theorem xargsReplaceArgs_mirrors (arg : CStr) (s : XargsMode) :
    Mirrors (XargsMode.withEnv envLength) (xargsReplaceArgs arg) (xargsReplaceArgs arg) s := by
  unfold xargsReplaceArgs
  refine .get_bind ?_
  show Mirrors _ _ (ofExcept (commandReplaceArgs (s.cmd.withEnv envLength) arg) >>= _) s
  rw [commandReplaceArgs_withEnv]
  cases commandReplaceArgs s.cmd arg with
  | error e => exact .throw e
  | ok cmd => exact .set rfl

end Mode

/-! ### The comparisons -/

/-- The comparison behind the add has the same answer for both sizes. -/
def AddAlike (envLength : Nat) (cmd : Command) (arg : CStr) : Prop :=
  match commandAddInputArgument cmd arg with
  | .error _ => True
  | .ok added =>
      commandShouldExecuteAfterArgAdded (added.withEnv envLength)
        = commandShouldExecuteAfterArgAdded added

/-- The comparisons of an appender iteration have the same answers for both sizes. -/
def AppenderAlike (envLength : Nat) (cmd : Command) (arg : CStr) : Prop :=
  commandArgWouldExceedLimits (cmd.withEnv envLength) arg = commandArgWouldExceedLimits cmd arg ∧
    match commandArgWouldExceedLimits cmd arg with
    | .error _ => True
    | .ok true => AddAlike envLength (recycleCommand cmd) arg
    | .ok false => AddAlike envLength cmd arg

/-- The comparison of a replacer iteration has the same answer for both sizes. -/
def ReplacerAlike (envLength : Nat) (cmd : Command) (arg : CStr) : Prop :=
  commandEnsureLengthNotExceeded (cmd.withEnv envLength) arg
    = commandEnsureLengthNotExceeded cmd arg

/-- The same for all tokens, as far as the plan reads them. -/
def ChecksAlike (alike : Command → CStr → Prop) (step : Command → CStr → Planned) :
    Command → List Token → Prop
  | _, [] => True
  | cmd, token :: tokens =>
      let counted := commandIncrementLineCount cmd token.boundaries
      alike counted token.arg ∧
        ∀ next, (step counted token.arg).2 = .ok next → ChecksAlike alike step next tokens

/-- A token whose step goes on with `next`. -/
theorem checksAlike_cons {alike : Command → CStr → Prop} {step : Command → CStr → Planned}
    {cmd next : Command} {token : Token} {tokens : List Token}
    (halike : alike (commandIncrementLineCount cmd token.boundaries) token.arg)
    (hstep : (step (commandIncrementLineCount cmd token.boundaries) token.arg).2 = .ok next)
    (hlater : ChecksAlike alike step next tokens) :
    ChecksAlike alike step cmd (token :: tokens) := by
  refine ⟨halike, ?_⟩
  intro next' hstep'
  rw [hstep] at hstep'
  exact Except.ok.inj hstep' ▸ hlater

/-- All comparisons that the mode of these options plans have the same answers. -/
def RunAlike (opts : Options) (envLength : Nat) (cmd : Command) (stream : TokenStream) : Prop :=
  if opts.argPlaceholder.isNone then
    ChecksAlike (AppenderAlike envLength) appenderStep cmd stream.tokens
  else
    ChecksAlike (ReplacerAlike envLength) replacerStep cmd stream.tokens

/-! ### The iterations -/

section Iterations

variable (w : World) {envLength : Nat}

theorem xargsModeShouldExecuteCommandAfterArgAdded_mirrors {s : XargsMode}
    (h : commandShouldExecuteAfterArgAdded (s.cmd.withEnv envLength)
      = commandShouldExecuteAfterArgAdded s.cmd) :
    Mirrors (XargsMode.withEnv envLength) (xargsModeShouldExecuteCommandAfterArgAdded w)
      (xargsModeShouldExecuteCommandAfterArgAdded w) s := by
  unfold xargsModeShouldExecuteCommandAfterArgAdded
  refine .get_bind ?_
  show Mirrors _ _ (if commandShouldExecuteAfterArgAdded (s.cmd.withEnv envLength) < 0 then _
    else Pure.pure (decide (commandShouldExecuteAfterArgAdded (s.cmd.withEnv envLength) > 0))) s
  rw [h]
  refine .ite Iff.rfl (fun _ => ?_) fun _ => .pure _
  exact .bind (onProcs_mirrors envLength (processPoolDrain_mirrors w envLength s.procs))
    fun _ _ _ => .throw _

theorem appenderModeAdd_mirrors {arg : CStr} {s : XargsMode} (h : AddAlike envLength s.cmd arg) :
    Mirrors (XargsMode.withEnv envLength) (appenderModeAdd w arg) (appenderModeAdd w arg) s := by
  unfold appenderModeAdd
  refine .bind (xargsModeAddInputArgument_mirrors envLength arg s) ?_
  intro _ t hadd
  -- The command has been added to, or the run has exited.
  have hcmd : commandShouldExecuteAfterArgAdded (t.cmd.withEnv envLength)
      = commandShouldExecuteAfterArgAdded t.cmd := by
    have hrun : wp (xargsModeAddInputArgument arg)
        (fun _ t => commandShouldExecuteAfterArgAdded (t.cmd.withEnv envLength)
          = commandShouldExecuteAfterArgAdded t.cmd) (fun _ _ => True) s := by
      simp only [xargsModeAddInputArgument, wp_bind, wp_get]
      unfold AddAlike at h
      cases hadded : commandAddInputArgument s.cmd arg with
      | error e => exact trivial
      | ok added =>
          rw [hadded] at h
          exact h
    exact (wp_of_ok hadd).mp hrun
  -- From here on, no length is compared.
  refine .bind (xargsModeShouldExecuteCommandAfterArgAdded_mirrors w hcmd) ?_
  intro execute u _
  refine .ite Iff.rfl (fun _ => ?_) fun _ => .pure false
  exact .bind (xargsModeExecuteCommand_mirrors w envLength u) fun _ v _ =>
    xargsModeHalted_mirrors envLength v

theorem appenderModeIteration_mirrors {arg : CStr} {s : XargsMode} (hinv : s.procs.Inv)
    (h : AppenderAlike envLength s.cmd arg) :
    Mirrors (XargsMode.withEnv envLength) (appenderModeIteration w arg)
      (appenderModeIteration w arg) s := by
  obtain ⟨hcheck, hadd⟩ := h
  unfold appenderModeIteration
  refine .bind (m := xargsModeArgWouldExceedLimits arg) ?_ ?_
  · refine .get_bind ?_
    show Mirrors _ _ (ofExcept (commandArgWouldExceedLimits (s.cmd.withEnv envLength) arg)) s
    rw [hcheck]
    exact .ofExcept _
  · intro exceeds t hexceeds
    -- The check changes nothing.
    have hrun : t = s ∧ commandArgWouldExceedLimits s.cmd arg = .ok exceeds := by
      have hwp : wp (xargsModeArgWouldExceedLimits arg)
          (fun exceeds t => t = s ∧ commandArgWouldExceedLimits s.cmd arg = .ok exceeds)
          (fun _ _ => True) s := by
        simp only [xargsModeArgWouldExceedLimits, wp_bind, wp_get]
        cases commandArgWouldExceedLimits s.cmd arg with
        | error e => exact trivial
        | ok exceeds => exact ⟨rfl, rfl⟩
      exact (wp_of_ok hexceeds).mp hwp
    obtain ⟨rfl, hresult⟩ := hrun
    rw [hresult] at hadd
    refine .ite Iff.rfl (fun hflush => ?_) fun hkeep => ?_
    · subst hflush
      refine .bind (xargsModeExecuteCommand_mirrors w envLength t) ?_
      intro _ u hexecute
      refine .bind (xargsModeHalted_mirrors envLength u) ?_
      intro halted v hhalted
      refine .ite Iff.rfl (fun _ => .pure true) fun hrunning => ?_
      -- Without a halt, the flush has recycled the command.
      have hv : v = u ∧ halted = u.halted := by
        cases hhalted
        exact ⟨rfl, rfl⟩
      obtain ⟨rfl, rfl⟩ := hv
      apply appenderModeAdd_mirrors
      rcases ((wp_of_ok hexecute).mp (xargsModeExecuteCommand_spec w hinv)).cases with
        ⟨hhalt, -⟩ | ⟨-, hcmd, -⟩
      · exact absurd hhalt hrunning
      · rw [hcmd]
        exact hadd
    · rw [Bool.eq_false_of_not_eq_true hkeep] at hadd
      exact appenderModeAdd_mirrors w hadd

theorem replacerModeIteration_mirrors {arg : CStr} {s : XargsMode}
    (h : ReplacerAlike envLength s.cmd arg) :
    Mirrors (XargsMode.withEnv envLength) (replacerModeIteration w arg)
      (replacerModeIteration w arg) s := by
  unfold replacerModeIteration
  refine .bind (m := xargsModeEnsureCommandLengthNotExceeded arg) ?_ ?_
  · refine .get_bind ?_
    show Mirrors _ _ (ofExcept (commandEnsureLengthNotExceeded (s.cmd.withEnv envLength) arg)) s
    rw [show commandEnsureLengthNotExceeded (s.cmd.withEnv envLength) arg = _ from h]
    exact .ofExcept _
  · intro _ t _
    refine .bind (xargsReplaceArgs_mirrors envLength arg t) fun _ u _ => ?_
    exact .bind (xargsModeExecuteCommand_mirrors w envLength u) fun _ v _ =>
      xargsModeHalted_mirrors envLength v

end Iterations

/-! ### The runs -/

section Runs

variable (w : World) {envLength : Nat}

/-- The loop of a mode. Each round finds the command that the plan has for its token. -/
theorem loop_mirrors {iteration : CStr → EStateM Exit XargsMode Bool}
    {step : Command → CStr → Planned} {alike : Command → CStr → Prop}
    (hstep : FollowsStep iteration step)
    (hiteration : ∀ {arg : CStr} {s : XargsMode}, s.procs.Inv → alike s.cmd arg →
      Mirrors (XargsMode.withEnv envLength) (iteration arg) (iteration arg) s)
    {s : XargsMode} (hs : s.Starts) (h : ChecksAlike alike step s.cmd s.toker.tokens) :
    Mirrors (XargsMode.withEnv envLength)
      (do forEach xargsModeNextToken iteration (← get).rounds false)
      (do forEach xargsModeNextToken iteration (← get).rounds false) s := by
  refine .get_bind ?_
  refine .forEach (fun _ t => t.procs.Inv ∧ t.halted = false ∧
    ChecksAlike alike step t.cmd t.toker.tokens) (xargsModeNextToken_mirrors envLength) ?_
    s.rounds false s ⟨hs.inv, hs.running, h⟩
  rintro n t arg u ⟨hinv, hrunning, halike⟩ hnext
  have hread : wp xargsModeNextToken
      (fun read u => ∀ arg, read = some arg → u.procs.Inv ∧ u.halted = false ∧ alike u.cmd arg ∧
        ∀ cmd, (step u.cmd arg).2 = .ok cmd → ChecksAlike alike step cmd u.toker.tokens)
      (fun _ _ => True) t := by
    simp only [xargsModeNextToken, wp_bind, wp_get]
    cases htokens : t.toker.tokens with
    | nil =>
        intro arg hnone
        cases hnone
    | cons token tokens =>
        rw [htokens] at halike
        intro arg harg
        cases harg
        exact ⟨hinv, hrunning, halike⟩
  -- The comparisons of this round, and those of the rest once the plan goes on as the run does.
  obtain ⟨hinv', hrunning', hround, hlater⟩ := (wp_of_ok hnext).mp hread arg rfl
  refine ⟨hiteration hinv' hround, ?_⟩
  intro v hbody
  have hiterates := (wp_of_ok hbody).mp (hstep arg hinv' hrunning')
  rcases hiterates.cases with ⟨-, hhalt, hcmd, -⟩ | ⟨hleave, -⟩
  · exact ⟨hiterates.inv, hhalt, hiterates.toker ▸ hlater v.cmd hcmd⟩
  · exact absurd hleave Bool.false_ne_true

theorem drain_mirrors (s : XargsMode) :
    Mirrors (XargsMode.withEnv envLength) (do return EXIT_SUCCESS ||| (← xargsModeDrain w))
      (do return EXIT_SUCCESS ||| (← xargsModeDrain w)) s :=
  .bind (xargsModeDrain_mirrors w envLength s) fun _ _ _ => .pure _

theorem appenderModeFinish_mirrors (suppress present : Bool) (s : XargsMode) :
    Mirrors (XargsMode.withEnv envLength) (appenderModeFinish w suppress present)
      (appenderModeFinish w suppress present) s := by
  have hexecute := xargsModeExecuteCommand_mirrors w envLength
  unfold appenderModeFinish
  cases present with
  | false =>
      cases suppress with
      | false => exact .bind (hexecute s) fun _ t _ => drain_mirrors w t
      | true => exact drain_mirrors w s
  | true =>
      refine .bind (m := xargsModeInputArgsRemain) (.get_bind (.pure _)) ?_
      intro remain t _
      cases remain with
      | false => exact drain_mirrors w t
      | true => exact .bind (hexecute t) fun _ u _ => drain_mirrors w u

/-- **Noninterference.** Where all comparisons have the same answers for both sizes, the run with
the other environment is the same run with the size replaced. -/
theorem xargsRun_mirrors {opts : Options} {s : XargsMode} (hs : s.Starts)
    (h : RunAlike opts envLength s.cmd s.toker) :
    Mirrors (XargsMode.withEnv envLength) (xargsRun w opts) (xargsRun w opts) s := by
  unfold xargsRun
  unfold RunAlike at h
  split at h
  · rename_i hmode
    rw [if_pos hmode]
    -- The loop is where all comparisons are made.
    have hloop := loop_mirrors
      (fun arg _ hinv hrunning => appenderModeIteration_spec w arg hinv hrunning)
      (fun hinv halike => appenderModeIteration_mirrors w hinv halike) hs h
    refine .bind (m := appenderModeLoop w) hloop fun present t _ => ?_
    refine .bind (xargsModeTokenizerErrored_mirrors envLength t) fun errored u _ => ?_
    refine .ite Iff.rfl (fun _ => xargsModeTokenizerFailure_mirrors w envLength u) fun _ => ?_
    exact appenderModeFinish_mirrors w _ present u
  · rename_i hmode
    rw [if_neg hmode]
    have hloop := loop_mirrors (fun arg _ hinv _ => replacerModeIteration_spec w arg hinv)
      (fun _ halike => replacerModeIteration_mirrors w halike) hs h
    refine .bind (m := replacerModeLoop w) hloop fun present t _ => ?_
    refine .bind (xargsModeTokenizerErrored_mirrors envLength t) fun errored u _ => ?_
    refine .ite Iff.rfl (fun _ => xargsModeTokenizerFailure_mirrors w envLength u) fun _ => ?_
    exact drain_mirrors w u

end Runs

/-! ### The options -/

/-- The list that `command_create` makes of the operands. -/
def fixedArguments (argIndex : Nat) (argv : List CStr) : Except Exit CommandArgs :=
  if argIndex = argv.length then
    addFixedArguments (commandArgsCreateWithCapacity 1) [DEFAULT_CMD]
  else
    addFixedArguments (commandArgsCreateWithCapacity (argv.length - argIndex)) (argv.drop argIndex)

/-- The largest `-s` that `ARG_MAX` leaves for an environment of this size. -/
def argMaxLength (argMax : Int) (envLength : Nat) : Nat :=
  if argMax > 0 then
    let margin := 2 * envLength + 2048
    if argMax.toNat > margin then argMax.toNat - margin else 0
  else
    128 * 1024

/-- The command that an accepted `-s` creates. -/
def createdCommand (opts : Options) (fixedArgs : CommandArgs) (envLength : Nat) : Command :=
  let settings : CommandSettings :=
    { maxLines := opts.maxLinesPerCommand
      maxArgs := opts.maxArgsPerCommand
      maxLength := opts.maxCommandLength
      argPlaceholder := opts.argPlaceholder
      openTty := opts.openTty
      prompt := opts.prompt
      trace := opts.trace
      terminateOnTooLargeCommand := opts.terminateOnTooLargeCommand
      lineMode := opts.lineModeSpecified
      envLength := envLength
      fixedArgs := fixedArgs }
  { settings with
    lineCount := 0
    inputArgs := freshInputArgs settings
    replacedFixedArgs := commandArgsCreateWithCapacity (commandArgsCount fixedArgs) }

theorem freshInputArgs_length (settings : CommandSettings) :
    commandArgsLength (freshInputArgs settings) = 0 := by
  unfold freshInputArgs
  split
  · rfl
  · rfl

/-- `decide_max_length` by cases of `-s`. -/
theorem decideMaxLength_eq (argMax : Int) (cmd : Command) (opts : Options) :
    decideMaxLength argMax cmd opts =
      if opts.maxCommandLengthSpecified then
        if opts.maxCommandLength < commandLength cmd then
          .error (Exit.failure (.maxLengthTooSmall opts.maxCommandLength (commandLength cmd)))
        else if opts.maxCommandLength > argMaxLength argMax cmd.envLength then
          .error (Exit.failure
            (.maxLengthTooLarge opts.maxCommandLength (argMaxLength argMax cmd.envLength)))
        else
          .ok opts.maxCommandLength
      else
        .ok (min (128 * 1024) (argMaxLength argMax cmd.envLength)) := by
  have hdefault : phxargsMin (128 * 1024) (argMaxLength argMax cmd.envLength)
      = min (128 * 1024) (argMaxLength argMax cmd.envLength) := phxargsMin_eq_min _ _
  rw [← hdefault]
  unfold decideMaxLength
  cases opts.maxCommandLengthSpecified with
  | false => rfl
  | true => rfl

theorem decideMaxLength_specified {argMax : Int} {cmd : Command} {opts : Options}
    (hspecified : opts.maxCommandLengthSpecified = true)
    (hmax : opts.maxCommandLength ≤ argMaxLength argMax cmd.envLength) :
    decideMaxLength argMax cmd opts =
      if opts.maxCommandLength < commandLength cmd then
        .error (Exit.failure (.maxLengthTooSmall opts.maxCommandLength (commandLength cmd)))
      else
        .ok opts.maxCommandLength := by
  rw [decideMaxLength_eq, if_pos hspecified, if_neg (Nat.not_lt.mpr hmax)]

/-- With `-s` within the maximum, the size of the environment decides only about the minimum. -/
theorem commandCreate_specified {sys : System} {opts : Options}
    (hspecified : opts.maxCommandLengthSpecified = true)
    (hmax : opts.maxCommandLength ≤ argMaxLength sys.argMax (calcEnvLength sys.environ))
    (argIndex : Nat) (argv : List CStr) :
    commandCreate sys opts argIndex argv =
      match fixedArguments argIndex argv with
      | .error e => .error e
      | .ok fixedArgs =>
          let minLength := calcEnvLength sys.environ + commandArgsLength fixedArgs
          if opts.maxCommandLength < minLength then
            .error (Exit.failure (.maxLengthTooSmall opts.maxCommandLength minLength))
          else
            .ok (createdCommand opts fixedArgs (calcEnvLength sys.environ)) := by
  unfold commandCreate
  show (match fixedArguments argIndex argv with | .error e => _ | .ok fixedArgs => _) = _
  cases fixedArguments argIndex argv with
  | error e => rfl
  | ok fixedArgs =>
      dsimp only
      rw [decideMaxLength_specified hspecified hmax]
      -- The new command has no input arguments.
      have hlength : ∀ settings : CommandSettings,
          commandLength ⟨settings, 0, freshInputArgs settings,
            commandArgsCreateWithCapacity (commandArgsCount fixedArgs)⟩
          = settings.envLength + commandArgsLength settings.fixedArgs := by
        intro settings
        show settings.envLength + commandArgsLength settings.fixedArgs
          + commandArgsLength (freshInputArgs settings) = _
        rw [freshInputArgs_length, Nat.add_zero]
      rw [hlength]
      dsimp only
      by_cases hsmall : opts.maxCommandLength < calcEnvLength sys.environ + commandArgsLength fixedArgs
      · rw [if_pos hsmall, if_pos hsmall]
      · rw [if_neg hsmall, if_neg hsmall]
        rfl

/-- A length is on the same side of the limit for both sizes. -/
def SeenAlike (envLength envLength' limit length : Nat) : Prop :=
  limit < envLength + length ↔ limit < envLength' + length

/-- The command is created exactly if `-s` is not below the minimum. -/
theorem commandCreate_isOk_iff (sys : System) {opts : Options}
    (hspecified : opts.maxCommandLengthSpecified = true)
    (hmax : opts.maxCommandLength ≤ argMaxLength sys.argMax (calcEnvLength sys.environ))
    {argIndex : Nat} {argv : List CStr} :
    (∃ cmd, commandCreate sys opts argIndex argv = .ok cmd) ↔
      ∃ fixedArgs, fixedArguments argIndex argv = .ok fixedArgs ∧
        ¬ opts.maxCommandLength < calcEnvLength sys.environ + commandArgsLength fixedArgs := by
  rw [commandCreate_specified hspecified hmax]
  cases fixedArguments argIndex argv with
  | error e =>
      constructor
      · exact fun ⟨_, h⟩ => nomatch h
      · exact fun ⟨_, h, _⟩ => nomatch h
  | ok fixedArgs =>
      dsimp only
      split
      · rename_i hsmall
        constructor
        · exact fun ⟨_, h⟩ => nomatch h
        · rintro ⟨fixedArgs', hsame, hlarge⟩
          cases hsame
          exact absurd hsmall hlarge
      · rename_i hlarge
        exact iff_of_true ⟨_, rfl⟩ ⟨fixedArgs, rfl, hlarge⟩

/-- Two commands that are created for two environments differ in the size only. -/
theorem commandCreate_withEnv {sys : System} {environ : List CStr} {opts : Options}
    (hspecified : opts.maxCommandLengthSpecified = true)
    (hmax : opts.maxCommandLength ≤ argMaxLength sys.argMax (calcEnvLength sys.environ))
    (hmax' : opts.maxCommandLength ≤ argMaxLength sys.argMax (calcEnvLength environ))
    {argIndex : Nat} {argv : List CStr} {cmd cmd' : Command}
    (h : commandCreate sys opts argIndex argv = .ok cmd)
    (h' : commandCreate { sys with environ := environ } opts argIndex argv = .ok cmd') :
    cmd' = cmd.withEnv (calcEnvLength environ) := by
  rw [commandCreate_specified hspecified hmax] at h
  rw [commandCreate_specified hspecified hmax'] at h'
  cases hfixed : fixedArguments argIndex argv with
  | error e => rw [hfixed] at h; cases h
  | ok fixedArgs =>
      rw [hfixed] at h h'
      dsimp only at h h'
      -- Both environments pass the check for the minimum.
      split at h
      · cases h
      · split at h'
        · cases h'
        · cases h
          cases h'
          rfl

/-- The mode is created exactly if its command is. -/
theorem xargsCreate_isOk_iff (sys : System) {scanned : List Getopt} {optind : Nat}
    {argv : List CStr} {stream : TokenStream} {opts : Options}
    (hopts : optionsCreate sys.childMax scanned optind = .ok opts) :
    (∃ created, xargsCreate sys scanned optind argv stream = .ok created) ↔
      ∃ cmd, commandCreate sys opts opts.optindVal argv = .ok cmd := by
  unfold xargsCreate xargsModeCreate
  rw [hopts]
  simp only [bind, Except.bind]
  cases commandCreate sys opts opts.optindVal argv with
  | error e =>
      constructor
      · exact fun ⟨_, h⟩ => nomatch h
      · exact fun ⟨_, h⟩ => nomatch h
  | ok cmd => exact iff_of_true ⟨_, rfl⟩ ⟨cmd, rfl⟩

/-- Two modes that are created for two environments differ in the size only. -/
theorem xargsCreate_withEnv {sys : System} {environ : List CStr} {scanned : List Getopt}
    {optind : Nat} {argv : List CStr} {stream : TokenStream} {opts : Options} {s s' : XargsMode}
    (hspecified : opts.maxCommandLengthSpecified = true)
    (hmax : opts.maxCommandLength ≤ argMaxLength sys.argMax (calcEnvLength sys.environ))
    (hmax' : opts.maxCommandLength ≤ argMaxLength sys.argMax (calcEnvLength environ))
    (h : xargsCreate sys scanned optind argv stream = .ok (opts, s))
    (h' : xargsCreate { sys with environ := environ } scanned optind argv stream
      = .ok (opts, s')) : s' = s.withEnv (calcEnvLength environ) := by
  obtain ⟨-, hstarts, htoker, hcommand⟩ := xargsCreate_spec h
  obtain ⟨-, hstarts', htoker', hcommand'⟩ := xargsCreate_spec h'
  have hcmd := commandCreate_withEnv hspecified hmax hmax' hcommand hcommand'
  have hprocs : s'.procs = s.procs := (xargsCreate_procs h').trans (xargsCreate_procs h).symm
  -- A new pool has no history.
  have hlog : s.procs.withEnv (calcEnvLength environ) = s.procs := by
    rw [xargsCreate_procs h]
    rfl
  calc
    s' = ⟨s'.cmd, s'.toker, s'.tokerError, s'.procs⟩ := rfl
    _ = ⟨s.cmd.withEnv (calcEnvLength environ), s.toker, s.tokerError,
          s.procs.withEnv (calcEnvLength environ)⟩ := by
      rw [hcmd, htoker'.trans htoker.symm, hstarts'.noError.trans hstarts.noError.symm, hprocs, hlog]
    _ = s.withEnv (calcEnvLength environ) := rfl

/-- **The environment.** Take an accepted option sequence with `-s`, and two environments that
leave this `-s` within the maximum. Both runs are accepted or both are rejected, if and only
if the operands are on the same side of `-s` for both sizes. If both are accepted, and all
comparisons of the plan have the same answers for both sizes, then in every world both runs
fork the same sequence of argvs, and they have the same result. -/
theorem xargsRun_environment {sys : System} {environ : List CStr} {scanned : List Getopt}
    {optind : Nat} {argv : List CStr} {stream : TokenStream} {opts : Options}
    (hopts : optionsCreate sys.childMax scanned optind = .ok opts)
    (hspecified : opts.maxCommandLengthSpecified = true)
    (hmax : opts.maxCommandLength ≤ argMaxLength sys.argMax (calcEnvLength sys.environ))
    (hmax' : opts.maxCommandLength ≤ argMaxLength sys.argMax (calcEnvLength environ)) :
    let sys' : System := { sys with environ := environ }
    (((∃ created, xargsCreate sys scanned optind argv stream = .ok created) ↔
        ∃ created, xargsCreate sys' scanned optind argv stream = .ok created) ↔
      ∀ fixedArgs, fixedArguments opts.optindVal argv = .ok fixedArgs →
        SeenAlike (calcEnvLength sys.environ) (calcEnvLength environ) opts.maxCommandLength
          (commandArgsLength fixedArgs)) ∧
    ∀ s s', xargsCreate sys scanned optind argv stream = .ok (opts, s) →
      xargsCreate sys' scanned optind argv stream = .ok (opts, s') →
      RunAlike opts (calcEnvLength environ) s.cmd stream → ∀ w,
        (finalState (xargsRun w opts s')).argvs = (finalState (xargsRun w opts s)).argvs ∧
        xargsRun w opts s' = mapState (XargsMode.withEnv (calcEnvLength environ))
          (xargsRun w opts s) := by
  intro sys'
  constructor
  · -- With `-s` within the maximum for both, the minimum is the only check that sees the size.
    rw [xargsCreate_isOk_iff sys hopts, xargsCreate_isOk_iff sys' hopts,
      commandCreate_isOk_iff sys hspecified hmax, commandCreate_isOk_iff sys' hspecified hmax']
    cases fixedArguments opts.optindVal argv with
    | error e => simp
    | ok fixedArgs =>
        simp only [Except.ok.injEq, exists_eq_left', forall_eq']
        exact not_iff_not
  · intro s s' h h' halike w
    obtain ⟨-, hstarts, htoker, -⟩ := xargsCreate_spec h
    have hsame := xargsCreate_withEnv hspecified hmax hmax' h h'
    rw [← htoker] at halike
    have hrun : xargsRun w opts s' = mapState (XargsMode.withEnv (calcEnvLength environ))
        (xargsRun w opts s) := by
      rw [hsame]
      exact xargsRun_mirrors w hstarts halike
    refine ⟨?_, hrun⟩
    rw [hrun, finalState_mapState, XargsMode.argvs_withEnv]

/-- `printf 'a\nb\nc\n' | phxargs -s 12 c`, without an environment and with `k=v`. With it, `a b c`
has exactly 12 bytes. -/
theorem xargsRun_environment_fits :
    ∃ opts s s', xargsCreate System.bare [.opts [49, 50]] 3 [[120], [45, 115], [49, 50], [99]]
        (.ofLines [[97], [98], [99]]) = .ok (opts, s) ∧
      xargsCreate { System.bare with environ := [[107, 61, 118]] } [.opts [49, 50]] 3
        [[120], [45, 115], [49, 50], [99]] (.ofLines [[97], [98], [99]]) = .ok (opts, s') ∧
      (finalState (xargsRun World.quiet opts s')).argvs
        = (finalState (xargsRun World.quiet opts s)).argvs := by
  obtain ⟨opts, s, s', hcreate, hcreate', hopts, hspecified, hmax, hmax', halike⟩ : ∃ opts s s',
      xargsCreate System.bare [.opts [49, 50]] 3 [[120], [45, 115], [49, 50], [99]]
        (.ofLines [[97], [98], [99]]) = .ok (opts, s) ∧
      xargsCreate { System.bare with environ := [[107, 61, 118]] } [.opts [49, 50]] 3
        [[120], [45, 115], [49, 50], [99]] (.ofLines [[97], [98], [99]]) = .ok (opts, s') ∧
      optionsCreate System.bare.childMax [.opts [49, 50]] 3 = .ok opts ∧
      opts.maxCommandLengthSpecified = true ∧
      opts.maxCommandLength ≤ argMaxLength System.bare.argMax (calcEnvLength System.bare.environ) ∧
      opts.maxCommandLength ≤ argMaxLength System.bare.argMax (calcEnvLength [[107, 61, 118]]) ∧
      RunAlike opts (calcEnvLength [[107, 61, 118]]) s.cmd (.ofLines [[97], [98], [99]]) := by
    exact ⟨_, _, _, rfl, rfl, rfl, rfl, by decide +kernel, by decide +kernel,
      checksAlike_cons ⟨rfl, rfl⟩ rfl <| checksAlike_cons ⟨rfl, rfl⟩ rfl <|
        checksAlike_cons ⟨rfl, rfl⟩ rfl trivial⟩
  have hrun := (xargsRun_environment hopts hspecified hmax hmax').2 s s' hcreate hcreate' halike
  exact ⟨opts, s, s', hcreate, hcreate', (hrun World.quiet).1⟩

/-- The same with `-s 11`: without an environment one command is forked, and with `k=v` the three
strings do not fit into one. -/
theorem environment_splits :
    ∃ opts s s', xargsCreate System.bare [.opts [49, 49]] 3 [[120], [45, 115], [49, 49], [99]]
        (.ofLines [[97], [98], [99]]) = .ok (opts, s) ∧
      xargsCreate { System.bare with environ := [[107, 61, 118]] } [.opts [49, 49]] 3
        [[120], [45, 115], [49, 49], [99]] (.ofLines [[97], [98], [99]]) = .ok (opts, s') ∧
      opts.maxCommandLength ≤ argMaxLength System.bare.argMax (calcEnvLength [[107, 61, 118]]) ∧
      (finalState (xargsRun World.quiet opts s)).argvs = [[[99], [97], [98], [99]]] ∧
      (finalState (xargsRun World.quiet opts s')).argvs = [[[99], [97], [98]], [[99], [99]]] := by
  exact ⟨_, _, _, rfl, rfl, by decide +kernel, by decide +kernel, by decide +kernel⟩

end Phxargs
