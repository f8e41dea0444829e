import Phxargs.Proofs.CommandLine
import Phxargs.Proofs.Conservation
import Phxargs.Proofs.ExitStatus
import Phxargs.Proofs.Substitution

/-!
# `Phxargs.Proofs.Main`: how the program ends

`main` returns what `xargs_run` returns, or one of the functions below it calls `exit`. Each of
these exits fails with a report (`xargsRun_fails`), and a normal return has reaped every child and
carries the worst of their statuses. So a caller can tell the two apart by the status alone
(`phxargsMain_ends`).

`phxargsMain_success` is what status 0 means, and `planOf_delivers` that the input has been passed on
then.
-/

set_option autoImplicit false

namespace Phxargs

open Lib

/-! ### The creation fails with a report -/

/-- The program failed, and says why. Nothing has been forked. -/
structure ProcessEnd.Refused (p : ProcessEnd) : Prop where
  status : p.status = EXIT_FAILURE
  complains : Complains p.report
  warnings : p.warnings = []
  os : p.os = Os.init

theorem Exit.Reported.refused {e : Exit} (h : e.Reported) : (ProcessEnd.refused e).Refused where
  status := h.complains.1
  complains := h.complains.2
  warnings := rfl
  os := rfl

/-- A file that cannot be opened is named. -/
theorem argSourceOpen_error {m : Machine} {path : Option CStr} {ended : ProcessEnd}
    (h : argSourceOpen m path = .error ended) : ended.Refused := by
  cases path with
  | none => cases h
  | some file =>
      simp only [argSourceOpen] at h
      cases hopen : m.fopen file with
      | ok source => rw [hopen] at h; cases h
      | error reason =>
          rw [hopen] at h
          cases h
          have hname : Complains (toString "phxargs: ") := ⟨"", by decide⟩
          exact ⟨rfl, ((hname.append _).append _).append _, rfl, rfl⟩

theorem addFixedArguments_error : ∀ (args : List CStr) {a : CommandArgs} {e : Exit},
    addFixedArguments a args = .error e → e = Exit.failure .internalLimitExceeded := by
  intro args
  induction args with
  | nil => intro a e h; cases h
  | cons arg args ih =>
      intro a e h
      rw [addFixedArguments] at h
      cases hadd : commandArgsAdd a arg with
      | error e' =>
          rw [hadd] at h
          cases h
          exact commandArgsAdd_error hadd
      | ok b => rw [hadd] at h; exact ih h

theorem decideMaxLength_reported {argMax : Int} {cmd : Command} {opts : Options} {e : Exit}
    (h : decideMaxLength argMax cmd opts = .error e) : e.Reported := by
  unfold decideMaxLength at h
  dsimp only at h
  generalize (if argMax > 0 then _ else _ : Nat) = maxLength at h
  split at h
  · cases h
  · split at h
    · cases h
      exact Exit.reported_failure (by simp) (by simp)
    · split at h
      · cases h
        exact Exit.reported_failure (by simp) (by simp)
      · cases h

theorem commandCreate_reported {sys : System} {opts : Options} {argIndex : Nat} {argv : List CStr}
    {e : Exit} (h : commandCreate sys opts argIndex argv = .error e) : e.Reported := by
  unfold commandCreate at h
  dsimp only at h
  split at h
  · rename_i e' hfixed
    cases h
    -- The operands do not fit into memory.
    have hlimit : e = Exit.failure .internalLimitExceeded := by
      split at hfixed
      · exact addFixedArguments_error _ hfixed
      · exact addFixedArguments_error _ hfixed
    rw [hlimit]
    exact Exit.reported_failure (by simp) (by simp)
  · split at h
    · rename_i e' hmax
      cases h
      exact decideMaxLength_reported hmax
    · cases h

theorem phxargsCalloc_reported {m : Machine} {count size : Nat} {e : Exit}
    (h : m.phxargsCalloc count size = .error e) : e.Reported := by
  unfold Machine.phxargsCalloc at h
  split at h
  · cases h
  · cases h
    exact Exit.reported_failure (by simp) (by simp)

theorem commandCreateFrom_reported {m : Machine} {opts : Options} {argv : List CStr} {e : Exit}
    (h : commandCreateFrom m opts argv = .error e) : e.Reported := by
  unfold commandCreateFrom at h
  split at h
  · rename_i hslots
    cases h
    exact phxargsCalloc_reported hslots
  · split at h
    · rename_i hcmd
      cases h
      exact commandCreate_reported hcmd
    · dsimp only at h
      split at h
      · rename_i htable
        cases h
        exact phxargsCalloc_reported htable
      · split at h
        · rename_i hbuffer
          cases h
          exact phxargsCalloc_reported hbuffer
        · cases h

/-- Whatever the creation fails in is reported. -/
theorem xargsCreateFrom_refused {m : Machine} {argv : List CStr} {ended : ProcessEnd}
    (h : xargsCreateFrom m argv = .error ended) : ended.Refused := by
  unfold xargsCreateFrom at h
  cases hopts : optionsCreateFrom m.sys.childMax argv with
  | error e =>
      rw [hopts] at h
      cases h
      exact (optionsCreate_reported hopts).refused
  | ok opts =>
      rw [hopts] at h
      dsimp only at h
      cases hsource : argSourceOpen m opts.argFilePath with
      | error ended' =>
          rw [hsource] at h
          cases h
          exact argSourceOpen_error hsource
      | ok source =>
          rw [hsource] at h
          dsimp only at h
          cases hcmd : commandCreateFrom m opts argv with
          | error e =>
              rw [hcmd] at h
              cases h
              exact (commandCreateFrom_reported hcmd).refused
          | ok cmd =>
              simp only [hcmd, xargsModeCreate, (commandCreateFrom_ok.mp hcmd).1] at h
              cases h

/-! ### A run fails with a report -/

/-- An exit in the middle of a run is a failure with a report. -/
def Fails (e : Exit) (t : XargsMode) : Prop := e.status = EXIT_FAILURE ∧ Complains (reportOf e t)

theorem Exit.Reported.fails {e : Exit} (h : e.Reported) (t : XargsMode) : Fails e t := by
  obtain ⟨hstatus, hcomplains⟩ := h.complains
  obtain ⟨d, rfl, hreported, -⟩ := h
  refine ⟨hstatus, ?_⟩
  have hreport : reportOf (Exit.failure d) t = d.text := by
    cases d with
    | alreadyReported => exact absurd rfl hreported
    | _ => rfl
  rw [hreport]
  exact hcomplains

theorem fails_of_failure {d : Diagnostic} (hreported : d ≠ .alreadyReported)
    (hassert : d ≠ .assertionFailed) (t : XargsMode) : Fails (Exit.failure d) t :=
  (Exit.reported_failure hreported hassert).fails t

/-- A tokenizer reports every error that it sets. -/
theorem TokenizerError.text_complains {error : TokenizerError} (h : error ≠ .none) :
    Complains error.text := by
  cases error with
  | none => exact absurd rfl h
  | io => exact ⟨"I/O error", by decide⟩
  | backslashAtEof => exact ⟨"backslash at EOF", by decide⟩
  | unterminatedQuote => exact ⟨"unterminated quote", by decide⟩

/-- A failed `fork` is the only exit of an execution. -/
theorem xargsModeExecuteCommand_fails (w : World) {s : XargsMode} (hinv : s.procs.Inv) :
    wp (xargsModeExecuteCommand w) (fun _ _ => True) Fails s := by
  apply wp_mono (xargsModeExecuteCommand_spec w hinv)
  · exact fun _ _ _ => trivial
  · rintro e t ⟨rfl, -⟩
    exact fails_of_failure (by simp) (by simp) t

theorem appenderModeAdd_fails (w : World) (arg : CStr) {s : XargsMode} (hinv : s.procs.Inv) :
    wp (appenderModeAdd w arg) (fun _ _ => True) Fails s := by
  apply wp_appenderModeAdd
  · intro e he
    rw [commandAddInputArgument_error he]
    exact fails_of_failure (by simp) (by simp) s
  · intro cmd _ _
    exact wp_mono_noExit (xargsModeDrain_spec w (s := { s with cmd := cmd }) hinv)
      fun _ t _ => fails_of_failure (by simp) (by simp) t
  · exact fun cmd _ _ => xargsModeExecuteCommand_fails w (s := { s with cmd := cmd }) hinv
  · exact fun _ _ _ _ => trivial

theorem appenderModeIteration_fails (w : World) (arg : CStr) {s : XargsMode} (hinv : s.procs.Inv) :
    wp (appenderModeIteration w arg) (fun _ _ => True) Fails s := by
  apply wp_appenderModeIteration
  · intro e he
    rw [commandArgWouldExceedLimits_error he]
    exact fails_of_failure (by simp) (by simp) s
  · intro _
    apply wp_mono (wp_and (xargsModeExecuteCommand_fails w hinv)
      (xargsModeExecuteCommand_spec w hinv))
    · intro _ t ht
      exact ⟨fun _ => trivial, fun _ => appenderModeAdd_fails w arg ht.2.inv⟩
    · exact fun _ _ ht => ht.1
  · exact fun _ => appenderModeAdd_fails w arg hinv

theorem replacerModeIteration_fails (w : World) (arg : CStr) {s : XargsMode} (hinv : s.procs.Inv) :
    wp (replacerModeIteration w arg) (fun _ _ => True) Fails s := by
  apply wp_replacerModeIteration
  · intro e he
    rw [commandEnsureLengthNotExceeded_error he]
    exact fails_of_failure (by simp) (by simp) s
  · intro e _ he
    rcases commandReplaceArgs_error he with rfl | rfl
    · exact fails_of_failure (by simp) (by simp) s
    · exact fails_of_failure (by simp) (by simp) s
  · exact fun cmd _ _ => xargsModeExecuteCommand_fails w (s := { s with cmd := cmd }) hinv

theorem appenderModeFinish_fails (w : World) (suppress present : Bool) {s : XargsMode}
    (hinv : s.procs.Inv) :
    wp (appenderModeFinish w suppress present) (fun _ _ => True) Fails s := by
  apply wp_appenderModeFinish
  · intro _
    apply wp_mono (wp_and (xargsModeExecuteCommand_fails w hinv)
      (xargsModeExecuteCommand_spec w hinv))
    · exact fun _ _ ht => wp_mono_noExit (xargsModeDrain_spec w ht.2.inv) fun _ _ _ => trivial
    · exact fun _ _ ht => ht.1
  · exact fun _ => wp_mono_noExit (xargsModeDrain_spec w hinv) fun _ _ _ => trivial

/-- Every exit of a run is a failure with a report. -/
theorem xargsRun_fails (w : World) (opts : Options) {s : XargsMode} (h : s.Starts) :
    wp (xargsRun w opts) (fun _ _ => True) Fails s := by
  -- The drain in front of the exit keeps the error of the tokenizer.
  have herrored : ∀ {t : XargsMode}, t.procs.Inv → t.tokerError ≠ .none →
      wp (xargsModeDrain w) (fun _ u => Fails (Exit.failure .alreadyReported) u) Fails t := by
    intro t hinv herror
    simp only [xargsModeDrain, onProcs, wp_focus]
    exact wp_mono_noExit (processPoolDrain_spec w hinv)
      fun _ _ _ => ⟨rfl, TokenizerError.text_complains herror⟩
  unfold xargsRun
  split
  · apply wp_loopAndFinish
    have hloop := loop_exits
      (fun arg _ hinv hrunning => appenderModeIteration_spec w arg hinv hrunning)
      (fun arg _ hinv _ => appenderModeIteration_fails w arg hinv) h
    apply wp_mono_return (m := appenderModeLoop w) hloop
    exact fun present t hinv =>
      ⟨fun _ => appenderModeFinish_fails w _ present hinv, fun herror => herrored hinv herror⟩
  · apply wp_loopAndFinish
    have hloop := loop_exits (fun arg _ hinv _ => replacerModeIteration_spec w arg hinv)
      (fun arg _ hinv _ => replacerModeIteration_fails w arg hinv) h
    apply wp_mono_return (m := replacerModeLoop w) hloop
    intro present t hinv
    refine ⟨fun _ => ?_, fun herror => herrored hinv herror⟩
    rw [wp_bind]
    exact wp_mono_noExit (xargsModeDrain_spec w hinv) fun _ _ _ => trivial

/-! ### The two ways to end -/

/-- Without a report there is no complaint. -/
theorem not_complains_empty : ¬ Complains "" := by
  rintro ⟨rest, hreport⟩
  have hlength := congrArg String.length hreport
  rw [String.length_append, show "phxargs: ".length = 9 by decide,
    show "".length = 0 from rfl] at hlength
  omega

/-- The program did its work: no failure to report, no child left, every child reaped, and the most
severe of their statuses. -/
structure ProcessEnd.Finished (p : ProcessEnd) : Prop where
  report : p.report = ""
  children : p.os.children = []
  reaped : p.os.reapedChildren.Perm p.os.forkedChildren
  status : WorstStatus p.os.forkedChildren p.status

/-- A mode that has been created is ready to run. -/
theorem xargsCreateFrom_starts {m : Machine} {argv : List CStr} {opts : Options} {mode : XargsMode}
    (h : xargsCreateFrom m argv = .ok (opts, mode)) :
    opts.Valid ∧ mode.Starts ∧ mode.procs = Procs.start m.sys.childMax opts.maxProcs [] := by
  have hcreate := xargsCreateFrom_xargsCreate h
  exact ⟨(xargsCreate_spec hcreate).1, (xargsCreate_spec hcreate).2.1, xargsCreate_procs hcreate⟩

/-- A run that returns has finished. -/
theorem xargsRun_finished {m : Machine} {argv : List CStr} {opts : Options} {mode : XargsMode}
    (h : xargsCreateFrom m argv = .ok (opts, mode)) {w : World} {status : Nat} {mode' : XargsMode}
    (hrun : xargsRun w opts mode = .ok status mode') :
    (ProcessEnd.mk status "" mode'.procs.warnings mode'.procs.os).Finished := by
  obtain ⟨-, hstarts, hprocs⟩ := xargsCreateFrom_starts h
  obtain ⟨hreaped, hworst⟩ := xargsRun_worstStatus hprocs hrun
  have hreturns := (wp_of_ok hrun).mp (xargsRun_returns w opts hstarts.inv)
  exact ⟨rfl, hreturns.1, hreaped, hworst⟩

/-- A complaint with status 1, or a finished run. -/
theorem phxargsMain_cases (m : Machine) (w : World) (argv : List CStr) :
    ((phxargsMain m w argv).status = EXIT_FAILURE ∧ Complains (phxargsMain m w argv).report) ∨
      (phxargsMain m w argv).Finished := by
  unfold phxargsMain
  cases hcreate : xargsCreateFrom m argv with
  | error ended =>
      have hrefused := xargsCreateFrom_refused hcreate
      exact .inl ⟨hrefused.status, hrefused.complains⟩
  | ok created =>
      obtain ⟨opts, mode⟩ := created
      obtain ⟨-, hstarts, -⟩ := xargsCreateFrom_starts hcreate
      dsimp only
      cases hrun : xargsRun w opts mode with
      | ok status mode' => exact .inr (xargsRun_finished hcreate hrun)
      | error e mode' => exact .inl ((wp_of_error hrun).mp (xargsRun_fails w opts hstarts))

/-- The status 1 is that of a failure and of nothing else. -/
theorem phxargsMain_complains_iff (m : Machine) (w : World) (argv : List CStr) :
    (phxargsMain m w argv).status = EXIT_FAILURE ↔ Complains (phxargsMain m w argv).report := by
  rcases phxargsMain_cases m w argv with ⟨hstatus, hcomplains⟩ | hfinished
  · exact iff_of_true hstatus hcomplains
  · apply iff_of_false
    · -- No mapped status is 1.
      intro hone
      have hmapped := hfinished.status.isMapped
      rw [hone] at hmapped
      revert hmapped
      unfold IsMapped EXIT_FAILURE
      omega
    · rw [hfinished.report]
      exact not_complains_empty

/-- Another status is that of a run that has finished. -/
theorem phxargsMain_finished {m : Machine} {w : World} {argv : List CStr}
    (h : (phxargsMain m w argv).status ≠ EXIT_FAILURE) : (phxargsMain m w argv).Finished :=
  (phxargsMain_cases m w argv).resolve_left fun hfails => h hfails.1

/-- However the program ends, it has warned of the children that it has reaped, and of nothing
else. -/
theorem phxargsMain_warned (m : Machine) (w : World) (argv : List CStr) :
    (phxargsMain m w argv).warnings = warningsOf (phxargsMain m w argv).os.reapedChildren := by
  unfold phxargsMain
  cases hcreate : xargsCreateFrom m argv with
  | error ended =>
      have hrefused := xargsCreateFrom_refused hcreate
      dsimp only
      rw [hrefused.warnings, hrefused.os]
      rfl
  | ok created =>
      obtain ⟨opts, mode⟩ := created
      have hwarned := xargsRun_warned w opts (xargsCreateFrom_starts hcreate).2.2
      dsimp only
      cases hrun : xargsRun w opts mode with
      | ok status mode' => rw [hrun] at hwarned; exact hwarned
      | error e mode' => rw [hrun] at hwarned; exact hwarned

/-- The mapped status 0 is that of a command that exits with 0. -/
theorem Child.mappedStatus_eq_zero {child : Child} : child.mappedStatus = 0 ↔ child.status = .exited 0 := by
  unfold Child.mappedStatus
  cases child.status with
  | signaled sig => simp [childExitStatus, PHXARGS_STATUS_SIGNALLED]
  | exited code =>
      by_cases hzero : code = 0
      · simp [childExitStatus, hzero]
      · by_cases hhalt : code = 255
        · simp [childExitStatus, hhalt, PHXARGS_STATUS_HALT]
        · by_cases hcode : code = 126 ∨ code = 127
          · rcases hcode with rfl | rfl <;> simp [childExitStatus]
          · simp [childExitStatus, hzero, hhalt, hcode, PHXARGS_STATUS_CHILD_FAILED]

/-- The worst status is 0 if and only if every command exits with 0. -/
theorem WorstStatus.eq_zero_iff {children : List Child} {status : Nat}
    (h : WorstStatus children status) :
    status = 0 ↔ ∀ child ∈ children, child.status = .exited 0 := by
  constructor
  · intro hzero child hchild
    have hle := h.max child hchild
    rw [hzero] at hle
    -- Nothing is less severe than 0.
    have hsame : severity child.mappedStatus = severity 0 := Nat.le_zero.mp hle
    exact Child.mappedStatus_eq_zero.mp
      (severity_inj (childExitStatus_isMapped child.status) (.inl rfl) hsame)
  · intro hall
    exact h.mem_of_forall (P := fun status => status = 0) rfl
      fun child hchild => Child.mappedStatus_eq_zero.mpr (hall child hchild)

/-- The items of the input have been passed on, each one once and in order. In appender mode the
commands take them in consecutive parts behind the fixed arguments. A part is empty only where there
is no item at all, and without `-r`. With a placeholder there is one command for each item, and the
item replaces the placeholder. -/
def PassesOn (opts : Options) (mode : XargsMode) (argvs : List (List CStr)) : Prop :=
  match opts.argPlaceholder with
  | none => ∃ parts : List (List CStr),
      argvs = parts.map (mode.cmd.fixedArgs.args ++ ·) ∧ parts.flatten = mode.toker.args ∧
        (mode.toker.args ≠ [] → [] ∉ parts) ∧
        (mode.toker.args = [] →
          parts = if opts.suppressExecutionOnEmptyInput then [] else [[]])
  | some placeholder => ∃ commandWord args, mode.cmd.fixedArgs.args = commandWord :: args ∧
      List.Forall₂ (SubstitutedArgv commandWord args placeholder) mode.toker.args argvs

/-- A plan without an exit has read the input to a clean end. -/
theorem endPlan_exit_none {b : Batches} {stream : TokenStream} {last : Command → List Command}
    (h : (endPlan b stream last).exit = none) :
    stream.Clean ∧ ∃ cmd, b.result = .ok cmd ∧ (endPlan b stream last).commands
      = b.commands ++ last (commandIncrementLineCount cmd stream.endBoundaries) := by
  unfold endPlan at h ⊢
  cases hresult : b.result with
  | error e => rw [hresult] at h; cases h
  | ok cmd =>
      rw [hresult] at h
      dsimp only at h ⊢
      split at h
      · rename_i hclean
        exact ⟨hclean, cmd, rfl, by rw [if_pos hclean]⟩
      · cases h

/-- A plan of the appender mode without an exit delivers the input. -/
theorem appenderPlan_delivers {opts : Options} {mode : XargsMode}
    (hstart : AppenderStarts opts mode.toker mode) (hmode : opts.argPlaceholder = none)
    (h : (appenderPlan opts.suppressExecutionOnEmptyInput mode.cmd mode.toker).exit = none) :
    PassesOn opts mode
      ((appenderPlan opts.suppressExecutionOnEmptyInput mode.cmd mode.toker).commands.map
        buildExecArgs) := by
  have hdeals := appenderPlan_deals hstart.appending hstart.pending
    opts.suppressExecutionOnEmptyInput mode.toker
  unfold PassesOn
  rw [hmode]
  refine ⟨(appenderPlan opts.suppressExecutionOnEmptyInput mode.cmd mode.toker).commands.map
    fun cmd => cmd.inputArgs.args, ?_, ?_, ?_, ?_⟩
  · rw [List.map_map]
    exact List.map_congr_left fun cmd hcmd => appenderPlan_argv hstart.appending hstart.pending _ _
      cmd hcmd
  · rw [← List.flatMap_def]
    exact hdeals.whole h
  · intro hitems hempty
    obtain ⟨cmd, hcmd, hargs⟩ := List.mem_map.mp hempty
    have htokens : mode.toker.tokens ≠ [] := fun hnil => hitems (by rw [TokenStream.args, hnil]; rfl)
    exact hdeals.nonempty htokens cmd hcmd hargs
  · intro hitems
    have htokens : mode.toker.tokens = [] := List.map_eq_nil_iff.mp hitems
    rw [appenderPlan_empty mode.cmd _ htokens (endPlan_exit_none h).1]
    split
    · rfl
    · simp only [List.map_cons, List.map_nil]
      rw [(hstart.pending.increment _).inputArgs]

/-- A plan of the replacer mode without an exit delivers the input. -/
theorem replacerPlan_delivers {opts : Options} {mode : XargsMode} {placeholder : CStr}
    (hc : mode.cmd.Replacing) (hcmd : mode.cmd.Unreplaced mode.cmd.toCommandSettings)
    (hmode : opts.argPlaceholder = some placeholder)
    (hplaceholder : mode.cmd.argPlaceholder = some placeholder)
    (hoperands : mode.cmd.fixedArgs.args ≠ [])
    (h : (replacerPlan mode.cmd mode.toker).exit = none) :
    PassesOn opts mode ((replacerPlan mode.cmd mode.toker).commands.map buildExecArgs) := by
  obtain ⟨commandWord, args, hargs⟩ := List.exists_cons_of_ne_nil hoperands
  unfold PassesOn
  rw [hmode]
  refine ⟨commandWord, args, hargs, ?_⟩
  obtain ⟨-, cmd, hok, -⟩ := endPlan_exit_none h
  rw [replacerPlan_commands]
  rcases replacerBatches_rule hc hcmd mode.toker.tokens with
    ⟨cmd', -, -, hreplaced⟩ | ⟨e, read, herror, -⟩
  · exact hreplaced.substituted hargs hplaceholder
  · rw [hok] at herror
    cases herror

/-- Under `-I` there is a command word: the operands, or `/bin/echo`. -/
theorem xargsCreateFrom_fixedArgs {m : Machine} {argv : List CStr} {opts : Options}
    {mode : XargsMode} (h : xargsCreateFrom m argv = .ok (opts, mode))
    (hmode : opts.argPlaceholder.isSome) : mode.cmd.fixedArgs.args ≠ [] := by
  cases argv with
  | nil =>
      -- An empty `argv` has no `-I`.
      obtain ⟨-, hopts, -⟩ := xargsCreateFrom_ok.mp h
      have hnone : (optionsCreateFrom m.sys.childMax []).map Options.argPlaceholder = .ok none := rfl
      rw [hopts] at hnone
      rw [Except.ok.inj hnone] at hmode
      cases hmode
  | cons name args =>
      obtain ⟨p, rfl⟩ := exists_optParse phxargsOptString args
      cases hoperands : p.operands? with
      | none =>
          obtain ⟨-, hopts, -⟩ := xargsCreateFrom_ok.mp h
          obtain ⟨before, bad, e, -, herror, -⟩ :=
            optionsCreateFrom_error m.sys.childMax name hoperands
          rw [hopts] at herror
          cases herror
      | some operands =>
          rw [xargsCreateFrom_operands hoperands h]
          split
          · exact List.cons_ne_nil _ _
          · assumption

/-- The plan of a created mode delivers the input, unless it exits. -/
theorem planOf_delivers {m : Machine} {argv : List CStr} {opts : Options} {mode : XargsMode}
    (hcreate : xargsCreateFrom m argv = .ok (opts, mode))
    (h : (planOf opts mode.cmd mode.toker).exit = none) :
    mode.toker.Clean ∧
      PassesOn opts mode ((planOf opts mode.cmd mode.toker).commands.map buildExecArgs) := by
  have hmade := xargsCreateFrom_xargsCreate hcreate
  obtain ⟨hvalid, -, -, hcommand⟩ := xargsCreate_spec hmade
  obtain ⟨hcreated, hfixed⟩ := commandCreate_spec hcommand hvalid.length
  unfold planOf at h ⊢
  cases hmode : opts.argPlaceholder with
  | none =>
      rw [hmode] at h
      have hstart := xargsCreate_appender hmade hmode
      exact ⟨(endPlan_exit_none h).1, appenderPlan_delivers hstart hmode h⟩
  | some placeholder =>
      rw [hmode] at h
      have hplaceholder : mode.cmd.argPlaceholder = some placeholder :=
        hcreated.argPlaceholder.trans hmode
      have hc : mode.cmd.Replacing := ⟨by rw [hplaceholder]; rfl, hcreated.maxLength⟩
      have hoperands := xargsCreateFrom_fixedArgs hcreate (by rw [hmode]; rfl)
      have hexit : (replacerPlan mode.cmd mode.toker).exit = none := h
      exact ⟨(endPlan_exit_none hexit).1, replacerPlan_delivers hc
        ⟨rfl, hcreated.inputArgs, hcreated.replacedFixedArgs⟩ hmode hplaceholder hoperands hexit⟩

/-- How `main` ends behind a creation. -/
theorem phxargsMain_of_created {m : Machine} {w : World} {argv : List CStr} {opts : Options}
    {mode : XargsMode} (hcreate : xargsCreateFrom m argv = .ok (opts, mode)) :
    (∃ status mode', xargsRun w opts mode = .ok status mode' ∧
      phxargsMain m w argv = ⟨status, "", mode'.procs.warnings, mode'.procs.os⟩) ∨
    (∃ e mode', xargsRun w opts mode = .error e mode' ∧
      phxargsMain m w argv
        = ⟨e.status, reportOf e mode', mode'.procs.warnings, mode'.procs.os⟩) := by
  unfold phxargsMain
  rw [hcreate]
  dsimp only
  cases xargsRun w opts mode with
  | ok status mode' => exact .inl ⟨status, mode', rfl, rfl⟩
  | error e mode' => exact .inr ⟨e, mode', rfl, rfl⟩

/-- What `main` forks is what the run forks, a part of the plan. -/
theorem phxargsMain_forked_isPrefix {m : Machine} {w : World} {argv : List CStr} {opts : Options}
    {mode : XargsMode} (hcreate : xargsCreateFrom m argv = .ok (opts, mode)) :
    (phxargsMain m w argv).os.forked <+: (planOf opts mode.cmd mode.toker).commands := by
  obtain ⟨-, hstarts, -⟩ := xargsCreateFrom_starts hcreate
  have hforked := (xargsRun_follows w opts hstarts).forked_isPrefix hstarts
  rcases phxargsMain_of_created (w := w) hcreate with
    ⟨status, mode', hrun, hp⟩ | ⟨e, mode', hrun, hp⟩
  · rw [hrun] at hforked
    rw [hp]
    exact hforked
  · rw [hrun] at hforked
    rw [hp]
    exact hforked

/-- Nothing stopped the run: no `fork` failed, and no child asked for a halt. -/
structure ProcessEnd.Unstopped (p : ProcessEnd) : Prop where
  forks : p.report ≠ Diagnostic.forkFailed.text
  noHalt : ∀ child ∈ p.os.forkedChildren, child.status ≠ .exited 255

/-- The whole plan has been forked then, and its exit is reported. -/
theorem phxargsMain_carries_out {m : Machine} {w : World} {argv : List CStr} {opts : Options}
    {mode : XargsMode} (hcreate : xargsCreateFrom m argv = .ok (opts, mode))
    (h : (phxargsMain m w argv).Unstopped) :
    (phxargsMain m w argv).os.forked = (planOf opts mode.cmd mode.toker).commands ∧
      ((planOf opts mode.cmd mode.toker).exit ≠ none → Complains (phxargsMain m w argv).report) := by
  obtain ⟨-, hstarts, -⟩ := xargsCreateFrom_starts hcreate
  have hfollows := xargsRun_follows w opts hstarts
  obtain ⟨hforks, hno255⟩ := h
  rcases phxargsMain_of_created (w := w) hcreate with
    ⟨status, mode', hrun, hp⟩ | ⟨e, mode', hrun, hp⟩
  · rw [hrun] at hfollows
    rw [hp] at hno255 ⊢
    obtain ⟨hforked, hexit, -⟩ := hfollows.completes hstarts (hfollows.running hno255) (by simp)
    exact ⟨hforked, fun hne => absurd hexit.symm hne⟩
  · rw [hrun] at hfollows
    rw [hp] at hforks hno255 ⊢
    obtain ⟨hforked, -, -⟩ := hfollows.completes hstarts (hfollows.running hno255) (by
      intro hfork
      cases hfork
      exact hforks rfl)
    exact ⟨hforked, fun _ => ((wp_of_error hrun).mp (xargsRun_fails w opts hstarts)).2⟩

/-- Status 0 comes from a run that has carried out its plan, and the plan has no exit. -/
theorem phxargsMain_success {m : Machine} {w : World} {argv : List CStr}
    (h : (phxargsMain m w argv).status = EXIT_SUCCESS) :
    ∃ opts mode, xargsCreateFrom m argv = .ok (opts, mode) ∧
      (planOf opts mode.cmd mode.toker).exit = none ∧
      exitOf (xargsRun w opts mode) = none ∧
      (phxargsMain m w argv).os.forked = (planOf opts mode.cmd mode.toker).commands ∧
      (∀ child ∈ (phxargsMain m w argv).os.forkedChildren, child.status = .exited 0) ∧
      (phxargsMain m w argv).Finished := by
  cases hcreate : xargsCreateFrom m argv with
  | error ended =>
      rw [show phxargsMain m w argv = ended by unfold phxargsMain; rw [hcreate],
        (xargsCreateFrom_refused hcreate).status] at h
      cases h
  | ok created =>
      obtain ⟨opts, mode⟩ := created
      obtain ⟨-, hstarts, -⟩ := xargsCreateFrom_starts hcreate
      have hfollows := xargsRun_follows w opts hstarts
      rcases phxargsMain_of_created (w := w) hcreate with
        ⟨status, mode', hrun, hp⟩ | ⟨e, mode', hrun, hp⟩
      · rw [hrun] at hfollows
        have hfinished := xargsRun_finished hcreate hrun
        rw [hp] at h
        have hall := hfinished.status.eq_zero_iff.mp h
        -- No child has asked for a halt.
        have hrunning : mode'.halted = false := by
          apply hfollows.running
          intro child hchild h255
          rw [hall child hchild] at h255
          exact absurd h255 (by decide)
        obtain ⟨hforked, hexit, -⟩ := hfollows.completes hstarts hrunning (by simp)
        rw [hp]
        exact ⟨opts, mode, rfl, hexit.symm, by rw [hrun]; rfl, hforked, hall, hfinished⟩
      · have hfails := (wp_of_error hrun).mp (xargsRun_fails w opts hstarts)
        rw [hp, hfails.1] at h
        cases h

/-- Status 0 where the run ends as planned, without an exit, and every command exits with 0. -/
theorem phxargsMain_success_of_plan {m : Machine} {w : World} {argv : List CStr} {opts : Options}
    {mode : XargsMode} (hcreate : xargsCreateFrom m argv = .ok (opts, mode))
    (hplan : (planOf opts mode.cmd mode.toker).exit = none)
    (hfork : exitOf (xargsRun w opts mode) ≠ some Exit.forkFailed)
    (hall : ∀ child ∈ (phxargsMain m w argv).os.forkedChildren, child.status = .exited 0) :
    (phxargsMain m w argv).status = EXIT_SUCCESS := by
  obtain ⟨-, hstarts, -⟩ := xargsCreateFrom_starts hcreate
  have hfollows := xargsRun_follows w opts hstarts
  rcases phxargsMain_of_created (w := w) hcreate with
    ⟨status, mode', hrun, hp⟩ | ⟨e, mode', hrun, hp⟩
  · rw [hp] at hall ⊢
    exact (xargsRun_finished hcreate hrun).status.eq_zero_iff.mpr hall
  · -- Without a halt the run would have ended as planned.
    rw [hp] at hall
    rw [hrun] at hfollows hfork
    have hrunning : mode'.halted = false := by
      apply hfollows.running
      intro child hchild h255
      rw [hall child hchild] at h255
      exact absurd h255 (by decide)
    have hplanned := (hfollows.completes hstarts hrunning hfork).2.1
    rw [hplan] at hplanned
    cases hplanned

end Phxargs
