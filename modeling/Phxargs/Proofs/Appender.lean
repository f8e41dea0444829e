import Phxargs.Proofs.Command
import Phxargs.Proofs.Refinement

/-!
# `Phxargs.Proofs.Appender`: what planning one token can do

In appender mode the three size checks together have six outcomes. `AppenderMove` lists them
with the conditions under which each happens, in terms of the pending arguments.
`appenderStep_move` is the only place that goes through the checks of the source. Every
statement about batches is an induction whose step is a case analysis on `AppenderMove`.
-/

set_option autoImplicit false

namespace Phxargs

open Lib

/-- The settings of a command of the appender mode. -/
structure CommandSettings.Appending (c : CommandSettings) : Prop where
  placeholder : c.argPlaceholder = none
  line : c.lineMode = true →
    c.terminateOnTooLargeCommand = true ∧ c.maxArgs = 0 ∧ 0 < c.maxLines
  maxLength : c.maxLength ≤ LONG_MAX

/-- `cmd` has these settings and these pending arguments, and has counted `lines`. -/
structure Command.Pending (cmd : Command) (c : CommandSettings) (args : List CStr)
    (lines : Nat) : Prop where
  settings : cmd.toCommandSettings = c
  inputArgs : cmd.inputArgs.args = args
  lineCount : cmd.lineCount = lines

theorem Command.Pending.increment {cmd : Command} {c : CommandSettings} {args : List CStr}
    {lines : Nat} (h : cmd.Pending c args lines) (n : Nat) :
    (commandIncrementLineCount cmd n).Pending c args (lines + n) :=
  ⟨h.settings, h.inputArgs, congrArg (· + n) h.lineCount⟩

theorem Command.Pending.recycle {cmd : Command} {c : CommandSettings} {args : List CStr}
    {lines : Nat} (h : cmd.Pending c args lines) : (recycleCommand cmd).Pending c [] 0 :=
  ⟨h.settings, recycleCommand_inputArgs cmd, rfl⟩

/-- The flush before an add: the command has its `-n` count, or the string would make it
too long. Under `-n -x` the size is left to the check after the add. -/
def CommandSettings.FlushesBefore (c : CommandSettings) (args : List CStr) (arg : CStr) : Prop :=
  args ≠ [] ∧ ((0 < c.maxArgs ∧ args.length = c.maxArgs) ∨
    (c.lineMode = false ∧ ¬ c.Fits (args ++ [arg]) ∧
      ¬ (c.terminateOnTooLargeCommand = true ∧ 0 < c.maxArgs)))

/-- What planning the token `arg` can do with a command that has the settings `c`, the
arguments `args` and the count `lines`. -/
inductive AppenderMove (c : CommandSettings) (cmd : Command) (args : List CStr) (lines : Nat)
    (arg : CStr) : Planned → Prop
  /-- The string does not fit into an empty command. -/
  | rejected : args = [] → ¬ c.Fits [arg] →
      AppenderMove c cmd args lines arg ([], .error Exit.commandTooLong)
  /-- The string joins the pending arguments. -/
  | added (cmd' : Command) : ¬ c.FlushesBefore args arg →
      (c.terminateOnTooLargeCommand = true → c.Fits (args ++ [arg])) →
      (args = [] → c.Fits [arg]) → ¬ (c.lineMode = true ∧ lines = c.maxLines) →
      cmd'.Pending c (args ++ [arg]) lines →
      AppenderMove c cmd args lines arg ([], .ok cmd')
  /-- The string completes the `-L` count. -/
  | completed (full cmd' : Command) : c.lineMode = true → lines = c.maxLines →
      c.Fits (args ++ [arg]) → full.Pending c (args ++ [arg]) lines → cmd'.Pending c [] 0 →
      AppenderMove c cmd args lines arg ([full], .ok cmd')
  /-- The string makes a `-x` command too long. -/
  | overflowed : ¬ c.FlushesBefore args arg → args ≠ [] →
      c.terminateOnTooLargeCommand = true → ¬ c.Fits (args ++ [arg]) →
      AppenderMove c cmd args lines arg ([], .error Exit.commandTooLong)
  /-- The pending arguments are flushed, and the string starts the next command. -/
  | flushed (cmd' : Command) : c.FlushesBefore args arg → c.lineMode = false →
      (c.terminateOnTooLargeCommand = true → c.Fits [arg]) → cmd'.Pending c [arg] 0 →
      AppenderMove c cmd args lines arg ([cmd], .ok cmd')
  /-- The pending arguments are flushed, and the string does not fit under `-x`. -/
  | flushedRejected : c.FlushesBefore args arg → c.lineMode = false →
      c.terminateOnTooLargeCommand = true → ¬ c.Fits [arg] →
      AppenderMove c cmd args lines arg ([cmd], .error Exit.commandTooLong)

/-! ### The two halves of an iteration -/

/-- The second half: add, then check the size under `-x`, then the `-L` count. -/
theorem appenderAdd_eq {c : CommandSettings} {cmd : Command} {args : List CStr} {lines : Nat}
    (h : cmd.Pending c args lines) (hroom : args.length ≤ LONG_MAX) (arg : CStr) :
    ∃ full : Command, full.Pending c (args ++ [arg]) lines ∧
      appenderAdd cmd arg =
        if c.terminateOnTooLargeCommand = true ∧ ¬ c.Fits (args ++ [arg]) then
          ([], .error Exit.commandTooLong)
        else if c.lineMode = true ∧ lines = c.maxLines then
          ([full], .ok (recycleCommand full))
        else
          ([], .ok full) := by
  obtain ⟨rfl, rfl, rfl⟩ := h
  obtain ⟨args', hargs, hadd⟩ := commandAddInputArgument_ok arg hroom
  refine ⟨{ cmd with inputArgs := args' }, ⟨rfl, hargs, rfl⟩, ?_⟩
  rw [appenderAdd, hadd]
  have hlong : commandLength { cmd with inputArgs := args' } > cmd.maxLength
      ↔ ¬ cmd.Fits (cmd.inputArgs.args ++ [arg]) := by
    rw [← hargs]
    exact commandLength_gt_iff { cmd with inputArgs := args' }
  simp only [commandShouldExecuteAfterArgAdded, hlong]
  -- The answers are `-1`, `1` and `0`, in this order of checks.
  by_cases hfits : cmd.terminateOnTooLargeCommand = true ∧ ¬ cmd.Fits (cmd.inputArgs.args ++ [arg])
  · rw [if_pos hfits, if_pos hfits, if_pos (by decide)]
  · rw [if_neg hfits, if_neg hfits]
    cases hline : cmd.lineMode with
    | false => simp
    | true =>
        by_cases hcount : cmd.lineCount = cmd.maxLines
        · simp [hcount]
        · simp [hcount]

/-- The fatal check of `command_ensure_length_not_exceeded` applies to an empty command. -/
theorem commandEnsureLengthNotExceeded_eq {cmd : Command} (h : cmd.argPlaceholder = none)
    (arg : CStr) :
    commandEnsureLengthNotExceeded cmd arg =
      if cmd.inputArgs.args = [] ∧ ¬ cmd.Fits [arg] then .error Exit.commandTooLong
      else .ok () := by
  unfold commandEnsureLengthNotExceeded
  simp only [commandLength_add_gt_iff, h, Option.isSome_none, Bool.false_eq_true, false_or,
    commandArgsCount_eq, List.length_eq_zero_iff]
  by_cases hempty : cmd.inputArgs.args = []
  · simp [hempty]
  · simp [hempty]

/-- The first half: the fatal check. -/
theorem commandArgWouldExceedLimits_rejects {c : CommandSettings} {cmd : Command}
    {lines : Nat} (h : cmd.Pending c [] lines) (hc : c.Appending) {arg : CStr}
    (hreject : ¬ c.Fits [arg]) :
    commandArgWouldExceedLimits cmd arg = .error Exit.commandTooLong := by
  obtain ⟨rfl, hargs, -⟩ := h
  rw [commandArgWouldExceedLimits, commandEnsureLengthNotExceeded_eq hc.placeholder,
    if_pos ⟨hargs, hreject⟩]

/-- The first half: the checks that flush. They compute `FlushesBefore`, because with
nothing pending both fail. -/
theorem commandArgWouldExceedLimits_flushes {c : CommandSettings} {cmd : Command}
    {args : List CStr} {lines : Nat} (h : cmd.Pending c args lines) (hc : c.Appending)
    {arg : CStr} (halone : args = [] → c.Fits [arg]) :
    ∃ exceeds, commandArgWouldExceedLimits cmd arg = .ok exceeds ∧
      (exceeds = true ↔ c.FlushesBefore args arg) := by
  obtain ⟨rfl, rfl, -⟩ := h
  rw [commandArgWouldExceedLimits, commandEnsureLengthNotExceeded_eq hc.placeholder,
    if_neg (fun hreject => hreject.2 (halone hreject.1))]
  -- What fits alone is flushed only from behind other arguments, and so is a full count.
  have hsize : ¬ cmd.Fits (cmd.inputArgs.args ++ [arg]) → cmd.inputArgs.args ≠ [] := by
    intro hfits hempty
    rw [hempty] at hfits
    exact hfits (halone hempty)
  have hcount : 0 < cmd.maxArgs → cmd.inputArgs.args.length = cmd.maxArgs →
      cmd.inputArgs.args ≠ [] := by
    intro hmax hlen hempty
    rw [hempty, List.length_nil] at hlen
    omega
  simp only [commandMaxArgsSpecified, commandArgsCount_eq, decide_eq_true_eq,
    commandLength_add_gt_iff]
  unfold CommandSettings.FlushesBefore
  by_cases hmax : 0 < cmd.maxArgs
  · rw [if_pos hmax]
    cases hx : cmd.terminateOnTooLargeCommand with
    | true =>
        -- `-n -x`: the count alone flushes.
        rw [if_pos rfl]
        refine ⟨_, rfl, ?_⟩
        rw [decide_eq_true_eq]
        constructor
        · intro hlen
          exact ⟨hcount hmax hlen, Or.inl ⟨hmax, hlen⟩⟩
        · rintro ⟨-, ⟨-, hlen⟩ | ⟨-, -, hnot⟩⟩
          · exact hlen
          · exact absurd ⟨rfl, hmax⟩ hnot
    | false =>
        -- `-n`: the count or the size flushes.
        rw [if_neg Bool.false_ne_true]
        refine ⟨_, rfl, ?_⟩
        simp only [Bool.or_eq_true, Bool.and_eq_true, decide_eq_true_eq, Bool.not_eq_true']
        constructor
        · rintro (hlen | ⟨hline, hfits⟩)
          · exact ⟨hcount hmax hlen, Or.inl ⟨hmax, hlen⟩⟩
          · exact ⟨hsize hfits, Or.inr ⟨hline, hfits, fun hand => Bool.false_ne_true hand.1⟩⟩
        · rintro ⟨-, ⟨-, hlen⟩ | ⟨hline, hfits, -⟩⟩
          · exact Or.inl hlen
          · exact Or.inr ⟨hline, hfits⟩
  · -- Without `-n`, the size alone flushes, and not in line mode.
    rw [if_neg hmax]
    refine ⟨_, rfl, ?_⟩
    simp only [Bool.and_eq_true, decide_eq_true_eq, Bool.not_eq_true']
    constructor
    · rintro ⟨hline, hfits⟩
      exact ⟨hsize hfits, Or.inr ⟨hline, hfits, fun hand => hmax hand.2⟩⟩
    · rintro ⟨-, ⟨hmax', -⟩ | ⟨hline, hfits, -⟩⟩
      · exact absurd hmax' hmax
      · exact ⟨hline, hfits⟩

/-- A flush before the add does not happen in line mode. -/
theorem CommandSettings.FlushesBefore.not_line {c : CommandSettings} {args : List CStr}
    {arg : CStr} (h : c.FlushesBefore args arg) (hc : c.Appending) : c.lineMode = false := by
  cases hline : c.lineMode with
  | false => rfl
  | true =>
      have hzero := (hc.line hline).2.1
      rcases h.2 with ⟨hmax, -⟩ | ⟨hfalse, -, -⟩
      · omega
      · exact hline.symm.trans hfalse

/-- **The step lemma.** Planning a token is one of the moves. -/
theorem appenderStep_move {c : CommandSettings} {cmd : Command} {args : List CStr}
    {lines : Nat} (h : cmd.Pending c args lines) (hc : c.Appending)
    (hroom : args.length ≤ LONG_MAX) (arg : CStr) :
    AppenderMove c cmd args lines arg (appenderStep cmd arg) := by
  by_cases hreject : args = [] ∧ ¬ c.Fits [arg]
  · -- The fatal check ends the run.
    obtain ⟨rfl, hreject⟩ := hreject
    rw [appenderStep, commandArgWouldExceedLimits_rejects h hc hreject]
    exact .rejected rfl hreject
  · have halone : args = [] → c.Fits [arg] := by
      intro hempty
      by_contra hfits
      exact hreject ⟨hempty, hfits⟩
    obtain ⟨exceeds, hexceeds, hflush⟩ := commandArgWouldExceedLimits_flushes h hc halone
    rw [appenderStep, hexceeds]
    cases exceeds with
    | true =>
        -- The add after a flush starts from an empty command, and not in line mode.
        have hflush := hflush.mp rfl
        have hline := hflush.not_line hc
        obtain ⟨full, hfull, hadd⟩ := appenderAdd_eq h.recycle (Nat.zero_le _) arg
        simp only [hadd]
        by_cases hlong : c.terminateOnTooLargeCommand = true ∧ ¬ c.Fits ([] ++ [arg])
        · rw [if_pos hlong]
          exact .flushedRejected hflush hline hlong.1 hlong.2
        · rw [if_neg hlong, if_neg (by simp [hline])]
          refine .flushed full hflush hline (fun hx => ?_) hfull
          by_contra hfits
          exact hlong ⟨hx, hfits⟩
    | false =>
        have hflush : ¬ c.FlushesBefore args arg := fun hf => Bool.false_ne_true (hflush.mpr hf)
        -- Nothing is flushed: the checks after the add decide.
        obtain ⟨full, hfull, hadd⟩ := appenderAdd_eq h hroom arg
        simp only [hadd]
        by_cases hlong : c.terminateOnTooLargeCommand = true ∧ ¬ c.Fits (args ++ [arg])
        · rw [if_pos hlong]
          refine .overflowed hflush (fun hempty => ?_) hlong.1 hlong.2
          subst hempty
          exact hlong.2 (halone rfl)
        · rw [if_neg hlong]
          have hfits : c.terminateOnTooLargeCommand = true → c.Fits (args ++ [arg]) := by
            intro hx
            by_contra hfits
            exact hlong ⟨hx, hfits⟩
          by_cases hcount : c.lineMode = true ∧ lines = c.maxLines
          · rw [if_pos hcount]
            exact .completed full _ hcount.1 hcount.2 (hfits (hc.line hcount.1).1) hfull
              hfull.recycle
          · rw [if_neg hcount]
            exact .added full hflush hfits halone hcount hfull

/-! ### The loop -/

/-- An invariant of the appender loop, move by move. `I` relates the tokens that have been
read and the completed commands to what is pending. `E` is what an exit leaves, with the
token that caused it among those read. -/
structure AppenderRule (c : CommandSettings)
    (I : List Token → List Command → List CStr → Nat → Prop)
    (E : List Token → List Command → Prop) : Prop where
  added : ∀ {done out args lines} {token : Token}, I done out args lines →
    ¬ c.FlushesBefore args token.arg →
    (c.terminateOnTooLargeCommand = true → c.Fits (args ++ [token.arg])) →
    (args = [] → c.Fits [token.arg]) →
    ¬ (c.lineMode = true ∧ lines + token.boundaries = c.maxLines) →
    I (done ++ [token]) out (args ++ [token.arg]) (lines + token.boundaries)
  completed : ∀ {done out args lines} {token : Token} {full : Command}, I done out args lines →
    c.lineMode = true → lines + token.boundaries = c.maxLines →
    c.Fits (args ++ [token.arg]) →
    full.Pending c (args ++ [token.arg]) (lines + token.boundaries) →
    I (done ++ [token]) (out ++ [full]) [] 0
  flushed : ∀ {done out args lines} {token : Token} {cmd : Command}, I done out args lines →
    c.FlushesBefore args token.arg → c.lineMode = false →
    (c.terminateOnTooLargeCommand = true → c.Fits [token.arg]) →
    cmd.Pending c args (lines + token.boundaries) →
    I (done ++ [token]) (out ++ [cmd]) [token.arg] 0
  rejected : ∀ {done out lines} {token : Token}, I done out [] lines →
    ¬ c.Fits [token.arg] → E (done ++ [token]) out
  overflowed : ∀ {done out args lines} {token : Token}, I done out args lines →
    ¬ c.FlushesBefore args token.arg → args ≠ [] → c.terminateOnTooLargeCommand = true →
    ¬ c.Fits (args ++ [token.arg]) → E (done ++ [token]) out
  flushedRejected : ∀ {done out args lines} {token : Token} {cmd : Command},
    I done out args lines → c.FlushesBefore args token.arg → c.lineMode = false →
    c.terminateOnTooLargeCommand = true → ¬ c.Fits [token.arg] →
    cmd.Pending c args (lines + token.boundaries) → E (done ++ [token]) (out ++ [cmd])

/-- Two invariants together. The exit condition of one of them is enough. -/
theorem AppenderRule.and_left {c : CommandSettings}
    {I I' : List Token → List Command → List CStr → Nat → Prop}
    {E E' : List Token → List Command → Prop} (h : AppenderRule c I E)
    (h' : AppenderRule c I' E') :
    AppenderRule c (fun done out args lines => I done out args lines ∧ I' done out args lines) E where
  added := fun hI hflush hfits halone hcount =>
    ⟨h.added hI.1 hflush hfits halone hcount, h'.added hI.2 hflush hfits halone hcount⟩
  completed := fun hI hline hcount hfits hfull =>
    ⟨h.completed hI.1 hline hcount hfits hfull, h'.completed hI.2 hline hcount hfits hfull⟩
  flushed := fun hI hflush hline hfits hcmd =>
    ⟨h.flushed hI.1 hflush hline hfits hcmd, h'.flushed hI.2 hflush hline hfits hcmd⟩
  rejected := fun hI hfits => h.rejected hI.1 hfits
  overflowed := fun hI hflush hne hx hfits => h.overflowed hI.1 hflush hne hx hfits
  flushedRejected := fun hI hflush hline hx hfits hcmd =>
    h.flushedRejected hI.1 hflush hline hx hfits hcmd

/-- The pending arguments of a reachable command: they fit, or there is at most one. So the
list growth is far from its guard. -/
def CommandSettings.Roomy (c : CommandSettings) (args : List CStr) : Prop :=
  c.Fits args ∨ args.length ≤ 1

theorem CommandSettings.Roomy.length_le {c : CommandSettings} {args : List CStr}
    (h : c.Roomy args) (hc : c.Appending) : args.length ≤ LONG_MAX := by
  rcases h with hfits | hlen
  · exact Nat.le_trans hfits.length_le hc.maxLength
  · exact Nat.le_trans hlen (by decide)

/-- An add that does not flush leaves room: otherwise the size check would have flushed, or
the check under `-x` would have exited. -/
theorem CommandSettings.roomy_added {c : CommandSettings} (hc : c.Appending)
    {args : List CStr} {arg : CStr} (hflush : ¬ c.FlushesBefore args arg)
    (hfits : c.terminateOnTooLargeCommand = true → c.Fits (args ++ [arg])) :
    c.Roomy (args ++ [arg]) := by
  by_cases hempty : args = []
  · subst hempty
    exact Or.inr (Nat.le_refl _)
  · refine Or.inl ?_
    by_contra hlong
    -- Then `-x` is not in force, so `-L` is not either, and the size check flushes.
    have hx : c.terminateOnTooLargeCommand ≠ true := fun hx => hlong (hfits hx)
    have hline : c.lineMode = false := by
      cases hl : c.lineMode with
      | false => rfl
      | true => exact absurd (hc.line hl).1 hx
    exact hflush ⟨hempty, Or.inr ⟨hline, hlong, fun hand => hx hand.1⟩⟩

/-- The loop keeps the invariants of its moves, and exits only with `command too long`. -/
theorem appenderBatches_rule {c : CommandSettings} (hc : c.Appending)
    {I : List Token → List Command → List CStr → Nat → Prop}
    {E : List Token → List Command → Prop} (rule : AppenderRule c I E) (hinit : I [] [] [] 0)
    {cmd : Command} (h : cmd.Pending c [] 0) (tokens : List Token) :
    (∃ cmd' args lines, (batches appenderStep cmd tokens).result = .ok cmd' ∧
      (batches appenderStep cmd tokens).rest = [] ∧ cmd'.Pending c args lines ∧
      I tokens (batches appenderStep cmd tokens).commands args lines) ∨
    (∃ read, (batches appenderStep cmd tokens).result = .error Exit.commandTooLong ∧
      tokens = read ++ (batches appenderStep cmd tokens).rest ∧
      E read (batches appenderStep cmd tokens).commands) := by
  have hrule := batches_rule appenderStep
    (fun done out cmd' => ∃ args lines, cmd'.Pending c args lines ∧ c.Roomy args ∧
      I done out args lines)
    (fun done out e => e = Exit.commandTooLong ∧ E done out) ?_ ?_ tokens [] [] cmd
    ⟨[], 0, h, Or.inr (Nat.zero_le _), hinit⟩
  · rcases hrule with ⟨cmd', hresult, hrest, args, lines, hpending, -, hI⟩ |
      ⟨e, read, hresult, hread, rfl, hE⟩
    · exact Or.inl ⟨cmd', args, lines, hresult, hrest, hpending, hI⟩
    · exact Or.inr ⟨read, hresult, hread, hE⟩
  · rintro done out cmd' token out' cmd'' ⟨args, lines, hpending, hroomy, hI⟩ hstep
    have hmove := appenderStep_move (hpending.increment token.boundaries) hc
      (hroomy.length_le hc) token.arg
    rw [hstep] at hmove
    cases hmove with
    | added _ hflush hfits halone hcount hnext =>
        rw [List.append_nil]
        exact ⟨_, _, hnext, CommandSettings.roomy_added hc hflush hfits,
          rule.added hI hflush hfits halone hcount⟩
    | completed full _ hline hcount hfits hfull hnext =>
        exact ⟨_, _, hnext, Or.inr (Nat.zero_le _), rule.completed hI hline hcount hfits hfull⟩
    | flushed _ hflush hline hfits hnext =>
        exact ⟨_, _, hnext, Or.inr (Nat.le_refl _),
          rule.flushed hI hflush hline hfits (hpending.increment _)⟩
  · rintro done out cmd' token out' e ⟨args, lines, hpending, hroomy, hI⟩ hstep
    have hmove := appenderStep_move (hpending.increment token.boundaries) hc
      (hroomy.length_le hc) token.arg
    rw [hstep] at hmove
    cases hmove with
    | rejected hempty hfits =>
        subst hempty
        rw [List.append_nil]
        exact ⟨rfl, rule.rejected hI hfits⟩
    | overflowed hflush hne hx hfits =>
        rw [List.append_nil]
        exact ⟨rfl, rule.overflowed hI hflush hne hx hfits⟩
    | flushedRejected hflush hline hx hfits =>
        exact ⟨rfl, rule.flushedRejected hI hflush hline hx hfits (hpending.increment _)⟩

/-! ### The plan -/

/-- The last command of a plan whose stream ends cleanly, given what is pending. -/
def lastCommands (suppress : Bool) (tokens : List Token) (args : List CStr) (last : Command) :
    List Command :=
  if tokens = [] then
    if suppress then [] else [last]
  else
    if args = [] then [] else [last]

theorem mem_lastCommands {suppress : Bool} {tokens : List Token} {args : List CStr}
    {last k : Command} (h : k ∈ lastCommands suppress tokens args last) : k = last := by
  have hmem : k ∈ [last] := by
    unfold lastCommands at h
    split at h <;> split at h <;> first | exact h | exact (List.not_mem_nil h).elim
  exact List.mem_singleton.mp hmem

/-- The whole plan, from the invariants of the moves. -/
theorem appenderPlan_rule {c : CommandSettings} (hc : c.Appending)
    {I : List Token → List Command → List CStr → Nat → Prop}
    {E : List Token → List Command → Prop} (rule : AppenderRule c I E) (hinit : I [] [] [] 0)
    {cmd : Command} (h : cmd.Pending c [] 0) (suppress : Bool) (stream : TokenStream) :
    (∃ out last args lines, I stream.tokens out args lines ∧
      last.Pending c args (lines + stream.endBoundaries) ∧
      appenderPlan suppress cmd stream =
        if stream.Clean then
          ⟨out ++ lastCommands suppress stream.tokens args last, [], none⟩
        else
          ⟨out, [], some (Exit.failure .alreadyReported)⟩) ∨
    (∃ out read rest, E read out ∧ stream.tokens = read ++ rest ∧
      appenderPlan suppress cmd stream = ⟨out, rest, some Exit.commandTooLong⟩) := by
  unfold appenderPlan endPlan
  rcases appenderBatches_rule hc rule hinit h stream.tokens with
    ⟨cmd', args, lines, hresult, hrest, hpending, hI⟩ | ⟨read, hresult, hread, hE⟩
  · refine Or.inl ⟨_, commandIncrementLineCount cmd' stream.endBoundaries, args, lines, hI,
      hpending.increment _, ?_⟩
    rw [hresult, hrest]
    have hlast : appenderLast suppress (!stream.tokens.isEmpty)
        (commandIncrementLineCount cmd' stream.endBoundaries)
          = lastCommands suppress stream.tokens args
              (commandIncrementLineCount cmd' stream.endBoundaries) := by
      have hremain : commandInputArgsRemain (commandIncrementLineCount cmd' stream.endBoundaries)
          = decide (args ≠ []) := by
        rw [commandInputArgsRemain, commandArgsCount_eq, (hpending.increment _).inputArgs]
        cases args <;> simp
      unfold appenderLast lastCommands
      rw [hremain]
      cases htokens : stream.tokens <;> cases suppress <;> simp
    dsimp only
    rw [hlast]
    rfl
  · refine Or.inr ⟨_, read, _, hE, hread, ?_⟩
    rw [hresult]

/-- Nothing is flushed before the first argument. -/
theorem CommandSettings.not_flushesBefore_nil (c : CommandSettings) (arg : CStr) :
    ¬ c.FlushesBefore [] arg := fun hflush => hflush.1 rfl

/-- Under `-L` nothing is flushed before an add. -/
theorem CommandSettings.Appending.not_flushesBefore {c : CommandSettings} (hc : c.Appending)
    (hline : c.lineMode = true) (args : List CStr) (arg : CStr) : ¬ c.FlushesBefore args arg := by
  rintro ⟨-, ⟨hmax, -⟩ | ⟨hnot, -⟩⟩
  · exact absurd (hc.line hline).2.1 (Nat.ne_of_gt hmax)
  · exact Bool.false_ne_true (hnot.symm.trans hline)

/-- Every planned command has the settings of the run, and its arguments have whatever an add
without a flush keeps. -/
theorem appenderPlan_pending {c : CommandSettings} (hc : c.Appending) {cmd : Command}
    (h : cmd.Pending c [] 0) (suppress : Bool) (stream : TokenStream) {I : List CStr → Prop}
    (hnil : I []) (hadd : ∀ {args arg}, I args → ¬ c.FlushesBefore args arg → I (args ++ [arg])) :
    ∀ k ∈ (appenderPlan suppress cmd stream).commands,
      k.toCommandSettings = c ∧ I k.inputArgs.args := by
  have hsnoc : ∀ {out : List Command} {k : Command} {args : List CStr} {lines : Nat},
      (∀ k ∈ out, k.toCommandSettings = c ∧ I k.inputArgs.args) → I args →
      k.Pending c args lines → ∀ k' ∈ out ++ [k], k'.toCommandSettings = c ∧ I k'.inputArgs.args := by
    intro out k args lines hout hargs hk
    have hlast : k.toCommandSettings = c ∧ I k.inputArgs.args :=
      ⟨hk.settings, hk.inputArgs ▸ hargs⟩
    exact List.forall_mem_append.mpr ⟨hout, List.forall_mem_singleton.mpr hlast⟩
  have rule : AppenderRule c
      (fun _ out args _ => (∀ k ∈ out, k.toCommandSettings = c ∧ I k.inputArgs.args) ∧ I args)
      (fun _ out => ∀ k ∈ out, k.toCommandSettings = c ∧ I k.inputArgs.args) :=
    { added := fun hI hflush _ _ _ => ⟨hI.1, hadd hI.2 hflush⟩
      completed := fun hI hline _ _ hfull =>
        ⟨hsnoc hI.1 (hadd hI.2 (hc.not_flushesBefore hline _ _)) hfull, hnil⟩
      flushed := fun hI _ _ _ hcmd =>
        ⟨hsnoc hI.1 hI.2 hcmd, hadd hnil (c.not_flushesBefore_nil _)⟩
      rejected := fun hI _ => hI.1
      overflowed := fun hI _ _ _ _ => hI.1
      flushedRejected := fun hI _ _ _ _ hcmd => hsnoc hI.1 hI.2 hcmd }
  rcases appenderPlan_rule hc rule ⟨(fun _ h => nomatch h), hnil⟩ h suppress stream with
    ⟨out, last, args, lines, hI, hlast, hplan⟩ | ⟨out, read, rest, hE, -, hplan⟩
  · rw [hplan]
    split
    · intro k hk
      rcases List.mem_append.mp hk with hk | hk
      · exact hI.1 k hk
      · rw [mem_lastCommands hk]
        exact ⟨hlast.settings, hlast.inputArgs ▸ hI.2⟩
    · exact hI.1
  · rw [hplan]
    exact hE

theorem appenderPlan_settings {c : CommandSettings} (hc : c.Appending) {cmd : Command}
    (h : cmd.Pending c [] 0) (suppress : Bool) (stream : TokenStream) :
    ∀ k ∈ (appenderPlan suppress cmd stream).commands, k.toCommandSettings = c :=
  fun k hk => (appenderPlan_pending hc h suppress stream (I := fun _ => True) trivial
    (fun _ _ => trivial) k hk).1

/-- The argv of a planned command: the fixed arguments, and then the tokens. -/
theorem appenderPlan_argv {c : CommandSettings} (hc : c.Appending) {cmd : Command}
    (h : cmd.Pending c [] 0) (suppress : Bool) (stream : TokenStream) :
    ∀ k ∈ (appenderPlan suppress cmd stream).commands,
      buildExecArgs k = c.fixedArgs.args ++ k.inputArgs.args := by
  intro k hk
  have hsettings := appenderPlan_settings hc h suppress stream k hk
  have hplaceholder : k.argPlaceholder = none := by
    rw [hsettings]
    exact hc.placeholder
  rw [buildExecArgs_eq hplaceholder, hsettings]

/-- `command_create` starts the appender mode with nothing pending. -/
theorem commandCreate_appending {sys : System} {opts : Options} {argIndex : Nat}
    {argv : List CStr} {cmd : Command} (h : commandCreate sys opts argIndex argv = .ok cmd)
    (hvalid : opts.Valid) (hmode : opts.argPlaceholder = none) :
    cmd.Appending ∧ cmd.Pending cmd.toCommandSettings [] 0 := by
  obtain ⟨hcreated, -⟩ := commandCreate_spec h hvalid.length
  refine ⟨⟨hcreated.argPlaceholder.trans hmode, ?_, hcreated.maxLength⟩, rfl,
    hcreated.inputArgs, hcreated.lineCount⟩
  intro hline
  rw [hcreated.lineMode] at hline
  rw [hcreated.terminates, hcreated.maxArgs, hcreated.maxLines]
  exact ⟨hvalid.lineTerminates hline, (hvalid.line hline).2⟩

/-- A run of the appender mode, ready to start. -/
structure AppenderStarts (opts : Options) (stream : TokenStream) (s : XargsMode) : Prop where
  valid : opts.Valid
  starts : s.Starts
  appending : s.cmd.Appending
  pending : s.cmd.Pending s.cmd.toCommandSettings [] 0
  created : ∃ sys, s.cmd.Created sys opts
  /-- In every world, the run follows the plan of the appender mode. -/
  follows : ∀ w, Follows s (appenderPlan opts.suppressExecutionOnEmptyInput s.cmd stream)
    (exitOf (xargsRun w opts s)) (finalState (xargsRun w opts s))

/-- `xargs_create` with options of the appender mode. -/
theorem xargsCreate_appender {sys : System} {scanned : List Getopt} {optind : Nat}
    {argv : List CStr} {stream : TokenStream} {opts : Options} {s : XargsMode}
    (hcreate : xargsCreate sys scanned optind argv stream = .ok (opts, s))
    (hmode : opts.argPlaceholder = none) : AppenderStarts opts stream s := by
  obtain ⟨hvalid, hstarts, rfl, hcommand⟩ := xargsCreate_spec hcreate
  obtain ⟨happending, hpending⟩ := commandCreate_appending hcommand hvalid hmode
  have hfollows : ∀ w, Follows s
      (appenderPlan opts.suppressExecutionOnEmptyInput s.cmd s.toker)
      (exitOf (xargsRun w opts s)) (finalState (xargsRun w opts s)) := by
    intro w
    have hplan : planOf opts s.cmd s.toker
        = appenderPlan opts.suppressExecutionOnEmptyInput s.cmd s.toker := by
      rw [planOf, hmode]
      rfl
    rw [← hplan]
    exact xargsRun_follows w opts hstarts
  exact ⟨hvalid, hstarts, happending, hpending,
    ⟨sys, (commandCreate_spec hcommand hvalid.length).1⟩, hfollows⟩

end Phxargs
