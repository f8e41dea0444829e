import Phxargs.Proofs.Groups
import Phxargs.Proofs.SpaceTokenizer

/-!
# `Phxargs.Proofs.LineMode`: `-L` counts logical lines

From the bytes to the commands. A word is line-final if the byte that ends it is a newline,
or the end of the input ends it. The space tokenizer gives exactly these words a boundary
(`spaceTokenStream_eq`), and under `-L` the groups are cut after every `N`-th token with a
boundary (`appenderPlan_groups`). Here the two meet: the commands are the words of the
input, cut after every `N`-th line-final word.

What the option means for a line follows from which words are line-final. The blanks of a
`Gap` end no word, so blank lines never count. A word that a space or a tab ends is not
line-final, so its line is joined to the next one that holds a word. An escaped newline is
part of its word. A quoted empty word is a word, so a line that holds nothing else counts.

The source counts in `line_count`, which it compares with `==`. `lineCounts_le` shows that
the counter never passes the limit, in any round of any run.
-/

set_option autoImplicit false

namespace Phxargs

open Lib

/-! ### The groups of a parsed input -/

/-- The values of some words. -/
def wordValues (words : List ParsedWord) : List CStr := words.map fun w => w.word.value

/-- Line-final words are the tokens with a boundary. -/
theorem carriesBoundary_token (w : ParsedWord) : w.token.carriesBoundary = w.lineFinal := by
  cases hfinal : w.lineFinal <;> simp [Token.carriesBoundary, ParsedWord.token, hfinal]

/-- The groups of the token stream are the groups of the words. -/
theorem groupArgs_cutAfter (n : Nat) (words : List ParsedWord) :
    (cutAfter Token.carriesBoundary n (words.map ParsedWord.token)).map groupArgs
      = (cutAfter ParsedWord.lineFinal n words).map wordValues := by
  have hfinal : Token.carriesBoundary ∘ ParsedWord.token = ParsedWord.lineFinal :=
    funext carriesBoundary_token
  have hvalues : ∀ group : List ParsedWord,
      groupArgs (group.map ParsedWord.token) = wordValues group := by
    intro group
    simp [groupArgs, wordValues, ParsedWord.token]
  rw [cutAfter_map, hfinal, List.map_map]
  exact List.map_congr_left fun group _ => hvalues group

/-! ### What an iteration does to `line_count` -/

/-- The pool functions do not see the command. -/
theorem onProcs_cmd {α : Type} (m : EStateM Exit Procs α) (s : XargsMode) :
    wp (onProcs m) (fun _ s' => s'.cmd = s.cmd) (fun _ s' => s'.cmd = s.cmd) s := by
  rw [onProcs, wp_focus]
  unfold wp
  cases m s.procs <;> rfl

/-- Executing the command resets the counter or leaves it. -/
theorem xargsModeExecuteCommand_lineCount (w : World) (s : XargsMode) :
    wp (xargsModeExecuteCommand w) (fun _ s' => s'.cmd.lineCount ≤ s.cmd.lineCount)
      (fun _ s' => s'.cmd.lineCount ≤ s.cmd.lineCount) s := by
  simp only [xargsModeExecuteCommand, wp_bind, wp_get, wp_ite, wp_pure]
  apply wp_mono (onProcs_cmd _ s)
  · intro _ t ht
    split
    · exact Nat.le_of_eq (congrArg Command.lineCount ht)
    · simp only [commandExecuteAsync, wp_bind, wp_get]
      cases hfork : t.procs.os.fork w t.cmd with
      | none => exact Nat.le_of_eq (congrArg Command.lineCount ht)
      | some answer =>
          simp only [wp_bind, wp_set, wp_pure]
          -- The forked command has been recycled, and its count is zero.
          refine wp_mono_state (onProcs_cmd _ _) ?_
          intro u hu
          simp [hu]
  · exact fun _ t ht => Nat.le_of_eq (congrArg Command.lineCount ht)

/-- A command that has been given an argument has the count that it had. -/
theorem commandAddInputArgument_lineCount {cmd cmd' : Command} {arg : CStr}
    (h : commandAddInputArgument cmd arg = .ok cmd') : cmd'.lineCount = cmd.lineCount := by
  unfold commandAddInputArgument at h
  cases hadd : commandArgsAdd cmd.inputArgs arg with
  | error e => rw [hadd] at h; cases h
  | ok args => rw [hadd] at h; cases h; rfl

/-- Adding a token and executing a completed command does not raise the counter. -/
theorem appenderModeAdd_lineCount (w : World) (arg : CStr) (s : XargsMode) :
    wp (appenderModeAdd w arg) (fun _ s' => s'.cmd.lineCount ≤ s.cmd.lineCount)
      (fun _ s' => s'.cmd.lineCount ≤ s.cmd.lineCount) s := by
  apply wp_appenderModeAdd
  · exact fun _ _ => Nat.le_refl _
  · -- The size check fails under `-x`: the pool is drained before the exit.
    intro cmd hadd _
    refine wp_mono_state (onProcs_cmd _ _) fun t ht => ?_
    rw [ht]
    exact Nat.le_of_eq (commandAddInputArgument_lineCount hadd)
  · intro cmd hadd _
    have hexecute := xargsModeExecuteCommand_lineCount w { s with cmd := cmd }
    refine wp_mono_state hexecute fun t ht => ?_
    exact Nat.le_trans ht (Nat.le_of_eq (commandAddInputArgument_lineCount hadd))
  · exact fun cmd hadd _ _ => Nat.le_of_eq (commandAddInputArgument_lineCount hadd)

/-- The counter is only raised when a token is requested, not in an iteration. -/
theorem appenderModeIteration_lineCount (w : World) (arg : CStr) (s : XargsMode) :
    wp (appenderModeIteration w arg) (fun _ s' => s'.cmd.lineCount ≤ s.cmd.lineCount)
      (fun _ s' => s'.cmd.lineCount ≤ s.cmd.lineCount) s := by
  apply wp_appenderModeIteration
  · exact fun _ _ => Nat.le_refl _
  · -- The flush before the add, unless it halts.
    intro _
    apply wp_mono_return (xargsModeExecuteCommand_lineCount w s)
    intro _ t ht
    refine ⟨fun _ => ht, fun _ => ?_⟩
    exact wp_mono_state (appenderModeAdd_lineCount w arg t) fun u hu => Nat.le_trans hu ht
  · exact fun _ => appenderModeAdd_lineCount w arg s

/-- The end of a run does not raise the counter. -/
theorem appenderModeFinish_lineCount (w : World) (suppress present : Bool) (s : XargsMode) :
    wp (appenderModeFinish w suppress present) (fun _ s' => s'.cmd.lineCount ≤ s.cmd.lineCount)
      (fun _ s' => s'.cmd.lineCount ≤ s.cmd.lineCount) s := by
  -- Whatever is executed before it, the drain leaves the command.
  have hdrain : ∀ t : XargsMode, t.cmd.lineCount ≤ s.cmd.lineCount →
      wp (xargsModeDrain w) (fun _ s' => s'.cmd.lineCount ≤ s.cmd.lineCount)
        (fun _ s' => s'.cmd.lineCount ≤ s.cmd.lineCount) t := by
    intro t ht
    exact wp_mono_state (onProcs_cmd _ t) fun u hu => hu ▸ ht
  apply wp_appenderModeFinish
  · intro _
    exact wp_mono_return (xargsModeExecuteCommand_lineCount w s) fun _ t ht => hdrain t ht
  · exact fun _ => hdrain s (Nat.le_refl _)

/-! ### The counter in a run -/

/-- The values of `line_count` in a run: in each round after the token has been read and
after the iteration, then after the loop, and at the end. The iteration itself never raises
the counter (`appenderModeIteration_lineCount`). -/
def XargsMode.lineCounts (w : World) (opts : Options) (s : XargsMode) : List Nat :=
  ((forEachRounds xargsModeNextToken (appenderModeIteration w) s.rounds s).flatMap fun r =>
    [r.2.cmd.lineCount, (finalState (appenderModeIteration w r.1 r.2)).cmd.lineCount]) ++
  [(finalState (appenderModeLoop w s)).cmd.lineCount, (finalState (xargsRun w opts s)).cmd.lineCount]

/-- What holds in line mode where an iteration starts, after its token has been read: the
count has at most reached the limit. `n` rounds are left. -/
structure CountsLines (c : CommandSettings) (n : Nat) (s : XargsMode) : Prop where
  left : s.toker.tokens.length < n
  inv : s.procs.Inv
  running : s.halted = false
  ending : s.toker.endBoundaries = 0
  pending : ∃ args lines, s.cmd.Pending c args lines ∧ c.Roomy args ∧ lines ≤ c.maxLines

/-- What holds where a round starts: the count is below the limit. -/
structure StartsRound (c : CommandSettings) (n : Nat) (s : XargsMode) : Prop where
  counts : CountsLines c n s
  below : s.cmd.lineCount < c.maxLines

theorem CountsLines.lineCount_le {c : CommandSettings} {n : Nat} {s : XargsMode}
    (h : CountsLines c n s) : s.cmd.lineCount ≤ c.maxLines := by
  obtain ⟨args, lines, hpending, -, hle⟩ := h.pending
  rw [hpending.lineCount]
  exact hle

/-- A planned step that leaves a command leaves its count below the limit. -/
theorem appenderStep_countsLines {c : CommandSettings} (hc : c.Appending)
    (hline : c.lineMode = true) {cmd cmd' : Command} {args : List CStr} {lines : Nat}
    (h : cmd.Pending c args lines) (hroomy : c.Roomy args) (hle : lines ≤ c.maxLines)
    {arg : CStr} {out : List Command} (hstep : appenderStep cmd arg = (out, .ok cmd')) :
    cmd'.lineCount < c.maxLines ∧ ∃ args' lines', cmd'.Pending c args' lines' ∧ c.Roomy args' := by
  have hmove := appenderStep_move h hc (hroomy.length_le hc) arg
  rw [hstep] at hmove
  cases hmove with
  | added _ hflush hfits _ hcount hnext =>
      have hne : lines ≠ c.maxLines := fun heq => hcount ⟨hline, heq⟩
      have hlt : lines < c.maxLines := by omega
      exact ⟨hnext.lineCount ▸ hlt, _, _, hnext, CommandSettings.roomy_added hc hflush hfits⟩
  | completed full _ _ _ _ _ hnext =>
      exact ⟨hnext.lineCount ▸ (hc.line hline).2.2, _, _, hnext, Or.inr (Nat.zero_le _)⟩
  | flushed _ _ hfalse =>
      exact absurd (hfalse.symm.trans hline) Bool.false_ne_true

/-- An iteration that returns and does not leave the loop starts the next round below the
limit. -/
theorem appenderModeIteration_startsRound (w : World) {c : CommandSettings} (hc : c.Appending)
    (hline : c.lineMode = true) {n : Nat} {s : XargsMode} (h : CountsLines c n s) (arg : CStr) :
    wp (appenderModeIteration w arg)
      (fun leave s' => s'.cmd.lineCount ≤ c.maxLines ∧ (leave = false → StartsRound c n s'))
      (fun _ s' => s'.cmd.lineCount ≤ c.maxLines) s := by
  apply wp_mono (wp_and (appenderModeIteration_spec w arg h.inv h.running)
    (appenderModeIteration_lineCount w arg s))
  · intro leave s' hafter
    obtain ⟨hiter, hle⟩ := hafter
    refine ⟨Nat.le_trans hle h.lineCount_le, fun hstay => ?_⟩
    obtain ⟨-, hrunning, hok, -⟩ | ⟨hleave, -⟩ := hiter.cases
    · -- The iteration has done what its plan says.
      obtain ⟨args, lines, hpending, hroomy, hlines⟩ := h.pending
      have hstep : appenderStep s.cmd arg = ((appenderStep s.cmd arg).1, .ok s'.cmd) :=
        Prod.ext rfl hok
      obtain ⟨hbelow, args', lines', hnext, hroomy'⟩ :=
        appenderStep_countsLines hc hline hpending hroomy hlines hstep
      have hlines' : lines' ≤ c.maxLines := by
        have := hnext.lineCount
        omega
      have hcounts : CountsLines c n s' :=
        { left := hiter.toker.symm ▸ h.left
          inv := hiter.inv
          running := hrunning
          ending := hiter.toker.symm ▸ h.ending
          pending := ⟨args', lines', hnext, hroomy', hlines'⟩ }
      exact ⟨hcounts, hbelow⟩
    · exact absurd (hstay.symm.trans hleave) Bool.false_ne_true
  · exact fun e s' hafter => Nat.le_trans hafter.2 h.lineCount_le

/-- Reading a token raises the count by at most one. -/
theorem StartsRound.read {c : CommandSettings} {n : Nat} {s : XargsMode}
    (h : StartsRound c (n + 1) s) {token : Token} {tokens : List Token}
    (htokens : s.toker.tokens = token :: tokens) :
    CountsLines c n { s with
      cmd := commandIncrementLineCount s.cmd token.boundaries
      toker := { s.toker with tokens := tokens } } := by
  obtain ⟨args, lines, hpending, hroomy, -⟩ := h.counts.pending
  have hleft := h.counts.left
  have hbelow := h.below
  have hone := token.boundaries_le
  rw [htokens, List.length_cons] at hleft
  rw [hpending.lineCount] at hbelow
  exact
    { left := Nat.lt_of_succ_lt_succ hleft
      inv := h.counts.inv
      running := h.counts.running
      ending := h.counts.ending
      pending := ⟨args, _, hpending.increment _, hroomy, by omega⟩ }

/-- **The counter in the loop.** Each round raises the count by at most one. A round that
reaches the limit executes the command, which resets the count, or ends the loop. -/
theorem appenderModeLoop_lineCount (w : World) {c : CommandSettings} (hc : c.Appending)
    (hline : c.lineMode = true) {s : XargsMode} (h : StartsRound c s.rounds s) :
    (∀ r ∈ forEachRounds xargsModeNextToken (appenderModeIteration w) s.rounds s,
      r.2.cmd.lineCount ≤ c.maxLines ∧
        (finalState (appenderModeIteration w r.1 r.2)).cmd.lineCount ≤ c.maxLines) ∧
    wp (appenderModeLoop w) (fun _ s' => s'.cmd.lineCount ≤ c.maxLines)
      (fun _ s' => s'.cmd.lineCount ≤ c.maxLines) s := by
  have hloop := wp_forEach xargsModeNextToken (appenderModeIteration w)
    (StartsRound c)
    (fun arg t => t.cmd.lineCount ≤ c.maxLines ∧
      (finalState (appenderModeIteration w arg t)).cmd.lineCount ≤ c.maxLines)
    (fun _ t => t.cmd.lineCount ≤ c.maxLines) (fun _ t => t.cmd.lineCount ≤ c.maxLines)
    (fun _ _ => False) (fun t ht => absurd ht.counts.left (Nat.not_lt_zero _)) ?_ s.rounds false s h
  · -- No round fails its condition, whatever the outcome of the loop.
    replace hloop := wp_mono hloop (fun _ _ h => h) (fun _ _ h => h.resolve_right And.right)
    constructor
    · have hrounds := wp_finalState (P := fun _ _ =>
        ∀ r ∈ forEachRounds xargsModeNextToken (appenderModeIteration w) s.rounds s,
          r.2.cmd.lineCount ≤ c.maxLines ∧
            (finalState (appenderModeIteration w r.1 r.2)).cmd.lineCount ≤ c.maxLines)
        (wp_mono hloop (fun _ _ h => h.2) (fun _ _ h => h.1))
      exact hrounds
    · simp only [appenderModeLoop, wp_bind, wp_get]
      exact wp_mono hloop (fun _ _ h => h.1) (fun _ _ h => h.2)
  · intro n present t ht
    simp only [xargsModeNextToken, wp_bind, wp_get]
    cases htokens : t.toker.tokens with
    | nil =>
        -- The end of the input carries no boundary of its own.
        simp only [wp_bind, wp_set, wp_pure]
        show t.cmd.lineCount + t.toker.endBoundaries ≤ c.maxLines
        rw [ht.counts.ending]
        exact ht.counts.lineCount_le
    | cons token tokens =>
        simp only [wp_bind, wp_set, wp_pure]
        have hread := ht.read htokens
        apply wp_mono_run (appenderModeIteration_startsRound w hc hline hread token.arg)
        · intro leave v hrun hafter
          refine ⟨⟨hread.lineCount_le, ?_⟩, ?_⟩
          · rw [hrun]
            exact hafter.1
          · cases leave with
            | true => exact hafter.1
            | false => exact hafter.2 rfl
        · intro e v hrun hafter
          refine Or.inl ⟨⟨hread.lineCount_le, ?_⟩, hafter⟩
          rw [hrun]
          exact hafter

/-- The rest of the run does not raise the count. -/
theorem appenderModeRun_lineCount (w : World) (suppress : Bool) {c : CommandSettings}
    (hc : c.Appending) (hline : c.lineMode = true) {s : XargsMode}
    (h : StartsRound c s.rounds s) :
    wp (appenderModeRun w suppress) (fun _ s' => s'.cmd.lineCount ≤ c.maxLines)
      (fun _ s' => s'.cmd.lineCount ≤ c.maxLines) s := by
  apply wp_loopAndFinish
  apply wp_mono_return (m := appenderModeLoop w) (appenderModeLoop_lineCount w hc hline h).2
  intro present t ht
  constructor
  · intro _
    refine wp_mono_state (appenderModeFinish_lineCount w suppress present t) ?_
    exact fun u hu => Nat.le_trans hu ht
  · -- A tokenizer error ends in a drain.
    intro _
    exact wp_mono_state (onProcs_cmd _ t) fun u hu => hu ▸ ht

/-- **The counter never passes the limit**, in any round of any run over a space-tokenized
input. -/
theorem lineCounts_le {sys : System} {scanned : List Getopt} {optind : Nat} {argv : List CStr}
    {p : Parse} {opts : Options} {s : XargsMode}
    (hcreate : xargsCreate sys scanned optind argv (p.stream none) = .ok (opts, s))
    (hmode : opts.argPlaceholder = none) (hline : opts.lineModeSpecified = true) (w : World) :
    ∀ count ∈ s.lineCounts w opts, count ≤ opts.maxLinesPerCommand := by
  have hstart := xargsCreate_appender hcreate hmode
  obtain ⟨sys', hcreated⟩ := hstart.created
  have htoker : s.toker = p.stream none := (xargsCreate_spec hcreate).2.2.1
  have hlineMode : s.cmd.lineMode = true := hcreated.lineMode.trans hline
  have hpos := (hstart.appending.line hlineMode).2.2
  have hround : StartsRound s.cmd.toCommandSettings s.rounds s :=
    { counts :=
        { left := Nat.lt_succ_self _
          inv := hstart.starts.inv
          running := hstart.starts.running
          ending := by rw [htoker, Parse.stream_none]
          pending := ⟨[], 0, hstart.pending, Or.inr (Nat.zero_le _), Nat.zero_le _⟩ }
      below := hstart.pending.lineCount.symm ▸ hpos }
  obtain ⟨hrounds, hloop⟩ := appenderModeLoop_lineCount w hstart.appending hlineMode hround
  have hrun : (finalState (xargsRun w opts s)).cmd.lineCount ≤ s.cmd.maxLines := by
    rw [xargsRun, hmode]
    exact wp_finalState (P := fun _ (s' : XargsMode) => s'.cmd.lineCount ≤ s.cmd.maxLines)
      (appenderModeRun_lineCount w _ hstart.appending hlineMode hround)
  have hend : (finalState (appenderModeLoop w s)).cmd.lineCount ≤ s.cmd.maxLines :=
    wp_finalState (P := fun _ (s' : XargsMode) => s'.cmd.lineCount ≤ s.cmd.maxLines) hloop
  intro count hcount
  rw [← hcreated.maxLines]
  rw [XargsMode.lineCounts, List.mem_append, List.mem_flatMap] at hcount
  obtain ⟨r, hr, hcount⟩ | hcount := hcount
  · obtain ⟨hread, hiterated⟩ := hrounds r hr
    simp only [List.mem_cons, List.not_mem_nil, or_false] at hcount
    obtain rfl | rfl := hcount
    · exact hread
    · exact hiterated
  · simp only [List.mem_cons, List.not_mem_nil, or_false] at hcount
    obtain rfl | rfl := hcount
    · exact hend
    · exact hrun

/-- **Logical lines.** Under `-L N`, take a well-formed input of the space tokenizer, read
without a marker. `line_count` never passes `N`. In a run without a size error, a halt and a
failed `fork`, the commands are the words of the input, cut after every `N`-th line-final
word. Every command but the last ends in a line-final word and has `N` of them, so no logical
line is split. An input without words forks one command without input arguments, or none
under `-r`. -/
theorem appenderModeRun_lines {sys : System} {scanned : List Getopt} {optind : Nat}
    {argv : List CStr} {p : Parse} {opts : Options} {s : XargsMode} (hwell : p.WellFormed)
    (hcreate : xargsCreate sys scanned optind argv (spaceTokenStream none p.text false)
      = .ok (opts, s))
    (hline : opts.lineModeSpecified = true) (w : World) :
    let run := xargsRun w opts s
    let batches := batchesOf (finalState run).forked
    let lines := cutAfter ParsedWord.lineFinal opts.maxLinesPerCommand p.words
    (∀ count ∈ s.lineCounts w opts, count ≤ opts.maxLinesPerCommand) ∧
    (∀ group ∈ lines.dropLast, group.countP ParsedWord.lineFinal = opts.maxLinesPerCommand ∧
      ∃ word ∈ group.getLast?, word.lineFinal = true) ∧
    (exitOf run ≠ some Exit.forkFailed → exitOf run ≠ some Exit.commandTooLong →
      (finalState run).halted = false →
      (p.words ≠ [] ∨ opts.suppressExecutionOnEmptyInput = true →
        batches = lines.map wordValues ∧ exitOf run = none) ∧
      (p.words = [] → opts.suppressExecutionOnEmptyInput = false →
        batches = [[]] ∧ exitOf run = none)) := by
  intro run batches lines
  rw [spaceTokenStream_eq] at hcreate
  have hmode : opts.argPlaceholder = none := ((xargsCreate_spec hcreate).1.line hline).1
  have hstart := xargsCreate_appender hcreate hmode
  obtain ⟨sys', hcreated⟩ := hstart.created
  have hgrouping : s.cmd.Grouping := Or.inl (hcreated.lineMode.trans hline)
  have hpos : 0 < opts.maxLinesPerCommand := by
    have := hgrouping.groupSize_pos hstart.appending
    rw [CommandSettings.groupSize, hcreated.lineMode, hline, if_pos rfl, hcreated.maxLines] at this
    exact this
  have htokens : (p.stream none).tokens = p.words.map ParsedWord.token := by
    rw [Parse.stream_none]
  have hclean : (p.stream none).Clean := by
    rw [Parse.stream_none]
    exact p.wellFormed_iff.mp hwell
  refine ⟨lineCounts_le hcreate hmode hline w, cutFrom_closed _ _ hpos p.words [] hpos, ?_⟩
  intro hfork hsize hrunning
  -- The run has executed the groups of the tokens, and these are the groups of the words.
  obtain ⟨hforked, hexit, -⟩ := (hstart.follows w).completes hstart.starts hrunning hfork
  have hbatches : batches = batchesOf (appenderPlan opts.suppressExecutionOnEmptyInput
      s.cmd (p.stream none)).commands := congrArg batchesOf hforked
  constructor
  · intro hne
    have hne' : (p.stream none).tokens ≠ [] ∨ opts.suppressExecutionOnEmptyInput = true := by
      rw [htokens]
      exact hne.imp_left fun h hmap => h (List.map_eq_nil_iff.mp hmap)
    cases appenderPlan_groups hstart.appending hgrouping hstart.pending hclean hne' with
    | all hcommands hnone _ =>
        refine ⟨?_, hexit.trans hnone⟩
        rw [hbatches, hcommands, htokens, CommandSettings.groups, CommandSettings.counts,
          CommandSettings.groupSize, hcreated.lineMode, hline, if_pos rfl, if_pos rfl,
          hcreated.maxLines]
        exact groupArgs_cutAfter opts.maxLinesPerCommand p.words
    | stopped _ _ _ _ _ _ _ hstop => exact absurd (hexit.trans hstop) hsize
  · intro hwords hsuppress
    have hempty : (p.stream none).tokens = [] := by
      rw [htokens, hwords, List.map_nil]
    have hnone := appenderPlan_empty_exit s.cmd opts.suppressExecutionOnEmptyInput hempty hclean
    rw [hbatches, appenderPlan_empty_batches hstart.pending _ hempty hclean, hsuppress]
    exact ⟨rfl, hexit.trans hnone⟩

/-- The input of `printf 'a \nb\n\n""\nc'`. -/
def joinedLines : Parse where
  items :=
    [⟨⟨[], by simp⟩, ⟨[.bare 97 (by decide)], by simp⟩, 32, by decide⟩,
      ⟨⟨[10], by simp; decide⟩, ⟨[.bare 98 (by decide)], by simp⟩, 10, by decide⟩,
      ⟨⟨[10], by simp; decide⟩, ⟨[.quoted .double [] (by simp)], by simp⟩, 10, by decide⟩]
  ending := .lastWord ⟨[], by simp⟩ ⟨[.bare 99 (by decide)], by simp⟩

/-- `printf 'a \nb\n\n""\nc' | phxargs -L 2 e`: the first line is joined to the second one,
the blank line does not count, and the line of the quoted empty word does. -/
theorem appenderModeRun_lines_joined :
    ∃ opts s, xargsCreate System.bare [.optL [50]] 3 [[120], [45, 76], [50], [101]]
        (spaceTokenStream none joinedLines.text false) = .ok (opts, s) ∧
      batchesOf (finalState (xargsRun World.quiet opts s)).forked = [[[97], [98], []], [[99]]] := by
  obtain ⟨opts, s, hcreate, hline, hmax, hfork, hsize, hrunning⟩ : ∃ opts s,
      xargsCreate System.bare [.optL [50]] 3 [[120], [45, 76], [50], [101]]
        (spaceTokenStream none joinedLines.text false) = .ok (opts, s) ∧
      opts.lineModeSpecified = true ∧ opts.maxLinesPerCommand = 2 ∧
      exitOf (xargsRun World.quiet opts s) ≠ some Exit.forkFailed ∧
      exitOf (xargsRun World.quiet opts s) ≠ some Exit.commandTooLong ∧
      (finalState (xargsRun World.quiet opts s)).halted = false := by
    exact ⟨_, _, rfl, rfl, rfl, by decide +kernel, by decide +kernel, by decide +kernel⟩
  have hlines := (appenderModeRun_lines (p := joinedLines) trivial hcreate hline World.quiet).2.2
    hfork hsize hrunning
  refine ⟨opts, s, hcreate, (hlines.1 (Or.inl (List.cons_ne_nil _ _))).1.trans ?_⟩
  rw [hmax]
  decide

/-- `printf '\n' | phxargs -L 1 e`: the input has no words, but a command is executed. -/
theorem blankInput_line_extra :
    ∃ opts s, xargsCreate System.bare [.optL [49]] 3 [[120], [45, 76], [49], [101]]
        (spaceTokenStream none [10] false) = .ok (opts, s) ∧
      opts.lineModeSpecified = true ∧ exitOf (xargsRun World.quiet opts s) = none ∧
      (finalState (xargsRun World.quiet opts s)).halted = false ∧
      batchesOf (finalState (xargsRun World.quiet opts s)).forked = [[]] ∧
      ∃ p : Parse, p.text = [10] ∧ p.WellFormed ∧
        (cutAfter ParsedWord.lineFinal opts.maxLinesPerCommand p.words).map wordValues = [] := by
  exact ⟨_, _, rfl, rfl, by decide +kernel, by decide +kernel, by decide +kernel,
    ⟨[], .blanks ⟨[10], by simp; decide⟩⟩, rfl, trivial, rfl⟩

end Phxargs
