import Phxargs.Proofs.Packing

/-!
# `Phxargs.Proofs.Groups`: `-x` with counted groups

Under `-L N`, and under `-n N -x`, the batches do not depend on sizes: they are the groups of
the input, cut after every `N`-th token that counts. `-L` counts the tokens that carry a
boundary, `-n` counts all of them. The size limit only decides how many groups are executed.

The two options flush at different times. `-L` flushes right after the last token of a
group, `-n` when the first token of the next group arrives. `CutsInto` covers both: its
pending group may be complete already.
-/

set_option autoImplicit false

namespace Phxargs

open Lib

/-- `on_input_boundary` fired in the call that returned the token. -/
def Token.carriesBoundary (token : Token) : Bool := token.boundaries = 1

/-- The tokens that the group size counts. -/
def CommandSettings.counts (c : CommandSettings) : Token → Bool :=
  if c.lineMode then Token.carriesBoundary else fun _ => true

/-- The number of `-L`, or that of `-n`. -/
def CommandSettings.groupSize (c : CommandSettings) : Nat :=
  if c.lineMode then c.maxLines else c.maxArgs

/-- The groups of a token sequence. -/
def CommandSettings.groups (c : CommandSettings) (tokens : List Token) : List (List Token) :=
  cutAfter c.counts c.groupSize tokens

/-- `-L`, or `-n` with `-x`. -/
def CommandSettings.Grouping (c : CommandSettings) : Prop :=
  c.lineMode = true ∨ (c.terminateOnTooLargeCommand = true ∧ 0 < c.maxArgs)

/-- The strings of a group. -/
def groupArgs (group : List Token) : List CStr := group.map Token.arg

section Counting

variable {c : CommandSettings}

theorem CommandSettings.Grouping.terminates (h : c.Grouping) (hc : c.Appending) :
    c.terminateOnTooLargeCommand = true := by
  rcases h with hline | ⟨hx, -⟩
  · exact (hc.line hline).1
  · exact hx

theorem CommandSettings.Grouping.groupSize_pos (h : c.Grouping) (hc : c.Appending) :
    0 < c.groupSize := by
  unfold groupSize
  by_cases hline : c.lineMode = true
  · rw [if_pos hline]
    exact (hc.line hline).2.2
  · rw [if_neg hline]
    exact (h.resolve_left hline).2

/-- In line mode, one more token counts as many times as its boundary fired. -/
theorem countP_line (hline : c.lineMode = true) (group : List Token) (token : Token) :
    (group ++ [token]).countP c.counts = group.countP c.counts + token.boundaries := by
  have hcounts : c.counts = Token.carriesBoundary := by rw [CommandSettings.counts, if_pos hline]
  rw [hcounts, List.countP_append, List.countP_singleton]
  by_cases hboundary : token.boundaries = 1
  · rw [if_pos (show Token.carriesBoundary token = true from decide_eq_true hboundary), hboundary]
  · have hle := token.boundaries_le
    have hfalse : Token.carriesBoundary token = false := decide_eq_false hboundary
    rw [hfalse, if_neg Bool.false_ne_true]
    omega

/-- Otherwise every token counts. -/
theorem countP_all (hline : c.lineMode = false) (group : List Token) :
    group.countP c.counts = group.length := by
  have hcounts : c.counts = fun _ => true := by
    rw [CommandSettings.counts, hline, if_neg Bool.false_ne_true]
  rw [hcounts, List.countP_true]

end Counting

/-! ### The groups of a stream that has been read in part -/

/-- The tokens read so far start with these complete groups, followed by `group`. -/
def CommandSettings.CutsInto (c : CommandSettings) (done : List Token)
    (complete : List (List Token)) (group : List Token) : Prop :=
  ∀ rest, c.groups (done ++ rest) = complete ++ cutPending c.counts c.groupSize group rest

/-- Nothing is not a complete group. -/
theorem CommandSettings.open_nil {c : CommandSettings} (hpos : 0 < c.groupSize) :
    ([] : List Token).countP c.counts ≠ c.groupSize := by
  rw [List.countP_nil]
  omega

section Cutting

variable {c : CommandSettings} {done : List Token} {complete : List (List Token)}
  {group : List Token}

theorem CommandSettings.cutsInto_nil (hpos : 0 < c.groupSize) : c.CutsInto [] [] [] := by
  intro rest
  rw [cutPending_open (CommandSettings.open_nil hpos)]
  rfl

/-- A group that is not complete takes the next token. -/
theorem CommandSettings.CutsInto.snoc (h : c.CutsInto done complete group)
    (hopen : group.countP c.counts ≠ c.groupSize) (token : Token) :
    c.CutsInto (done ++ [token]) complete (group ++ [token]) := by
  intro rest
  rw [List.append_assoc, List.singleton_append, h (token :: rest), cutPending_snoc hopen]

/-- A complete group is closed. -/
theorem CommandSettings.CutsInto.close (h : c.CutsInto done complete group)
    (hfull : group.countP c.counts = c.groupSize) (hpos : 0 < c.groupSize) :
    c.CutsInto done (complete ++ [group]) [] := by
  intro rest
  rw [h rest, cutPending_full hfull, cutPending_open (CommandSettings.open_nil hpos),
    List.append_assoc, List.singleton_append]

/-- A pending group that does not fit shows a group of the whole stream that does not fit,
whatever follows. -/
theorem CommandSettings.CutsInto.too_long (h : c.CutsInto done complete group)
    (hne : group ≠ []) (hlong : ¬ c.Fits (groupArgs group)) (rest : List Token) :
    ∃ bad later, c.groups (done ++ rest) = complete ++ bad :: later ∧
      ¬ c.Fits (groupArgs bad) := by
  obtain ⟨first, later, hcut, hpart⟩ := cutPending_head c.counts c.groupSize rest hne
  refine ⟨first, later, (h rest).trans (congrArg (complete ++ ·) hcut), ?_⟩
  intro hfits
  exact hlong (hfits.of_isPrefix (hpart.map Token.arg))

/-- At the end of the stream the pending group is the last one. -/
theorem CommandSettings.CutsInto.groups_eq (h : c.CutsInto done complete group)
    (hpos : 0 < c.groupSize) :
    c.groups done = complete ++ if group = [] then [] else [group] := by
  have hend := h []
  rw [List.append_nil] at hend
  rw [hend]
  by_cases hempty : group = []
  · rw [hempty, cutPending_open (CommandSettings.open_nil hpos), if_pos rfl, cutFrom_nil_nil]
  · rw [cutPending_nil hempty, if_neg hempty]

end Cutting

/-! ### The moves -/

/-- The completed commands are the groups that are complete, and all of them fit. The
pending arguments are the group after them. -/
structure Grouped (c : CommandSettings) (done : List Token) (out : List Command)
    (args : List CStr) (lines : Nat) (complete : List (List Token)) (group : List Token) :
    Prop where
  cut : c.CutsInto done complete group
  commands : batchesOf out = complete.map groupArgs
  pending : args = groupArgs group
  fit : ∀ g ∈ complete, c.Fits (groupArgs g)
  pendingFits : group ≠ [] → c.Fits (groupArgs group)
  /-- In line mode a complete group is never pending. -/
  line : c.lineMode = true → lines = group.countP c.counts ∧ lines ≠ c.maxLines

/-- What an exit leaves: the completed commands are the groups before one that does not
fit. -/
def GroupedAtExit (c : CommandSettings) (done : List Token) (out : List Command) : Prop :=
  ∃ complete, batchesOf out = complete.map groupArgs ∧
    (∀ g ∈ complete, c.Fits (groupArgs g)) ∧
    ∀ rest, ∃ bad later, c.groups (done ++ rest) = complete ++ bad :: later ∧
      ¬ c.Fits (groupArgs bad)

theorem groupArgs_snoc (group : List Token) (token : Token) :
    groupArgs (group ++ [token]) = groupArgs group ++ [token.arg] := List.map_append

section Moves

variable {c : CommandSettings} {done : List Token} {out : List Command} {args : List CStr}
  {lines : Nat} {complete : List (List Token)} {group : List Token}

theorem Grouped.group_ne_nil (h : Grouped c done out args lines complete group)
    (hne : args ≠ []) : group ≠ [] := by
  intro hempty
  rw [h.pending, hempty] at hne
  exact hne rfl

/-- Without a flush before the add, the pending group is not complete. -/
theorem Grouped.open_of_not_flushesBefore (h : Grouped c done out args lines complete group)
    (hgroup : c.Grouping) {arg : CStr} (hflush : ¬ c.FlushesBefore args arg) :
    group.countP c.counts ≠ c.groupSize := by
  by_cases hline : c.lineMode = true
  · -- Under `-L`, a complete group is never pending.
    rw [CommandSettings.groupSize, if_pos hline]
    obtain ⟨hlines, hne⟩ := h.line hline
    rw [← hlines]
    exact hne
  · -- Under `-n -x`, a complete group would have been flushed.
    have hmax := (hgroup.resolve_left hline).2
    rw [CommandSettings.groupSize, if_neg hline, countP_all (by simpa using hline)]
    intro hlen
    have hargs : args.length = c.maxArgs := by
      rw [h.pending, groupArgs, List.length_map, hlen]
    apply hflush
    refine ⟨?_, Or.inl ⟨hmax, hargs⟩⟩
    intro hempty
    rw [hempty, List.length_nil] at hargs
    omega

/-- A flush before the add means that the pending group is complete. -/
theorem Grouped.full_of_flushesBefore (h : Grouped c done out args lines complete group)
    (hgroup : c.Grouping) (hline : c.lineMode = false) {arg : CStr}
    (hflush : c.FlushesBefore args arg) : group.countP c.counts = c.groupSize := by
  have hx : c.terminateOnTooLargeCommand = true ∧ 0 < c.maxArgs := by
    rcases hgroup with hl | hx
    · exact absurd (hline.symm.trans hl) Bool.false_ne_true
    · exact hx
  rw [CommandSettings.groupSize, hline, if_neg Bool.false_ne_true, countP_all hline]
  rcases hflush.2 with ⟨-, hlen⟩ | ⟨-, -, hnot⟩
  · rw [h.pending, groupArgs, List.length_map] at hlen
    exact hlen
  · exact absurd hx hnot

/-- Flushing the pending group completes it. -/
theorem Grouped.commands_snoc (h : Grouped c done out args lines complete group)
    {cmd : Command} {n : Nat} (hcmd : cmd.Pending c args n) :
    batchesOf (out ++ [cmd]) = (complete ++ [group]).map groupArgs := by
  rw [batchesOf_append, h.commands, hcmd.batchesOf, h.pending, List.map_append]
  rfl

theorem Grouped.fit_snoc (h : Grouped c done out args lines complete group)
    {last : List Token} (hlast : c.Fits (groupArgs last)) :
    ∀ g ∈ complete ++ [last], c.Fits (groupArgs g) := by
  exact List.forall_mem_append.mpr ⟨h.fit, List.forall_mem_singleton.mpr hlast⟩

end Moves

/-- The moves under `-L`, and under `-n -x`, cut the stream into its groups. -/
theorem grouped_rule {c : CommandSettings} (hc : c.Appending) (hgroup : c.Grouping) :
    AppenderRule c
      (fun done out args lines => ∃ complete group, Grouped c done out args lines complete group)
      (GroupedAtExit c) where
  added := by
    rintro done out args lines token ⟨complete, group, h⟩ hflush hfits _ hcount
    have hopen := h.open_of_not_flushesBefore hgroup hflush
    have hnew : c.Fits (groupArgs (group ++ [token])) := by
      rw [groupArgs_snoc, ← h.pending]
      exact hfits (hgroup.terminates hc)
    refine ⟨complete, group ++ [token], h.cut.snoc hopen token, h.commands, ?_, h.fit,
      fun _ => hnew, ?_⟩
    · rw [groupArgs_snoc, ← h.pending]
    · intro hline
      obtain ⟨hlines, -⟩ := h.line hline
      refine ⟨?_, fun heq => hcount ⟨hline, heq⟩⟩
      rw [countP_line hline, hlines]
  completed := by
    -- `-L` closes the group with the token that completes it.
    rintro done out args lines token full ⟨complete, group, h⟩ hline hcount hfits hfull
    have hpos := hgroup.groupSize_pos hc
    have hsize : c.groupSize = c.maxLines := by rw [CommandSettings.groupSize, if_pos hline]
    obtain ⟨hlines, hne⟩ := h.line hline
    have hopen : group.countP c.counts ≠ c.groupSize := by
      rw [hsize, ← hlines]
      exact hne
    have hclosed : (group ++ [token]).countP c.counts = c.groupSize := by
      rw [countP_line hline, ← hlines, hsize]
      exact hcount
    have hnew : c.Fits (groupArgs (group ++ [token])) := by
      rw [groupArgs_snoc, ← h.pending]
      exact hfits
    refine ⟨complete ++ [group ++ [token]], [], (h.cut.snoc hopen token).close hclosed hpos,
      ?_, rfl, h.fit_snoc hnew, fun hempty => absurd rfl hempty, ?_⟩
    · rw [batchesOf_append, h.commands, hfull.batchesOf, List.map_append, h.pending,
        ← groupArgs_snoc]
      rfl
    · intro _
      refine ⟨rfl, ?_⟩
      rw [hsize] at hpos
      omega
  flushed := by
    -- `-n -x` closes the group when the next token arrives.
    rintro done out args lines token cmd ⟨complete, group, h⟩ hflush hline hfits hcmd
    have hpos := hgroup.groupSize_pos hc
    have hfull := h.full_of_flushesBefore hgroup hline hflush
    have hclosed := h.cut.close hfull hpos
    -- The token starts the next group.
    have hopen := CommandSettings.open_nil hpos
    refine ⟨complete ++ [group], [token], hclosed.snoc hopen token, h.commands_snoc hcmd, rfl,
      h.fit_snoc (h.pendingFits (h.group_ne_nil hflush.1)), ?_, ?_⟩
    · exact fun _ => hfits (hgroup.terminates hc)
    · exact fun hl => absurd (hline.symm.trans hl) Bool.false_ne_true
  -- Nothing is pending, so the rejected token is alone in its group.
  rejected := by
    rintro done out lines token ⟨complete, group, h⟩ hlong
    have hempty : group = [] := List.map_eq_nil_iff.mp h.pending.symm
    have hopen : group.countP c.counts ≠ c.groupSize := by
      rw [hempty]
      exact CommandSettings.open_nil (hgroup.groupSize_pos hc)
    refine ⟨complete, h.commands, h.fit, (h.cut.snoc hopen token).too_long (by simp) ?_⟩
    rw [hempty]
    exact hlong
  overflowed := by
    rintro done out args lines token ⟨complete, group, h⟩ hflush hne _ hlong
    have hopen := h.open_of_not_flushesBefore hgroup hflush
    refine ⟨complete, h.commands, h.fit, (h.cut.snoc hopen token).too_long (by simp) ?_⟩
    rw [groupArgs_snoc, ← h.pending]
    exact hlong
  -- The flushed group is complete, and the token alone is too long for the next one.
  flushedRejected := by
    rintro done out args lines token cmd ⟨complete, group, h⟩ hflush hline _ hlong hcmd
    have hpos := hgroup.groupSize_pos hc
    have hclosed := h.cut.close (h.full_of_flushesBefore hgroup hline hflush) hpos
    have hopen := CommandSettings.open_nil hpos
    exact ⟨complete ++ [group], h.commands_snoc hcmd,
      h.fit_snoc (h.pendingFits (h.group_ne_nil hflush.1)),
      (hclosed.snoc hopen token).too_long (by simp) hlong⟩

/-! ### The plan -/

/-- What the plan makes of the groups: all of them, or those before the first one that does
not fit. -/
inductive PlansGroups (c : CommandSettings) (tokens : List Token) (p : Plan) : Prop where
  | all : batchesOf p.commands = (c.groups tokens).map groupArgs → p.exit = none →
      (∀ g ∈ c.groups tokens, c.Fits (groupArgs g)) → PlansGroups c tokens p
  | stopped (before : List (List Token)) (bad : List Token) (later : List (List Token)) :
      c.groups tokens = before ++ bad :: later → (∀ g ∈ before, c.Fits (groupArgs g)) →
      ¬ c.Fits (groupArgs bad) → batchesOf p.commands = before.map groupArgs →
      p.exit = some Exit.commandTooLong → PlansGroups c tokens p

/-- The plan executes the groups of a stream that ends cleanly. -/
theorem appenderPlan_groups {c : CommandSettings} (hc : c.Appending) (hgroup : c.Grouping)
    {cmd : Command} (h : cmd.Pending c [] 0) {suppress : Bool} {stream : TokenStream}
    (hclean : stream.Clean) (hne : stream.tokens ≠ [] ∨ suppress = true) :
    PlansGroups c stream.tokens (appenderPlan suppress cmd stream) := by
  have hpos := hgroup.groupSize_pos hc
  have hstart : ∃ complete group, Grouped c [] [] [] 0 complete group := by
    refine ⟨[], [], CommandSettings.cutsInto_nil hpos, rfl, rfl, ?_, fun hempty => absurd rfl hempty,
      ?_⟩
    · exact fun g hg => nomatch hg
    · intro hline
      rw [CommandSettings.groupSize, if_pos hline] at hpos
      exact ⟨rfl, by omega⟩
  rcases appenderPlan_rule hc (grouped_rule hc hgroup) hstart h suppress stream with
    ⟨out, last, args, lines, ⟨complete, group, hI⟩, hlast, hplan⟩ |
      ⟨out, read, rest, ⟨before, hcommands, hfit, hstop⟩, hread, hplan⟩
  · rw [if_pos hclean] at hplan
    have hgroups := hI.cut.groups_eq hpos
    -- The last command holds the pending group, if there is one.
    have hlastBatches : batchesOf (lastCommands suppress stream.tokens args last)
        = (if group = [] then [] else [group]).map groupArgs := by
      by_cases hempty : group = []
      · have hargs : args = [] := by rw [hI.pending, hempty]; rfl
        rw [if_pos hempty, lastCommands, if_pos hargs]
        by_cases htokens : stream.tokens = []
        · rw [if_pos htokens, if_pos (hne.resolve_left (fun hn => hn htokens))]
          rfl
        · rw [if_neg htokens]
          rfl
      · have hargs : args ≠ [] := by
          rw [hI.pending]
          exact fun hmap => hempty (List.map_eq_nil_iff.mp hmap)
        -- A pending group has been read from somewhere.
        have htokens : stream.tokens ≠ [] := by
          intro htokens
          have hflat := flatten_cutAfter c.counts c.groupSize stream.tokens
          have hgroups' : cutAfter c.counts c.groupSize stream.tokens
              = complete ++ [group] := by
            rw [if_neg hempty] at hgroups
            exact hgroups
          rw [hgroups', htokens, List.flatten_append, List.append_eq_nil_iff] at hflat
          exact hempty (by simpa using hflat.2)
        rw [if_neg hempty, lastCommands, if_neg htokens, if_neg hargs, hlast.batchesOf, hI.pending]
        rfl
    refine .all ?_ ?_ ?_
    · rw [hplan, hgroups, List.map_append, ← hlastBatches, ← hI.commands]
      exact batchesOf_append _ _
    · rw [hplan]
    · rw [hgroups]
      refine List.forall_mem_append.mpr ⟨hI.fit, ?_⟩
      by_cases hempty : group = []
      · rw [if_pos hempty]
        exact List.forall_mem_nil _
      · rw [if_neg hempty]
        exact List.forall_mem_singleton.mpr (hI.pendingFits hempty)
  · obtain ⟨bad, later, hgroups, hlong⟩ := hstop rest
    rw [← hread] at hgroups
    refine .stopped before bad later hgroups hfit hlong ?_ ?_
    · rw [hplan]
      exact hcommands
    · rw [hplan]

/-- **Counted groups under `-x`.** Under `-L N`, or under `-n N -x`, take a non-empty input (or
`-r`) that ends cleanly, and a run without a halt. If every group fits, exactly the groups are
executed. Otherwise exactly the groups before the first one that does not fit are executed,
and the run exits with status `EXIT_FAILURE` and `command too long`. An empty input without
`-r` executes one command without input arguments. -/
theorem appenderModeRun_groups {sys : System} {scanned : List Getopt} {optind : Nat}
    {argv : List CStr} {stream : TokenStream} {opts : Options} {s : XargsMode}
    (hcreate : xargsCreate sys scanned optind argv stream = .ok (opts, s))
    (hmode : opts.argPlaceholder = none)
    (hgroup : opts.lineModeSpecified = true ∨
      (opts.terminateOnTooLargeCommand = true ∧ 0 < opts.maxArgsPerCommand))
    (hclean : stream.Clean) (w : World)
    (hfork : exitOf (xargsRun w opts s) ≠ some Exit.forkFailed)
    (hrunning : (finalState (xargsRun w opts s)).halted = false) :
    let run := xargsRun w opts s
    let batches := batchesOf (finalState run).forked
    let groups :=
      (if opts.lineModeSpecified then
        cutAfter Token.carriesBoundary opts.maxLinesPerCommand stream.tokens
      else
        cutAfter (fun _ => true) opts.maxArgsPerCommand stream.tokens).map groupArgs
    let fits := fun group : List CStr =>
      s.cmd.envLength + totalLength s.cmd.fixedArgs.args + totalLength group ≤ s.cmd.maxLength
    (stream.tokens ≠ [] ∨ opts.suppressExecutionOnEmptyInput = true →
      ((∀ group ∈ groups, fits group) → batches = groups ∧ exitOf run = none) ∧
      (∀ before bad later, groups = before ++ bad :: later → (∀ group ∈ before, fits group) →
        ¬ fits bad →
        batches = before ∧ exitOf run = some ⟨EXIT_FAILURE, .commandTooLong⟩)) ∧
    (stream.tokens = [] → opts.suppressExecutionOnEmptyInput = false →
      batches = [[]] ∧ exitOf run = none) := by
  intro run batches groups fits
  have hstart := xargsCreate_appender hcreate hmode
  obtain ⟨sys', hcreated⟩ := hstart.created
  obtain ⟨hforked, hexit, -⟩ := (hstart.follows w).completes hstart.starts hrunning hfork
  have hbatches : batches = batchesOf (appenderPlan opts.suppressExecutionOnEmptyInput
      s.cmd stream).commands := congrArg batchesOf hforked
  have hgroups : groups = (s.cmd.groups stream.tokens).map groupArgs := by
    show List.map _ _ = _
    rw [CommandSettings.groups, CommandSettings.counts, CommandSettings.groupSize,
      hcreated.lineMode, hcreated.maxLines, hcreated.maxArgs]
    by_cases hline : opts.lineModeSpecified = true
    · simp only [hline, if_true]
    · simp only [hline, if_false, Bool.false_eq_true]
  have hgrouping : s.cmd.Grouping := by
    rw [CommandSettings.Grouping, hcreated.lineMode, hcreated.terminates, hcreated.maxArgs]
    exact hgroup
  refine ⟨?_, ?_⟩
  · intro hne
    have hplans := appenderPlan_groups hstart.appending hgrouping hstart.pending hclean hne
    cases hplans with
    | all hcommands hnone hfit =>
        refine ⟨fun _ => ⟨?_, hexit.trans hnone⟩, ?_⟩
        · rw [hbatches, hcommands, hgroups]
        · intro before bad later hsplit _ hlong
          have hmem : bad ∈ groups := by rw [hsplit]; simp
          rw [hgroups, List.mem_map] at hmem
          obtain ⟨group, hmem, rfl⟩ := hmem
          exact absurd (hfit group hmem) hlong
    | stopped before bad later hsplit hfit hlong hcommands hstop =>
        have hsplit' : groups = before.map groupArgs ++ groupArgs bad :: later.map groupArgs := by
          rw [hgroups, hsplit, List.map_append, List.map_cons]
        have hfit' : ∀ group ∈ before.map groupArgs, fits group := by
          intro group hmem
          obtain ⟨g, hg, rfl⟩ := List.mem_map.mp hmem
          exact hfit g hg
        refine ⟨fun hall => ?_, ?_⟩
        · exact absurd (hall (groupArgs bad) (by rw [hsplit']; simp)) hlong
        · intro before' bad' later' hsplit'' hfit'' hlong''
          rw [hbatches, hcommands]
          exact ⟨before_unique hsplit' hfit' hlong hsplit'' hfit'' hlong'', hexit.trans hstop⟩
  · intro htokens hsuppress
    have hnone := appenderPlan_empty_exit s.cmd opts.suppressExecutionOnEmptyInput htokens hclean
    rw [hbatches, appenderPlan_empty_batches hstart.pending _ htokens hclean, hsuppress]
    exact ⟨rfl, hexit.trans hnone⟩

/-- `printf 'a\nb\nccccc\nd\n' | phxargs -x -n 2 -s 6 c`: the second group is too long. -/
theorem appenderModeRun_groups_stopped :
    ∃ opts s, xargsCreate System.bare [.optx, .optn [50], .opts [54]] 3
        [[120], [45, 120, 110, 50], [45, 115, 54], [99]]
        (.ofLines [[97], [98], [99, 99, 99, 99, 99], [100]]) = .ok (opts, s) ∧
      batchesOf (finalState (xargsRun World.quiet opts s)).forked = [[[97], [98]]] ∧
      exitOf (xargsRun World.quiet opts s) = some ⟨EXIT_FAILURE, .commandTooLong⟩ := by
  obtain ⟨opts, s, hcreate, hmode, hgroup, hsplit, hfits, hlong, hfork, hrunning⟩ : ∃ opts s,
      xargsCreate System.bare [.optx, .optn [50], .opts [54]] 3
        [[120], [45, 120, 110, 50], [45, 115, 54], [99]]
        (.ofLines [[97], [98], [99, 99, 99, 99, 99], [100]]) = .ok (opts, s) ∧
      opts.argPlaceholder = none ∧
      (opts.terminateOnTooLargeCommand = true ∧ 0 < opts.maxArgsPerCommand) ∧
      (if opts.lineModeSpecified then
        cutAfter Token.carriesBoundary opts.maxLinesPerCommand
          (TokenStream.ofLines [[97], [98], [99, 99, 99, 99, 99], [100]]).tokens
      else
        cutAfter (fun _ => true) opts.maxArgsPerCommand
          (TokenStream.ofLines [[97], [98], [99, 99, 99, 99, 99], [100]]).tokens).map groupArgs
        = [[[97], [98]]] ++ [[99, 99, 99, 99, 99], [100]] :: [] ∧
      (∀ group ∈ [[[97], [98]]], s.cmd.envLength + totalLength s.cmd.fixedArgs.args
        + totalLength group ≤ s.cmd.maxLength) ∧
      (¬ s.cmd.envLength + totalLength s.cmd.fixedArgs.args
        + totalLength [[99, 99, 99, 99, 99], [100]] ≤ s.cmd.maxLength) ∧
      exitOf (xargsRun World.quiet opts s) ≠ some Exit.forkFailed ∧
      (finalState (xargsRun World.quiet opts s)).halted = false := by
    exact ⟨_, _, rfl, rfl, by decide +kernel, by decide +kernel, by decide +kernel,
      by decide +kernel, by decide +kernel, by decide +kernel⟩
  have hgroups := (appenderModeRun_groups hcreate hmode (Or.inr hgroup) rfl World.quiet hfork
    hrunning).1 (Or.inl (List.cons_ne_nil _ _))
  exact ⟨opts, s, hcreate, hgroups.2 _ _ _ hsplit hfits hlong⟩

/-- `phxargs -x -n 2 c < /dev/null`: the input has no groups, but a command is executed. -/
theorem emptyInput_group_extra :
    ∃ opts s, xargsCreate System.bare [.optx, .optn [50]] 2 [[120], [45, 120, 110, 50], [99]]
        (.ofLines []) = .ok (opts, s) ∧
      opts.argPlaceholder = none ∧ opts.terminateOnTooLargeCommand = true ∧
      opts.maxArgsPerCommand = 2 ∧ (TokenStream.ofLines []).Clean ∧
      (finalState (xargsRun World.quiet opts s)).halted = false ∧
      cutAfter (fun _ => true) 2 (TokenStream.ofLines []).tokens = [] ∧
      batchesOf (finalState (xargsRun World.quiet opts s)).forked = [[]] := by
  exact ⟨_, _, rfl, rfl, rfl, rfl, rfl, by decide +kernel, rfl, by decide +kernel⟩

end Phxargs
