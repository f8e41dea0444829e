import Phxargs.Lib.Batches
import Phxargs.Proofs.Conservation

/-!
# `Phxargs.Proofs.Packing`: without `-x` and `-L`, batching is greedy packing

Without `-x` and `-L` only two checks decide: the pending arguments are flushed when their
number is at the limit of `-n`, or when the next string would make the command too long.
This is greedy packing. `PackedSoFar` is the invariant: the completed commands followed by
the pending arguments are a greedy packing of what has been read.

The comparisons are exact on both sides: a batch that reaches a limit is not flushed before
the next string arrives, and the first string that passes it is not added.
-/

set_option autoImplicit false

namespace Phxargs

open Lib

/-- The input arguments of each command. -/
def batchesOf (commands : List Command) : List (List CStr) :=
  commands.map fun cmd => cmd.inputArgs.args

theorem flatten_batchesOf (commands : List Command) :
    (batchesOf commands).flatten = inputsOf commands := List.flatMap_def.symm

@[simp] theorem batchesOf_append (commands commands' : List Command) :
    batchesOf (commands ++ commands') = batchesOf commands ++ batchesOf commands' :=
  List.map_append

/-- The batch of a command is what was pending. -/
theorem Command.Pending.batchesOf {cmd : Command} {c : CommandSettings} {args : List CStr}
    {lines : Nat} (h : cmd.Pending c args lines) : batchesOf [cmd] = [args] := by
  show [cmd.inputArgs.args] = [args]
  rw [h.inputArgs]

/-- The batches of an empty input. -/
theorem appenderPlan_empty_batches {c : CommandSettings} {cmd : Command} {lines : Nat}
    (h : cmd.Pending c [] lines) (suppress : Bool) {stream : TokenStream}
    (htokens : stream.tokens = []) (hclean : stream.Clean) :
    batchesOf (appenderPlan suppress cmd stream).commands = if suppress then [] else [[]] := by
  rw [appenderPlan_empty cmd suppress htokens hclean]
  cases suppress with
  | true => rfl
  | false => exact (h.increment stream.endBoundaries).batchesOf

/-- A batch within both limits: the number of `-n`, if it is given, and the length. -/
def CommandSettings.WithinLimits (c : CommandSettings) (batch : List CStr) : Prop :=
  (0 < c.maxArgs → batch.length ≤ c.maxArgs) ∧ c.Fits batch

/-- The completed commands and the pending arguments, as a packing of the tokens read so
far. The strings that have been read must fit one by one. -/
structure PackedSoFar (c : CommandSettings) (done : List Token) (out : List Command)
    (args : List CStr) : Prop where
  empty : args = [] → out = []
  packed : args ≠ [] → (∀ token ∈ done, c.Fits [token.arg]) →
    Packed c.WithinLimits (batchesOf out ++ [args])

/-- Without `-x` and `-L`, a flush before an add means that the string is too much for the
pending arguments. -/
theorem CommandSettings.FlushesBefore.not_withinLimits {c : CommandSettings} {args : List CStr}
    {arg : CStr} (h : c.FlushesBefore args arg) : ¬ c.WithinLimits (args ++ [arg]) := by
  rintro ⟨hcount, hfits⟩
  rcases h.2 with ⟨hmax, hlen⟩ | ⟨-, hlong, -⟩
  · have hle := hcount hmax
    rw [List.length_append, List.length_singleton] at hle
    omega
  · exact hlong hfits

/-- And no flush means that the pending arguments can take it. -/
theorem CommandSettings.withinLimits_of_not_flushesBefore {c : CommandSettings}
    (hline : c.lineMode = false) (hx : c.terminateOnTooLargeCommand = false)
    {args : List CStr} {arg : CStr} (hne : args ≠ []) (hargs : c.WithinLimits args)
    (h : ¬ c.FlushesBefore args arg) : c.WithinLimits (args ++ [arg]) := by
  constructor
  · intro hmax
    have hle := hargs.1 hmax
    have hlen : args.length ≠ c.maxArgs := fun hlen => h ⟨hne, Or.inl ⟨hmax, hlen⟩⟩
    rw [List.length_append, List.length_singleton]
    omega
  · by_contra hlong
    apply h
    refine ⟨hne, Or.inr ⟨hline, hlong, ?_⟩⟩
    intro hand
    exact Bool.false_ne_true (hx.symm.trans hand.1)

theorem CommandSettings.withinLimits_singleton {c : CommandSettings} {arg : CStr}
    (h : c.Fits [arg]) : c.WithinLimits [arg] := ⟨fun hmax => hmax, h⟩

/-- The moves without `-x` and `-L` keep the packing. An exit means that a string does not
fit alone. -/
theorem packedSoFar_rule {c : CommandSettings} (hline : c.lineMode = false)
    (hx : c.terminateOnTooLargeCommand = false) :
    AppenderRule c (fun done out args _ => PackedSoFar c done out args)
      (fun done _ => ∃ token ∈ done, ¬ c.Fits [token.arg]) where
  added := by
    intro done out args lines token hI hflush _ halone _
    refine ⟨fun hempty => absurd hempty (by simp), ?_⟩
    intro _ hall
    have hold : ∀ t ∈ done, c.Fits [t.arg] := fun t ht => hall t (List.mem_append_left _ ht)
    by_cases hempty : args = []
    · -- The first string of all.
      subst hempty
      rw [hI.empty rfl]
      exact packed_singleton (CommandSettings.withinLimits_singleton (halone rfl))
    · have hpacked := hI.packed hempty hold
      exact hpacked.extend (CommandSettings.withinLimits_of_not_flushesBefore hline hx hempty
        (hpacked.fit args (by simp)) hflush)
  completed := by
    intro done out args lines token full _ hl _ _ _
    exact absurd (hline.symm.trans hl) Bool.false_ne_true
  flushed := by
    intro done out args lines token cmd hI hflush _ _ hcmd
    refine ⟨fun hempty => absurd hempty (by simp), ?_⟩
    intro _ hall
    have hold : ∀ t ∈ done, c.Fits [t.arg] := fun t ht => hall t (List.mem_append_left _ ht)
    have hnew : c.Fits [token.arg] := hall token (by simp)
    have hclose := (hI.packed hflush.1 hold).close hflush.not_withinLimits
      (CommandSettings.withinLimits_singleton hnew)
    rw [batchesOf_append, hcmd.batchesOf]
    exact hclose
  rejected := fun _ hlong => ⟨_, by simp, hlong⟩
  overflowed := fun _ _ _ hterminate _ =>
    absurd (hx.symm.trans hterminate) Bool.false_ne_true
  flushedRejected := fun _ _ _ hterminate _ _ =>
    absurd (hx.symm.trans hterminate) Bool.false_ne_true

/-- The plan is a greedy packing of the stream. -/
theorem appenderPlan_packed {c : CommandSettings} (hc : c.Appending)
    (hline : c.lineMode = false) (hx : c.terminateOnTooLargeCommand = false) {cmd : Command}
    (h : cmd.Pending c [] 0) (suppress : Bool) {stream : TokenStream} (hclean : stream.Clean)
    (hne : stream.tokens ≠ []) (hfits : ∀ arg ∈ stream.args, c.Fits [arg]) :
    Packed c.WithinLimits (batchesOf (appenderPlan suppress cmd stream).commands) ∧
      (appenderPlan suppress cmd stream).exit = none := by
  have hall : ∀ token ∈ stream.tokens, c.Fits [token.arg] :=
    fun token htoken => hfits token.arg (List.mem_map_of_mem htoken)
  have rule : AppenderRule c
      (fun done out args _ => PackedSoFar c done out args ∧ Dealt done out args)
      (fun done _ => ∃ token ∈ done, ¬ c.Fits [token.arg]) :=
    (packedSoFar_rule hline hx).and_left (dealt_rule c)
  have hstart : PackedSoFar c [] [] [] ∧ Dealt [] [] [] :=
    ⟨⟨fun _ => rfl, fun hne => absurd rfl hne⟩, rfl, fun _ hmem => nomatch hmem⟩
  rcases appenderPlan_rule hc rule hstart h suppress stream with
    ⟨out, last, args, lines, ⟨hpacked, hdealt⟩, hlast, hplan⟩ | ⟨out, read, rest, hE, hread, hplan⟩
  · rw [hplan, if_pos hclean]
    -- Something is pending: a flush before an add leaves the string that caused it.
    have hargs : args ≠ [] := by
      intro hempty
      have hdeals := hdealt.all
      rw [hempty, hpacked.empty hempty] at hdeals
      exact hne (List.map_eq_nil_iff.mp hdeals.symm)
    refine ⟨?_, rfl⟩
    show Packed c.WithinLimits (batchesOf (out ++ lastCommands suppress stream.tokens args last))
    rw [lastCommands, if_neg hne, if_neg hargs, batchesOf_append, hlast.batchesOf]
    exact hpacked.packed hargs hall
  · -- An exit has found a string that does not fit alone.
    obtain ⟨token, htoken, hlong⟩ := hE
    refine absurd (hall token ?_) hlong
    rw [hread]
    exact List.mem_append_left _ htoken

/-- **Greedy packing.** Without `-x` and `-L`, let every token fit into a command of its own,
and let the input end cleanly. Then a run without a halt executes a non-empty input as a
greedy packing: the batches partition the tokens, none is empty, each is within the `-n`
limit and the length limit, and no batch can take the first token of the next one. An empty
input executes one command without input arguments, or none under `-r`. -/
theorem appenderModeRun_packs {sys : System} {scanned : List Getopt} {optind : Nat}
    {argv : List CStr} {stream : TokenStream} {opts : Options} {s : XargsMode}
    (hcreate : xargsCreate sys scanned optind argv stream = .ok (opts, s))
    (hmode : opts.argPlaceholder = none) (hline : opts.lineModeSpecified = false)
    (hx : opts.terminateOnTooLargeCommand = false) (hclean : stream.Clean)
    (hfits : ∀ arg ∈ stream.args,
      s.cmd.envLength + totalLength s.cmd.fixedArgs.args + (strlen arg + 1) ≤ s.cmd.maxLength)
    (w : World) (hfork : exitOf (xargsRun w opts s) ≠ some Exit.forkFailed)
    (hrunning : (finalState (xargsRun w opts s)).halted = false) :
    let run := xargsRun w opts s
    let batches := batchesOf (finalState run).forked
    let withinLimits := fun batch : List CStr =>
      (0 < opts.maxArgsPerCommand → batch.length ≤ opts.maxArgsPerCommand) ∧
      s.cmd.envLength + totalLength s.cmd.fixedArgs.args + totalLength batch ≤ s.cmd.maxLength
    exitOf run = none ∧
    (stream.tokens ≠ [] → batches.flatten = stream.args ∧ Packed withinLimits batches) ∧
    (stream.tokens = [] →
      batches = if opts.suppressExecutionOnEmptyInput then [] else [[]]) := by
  intro run batches withinLimits
  have hstart := xargsCreate_appender hcreate hmode
  obtain ⟨sys', hcreated⟩ := hstart.created
  have hlineMode : s.cmd.lineMode = false := hcreated.lineMode.trans hline
  have hterminate : s.cmd.terminateOnTooLargeCommand = false := hcreated.terminates.trans hx
  have hlimits : withinLimits = s.cmd.WithinLimits := by
    funext batch
    show _ = ((0 < s.cmd.maxArgs → batch.length ≤ s.cmd.maxArgs) ∧ _)
    rw [hcreated.maxArgs]
    rfl
  obtain ⟨hforked, hexit, -⟩ := (hstart.follows w).completes hstart.starts hrunning hfork
  have hbatches : batches = batchesOf (appenderPlan opts.suppressExecutionOnEmptyInput
      s.cmd stream).commands := congrArg batchesOf hforked
  have hdeals := appenderPlan_deals hstart.appending hstart.pending
    opts.suppressExecutionOnEmptyInput stream
  -- An empty input executes one empty batch, which is no packing.
  by_cases hne : stream.tokens = []
  · have hnone := appenderPlan_empty_exit s.cmd opts.suppressExecutionOnEmptyInput hne hclean
    refine ⟨hexit.trans hnone, fun h => absurd hne h, fun _ => ?_⟩
    rw [hbatches]
    exact appenderPlan_empty_batches hstart.pending _ hne hclean
  · obtain ⟨hpacked, hnone⟩ := appenderPlan_packed hstart.appending hlineMode hterminate
      hstart.pending opts.suppressExecutionOnEmptyInput hclean hne (by
        intro arg harg
        simpa [CommandSettings.Fits, CommandSettings.lengthWith] using hfits arg harg)
    refine ⟨hexit.trans hnone, fun _ => ⟨?_, ?_⟩, fun h => absurd h hne⟩
    · rw [hbatches, flatten_batchesOf]
      exact hdeals.whole hnone
    · rw [hbatches, hlimits]
      exact hpacked

/-- `printf 'a\nb\nc\n' | phxargs -n 2 c` in the quiet world: two batches. -/
theorem appenderModeRun_packs_counted :
    ∃ opts s, xargsCreate System.bare [.optn [50]] 3 [[120], [45, 110], [50], [99]]
        (.ofLines [[97], [98], [99]]) = .ok (opts, s) ∧
      (batchesOf (finalState (xargsRun World.quiet opts s)).forked).flatten
        = [[97], [98], [99]] := by
  obtain ⟨opts, s, hcreate, hmode, hline, hx, hfits, hfork, hrunning⟩ : ∃ opts s,
      xargsCreate System.bare [.optn [50]] 3 [[120], [45, 110], [50], [99]]
        (.ofLines [[97], [98], [99]]) = .ok (opts, s) ∧ opts.argPlaceholder = none ∧
      opts.lineModeSpecified = false ∧ opts.terminateOnTooLargeCommand = false ∧
      (∀ arg ∈ (TokenStream.ofLines [[97], [98], [99]]).args,
        s.cmd.envLength + totalLength s.cmd.fixedArgs.args + (strlen arg + 1) ≤ s.cmd.maxLength) ∧
      exitOf (xargsRun World.quiet opts s) ≠ some Exit.forkFailed ∧
      (finalState (xargsRun World.quiet opts s)).halted = false := by
    exact ⟨_, _, rfl, rfl, rfl, rfl, by decide +kernel, by decide +kernel, by decide +kernel⟩
  have hpacks := appenderModeRun_packs hcreate hmode hline hx rfl hfits World.quiet hfork hrunning
  exact ⟨opts, s, hcreate, (hpacks.2.1 (List.cons_ne_nil _ _)).1⟩

/-- `phxargs c < /dev/null`: the one batch is empty. -/
theorem emptyInput_batch_empty :
    ∃ opts s, xargsCreate System.bare [] 1 [[120], [99]] (.ofLines []) = .ok (opts, s) ∧
      opts.argPlaceholder = none ∧ opts.lineModeSpecified = false ∧
      opts.terminateOnTooLargeCommand = false ∧ (TokenStream.ofLines []).Clean ∧
      (∀ arg ∈ (TokenStream.ofLines []).args,
        s.cmd.envLength + totalLength s.cmd.fixedArgs.args + (strlen arg + 1) ≤ s.cmd.maxLength) ∧
      exitOf (xargsRun World.quiet opts s) = none ∧
      (finalState (xargsRun World.quiet opts s)).halted = false ∧
      ¬ ∀ batch ∈ batchesOf (finalState (xargsRun World.quiet opts s)).forked, batch ≠ [] := by
  exact ⟨_, _, rfl, rfl, rfl, rfl, rfl, (fun _ hmem => nomatch hmem), by decide +kernel,
    by decide +kernel, by decide +kernel⟩

end Phxargs
