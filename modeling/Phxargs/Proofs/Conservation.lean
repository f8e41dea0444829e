import Phxargs.Proofs.Appender

/-!
# `Phxargs.Proofs.Conservation`: no argument is lost, repeated or moved

The appender mode deals the token stream out to its commands. `Dealt` is the invariant: the
arguments of the completed commands, followed by the pending ones, are the tokens that have
been read, and no completed command is without arguments.

Each flush moves the pending arguments to the completed commands and leaves nothing
pending. An exit leaves pending arguments behind, so after one the executed arguments are
a prefix of the tokens.
-/

set_option autoImplicit false

namespace Phxargs

open Lib

/-- The input arguments of the commands, in order. -/
def inputsOf (commands : List Command) : List CStr :=
  commands.flatMap fun cmd => cmd.inputArgs.args

@[simp] theorem inputsOf_append (commands commands' : List Command) :
    inputsOf (commands ++ commands') = inputsOf commands ++ inputsOf commands' :=
  List.flatMap_append

@[simp] theorem inputsOf_singleton (cmd : Command) : inputsOf [cmd] = cmd.inputArgs.args := by
  simp [inputsOf]

/-- The tokens read so far, dealt out to completed commands and pending arguments. -/
structure Dealt (done : List Token) (out : List Command) (args : List CStr) : Prop where
  all : inputsOf out ++ args = done.map Token.arg
  nonempty : ∀ cmd ∈ out, cmd.inputArgs.args ≠ []

/-- What an exit leaves of it. -/
structure DealtAtExit (done : List Token) (out : List Command) : Prop where
  part : inputsOf out <+: done.map Token.arg
  nonempty : ∀ cmd ∈ out, cmd.inputArgs.args ≠ []

theorem Dealt.atExit {done : List Token} {out : List Command} {args : List CStr}
    (h : Dealt done out args) (token : Token) : DealtAtExit (done ++ [token]) out where
  part := by
    rw [List.map_append, ← h.all, List.append_assoc]
    exact List.prefix_append ..
  nonempty := h.nonempty

/-- A flush completes a command with arguments. -/
theorem Dealt.nonempty_snoc {done : List Token} {out : List Command} {args : List CStr}
    (h : Dealt done out args) {cmd : Command} (hne : cmd.inputArgs.args ≠ []) :
    ∀ k ∈ out ++ [cmd], k.inputArgs.args ≠ [] := by
  exact List.forall_mem_append.mpr ⟨h.nonempty, List.forall_mem_singleton.mpr hne⟩

/-- The moves of the appender mode deal out the tokens. -/
theorem dealt_rule (c : CommandSettings) :
    AppenderRule c (fun done out args _ => Dealt done out args) DealtAtExit where
  added := by
    intro done out args lines token hI _ _ _ _
    refine ⟨?_, hI.nonempty⟩
    rw [← List.append_assoc, hI.all, List.map_append]
    rfl
  -- A complete line: nothing is pending behind it.
  completed := by
    intro done out args lines token full hI _ _ _ hfull
    refine ⟨?_, hI.nonempty_snoc ?_⟩
    · rw [inputsOf_append, inputsOf_singleton, hfull.inputArgs, List.append_nil,
        ← List.append_assoc, hI.all, List.map_append]
      rfl
    · rw [hfull.inputArgs]
      simp
  -- The pending arguments leave, and the token is the first one of the next command.
  flushed := by
    intro done out args lines token cmd hI hflush _ _ hcmd
    refine ⟨?_, hI.nonempty_snoc ?_⟩
    · rw [inputsOf_append, inputsOf_singleton, hcmd.inputArgs, hI.all, List.map_append]
      rfl
    · rw [hcmd.inputArgs]
      exact hflush.1
  rejected := fun hI _ => hI.atExit _
  overflowed := fun hI _ _ _ _ => hI.atExit _
  flushedRejected := by
    intro done out args lines token cmd hI hflush _ _ _ hcmd
    refine ⟨?_, hI.nonempty_snoc ?_⟩
    · -- The token that the exit rejects has been read, but is in no command.
      rw [inputsOf_append, inputsOf_singleton, hcmd.inputArgs, hI.all, List.map_append]
      exact List.prefix_append ..
    · rw [hcmd.inputArgs]
      exact hflush.1

/-- The plan deals out the stream. -/
structure PlanDeals (suppress : Bool) (cmd : Command) (stream : TokenStream) : Prop where
  part : inputsOf (appenderPlan suppress cmd stream).commands <+: stream.args
  whole : (appenderPlan suppress cmd stream).exit = none →
    inputsOf (appenderPlan suppress cmd stream).commands = stream.args
  nonempty : stream.tokens ≠ [] →
    ∀ k ∈ (appenderPlan suppress cmd stream).commands, k.inputArgs.args ≠ []

theorem appenderPlan_deals {c : CommandSettings} (hc : c.Appending) {cmd : Command}
    (h : cmd.Pending c [] 0) (suppress : Bool) (stream : TokenStream) :
    PlanDeals suppress cmd stream := by
  have hstart : Dealt [] [] [] := ⟨rfl, fun _ h => nomatch h⟩
  rcases appenderPlan_rule hc (dealt_rule c) hstart h suppress stream with
    ⟨out, last, args, lines, hI, hlast, hplan⟩ | ⟨out, read, rest, hE, hread, hplan⟩
  · by_cases hclean : stream.Clean
    · rw [if_pos hclean] at hplan
      -- The last command takes exactly what is pending.
      have hinputs : inputsOf (lastCommands suppress stream.tokens args last) = args := by
        unfold lastCommands
        have hnil : stream.tokens = [] → args = [] := by
          intro htokens
          have hall := hI.all
          rw [htokens] at hall
          exact (List.append_eq_nil_iff.mp hall).2
        split
        · rw [hnil ‹_›]
          split
          · rfl
          · rw [inputsOf_singleton, hlast.inputArgs, hnil ‹_›]
        · split
          · rename_i hargs
            exact hargs.symm
          · rw [inputsOf_singleton, hlast.inputArgs]
      have hall : inputsOf (appenderPlan suppress cmd stream).commands = stream.args := by
        rw [hplan]
        show inputsOf (out ++ lastCommands suppress stream.tokens args last) = stream.args
        rw [inputsOf_append, hinputs]
        exact hI.all
      refine ⟨hall ▸ List.prefix_rfl, fun _ => hall, ?_⟩
      intro htokens k hk
      rw [hplan] at hk
      rcases List.mem_append.mp hk with hk | hk
      · exact hI.nonempty k hk
      · rw [lastCommands, if_neg htokens] at hk
        split at hk
        · exact (List.not_mem_nil hk).elim
        · rename_i hargs
          rw [List.mem_singleton.mp hk, hlast.inputArgs]
          exact hargs
    · -- A tokenizer error drops what is pending.
      rw [if_neg hclean] at hplan
      refine ⟨?_, ?_, ?_⟩
      · rw [hplan]
        show inputsOf out <+: stream.tokens.map Token.arg
        rw [← hI.all]
        exact List.prefix_append ..
      · rw [hplan]
        intro hexit
        cases hexit
      · rw [hplan]
        exact fun _ => hI.nonempty
  · -- `command too long` leaves the rest of the stream unread.
    refine ⟨?_, ?_, ?_⟩
    · rw [hplan]
      show inputsOf out <+: stream.tokens.map Token.arg
      rw [hread, List.map_append]
      exact hE.part.trans (List.prefix_append ..)
    · rw [hplan]
      intro hexit
      cases hexit
    · rw [hplan]
      exact fun _ => hE.nonempty

/-- The plan for an empty input. -/
theorem appenderPlan_empty (cmd : Command) (suppress : Bool) {stream : TokenStream}
    (htokens : stream.tokens = []) (hclean : stream.Clean) :
    (appenderPlan suppress cmd stream).commands =
      if suppress then [] else [commandIncrementLineCount cmd stream.endBoundaries] := by
  have hend : stream.endError = .none := hclean
  simp only [appenderPlan, endPlan, htokens, batches_nil, hend, appenderLast]
  cases suppress <;> rfl

theorem appenderPlan_empty_exit (cmd : Command) (suppress : Bool) {stream : TokenStream}
    (htokens : stream.tokens = []) (hclean : stream.Clean) :
    (appenderPlan suppress cmd stream).exit = none := by
  have hend : stream.endError = .none := hclean
  simp only [appenderPlan, endPlan, htokens, batches_nil, hend, if_true]

/-- **Conservation.** In appender mode, the input arguments of the forked commands are, in
fork order, a prefix of the token stream. They are the whole stream when the run returns
normally and the pool has not halted. An empty input forks one command without input
arguments, or none under `-r`. Any other input forks no command without input arguments.
Each argv is the fixed arguments followed by the input arguments. -/
theorem appenderModeRun_conserves {sys : System} {scanned : List Getopt} {optind : Nat}
    {argv : List CStr} {stream : TokenStream} {opts : Options} {s : XargsMode}
    (hcreate : xargsCreate sys scanned optind argv stream = .ok (opts, s))
    (hmode : opts.argPlaceholder = none) (w : World) :
    let run := xargsRun w opts s
    let commands := (finalState run).forked
    inputsOf commands <+: stream.args ∧
    (exitOf run = none → (finalState run).halted = false → inputsOf commands = stream.args) ∧
    (exitOf run ≠ some Exit.forkFailed → stream.tokens = [] → stream.Clean →
      if opts.suppressExecutionOnEmptyInput then commands = []
      else ∃ cmd, commands = [cmd] ∧ cmd.inputArgs.args = []) ∧
    (stream.tokens ≠ [] → ∀ cmd ∈ commands, cmd.inputArgs.args ≠ []) ∧
    (∀ cmd ∈ commands, buildExecArgs cmd = s.cmd.fixedArgs.args ++ cmd.inputArgs.args) := by
  intro run commands
  have hstart := xargsCreate_appender hcreate hmode
  have hfollows := hstart.follows w
  have hdeals := appenderPlan_deals hstart.appending hstart.pending
    opts.suppressExecutionOnEmptyInput stream
  have hforked := hfollows.forked_isPrefix hstart.starts
  refine ⟨?_, ?_, ?_, ?_, ?_⟩
  · exact (hforked.flatMap _).trans hdeals.part
  · intro hexit hrunning
    have hfork : exitOf run ≠ some Exit.forkFailed := by
      rw [hexit]
      exact (Option.some_ne_none _).symm
    -- The run has carried out its whole plan.
    obtain ⟨hcommands, hplanned, -⟩ := hfollows.completes hstart.starts hrunning hfork
    have hwhole := hdeals.whole (hplanned ▸ hexit)
    rw [← hcommands] at hwhole
    exact hwhole
  · intro hfork htokens hclean
    have hplan := appenderPlan_empty s.cmd opts.suppressExecutionOnEmptyInput htokens hclean
    by_cases hsuppress : opts.suppressExecutionOnEmptyInput = true
    · rw [if_pos hsuppress] at hplan ⊢
      rw [hplan] at hforked
      exact List.prefix_nil.mp hforked
    · rw [if_neg hsuppress] at hplan ⊢
      exact ⟨_, hfollows.forked_singleton hstart.starts hfork hplan,
        (hstart.pending.increment _).inputArgs⟩
  · intro htokens cmd hcmd
    exact hdeals.nonempty htokens cmd (hforked.subset hcmd)
  · intro cmd hcmd
    exact appenderPlan_argv hstart.appending hstart.pending opts.suppressExecutionOnEmptyInput
      stream cmd (hforked.subset hcmd)

/-- `printf 'a\nb\nc\n' | phxargs -n 2 c` in the quiet world. The whole input is executed. -/
theorem appenderModeRun_conserves_counted :
    ∃ opts s, xargsCreate System.bare [.optn [50]] 3 [[120], [45, 110], [50], [99]]
        (.ofLines [[97], [98], [99]]) = .ok (opts, s) ∧
      inputsOf (finalState (xargsRun World.quiet opts s)).forked = [[97], [98], [99]] := by
  obtain ⟨opts, s, hcreate, hmode, hexit, hrunning⟩ : ∃ opts s,
      xargsCreate System.bare [.optn [50]] 3 [[120], [45, 110], [50], [99]]
        (.ofLines [[97], [98], [99]]) = .ok (opts, s) ∧ opts.argPlaceholder = none ∧
      exitOf (xargsRun World.quiet opts s) = none ∧
      (finalState (xargsRun World.quiet opts s)).halted = false := by
    exact ⟨_, _, rfl, rfl, by decide +kernel, by decide +kernel⟩
  have hconserves := appenderModeRun_conserves hcreate hmode World.quiet
  exact ⟨opts, s, hcreate, hconserves.2.1 hexit hrunning⟩

end Phxargs
