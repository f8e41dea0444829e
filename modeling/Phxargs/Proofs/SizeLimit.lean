import Phxargs.Proofs.Conservation

/-!
# `Phxargs.Proofs.SizeLimit`: the size limit in appender mode

A string that does not fit into an otherwise empty command must be rejected. The fatal check
runs before the flush, so it sees an empty command only for the first token of a command
that is not flushed by the token itself. Without `-x` a too long string that arrives later
flushes the pending arguments, and is then added without a check.

`RejectsOversized` is the exact condition under which this cannot happen. The invariant
`Limited` covers the state right after a flush, where the pending string may be too long.
-/

set_option autoImplicit false

namespace Phxargs

open Lib

/-- The first token of the stream, or `-x`, keeps every too long string out: with `-x` every
add is checked, a too long first token ends the run, and otherwise no string is too long. -/
def CommandSettings.RejectsOversized (c : CommandSettings) (tokens : List Token) : Prop :=
  c.terminateOnTooLargeCommand = true ∨
  (∃ token ∈ tokens.head?, ¬ c.Fits [token.arg]) ∨
  (∀ token ∈ tokens, c.Fits [token.arg])

/-- What the checks guarantee after the tokens `done`. Without `-x` it depends on the
strings. -/
structure Limited (c : CommandSettings) (done : List Token) (out : List Command)
    (args : List CStr) : Prop where
  commands : (c.terminateOnTooLargeCommand = true ∨ ∀ token ∈ done, c.Fits [token.arg]) →
    ∀ cmd ∈ out, c.Fits cmd.inputArgs.args
  pending : (c.terminateOnTooLargeCommand = true ∨ ∀ token ∈ done, c.Fits [token.arg]) →
    args ≠ [] → c.Fits args
  checked : c.terminateOnTooLargeCommand = true → ∀ token ∈ done, c.Fits [token.arg]
  first : ∀ token ∈ done.head?, c.Fits [token.arg]
  /-- Only a line that is complete leaves nothing pending. -/
  start : c.lineMode = false → args = [] → done = [] ∧ out = []
  fresh : done = [] → args = []

/-- What an exit leaves. Without `-x`, only the first token causes one. -/
structure LimitedAtExit (c : CommandSettings) (done : List Token) (out : List Command) :
    Prop where
  commands : c.terminateOnTooLargeCommand = true → ∀ cmd ∈ out, c.Fits cmd.inputArgs.args
  onlyFirst : c.terminateOnTooLargeCommand = false →
    out = [] ∧ ∃ token, done = [token] ∧ ¬ c.Fits [token.arg]

section Invariant

variable {c : CommandSettings} {done : List Token} {out : List Command} {args : List CStr}

/-- Reading a token that fits, or any token behind the first. -/
theorem Limited.first_snoc (h : Limited c done out args) {token : Token}
    (halone : args = [] → c.Fits [token.arg]) :
    ∀ t ∈ (done ++ [token]).head?, c.Fits [t.arg] := by
  cases done with
  | nil =>
      intro t ht
      obtain rfl : t = token := by simpa using ht.symm
      exact halone (h.fresh rfl)
  | cons d done =>
      intro t ht
      exact h.first t ht

theorem Limited.checked_snoc (h : Limited c done out args) {token : Token}
    (hfits : c.terminateOnTooLargeCommand = true → c.Fits [token.arg]) :
    c.terminateOnTooLargeCommand = true → ∀ t ∈ done ++ [token], c.Fits [t.arg] := by
  intro hx t ht
  rcases List.mem_append.mp ht with ht | ht
  · exact h.checked hx t ht
  · rw [List.mem_singleton.mp ht]
    exact hfits hx

/-- What holds when all tokens fit also holds when all but the last fit. -/
theorem fits_of_snoc {token : Token}
    (h : c.terminateOnTooLargeCommand = true ∨ ∀ t ∈ done ++ [token], c.Fits [t.arg]) :
    c.terminateOnTooLargeCommand = true ∨ ∀ t ∈ done, c.Fits [t.arg] :=
  h.imp_right fun hall t ht => hall t (List.mem_append_left _ ht)

theorem Limited.commands_snoc (h : Limited c done out args) {cmd : Command}
    (hcmd : cmd.inputArgs.args = args) (hne : args ≠ [])
    (hfits : c.terminateOnTooLargeCommand = true ∨ ∀ t ∈ done, c.Fits [t.arg]) :
    ∀ k ∈ out ++ [cmd], c.Fits k.inputArgs.args := by
  intro k hk
  rcases List.mem_append.mp hk with hk | hk
  · exact h.commands hfits k hk
  · rw [List.mem_singleton.mp hk, hcmd]
    exact h.pending hfits hne

end Invariant

/-- The moves of the appender mode keep `Limited`. -/
theorem limited_rule {c : CommandSettings} (hc : c.Appending) :
    AppenderRule c (fun done out args _ => Limited c done out args) (LimitedAtExit c) where
  added := by
    intro done out args lines token h hflush hfits halone _
    have hnew : (c.terminateOnTooLargeCommand = true ∨ ∀ t ∈ done ++ [token], c.Fits [t.arg]) →
        c.Fits (args ++ [token.arg]) := by
      intro hall
      by_cases hx : c.terminateOnTooLargeCommand = true
      · exact hfits hx
      · have hroomy := CommandSettings.roomy_added hc hflush hfits
        rcases hroomy with hfits' | hlen
        · exact hfits'
        · -- A single string: it is the token.
          have hempty : args = [] := by
            rw [List.length_append, List.length_singleton] at hlen
            exact List.length_eq_zero_iff.mp (by omega)
          rw [hempty]
          exact halone hempty
    have hlast : c.terminateOnTooLargeCommand = true → c.Fits [token.arg] := by
      intro hx
      by_contra hlong
      exact CommandSettings.not_fits_append hlong args (hfits hx)
    exact ⟨fun hall => h.commands (fits_of_snoc hall), fun hall _ => hnew hall,
      h.checked_snoc hlast, h.first_snoc halone, fun _ hempty => absurd hempty (by simp),
      fun hempty => absurd hempty (by simp)⟩
  completed := by
    intro done out args lines token full h hline _ hfits hfull
    have hx : c.terminateOnTooLargeCommand = true := (hc.line hline).1
    have hlast : c.Fits [token.arg] := by
      by_contra hlong
      exact CommandSettings.not_fits_append hlong args hfits
    have hcommands : ∀ k ∈ out ++ [full], c.Fits k.inputArgs.args := by
      intro k hk
      rcases List.mem_append.mp hk with hk | hk
      · exact h.commands (Or.inl hx) k hk
      · rw [List.mem_singleton.mp hk, hfull.inputArgs]
        exact hfits
    refine ⟨fun _ => hcommands, fun _ hne => absurd rfl hne, h.checked_snoc fun _ => hlast,
      h.first_snoc fun _ => hlast, ?_, fun _ => rfl⟩
    intro hfalse
    exact absurd (hfalse.symm.trans hline) Bool.false_ne_true
  -- The token is alone in the new command, and without `-x` nothing checks it there.
  flushed := by
    intro done out args lines token cmd h hflush _ hfits hcmd
    refine ⟨fun hall => h.commands_snoc hcmd.inputArgs hflush.1 (fits_of_snoc hall), ?_,
      h.checked_snoc hfits, h.first_snoc fun hempty => absurd hempty hflush.1,
      fun _ hempty => absurd hempty (by simp), fun hempty => absurd hempty (by simp)⟩
    intro hall _
    rcases hall with hx | hall
    · exact hfits hx
    · exact hall token (by simp)
  -- The fatal check sees an empty command: without `-x` and `-L`, this is the first token.
  rejected := by
    intro done out lines token h hlong
    refine ⟨fun hx => h.commands (Or.inl hx), ?_⟩
    intro hx
    have hline : c.lineMode = false := by
      cases hl : c.lineMode with
      | false => rfl
      | true => exact absurd (hx.symm.trans (hc.line hl).1) Bool.false_ne_true
    obtain ⟨rfl, hout⟩ := h.start hline rfl
    exact ⟨hout, token, rfl, hlong⟩
  overflowed := by
    intro done out args lines token h _ _ hx _
    exact ⟨fun _ => h.commands (Or.inl hx), fun hfalse =>
      absurd (hfalse.symm.trans hx) Bool.false_ne_true⟩
  flushedRejected := by
    intro done out args lines token cmd h hflush _ hx _ hcmd
    exact ⟨fun _ => h.commands_snoc hcmd.inputArgs hflush.1 (Or.inl hx), fun hfalse =>
      absurd (hfalse.symm.trans hx) Bool.false_ne_true⟩

/-! ### The plan -/

/-- The limit as a property of a plan: every command with input arguments is within it, and
a too long string in the stream ends the run with `command too long`. -/
structure PlanLimited (c : CommandSettings) (stream : TokenStream) (p : Plan) : Prop where
  commands : ∀ cmd ∈ p.commands, cmd.inputArgs.args ≠ [] → c.Fits cmd.inputArgs.args
  rejected : (∃ token ∈ stream.tokens, ¬ c.Fits [token.arg]) → p.exit = some Exit.commandTooLong

theorem limited_start (c : CommandSettings) : Limited c [] [] [] where
  commands := fun _ _ hmem => nomatch hmem
  pending := fun _ hne => absurd rfl hne
  checked := fun _ _ hmem => nomatch hmem
  first := fun _ hmem => nomatch hmem
  start := fun _ _ => ⟨rfl, rfl⟩
  fresh := fun _ => rfl

/-- The condition is enough. -/
theorem appenderPlan_limited {c : CommandSettings} (hc : c.Appending) {cmd : Command}
    (h : cmd.Pending c [] 0) (suppress : Bool) {stream : TokenStream}
    (hrejects : c.RejectsOversized stream.tokens) :
    PlanLimited c stream (appenderPlan suppress cmd stream) := by
  rcases appenderPlan_rule hc (limited_rule hc) (limited_start c) h suppress stream with
    ⟨out, last, args, lines, hI, hlast, hplan⟩ | ⟨out, read, rest, hE, hread, hplan⟩
  · -- All tokens were read without an exit, so none of them is too long.
    have hall : ∀ token ∈ stream.tokens, c.Fits [token.arg] := by
      rcases hrejects with hx | ⟨token, htoken, hlong⟩ | hall
      · exact hI.checked hx
      · exact absurd (hI.first token htoken) hlong
      · exact hall
    refine ⟨?_, fun ⟨token, htoken, hlong⟩ => absurd (hall token htoken) hlong⟩
    have hsubset : ∀ k ∈ (appenderPlan suppress cmd stream).commands, k ∈ out ∨ k = last := by
      intro k hk
      rw [hplan] at hk
      split at hk
      · rcases List.mem_append.mp hk with hk | hk
        · exact Or.inl hk
        · exact Or.inr (mem_lastCommands hk)
      · exact Or.inl hk
    intro k hk hne
    rcases hsubset k hk with hk | rfl
    · exact hI.commands (Or.inr hall) k hk
    · rw [hlast.inputArgs] at hne ⊢
      exact hI.pending (Or.inr hall) hne
  · rw [hplan]
    refine ⟨?_, fun _ => rfl⟩
    intro k hk _
    -- An exit with `-x` leaves complete commands within the limit; without it, none at all.
    by_cases hx : c.terminateOnTooLargeCommand = true
    · exact hE.commands hx k hk
    · have hout := (hE.onlyFirst (by simpa using hx)).1
      rw [hout] at hk
      exact (List.not_mem_nil hk).elim

/-- The condition is necessary: otherwise the run does not end with `command too long`. -/
theorem appenderPlan_not_limited {c : CommandSettings} (hc : c.Appending) {cmd : Command}
    (h : cmd.Pending c [] 0) (suppress : Bool) {stream : TokenStream}
    (hrejects : ¬ c.RejectsOversized stream.tokens) :
    (∃ token ∈ stream.tokens, ¬ c.Fits [token.arg]) ∧
      (appenderPlan suppress cmd stream).exit ≠ some Exit.commandTooLong := by
  simp only [CommandSettings.RejectsOversized, not_or, not_exists, not_and, not_forall,
    not_not] at hrejects
  obtain ⟨hx, hfirst, token, htoken, hlong⟩ := hrejects
  refine ⟨⟨token, htoken, hlong⟩, ?_⟩
  rcases appenderPlan_rule hc (limited_rule hc) (limited_start c) h suppress stream with
    ⟨out, last, args, lines, hI, hlast, hplan⟩ | ⟨out, read, rest, hE, hread, hplan⟩
  · rw [hplan]
    -- A clean end of the input, or the exit of a tokenizer error.
    split <;> simp [Exit.commandTooLong, Exit.failure]
  · obtain ⟨-, t, rfl, hlong'⟩ := hE.onlyFirst (by simpa using hx)
    refine absurd (hfirst t ?_) hlong'
    rw [hread]
    rfl

/-! ### The runs -/

/-- The size limit as a property of a run. A run that halts, or whose `fork` fails, may end
before it reaches a too long string. -/
structure SizeLimited (s : XargsMode) (stream : TokenStream)
    (run : EStateM.Result Exit XargsMode Nat) : Prop where
  commands : ∀ cmd ∈ (finalState run).forked, cmd.inputArgs.args ≠ [] →
    commandLength cmd ≤ s.cmd.maxLength ∧
    s.cmd.envLength + totalLength (buildExecArgs cmd) ≤ s.cmd.maxLength
  rejected : (finalState run).halted = false → exitOf run ≠ some Exit.forkFailed →
    (∃ arg ∈ stream.args, s.cmd.envLength + totalLength s.cmd.fixedArgs.args + (strlen arg + 1)
      > s.cmd.maxLength) →
    exitOf run = some Exit.commandTooLong

/-- **The size limit in appender mode.** With `-x` (given, or implied by `-L`), or when the
first token does not fit into an empty command, or when every token does, every run keeps
the limit. In every other case no run keeps it, unless it halts or fails to fork. -/
theorem appenderModeRun_sizeLimited_iff {sys : System} {scanned : List Getopt} {optind : Nat}
    {argv : List CStr} {stream : TokenStream} {opts : Options} {s : XargsMode}
    (hcreate : xargsCreate sys scanned optind argv stream = .ok (opts, s))
    (hmode : opts.argPlaceholder = none) (w : World) :
    let run := xargsRun w opts s
    let tooLong := fun arg : CStr => s.cmd.envLength + totalLength s.cmd.fixedArgs.args
      + (strlen arg + 1) > s.cmd.maxLength
    let condition := opts.terminateOnTooLargeCommand = true ∨
      (∃ arg ∈ stream.args.head?, tooLong arg) ∨ (∀ arg ∈ stream.args, ¬ tooLong arg)
    (condition → SizeLimited s stream run) ∧
    ((finalState run).halted = false → exitOf run ≠ some Exit.forkFailed →
      (SizeLimited s stream run ↔ condition)) := by
  intro run tooLong condition
  have hstart := xargsCreate_appender hcreate hmode
  obtain ⟨sys', hcreated⟩ := hstart.created
  have hfollows := hstart.follows w
  have hfits : ∀ arg, ¬ tooLong arg ↔ s.cmd.Fits [arg] := by
    intro arg
    show ¬ _ > _ ↔ _ + totalLength [arg] ≤ _
    rw [totalLength_cons, totalLength_nil, Nat.add_zero]
    exact Nat.not_lt
  have hfirst : (∃ arg ∈ stream.args.head?, tooLong arg)
      ↔ ∃ token ∈ stream.tokens.head?, ¬ s.cmd.Fits [token.arg] := by
    simp only [← hfits, not_not]
    unfold TokenStream.args
    cases stream.tokens with
    | nil => simp
    | cons token tokens => simp
  have hall : (∀ arg ∈ stream.args, ¬ tooLong arg) ↔ ∀ token ∈ stream.tokens, s.cmd.Fits [token.arg] := by
    simp only [hfits]
    exact List.forall_mem_map
  have hcondition : condition ↔ s.cmd.RejectsOversized stream.tokens := by
    show (_ ∨ _ ∨ _) ↔ (_ ∨ _ ∨ _)
    rw [hcreated.terminates, hfirst, hall]
  have hsettings := appenderPlan_settings hstart.appending hstart.pending
    opts.suppressExecutionOnEmptyInput stream
  have henough : condition → SizeLimited s stream run := by
    intro hcond
    have hlimited := appenderPlan_limited hstart.appending hstart.pending
      opts.suppressExecutionOnEmptyInput (hcondition.mp hcond)
    refine ⟨?_, ?_⟩
    · intro cmd hcmd hne
      have hmem := (hfollows.forked_isPrefix hstart.starts).subset hcmd
      have hcmdFits := hlimited.commands cmd hmem hne
      have hlength : commandLength cmd = s.cmd.lengthWith cmd.inputArgs.args := by
        rw [commandLength_eq, hsettings cmd hmem]
      -- What `command_length` counts is the argv that the child gets, and the environment.
      have hargv : s.cmd.envLength + totalLength (buildExecArgs cmd)
          = s.cmd.lengthWith cmd.inputArgs.args := by
        rw [appenderPlan_argv hstart.appending hstart.pending _ stream cmd hmem,
          totalLength_append, ← Nat.add_assoc]
        rfl
      rw [hlength, hargv]
      exact ⟨hcmdFits, hcmdFits⟩
    · rintro hrunning hfork ⟨arg, harg, hlong⟩
      obtain ⟨token, htoken, rfl⟩ := List.mem_map.mp harg
      obtain ⟨-, hexit, -⟩ := hfollows.completes hstart.starts hrunning hfork
      refine hexit.trans (hlimited.rejected ⟨token, htoken, ?_⟩)
      rw [← hfits]
      exact not_not.mpr hlong
  refine ⟨henough, fun hrunning hfork => ⟨?_, henough⟩⟩
  intro hsize
  by_contra hcond
  obtain ⟨⟨token, htoken, hlong⟩, hne⟩ := appenderPlan_not_limited hstart.appending
    hstart.pending opts.suppressExecutionOnEmptyInput (fun hrej => hcond (hcondition.mpr hrej))
  obtain ⟨-, hexit, -⟩ := hfollows.completes hstart.starts hrunning hfork
  rw [← hfits, not_not] at hlong
  exact hne (hexit ▸ hsize.rejected hrunning hfork ⟨token.arg, List.mem_map_of_mem htoken, hlong⟩)

/-- `printf 'a\nbbbbbbbbb\n' | phxargs -s 13` keeps the limit with `-x`: the second string is
rejected. -/
theorem appenderModeRun_sizeLimited_terminating :
    ∃ opts s, xargsCreate System.bare [.optx, .opts [49, 51]] 3 [[120], [45, 120], [45, 115, 49, 51]]
        (.ofLines [[97], List.replicate 9 98]) = .ok (opts, s) ∧
      SizeLimited s (.ofLines [[97], List.replicate 9 98]) (xargsRun World.quiet opts s) := by
  obtain ⟨opts, s, hcreate, hmode, hx⟩ : ∃ opts s,
      xargsCreate System.bare [.optx, .opts [49, 51]] 3 [[120], [45, 120], [45, 115, 49, 51]]
        (.ofLines [[97], List.replicate 9 98]) = .ok (opts, s) ∧ opts.argPlaceholder = none ∧
      opts.terminateOnTooLargeCommand = true := ⟨_, _, rfl, rfl, rfl⟩
  exact ⟨opts, s, hcreate,
    (appenderModeRun_sizeLimited_iff hcreate hmode World.quiet).1 (Or.inl hx)⟩

/-- Without `-x`, `phxargs -s 13` executes a command of 20 bytes for the second string, and
returns normally. -/
theorem oversizedSecond_executed :
    ∃ opts s, xargsCreate System.bare [.opts [49, 51]] 2 [[120], [45, 115, 49, 51]]
        (.ofLines [[97], List.replicate 9 98]) = .ok (opts, s) ∧
      opts.argPlaceholder = none ∧ s.cmd.maxLength = 13 ∧
      exitOf (xargsRun World.quiet opts s) = none ∧
      (finalState (xargsRun World.quiet opts s)).forked.map commandLength = [12, 20] ∧
      ¬ SizeLimited s (.ofLines [[97], List.replicate 9 98]) (xargsRun World.quiet opts s) := by
  obtain ⟨opts, s, hcreate, hmode, hmax, hexit, hlengths, hlong⟩ : ∃ opts s,
      xargsCreate System.bare [.opts [49, 51]] 2 [[120], [45, 115, 49, 51]]
        (.ofLines [[97], List.replicate 9 98]) = .ok (opts, s) ∧
      opts.argPlaceholder = none ∧ s.cmd.maxLength = 13 ∧
      exitOf (xargsRun World.quiet opts s) = none ∧
      (finalState (xargsRun World.quiet opts s)).forked.map commandLength = [12, 20] ∧
      ∃ cmd ∈ (finalState (xargsRun World.quiet opts s)).forked,
        cmd.inputArgs.args ≠ [] ∧ ¬ commandLength cmd ≤ s.cmd.maxLength := by
    exact ⟨_, _, rfl, rfl, by decide +kernel, by decide +kernel, by decide +kernel,
      by decide +kernel⟩
  refine ⟨opts, s, hcreate, hmode, hmax, hexit, hlengths, ?_⟩
  intro hlimited
  obtain ⟨cmd, hcmd, hne, hlong⟩ := hlong
  exact hlong (hlimited.commands cmd hcmd hne).1

end Phxargs
