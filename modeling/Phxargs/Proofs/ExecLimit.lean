import Phxargs.Model.Exec
import Phxargs.Proofs.Accounting
import Phxargs.Proofs.Environment
import Phxargs.Proofs.Halt
import Phxargs.Proofs.Packing

/-!
# `Phxargs.Proofs.ExecLimit`: when no command is too long for `execve`

`command_length` counts the bytes of the strings. `execve` counts a pointer of eight bytes for each
string as well. The margin of `decide_max_length` for the pointers of the argv is constant, but
their number is not: an empty input argument takes one byte of the length, and nine bytes of
`ARG_MAX`.

So the longest commands are those with the most arguments. There can be as many as there are bytes
of room beside the environment and the operands, or as `-n` allows. `appenderModeRun_execSize_iff`
compares this worst case with `ARG_MAX`. Every batch within the limits is executed by some run
(`xargsRun_executes`), so the comparison is exact.
-/

set_option autoImplicit false

namespace Phxargs

open Lib

/-! ### Where every `fork` succeeds -/

/-- A run has no more children in flight than it has forked. -/
theorem xargsRun_children_le {sys : System} {scanned : List Getopt} {optind : Nat}
    {argv : List CStr} {stream : TokenStream} {opts : Options} {s : XargsMode}
    (hcreate : xargsCreate sys scanned optind argv stream = .ok (opts, s)) (w : World) :
    (finalState (xargsRun w opts s)).procs.os.children.length
      ≤ (finalState (xargsRun w opts s)).forked.length := by
  have hleads := xargsRun_leads w opts (xargsCreate_spec hcreate).2.1.inv
  rw [xargsCreate_procs hcreate] at hleads
  obtain ⟨⟨own, hledger⟩, -⟩ := haltFinal_of_trace hleads
  -- The children in flight are those that were forked and not reaped.
  have hchildren := hledger.children.length_eq
  have hforked := hledger.conserved.length_eq
  rw [List.nil_append] at hchildren
  rw [List.length_append, Os.length_forkedChildren] at hforked
  show _ ≤ (finalState (xargsRun w opts s)).procs.os.forked.length
  omega

/-- Where every `fork` succeeds, a run of fewer commands than there are pids does not exit in
`fork`. -/
theorem xargsRun_not_forkFailed {sys : System} {scanned : List Getopt} {optind : Nat}
    {argv : List CStr} {stream : TokenStream} {opts : Options} {s : XargsMode}
    (hcreate : xargsCreate sys scanned optind argv stream = .ok (opts, s))
    (hmode : opts.argPlaceholder = none) {w : World} (hforks : ∀ n, (w.fork n).isSome)
    (hplan : (appenderPlan opts.suppressExecutionOnEmptyInput s.cmd stream).commands.length
      < PID_MAX) : exitOf (xargsRun w opts s) ≠ some Exit.forkFailed := by
  have hstart := xargsCreate_appender hcreate hmode
  intro hexit
  have hnone := xargsRun_refused w opts hstart.starts hexit
  have hforked := ((hstart.follows w).forked_isPrefix hstart.starts).length_le
  have hchildren := xargsRun_children_le hcreate w
  have hsome := (Os.fork_isSome w (finalState (xargsRun w opts s)).cmd
    (finalState (xargsRun w opts s)).procs.os).mpr ⟨hforks _, by omega⟩
  rw [hnone] at hsome
  exact Bool.false_ne_true hsome

/-! ### Batches within the limits -/

theorem CommandSettings.WithinLimits.of_isPrefix {c : CommandSettings} {args args' : List CStr}
    (h : c.WithinLimits args') (hpart : args <+: args') : c.WithinLimits args :=
  ⟨fun hmax => Nat.le_trans hpart.length_le (h.1 hmax), h.2.of_isPrefix hpart⟩

/-- A token that keeps the batch within the limits flushes nothing. -/
theorem CommandSettings.WithinLimits.not_flushesBefore {c : CommandSettings} {args : List CStr}
    {arg : CStr} (h : c.WithinLimits (args ++ [arg])) : ¬ c.FlushesBefore args arg :=
  fun hflush => hflush.not_withinLimits h

/-- The loop gathers tokens that are within the limits together, as long as they do not complete
the lines of `-L`. -/
theorem batches_gathers {c : CommandSettings} (hc : c.Appending) (tokens : List Token) :
    ∀ {cmd : Command} {args : List CStr} {lines : Nat}, cmd.Pending c args lines →
      c.WithinLimits (args ++ tokens.map Token.arg) →
      (c.lineMode = true → lines + (tokens.map Token.boundaries).sum < c.maxLines) →
      ∃ cmd', batches appenderStep cmd tokens = ⟨[], [], .ok cmd'⟩ ∧
        cmd'.Pending c (args ++ tokens.map Token.arg)
          (lines + (tokens.map Token.boundaries).sum) := by
  induction tokens with
  | nil =>
      intro cmd args lines h _ _
      exact ⟨cmd, rfl, by simpa using h⟩
  | cons token tokens ih =>
      intro cmd args lines h hwithin hlines
      rw [List.map_cons, List.append_cons] at hwithin ⊢
      rw [List.map_cons, List.sum_cons, ← Nat.add_assoc] at hlines ⊢
      -- The batch up to this token is within the limits too.
      have hbatch : c.WithinLimits (args ++ [token.arg]) :=
        hwithin.of_isPrefix (List.prefix_append ..)
      have halone : ¬ ¬ c.Fits (args ++ [token.arg]) := not_not.mpr hbatch.2
      have hroom : args.length ≤ LONG_MAX :=
        Nat.le_trans (hbatch.2.of_isPrefix (List.prefix_append ..)).length_le hc.maxLength
      have hmove := appenderStep_move (h.increment token.boundaries) hc hroom token.arg
      generalize hstep : appenderStep (commandIncrementLineCount cmd token.boundaries) token.arg
        = planned at hmove
      cases hmove with
      | added cmd' _ _ _ _ hnext =>
          obtain ⟨cmd'', hbatches, hpending⟩ := ih hnext hwithin hlines
          rw [batches_cons_ok hstep, hbatches]
          exact ⟨cmd'', rfl, hpending⟩
      | rejected hempty hlong =>
          subst hempty
          exact absurd hlong halone
      | completed full cmd' hline hcount _ _ _ =>
          have := hlines hline
          omega
      | overflowed _ _ _ hlong => exact absurd hlong halone
      | flushed cmd' hflush _ _ _ => exact absurd hflush hbatch.not_flushesBefore
      | flushedRejected hflush _ _ _ => exact absurd hflush hbatch.not_flushesBefore

/-- A stream within the limits is one command. An empty one is none under `-r`. -/
theorem appenderPlan_gathers {c : CommandSettings} (hc : c.Appending) {cmd : Command}
    (h : cmd.Pending c [] 0) {suppress : Bool} {stream : TokenStream} (hclean : stream.Clean)
    (hwithin : c.WithinLimits stream.args)
    (hlines : c.lineMode = true → (stream.tokens.map Token.boundaries).sum < c.maxLines)
    (hexecuted : stream.tokens ≠ [] ∨ suppress = false) :
    ∃ k, (appenderPlan suppress cmd stream).commands = [k] ∧ k.inputArgs.args = stream.args := by
  obtain ⟨cmd', hbatches, hpending⟩ := batches_gathers hc stream.tokens h hwithin
    (by simpa using hlines)
  rw [List.nil_append] at hpending
  refine ⟨commandIncrementLineCount cmd' stream.endBoundaries, ?_, hpending.inputArgs⟩
  have hend : stream.endError = .none := hclean
  simp only [appenderPlan, endPlan, hbatches, hend, if_true, List.nil_append]
  -- The last command is executed with what has been gathered.
  cases htokens : stream.tokens with
  | nil =>
      have hsuppress : suppress = false := hexecuted.resolve_left fun hne => hne htokens
      rw [hsuppress]
      rfl
  | cons token tokens =>
      have hremain : commandInputArgsRemain (commandIncrementLineCount cmd' stream.endBoundaries)
          = true := by
        rw [commandInputArgsRemain, commandArgsCount_eq, (hpending.increment _).inputArgs, htokens]
        simp
      simp [appenderLast, hremain]

/-- A stream within the limits is executed as one command, where every `fork` succeeds. -/
theorem xargsRun_executes {sys : System} {scanned : List Getopt} {optind : Nat}
    {argv : List CStr} {stream : TokenStream} {opts : Options} {s : XargsMode}
    (hcreate : xargsCreate sys scanned optind argv stream = .ok (opts, s))
    (hmode : opts.argPlaceholder = none) (hclean : stream.Clean)
    (hwithin : s.cmd.WithinLimits stream.args)
    (hlines : s.cmd.lineMode = true →
      (stream.tokens.map Token.boundaries).sum < s.cmd.maxLines)
    (hexecuted : stream.tokens ≠ [] ∨ opts.suppressExecutionOnEmptyInput = false)
    {w : World} (hforks : ∀ n, (w.fork n).isSome) :
    ∃ cmd ∈ (finalState (xargsRun w opts s)).forked,
      cmd.toCommandSettings = s.cmd.toCommandSettings ∧
      commandLength cmd = s.cmd.lengthWith stream.args ∧
      buildExecArgs cmd = s.cmd.fixedArgs.args ++ stream.args := by
  have hstart := xargsCreate_appender hcreate hmode
  obtain ⟨cmd, hplan, hargs⟩ := appenderPlan_gathers hstart.appending hstart.pending hclean
    hwithin hlines hexecuted
  have hone : (appenderPlan opts.suppressExecutionOnEmptyInput s.cmd stream).commands.length
      < PID_MAX := by
    rw [hplan, List.length_singleton]
    decide
  have hfork := xargsRun_not_forkFailed hcreate hmode hforks hone
  have hforked := (hstart.follows w).forked_singleton hstart.starts hfork hplan
  have hmem : cmd ∈ (appenderPlan opts.suppressExecutionOnEmptyInput s.cmd stream).commands :=
    hplan ▸ List.mem_singleton_self cmd
  have hsettings := appenderPlan_settings hstart.appending hstart.pending _ stream cmd hmem
  have hargv := appenderPlan_argv hstart.appending hstart.pending _ stream cmd hmem
  refine ⟨cmd, hforked ▸ List.mem_singleton_self cmd, hsettings, ?_, ?_⟩
  · rw [commandLength_eq, hsettings, hargs]
  · rw [hargv, hargs]

/-- The `-n` limit holds for every planned command. -/
theorem appenderPlan_counted {c : CommandSettings} (hc : c.Appending) {cmd : Command}
    (h : cmd.Pending c [] 0) (suppress : Bool) (stream : TokenStream) (hmax : 0 < c.maxArgs) :
    ∀ k ∈ (appenderPlan suppress cmd stream).commands, k.inputArgs.args.length ≤ c.maxArgs := by
  intro k hk
  refine (appenderPlan_pending hc h suppress stream (I := fun args => args.length ≤ c.maxArgs)
    (Nat.zero_le _) ?_ k hk).2
  intro args arg hlength hflush
  rw [List.length_append, List.length_singleton]
  -- A full batch would have been flushed, and an empty one is not full.
  by_cases hempty : args = []
  · rw [hempty]
    exact hmax
  · have hlen : args.length ≠ c.maxArgs := fun hlen => hflush ⟨hempty, Or.inl ⟨hmax, hlen⟩⟩
    exact Nat.lt_of_le_of_ne hlength hlen

/-- Under `-r` every planned command has input arguments. -/
theorem appenderPlan_suppresses {c : CommandSettings} (hc : c.Appending) {cmd : Command}
    (h : cmd.Pending c [] 0) (stream : TokenStream) :
    ∀ k ∈ (appenderPlan true cmd stream).commands, k.inputArgs.args ≠ [] := by
  by_cases htokens : stream.tokens = []
  · -- No input: no command, whether the input ends cleanly or not.
    intro k hk
    simp only [appenderPlan, endPlan, htokens, batches_nil, appenderLast] at hk
    split at hk <;> exact absurd hk List.not_mem_nil
  · exact (appenderPlan_deals hc h true stream).nonempty htokens

/-! ### The longest command -/

/-- The bytes that the input arguments can take. -/
def CommandSettings.room (c : CommandSettings) : Nat := c.maxLength - c.lengthWith []

/-- The number of input arguments that a command within the limits can have. -/
def CommandSettings.mostArgs (c : CommandSettings) : Nat :=
  if 0 < c.maxArgs then min c.maxArgs c.room else c.room

theorem CommandSettings.lengthWith_eq (c : CommandSettings) (args : List CStr) :
    c.lengthWith args = c.lengthWith [] + totalLength args := by
  simp [lengthWith]

/-- Every input argument takes a byte of the room. -/
theorem CommandSettings.WithinLimits.length_le_mostArgs {c : CommandSettings} {args : List CStr}
    (h : c.WithinLimits args) : args.length ≤ c.mostArgs := by
  have hbytes := length_le_totalLength args
  have hfits : c.lengthWith args ≤ c.maxLength := h.2
  rw [c.lengthWith_eq args] at hfits
  have hroom : args.length ≤ c.room := by
    unfold room
    omega
  unfold mostArgs
  split
  · rename_i hmax
    exact Nat.le_min.mpr ⟨h.1 hmax, hroom⟩
  · exact hroom

theorem totalLength_replicate (n : Nat) (arg : CStr) :
    totalLength (List.replicate n arg) = n * (strlen arg + 1) := by
  simp [totalLength]

/-- The worst batch: as many arguments as possible, all of them empty but for the last one, which
takes the rest of the room. -/
theorem CommandSettings.exists_worst {c : CommandSettings} (hfits : c.Fits []) :
    ∃ args, c.WithinLimits args ∧ args.length = c.mostArgs ∧ c.lengthWith args = c.maxLength ∧
      (0 < c.room → args ≠ []) := by
  have hbase : c.lengthWith [] ≤ c.maxLength := hfits
  have hroom : c.lengthWith [] + c.room = c.maxLength := by
    unfold room
    omega
  have hmost : c.mostArgs ≤ c.room ∧ (0 < c.maxArgs → c.mostArgs ≤ c.maxArgs) ∧
      (0 < c.room → 0 < c.mostArgs) := by
    unfold mostArgs
    split <;> omega
  by_cases hnone : c.room = 0
  · -- The environment and the operands leave no room.
    refine ⟨[], ⟨fun _ => Nat.zero_le _, hfits⟩, ?_, ?_, fun h => absurd hnone (Nat.ne_of_gt h)⟩
    · rw [List.length_nil]
      omega
    · omega
  · have hpos : 0 < c.mostArgs := hmost.2.2 (Nat.pos_of_ne_zero hnone)
    let args : List CStr :=
      List.replicate (c.mostArgs - 1) [] ++ [List.replicate (c.room - c.mostArgs) 97]
    have hlength : args.length = c.mostArgs := by
      simp only [args, List.length_append, List.length_replicate, List.length_singleton]
      omega
    have htotal : totalLength args = c.room := by
      simp only [args, totalLength_append, totalLength_replicate, totalLength_cons,
        totalLength_nil, strlen, List.length_replicate, List.length_nil, Nat.zero_add, Nat.mul_one]
      omega
    have hwhole : c.lengthWith args = c.maxLength := by
      rw [c.lengthWith_eq, htotal, hroom]
    refine ⟨args, ⟨fun hmax => ?_, hwhole.le⟩, hlength, hwhole, fun _ => by simp [args]⟩
    rw [hlength]
    exact hmost.2.1 hmax

/-- The kernel counts what `command_length` counts, and the pointers. -/
theorem CommandSettings.execSize_eq {c : CommandSettings} {environ : List CStr}
    (henv : c.envLength = calcEnvLength environ) (args : List CStr) :
    execSize (c.fixedArgs.args ++ args) environ = c.lengthWith args
      + PTR_SIZE * (c.fixedArgs.args.length + args.length + environ.length + 2) := by
  have henviron : totalLength environ = c.envLength := henv.symm
  simp only [execSize, lengthWith, totalLength_append, List.length_append, henviron, PTR_SIZE]
  omega

/-! ### The limit -/

/-- The limit of an accepted command: that of `-s`, or the default. -/
theorem commandCreate_maxLength {sys : System} {opts : Options} {argIndex : Nat}
    {argv : List CStr} {cmd : Command} (h : commandCreate sys opts argIndex argv = .ok cmd) :
    cmd.maxLength =
      if opts.maxCommandLengthSpecified then
        opts.maxCommandLength
      else
        min (128 * 1024) (argMaxLength sys.argMax (calcEnvLength sys.environ)) := by
  unfold commandCreate at h
  dsimp only at h
  split at h
  · cases h
  · split at h
    · cases h
    · rename_i maxLength hmax
      cases h
      show maxLength = _
      rw [decideMaxLength_eq] at hmax
      dsimp only at hmax
      split at hmax
      · -- An accepted `-s` is the limit as it is.
        rename_i hspecified
        rw [if_pos hspecified]
        split at hmax
        · cases hmax
        · split at hmax
          · cases hmax
          · cases hmax
            rfl
      · rename_i hspecified
        rw [if_neg hspecified]
        cases hmax
        rfl

/-- An accepted command line is accepted with every input. -/
theorem xargsCreate_of_commandCreate {sys : System} {scanned : List Getopt} {optind : Nat}
    {argv : List CStr} {opts : Options} {cmd : Command}
    (hopts : optionsCreate sys.childMax scanned optind = .ok opts)
    (hcmd : commandCreate sys opts opts.optindVal argv = .ok cmd) (stream : TokenStream) :
    ∃ s, xargsCreate sys scanned optind argv stream = .ok (opts, s) ∧ s.cmd = cmd := by
  have hok : ∃ created, xargsCreate sys scanned optind argv stream = .ok created :=
    (xargsCreate_isOk_iff sys hopts).mpr ⟨cmd, hcmd⟩
  obtain ⟨⟨opts', s⟩, hcreate⟩ := hok
  have hsame : opts' = opts := Except.ok.inj ((xargsCreate_cases hcreate).1.symm.trans hopts)
  subst hsame
  have hcmd' := (xargsCreate_spec hcreate).2.2.2
  exact ⟨s, hcreate, Except.ok.inj (hcmd'.symm.trans hcmd)⟩

/-! ### The two accountings -/

/-- No run forks a command within the limit that is too long for `execve`. So no child of such a
command reports this as a bug. -/
def NeverTooLong (sys : System) (scanned : List Getopt) (optind : Nat) (argv : List CStr)
    (opts : Options) : Prop :=
  ∀ (stream : TokenStream) (s : XargsMode) (w : World),
    xargsCreate sys scanned optind argv stream = .ok (opts, s) →
    ∀ cmd ∈ (finalState (xargsRun w opts s)).forked, commandLength cmd ≤ s.cmd.maxLength →
      execSize (buildExecArgs cmd) sys.environ ≤ sys.argMax.toNat ∧
      ∀ (e : ExecWorld) (report : String), e.Accounts sys →
        (execChild e cmd).result ≠ .exits PHXARGS_STATUS_INTERNAL_ERROR report

/-- The size of the longest command that these settings allow is within `ARG_MAX`. Without room,
there is a command only where `-r` does not suppress it. -/
def CommandSettings.WorstFits (c : CommandSettings) (sys : System) (suppress : Bool) : Prop :=
  c.Fits [] → 0 < c.room ∨ suppress = false →
    c.maxLength + PTR_SIZE * (c.fixedArgs.args.length + c.mostArgs + sys.environ.length + 2)
      ≤ sys.argMax.toNat

section Worst

variable {sys : System} {scanned : List Getopt} {optind : Nat} {argv : List CStr}
  {opts : Options}

/-- No command within the limit is longer than the longest one. -/
theorem neverTooLong_of_worstFits
    (hmode : opts.argPlaceholder = none)
    (hworst : ∀ cmd, commandCreate sys opts opts.optindVal argv = .ok cmd →
      cmd.WorstFits sys opts.suppressExecutionOnEmptyInput) :
    NeverTooLong sys scanned optind argv opts := by
  intro stream s w hcreate k hk hlength
  have hstart := xargsCreate_appender hcreate hmode
  obtain ⟨-, -, -, hcommand⟩ := xargsCreate_spec hcreate
  have hcreated := (commandCreate_spec hcommand hstart.valid.length).1
  have hmem := ((hstart.follows w).forked_isPrefix hstart.starts).subset hk
  have hsettings := appenderPlan_settings hstart.appending hstart.pending _ stream k hmem
  have hfits : s.cmd.Fits k.inputArgs.args := by
    rw [commandLength_eq, hsettings] at hlength
    exact hlength
  have hwithin : s.cmd.WithinLimits k.inputArgs.args :=
    ⟨fun hmax => appenderPlan_counted hstart.appending hstart.pending _ stream hmax k hmem, hfits⟩
  -- A command without input arguments needs no room, but `-r` suppresses it.
  have hroom : 0 < s.cmd.room ∨ opts.suppressExecutionOnEmptyInput = false := by
    by_cases hempty : k.inputArgs.args = []
    · right
      by_contra hsuppress
      rw [Bool.not_eq_false] at hsuppress
      rw [hsuppress] at hmem
      exact appenderPlan_suppresses hstart.appending hstart.pending stream k hmem hempty
    · left
      have hbytes := length_le_totalLength k.inputArgs.args
      have hpos := List.length_pos_iff.mpr hempty
      have hlong : s.cmd.lengthWith k.inputArgs.args ≤ s.cmd.maxLength := hfits
      rw [s.cmd.lengthWith_eq k.inputArgs.args] at hlong
      unfold CommandSettings.room
      omega
  have hsize : execSize (buildExecArgs k) sys.environ ≤ sys.argMax.toNat := by
    rw [appenderPlan_argv hstart.appending hstart.pending _ stream k hmem,
      CommandSettings.execSize_eq hcreated.envLength]
    have hbound := hworst s.cmd hcommand (hfits.of_isPrefix List.nil_prefix) hroom
    have hlong : s.cmd.lengthWith k.inputArgs.args ≤ s.cmd.maxLength := hfits
    have hcount := hwithin.length_le_mostArgs
    unfold PTR_SIZE at hbound ⊢
    omega
  refine ⟨hsize, fun e report haccounts hbug => ?_⟩
  exact absurd ((haccounts _).mp (execChild_internalError hbug)) (Nat.not_lt.mpr hsize)

/-- Some run forks the longest command. -/
theorem worstFits_of_neverTooLong {cmd : Command}
    (hopts : optionsCreate sys.childMax scanned optind = .ok opts)
    (hcmd : commandCreate sys opts opts.optindVal argv = .ok cmd)
    (hmode : opts.argPlaceholder = none) (hnever : NeverTooLong sys scanned optind argv opts) :
    cmd.WorstFits sys opts.suppressExecutionOnEmptyInput := by
  intro hfits hroom
  obtain ⟨args, hwithin, hcount, hlength, hne⟩ := CommandSettings.exists_worst hfits
  let stream : TokenStream := ⟨args.map fun arg => ⟨arg, 0, Nat.zero_le 1⟩, 0, .none⟩
  have hstream : stream.args = args := by simp [stream, TokenStream.args, Function.comp_def]
  have hnoBoundary : (stream.tokens.map Token.boundaries).sum = 0 := by
    simp [stream, Function.comp_def]
  obtain ⟨s, hcreate, rfl⟩ := xargsCreate_of_commandCreate hopts hcmd stream
  have hstart := xargsCreate_appender hcreate hmode
  have hcreated := (commandCreate_spec hcmd hstart.valid.length).1
  obtain ⟨k, hk, -, hlengthOf, hargv⟩ := xargsRun_executes hcreate hmode rfl
    (hstream.symm ▸ hwithin) (fun hline => hnoBoundary ▸ (hstart.appending.line hline).2.2)
    (hroom.imp (fun hpos => by simpa [stream] using hne hpos) id)
    (w := World.quiet) (fun _ => rfl)
  rw [hstream] at hlengthOf hargv
  have hsize := (hnever stream s World.quiet hcreate k hk (by rw [hlengthOf, hlength])).1
  rw [hargv, CommandSettings.execSize_eq hcreated.envLength, hlength, hcount] at hsize
  exact hsize

end Worst

/-- **`E2BIG`.** Take an accepted command line of the appender mode. No token stream and no run
makes a command within the limit too long for `execve`, if and only if the longest one is not: a
command that fills the limit with as many input arguments as there are bytes of room, or as `-n`
allows. -/
theorem neverTooLong_iff {sys : System} {scanned : List Getopt} {optind : Nat}
    {argv : List CStr} {opts : Options} {cmd : Command}
    (hopts : optionsCreate sys.childMax scanned optind = .ok opts)
    (hcmd : commandCreate sys opts opts.optindVal argv = .ok cmd)
    (hmode : opts.argPlaceholder = none) :
    let operands := operandsOf opts.optindVal argv
    let limit :=
      if opts.maxCommandLengthSpecified then
        opts.maxCommandLength
      else
        min (128 * 1024) (argMaxLength sys.argMax (calcEnvLength sys.environ))
    let fixedLength := calcEnvLength sys.environ + totalLength operands
    let room := limit - fixedLength
    let inputs :=
      if 0 < opts.maxArgsPerCommand then min opts.maxArgsPerCommand room else room
    NeverTooLong sys scanned optind argv opts ↔
      (fixedLength ≤ limit → 0 < room ∨ opts.suppressExecutionOnEmptyInput = false →
        limit + 8 * (operands.length + inputs + sys.environ.length + 2) ≤ sys.argMax.toNat) := by
  intro operands limit fixedLength room inputs
  have hvalid := (optionsCreate_valid hopts).length
  obtain ⟨hcreated, hfixed⟩ := commandCreate_spec hcmd hvalid
  have hlimit : cmd.maxLength = limit := commandCreate_maxLength hcmd
  have hlength : cmd.lengthWith [] = fixedLength := by
    rw [CommandSettings.lengthWith, hcreated.envLength, hfixed]
    rfl
  have hworst : cmd.WorstFits sys opts.suppressExecutionOnEmptyInput ↔
      (fixedLength ≤ limit → 0 < room ∨ opts.suppressExecutionOnEmptyInput = false →
        limit + 8 * (operands.length + inputs + sys.environ.length + 2) ≤ sys.argMax.toNat) := by
    rw [CommandSettings.WorstFits, CommandSettings.Fits, CommandSettings.mostArgs,
      CommandSettings.room, hlength, hlimit, hfixed, hcreated.maxArgs]
    rfl
  rw [← hworst]
  constructor
  · exact worstFits_of_neverTooLong hopts hcmd hmode
  · intro hfits
    apply neverTooLong_of_worstFits hmode
    intro cmd' hcmd'
    rwa [← Except.ok.inj (hcmd.symm.trans hcmd')]

/-- A system without an environment, and with the `ARG_MAX` of a Linux with 8 MiB of stack. -/
def System.linux : System := ⟨[], 2097152, 0, by decide⟩

/-- With the default limit, `phxargs` is safe on this system: the longest command has 131062 empty
arguments, and takes 1179592 bytes. -/
theorem neverTooLong_iff_default :
    ∃ opts, optionsCreate System.linux.childMax [] 1 = .ok opts ∧
      NeverTooLong System.linux [] 1 [[120]] opts := by
  obtain ⟨opts, cmd, hopts, hcmd, hmode, hdefault⟩ : ∃ opts cmd,
      optionsCreate System.linux.childMax [] 1 = .ok opts ∧
      commandCreate System.linux opts opts.optindVal [[120]] = .ok cmd ∧
      opts.argPlaceholder = none ∧ opts = { initOptions with optindVal := 1 } := by
    exact ⟨_, _, rfl, rfl, rfl, rfl⟩
  refine ⟨opts, hopts, (neverTooLong_iff hopts hcmd hmode).mpr ?_⟩
  subst hdefault
  decide

/-- An `execvp` that fails for this reason only. -/
def ExecWorld.strict (sys : System) : ExecWorld where
  tty := none
  reopensTty := false
  execvp := fun argv => if sys.argMax.toNat < execSize argv sys.environ then some .e2big else none
  strerror := fun _ => ""

theorem ExecWorld.strict_accounts (sys : System) : (ExecWorld.strict sys).Accounts sys := by
  intro argv
  simp [strict]

theorem TokenStream.ofLines_args (words : List CStr) : (TokenStream.ofLines words).args = words := by
  simp [ofLines, args, Function.comp_def]

/-- There the child of a command that is too long reports a bug. -/
theorem execChild_strict {sys : System} {cmd : Command} (hprompt : cmd.prompt = false)
    (hopen : cmd.openTty = false)
    (hsize : sys.argMax.toNat < execSize (buildExecArgs cmd) sys.environ) :
    (execChild (ExecWorld.strict sys) cmd).result = .exits PHXARGS_STATUS_INTERNAL_ERROR
      "phxargs: command line too long -- this is a bug\n" := by
  simp [execChild, hprompt, phxargsExec, hopen, ExecWorld.strict, hsize]

/-- `yes | head -n 250000 | phxargs -s 2000000 c`: the limit is accepted, the one command has
500002 bytes, and the kernel counts 2500026. -/
theorem oneByteItems_tooLong :
    ∃ opts s, xargsCreate System.linux [.opts [50, 48, 48, 48, 48, 48, 48]] 3
        [[120], [45, 115], [50, 48, 48, 48, 48, 48, 48], [99]]
        (.ofLines (List.replicate 250000 [121])) = .ok (opts, s) ∧
      opts.argPlaceholder = none ∧ (ExecWorld.strict System.linux).Accounts System.linux ∧
      ∃ cmd ∈ (finalState (xargsRun World.quiet opts s)).forked,
        commandLength cmd ≤ s.cmd.maxLength ∧
        ¬ execSize (buildExecArgs cmd) System.linux.environ ≤ System.linux.argMax.toNat ∧
        (execChild (ExecWorld.strict System.linux) cmd).result = .exits
          PHXARGS_STATUS_INTERNAL_ERROR "phxargs: command line too long -- this is a bug\n" := by
  let stream : TokenStream := .ofLines (List.replicate 250000 [121])
  obtain ⟨opts, s, hcreate, hmode, hline, hmax, hlimit, hprompt, hopen, hfixed, henv⟩ : ∃ opts s,
      xargsCreate System.linux [.opts [50, 48, 48, 48, 48, 48, 48]] 3
        [[120], [45, 115], [50, 48, 48, 48, 48, 48, 48], [99]] stream = .ok (opts, s) ∧
      opts.argPlaceholder = none ∧ s.cmd.lineMode = false ∧ s.cmd.maxArgs = 0 ∧
      s.cmd.maxLength = 2000000 ∧ s.cmd.prompt = false ∧ s.cmd.openTty = false ∧
      s.cmd.fixedArgs.args = [[99]] ∧ s.cmd.envLength = 0 :=
    ⟨_, _, rfl, rfl, rfl, rfl, rfl, rfl, rfl, rfl, rfl⟩
  have hargs : stream.args = List.replicate 250000 [121] := TokenStream.ofLines_args _
  have hlength : s.cmd.lengthWith stream.args = 500002 := by
    rw [CommandSettings.lengthWith, hargs, totalLength_replicate, hfixed, henv]
    rfl
  have hwithin : s.cmd.WithinLimits stream.args := by
    refine ⟨fun h => absurd hmax (Nat.ne_of_gt h), ?_⟩
    rw [CommandSettings.Fits, hlength, hlimit]
    decide
  have hne : stream.tokens ≠ [] := by
    intro hempty
    rw [TokenStream.args, hempty] at hargs
    exact absurd (congrArg List.length hargs) (by rw [List.length_replicate]; decide)
  obtain ⟨k, hk, hsettings, hlengthOf, hargv⟩ := xargsRun_executes hcreate hmode rfl hwithin
    (fun h => absurd (hline.symm.trans h) Bool.false_ne_true) (Or.inl hne) (w := World.quiet)
    (fun _ => rfl)
  have hsize : execSize (buildExecArgs k) System.linux.environ = 2500026 := by
    rw [hargv, CommandSettings.execSize_eq henv, hlength, hfixed, hargs, List.length_replicate]
    rfl
  have hlong : System.linux.argMax.toNat < execSize (buildExecArgs k) System.linux.environ := by
    rw [hsize]
    decide
  refine ⟨opts, s, hcreate, hmode, ExecWorld.strict_accounts _, k, hk, ?_, Nat.not_le.mpr hlong,
    execChild_strict ?_ ?_ hlong⟩
  · rw [hlengthOf, hlength, hlimit]
    decide
  · exact (congrArg CommandSettings.prompt hsettings).trans hprompt
  · exact (congrArg CommandSettings.openTty hsettings).trans hopen

end Phxargs
