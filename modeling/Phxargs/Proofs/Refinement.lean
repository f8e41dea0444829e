import Phxargs.Proofs.Rules

/-!
# `Phxargs.Proofs.Refinement`: every run follows its plan

The runs of both modes refine their plans, in every world. `Follows` is the relation: a run
forks a prefix of the planned commands. A run without a halt and without a failed `fork`
forks exactly the planned commands, requests exactly the planned tokens, and ends as
planned.

`Iterates` and `Stops` are the relation for one iteration, and for one that exits.
-/

set_option autoImplicit false

namespace Phxargs

open Lib

/-- Where nothing has been forked, the forks are a prefix of every plan. -/
theorem forked_nothing {s s' : XargsMode} (h : s'.forked = s.forked) (planned : List Command) :
    ∃ l, l <+: planned ∧ s'.forked = s.forked ++ l :=
  ⟨[], List.nil_prefix, h.trans (List.append_nil _).symm⟩

/-! ### Executing a command -/

/-- What `xargs_mode_execute_command` does when it returns: nothing after a halt, else it
forks the command and recycles it. -/
structure Executed (s s' : XargsMode) : Prop where
  inv : s'.procs.Inv
  toker : s'.toker = s.toker
  tokerError : s'.tokerError = s.tokerError
  halt : s.halted = true → s'.halted = true
  cases : (s'.halted = true ∧ s'.cmd = s.cmd ∧ s'.forked = s.forked) ∨
    (s'.halted = false ∧ s'.cmd = recycleCommand s.cmd ∧ s'.forked = s.forked ++ [s.cmd])

theorem xargsModeExecuteCommand_spec (w : World) {s : XargsMode} (hinv : s.procs.Inv) :
    wp (xargsModeExecuteCommand w) (fun _ s' => Executed s s')
      (fun e s' => e = Exit.forkFailed ∧ s'.procs.Inv ∧ s'.forked = s.forked) s := by
  have hwait : wp (processPoolWaitIfFull w) (fun _ p => s.procs.Reaps p) (fun _ _ => False)
      s.procs :=
    wp_mono_return (processPoolWaitIfFull_spec w hinv) fun _ _ hp => hp.2.1
  refine wp_executeCommand hinv hwait ?_ ?_ ?_
  · -- A halted pool: the command stays as it is.
    intro p hreaps hinv' hhalt
    exact ⟨hinv', rfl, rfl, fun _ => hhalt, Or.inl ⟨hhalt, rfl, hreaps.forked⟩⟩
  · exact fun p hreaps hinv' _ _ => ⟨rfl, hinv', hreaps.forked⟩
  · intro p q hreaps _ hinv'' hstep
    obtain ⟨child, hsubmits⟩ := hstep.toPoolStep.submit_cases
    have hrunning := (hstep.ready s.cmd rfl).1
    refine ⟨hinv'', rfl, rfl, ?_, Or.inr ⟨hsubmits.halt.trans hrunning, rfl, ?_⟩⟩
    · -- A pool that was halted before has not come to the fork.
      intro hh
      exact absurd ((hreaps.halt hh).symm.trans hrunning) (by decide)
    · show q.os.forked = s.procs.os.forked ++ [s.cmd]
      rw [hsubmits.forked, hreaps.forked]

/-! ### One iteration -/

/-- A returned iteration against its planned step `p`: unless the pool has halted, it forked
the completed commands and left the planned command. -/
structure Iterates (s : XargsMode) (p : Planned) (leave : Bool) (s' : XargsMode) : Prop where
  inv : s'.procs.Inv
  toker : s'.toker = s.toker
  tokerError : s'.tokerError = s.tokerError
  cases : (leave = false ∧ s'.halted = false ∧ p.2 = .ok s'.cmd ∧ s'.forked = s.forked ++ p.1) ∨
    (leave = true ∧ s'.halted = true ∧ ∃ l, l <+: p.1 ∧ s'.forked = s.forked ++ l)

/-- An iteration that exits against its planned step `p`. -/
structure Stops (s : XargsMode) (p : Planned) (e : Exit) (s' : XargsMode) : Prop where
  inv : s'.procs.Inv
  toker : e ≠ Exit.forkFailed → s'.toker = s.toker
  cases : (p.2 = .error e ∧ s'.forked = s.forked ++ p.1) ∨
    (e = Exit.forkFailed ∧ ∃ l, l <+: p.1 ∧ s'.forked = s.forked ++ l)

theorem Stops.of_error {s s' : XargsMode} {e : Exit} (hinv : s'.procs.Inv)
    (htoker : s'.toker = s.toker) (hforked : s'.forked = s.forked) :
    Stops s ([], .error e) e s' :=
  ⟨hinv, fun _ => htoker, Or.inl ⟨rfl, hforked.trans (List.append_nil _).symm⟩⟩

theorem Stops.of_forkFailed {s s' : XargsMode} {p : Planned} (hinv : s'.procs.Inv)
    (hforked : s'.forked = s.forked) : Stops s p Exit.forkFailed s' :=
  ⟨hinv, fun h => absurd rfl h,
    Or.inr ⟨rfl, forked_nothing hforked p.1⟩⟩

/-- The end of an iteration that executes its command: whether the pool has halted is the
result. -/
theorem xargsModeExecuteCommand_iterates (w : World) (cmd : Command) {s : XargsMode}
    (hinv : s.procs.Inv) :
    wp (xargsModeExecuteCommand w)
      (fun _ s' => Iterates s ([cmd], .ok (recycleCommand cmd)) s'.halted s')
      (fun e s' => Stops s ([cmd], .ok (recycleCommand cmd)) e s') { s with cmd := cmd } := by
  refine wp_mono (xargsModeExecuteCommand_spec w (s := { s with cmd := cmd }) hinv) ?_ ?_
  · rintro _ s' ⟨hinv', htoker, herror, -, hcases⟩
    refine ⟨hinv', htoker, herror, ?_⟩
    rcases hcases with ⟨hhalt, -, hforked⟩ | ⟨hhalt, hcmd, hforked⟩
    · exact Or.inr ⟨hhalt, hhalt, forked_nothing hforked _⟩
    · exact Or.inl ⟨hhalt, hhalt, congrArg Except.ok hcmd.symm, hforked⟩
  · rintro e s' ⟨rfl, hinv', hforked⟩
    exact Stops.of_forkFailed hinv' hforked

/-- The second half of an appender iteration follows `appenderAdd`. -/
theorem appenderModeAdd_spec (w : World) (arg : CStr) {s : XargsMode} (hinv : s.procs.Inv)
    (hrunning : s.halted = false) :
    wp (appenderModeAdd w arg) (fun leave s' => Iterates s (appenderAdd s.cmd arg) leave s')
      (fun e s' => Stops s (appenderAdd s.cmd arg) e s') s := by
  apply wp_appenderModeAdd
  · intro e hadd
    rw [appenderAdd, hadd]
    exact Stops.of_error hinv rfl rfl
  · intro cmd hadd hlong
    have hplan : appenderAdd s.cmd arg = ([], .error Exit.commandTooLong) := by
      rw [appenderAdd, hadd]
      exact if_pos hlong
    rw [hplan]
    simp only [xargsModeDrain, onProcs, wp_focus]
    -- The drain in front of the exit forks nothing.
    refine wp_mono_noExit (processPoolDrain_spec w hinv) ?_
    rintro _ p ⟨hinv', hreaps, -⟩
    exact Stops.of_error hinv' rfl hreaps.forked
  · intro cmd hadd hdone
    have hplan : appenderAdd s.cmd arg = ([cmd], .ok (recycleCommand cmd)) := by
      rw [appenderAdd, hadd]
      exact (if_neg (by omega)).trans (if_pos hdone)
    rw [hplan]
    exact xargsModeExecuteCommand_iterates w cmd hinv
  · intro cmd hadd hshort hopen
    have hplan : appenderAdd s.cmd arg = ([], .ok cmd) := by
      rw [appenderAdd, hadd]
      exact (if_neg hshort).trans (if_neg hopen)
    rw [hplan]
    exact ⟨hinv, rfl, rfl, Or.inl ⟨rfl, hrunning, rfl, (List.append_nil _).symm⟩⟩

/-- The rest of an iteration after its first flush: the flushed command is on the history,
in front of what the rest plans. -/
theorem Iterates.after_flush {s s' s'' : XargsMode} {p : Planned} {leave : Bool}
    (h : Executed s s') (hforked : s'.forked = s.forked ++ [s.cmd])
    (h' : Iterates s' p leave s'') : Iterates s (s.cmd :: p.1, p.2) leave s'' := by
  refine ⟨h'.inv, h'.toker.trans h.toker, h'.tokerError.trans h.tokerError, ?_⟩
  rcases h'.cases with ⟨hleave, hhalt, hok, hforked'⟩ | ⟨hleave, hhalt, l, hl, hforked'⟩
  · refine Or.inl ⟨hleave, hhalt, hok, ?_⟩
    rw [hforked', hforked, List.append_assoc, List.singleton_append]
  · refine Or.inr ⟨hleave, hhalt, s.cmd :: l, List.cons_prefix_cons.mpr ⟨rfl, hl⟩, ?_⟩
    rw [hforked', hforked, List.append_assoc, List.singleton_append]

theorem Stops.after_flush {s s' s'' : XargsMode} {p : Planned} {e : Exit}
    (h : Executed s s') (hforked : s'.forked = s.forked ++ [s.cmd])
    (h' : Stops s' p e s'') : Stops s (s.cmd :: p.1, p.2) e s'' := by
  refine ⟨h'.inv, fun hne => (h'.toker hne).trans h.toker, ?_⟩
  rcases h'.cases with ⟨herr, hforked'⟩ | ⟨hfail, l, hl, hforked'⟩
  · refine Or.inl ⟨herr, ?_⟩
    rw [hforked', hforked, List.append_assoc, List.singleton_append]
  · refine Or.inr ⟨hfail, s.cmd :: l, List.cons_prefix_cons.mpr ⟨rfl, hl⟩, ?_⟩
    rw [hforked', hforked, List.append_assoc, List.singleton_append]

/-- An appender iteration follows `appenderStep`. -/
theorem appenderModeIteration_spec (w : World) (arg : CStr) {s : XargsMode}
    (hinv : s.procs.Inv) (hrunning : s.halted = false) :
    wp (appenderModeIteration w arg)
      (fun leave s' => Iterates s (appenderStep s.cmd arg) leave s')
      (fun e s' => Stops s (appenderStep s.cmd arg) e s') s := by
  apply wp_appenderModeIteration
  · intro e hexceeds
    rw [appenderStep, hexceeds]
    exact Stops.of_error hinv rfl rfl
  · intro hexceeds
    rw [appenderStep, hexceeds]
    refine wp_mono (xargsModeExecuteCommand_spec w hinv) ?_ ?_
    · intro _ s' hexec
      rcases hexec.cases with ⟨hhalt, -, hforked⟩ | ⟨hhalt, hcmd, hforked⟩
      · refine ⟨fun _ => ?_, fun h => absurd hhalt (XargsMode.not_halted h)⟩
        exact ⟨hexec.inv, hexec.toker, hexec.tokerError,
          Or.inr ⟨rfl, hhalt, forked_nothing hforked _⟩⟩
      · -- The flush has recycled the command, and the token is added to the new one.
        refine ⟨fun h => absurd h (XargsMode.not_halted hhalt), fun _ => ?_⟩
        have hadd := appenderModeAdd_spec w arg hexec.inv hhalt
        rw [hcmd] at hadd
        exact wp_mono hadd (fun _ _ h => h.after_flush hexec hforked)
          (fun _ _ h => h.after_flush hexec hforked)
    · rintro e s' ⟨rfl, hinv', hforked⟩
      exact Stops.of_forkFailed hinv' hforked
  · intro hexceeds
    rw [appenderStep, hexceeds]
    exact appenderModeAdd_spec w arg hinv hrunning

/-- A replacer iteration follows `replacerStep`. -/
theorem replacerModeIteration_spec (w : World) (arg : CStr) {s : XargsMode}
    (hinv : s.procs.Inv) :
    wp (replacerModeIteration w arg)
      (fun leave s' => Iterates s (replacerStep s.cmd arg) leave s')
      (fun e s' => Stops s (replacerStep s.cmd arg) e s') s := by
  apply wp_replacerModeIteration
  · intro e hlength
    rw [replacerStep, hlength]
    exact Stops.of_error hinv rfl rfl
  · intro e hlength hreplace
    have hplan : replacerStep s.cmd arg = ([], .error e) := by
      simp only [replacerStep, hlength, hreplace]
    rw [hplan]
    exact Stops.of_error hinv rfl rfl
  · intro cmd hlength hreplace
    have hplan : replacerStep s.cmd arg = ([cmd], .ok (recycleCommand cmd)) := by
      simp only [replacerStep, hlength, hreplace]
    rw [hplan]
    exact xargsModeExecuteCommand_iterates w cmd hinv

/-! ### The loop -/

/-- Both modes run one iteration function over the tokens. This is what their loops need of
it. -/
def FollowsStep (iteration : CStr → EStateM Exit XargsMode Bool)
    (step : Command → CStr → Planned) : Prop :=
  ∀ (arg : CStr) {s : XargsMode}, s.procs.Inv → s.halted = false →
    wp (iteration arg) (fun leave s' => Iterates s (step s.cmd arg) leave s')
      (fun e s' => Stops s (step s.cmd arg) e s') s

/-- A loop that returned, against the planned batches. Without a halt, every token has been
requested, and the error of the tokenizer can be read. -/
structure Loops (s : XargsMode) (stream : TokenStream) (present : Bool) (b : Batches)
    (present' : Bool) (s' : XargsMode) : Prop where
  inv : s'.procs.Inv
  present : present' = (present || !stream.tokens.isEmpty)
  cases :
    (s'.halted = false ∧ s'.toker.tokens = [] ∧ s'.tokerError = stream.endError ∧
      s'.forked = s.forked ++ b.commands ∧ b.rest = [] ∧
      ∃ cmd, b.result = .ok cmd ∧ s'.cmd = commandIncrementLineCount cmd stream.endBoundaries) ∨
    (s'.halted = true ∧ s'.tokerError = .none ∧ ∃ l, l <+: b.commands ∧ s'.forked = s.forked ++ l)

/-- A loop that exited, against the planned batches. -/
structure LoopStops (s : XargsMode) (b : Batches) (e : Exit) (s' : XargsMode) : Prop where
  inv : s'.procs.Inv
  cases :
    (b.result = .error e ∧ s'.forked = s.forked ++ b.commands ∧
      (e ≠ Exit.forkFailed → s'.toker.tokens = b.rest)) ∨
    (e = Exit.forkFailed ∧ ∃ l, l <+: b.commands ∧ s'.forked = s.forked ++ l)

/-- The rounds after a step: what they complete comes behind what the step completed. -/
theorem Loops.after_step {s s' s'' : XargsMode} {tokens : List Token} {endBoundaries : Nat}
    {endError : TokenizerError} {b : Batches} {present present' : Bool} {out : List Command}
    (hforked : s'.forked = s.forked ++ out) (token : Token)
    (h : Loops s' ⟨tokens, endBoundaries, endError⟩ true b present' s'') :
    Loops s ⟨token :: tokens, endBoundaries, endError⟩ present
      ⟨out ++ b.commands, b.rest, b.result⟩ present' s'' := by
  refine ⟨h.inv, by rw [h.present]; simp, ?_⟩
  rcases h.cases with ⟨hhalt, hrest, herror, hforked', hplanned, hcmd⟩ |
    ⟨hhalt, herror, l, hl, hforked'⟩
  · refine Or.inl ⟨hhalt, hrest, herror, ?_, hplanned, hcmd⟩
    rw [hforked', hforked]
    exact List.append_assoc ..
  · refine Or.inr ⟨hhalt, herror, out ++ l, (List.prefix_append_right_inj out).mpr hl, ?_⟩
    rw [hforked', hforked]
    exact List.append_assoc ..

theorem LoopStops.after_step {s s' s'' : XargsMode} {b : Batches} {e : Exit}
    {out : List Command} (hforked : s'.forked = s.forked ++ out) (h : LoopStops s' b e s'') :
    LoopStops s ⟨out ++ b.commands, b.rest, b.result⟩ e s'' := by
  refine ⟨h.inv, ?_⟩
  rcases h.cases with ⟨herr, hforked', hrest⟩ | ⟨hfail, l, hl, hforked'⟩
  · refine Or.inl ⟨herr, ?_, hrest⟩
    rw [hforked', hforked]
    exact List.append_assoc ..
  · refine Or.inr ⟨hfail, out ++ l, (List.prefix_append_right_inj out).mpr hl, ?_⟩
    rw [hforked', hforked]
    exact List.append_assoc ..

/-- The loop follows the batches. Induction on the tokens; each round is one step of
`batches`, and a halt leaves the loop in the middle of the plan. -/
theorem forEach_follows {iteration : CStr → EStateM Exit XargsMode Bool}
    {step : Command → CStr → Planned} (hstep : FollowsStep iteration step)
    (endBoundaries : Nat) (endError : TokenizerError) :
    ∀ (tokens : List Token) (n : Nat) (present : Bool) (s : XargsMode),
      tokens.length < n → s.procs.Inv → s.halted = false → s.tokerError = .none →
      s.toker = ⟨tokens, endBoundaries, endError⟩ →
      wp (forEach xargsModeNextToken iteration n present)
        (fun present' s' => Loops s ⟨tokens, endBoundaries, endError⟩ present
          (batches step s.cmd tokens) present' s')
        (fun e s' => LoopStops s (batches step s.cmd tokens) e s') s := by
  intro tokens
  induction tokens with
  -- The round that reads the end of the input. It does not run the iteration.
  | nil =>
      intro n present s hn hinv hrunning _ htoker
      obtain ⟨n, rfl⟩ : ∃ m, n = m + 1 := ⟨n - 1, by rw [List.length_nil] at hn; omega⟩
      simp only [forEach, xargsModeNextToken, wp_bind, wp_get, htoker, wp_set, wp_pure]
      refine ⟨hinv, by simp, Or.inl ⟨hrunning, rfl, rfl, ?_, rfl, s.cmd, rfl, rfl⟩⟩
      exact (List.append_nil _).symm
  | cons token tokens ih =>
      intro n present s hn hinv hrunning hnone htoker
      obtain ⟨n, rfl⟩ : ∃ m, n = m + 1 := ⟨n - 1, by rw [List.length_cons] at hn; omega⟩
      simp only [forEach, xargsModeNextToken, wp_bind, wp_get, htoker, wp_set, wp_pure, wp_ite]
      refine wp_mono (hstep token.arg (s := { s with
        cmd := commandIncrementLineCount s.cmd token.boundaries
        toker := ⟨tokens, endBoundaries, endError⟩ }) hinv hrunning) ?_ ?_
      · intro leave s' hiter
        rcases hiter.cases with ⟨rfl, hhalt, hok, hforked⟩ | ⟨rfl, hhalt, l, hl, hforked⟩
        · -- The loop goes on with the command that the plan leaves.
          rw [if_neg Bool.false_ne_true, batches_cons_ok (Prod.ext rfl hok)]
          have hlen : tokens.length < n := by
            rw [List.length_cons] at hn
            omega
          replace hforked : s'.forked = s.forked ++ _ := hforked
          have hlater := ih n true s' hlen hiter.inv hhalt (hiter.tokerError.trans hnone)
            hiter.toker
          exact wp_mono hlater (fun _ _ h => h.after_step hforked token)
            (fun _ _ h => h.after_step hforked)
        · -- A halt leaves the loop within the commands of this step.
          rw [if_pos rfl]
          have hpresent : true = (present || !(token :: tokens).isEmpty) := by simp
          exact ⟨hiter.inv, hpresent, Or.inr ⟨hhalt, hiter.tokerError.trans hnone, l,
            hl.trans (batches_step_isPrefix step s.cmd token tokens), hforked⟩⟩
      · intro e s' hstop
        rcases hstop.cases with ⟨herr, hforked⟩ | ⟨hfail, l, hl, hforked⟩
        · rw [batches_cons_error (Prod.ext rfl herr)]
          exact ⟨hstop.inv, Or.inl ⟨rfl, hforked,
            fun hne => congrArg TokenStream.tokens (hstop.toker hne)⟩⟩
        · exact ⟨hstop.inv, Or.inr ⟨hfail, l,
            hl.trans (batches_step_isPrefix step s.cmd token tokens), hforked⟩⟩

/-! ### The run -/

/-- The state in which `xargs_mode_create` leaves a mode. -/
structure XargsMode.Starts (s : XargsMode) : Prop where
  inv : s.procs.Inv
  running : s.halted = false
  noError : s.tokerError = .none
  unforked : s.forked = []

/-- A new mode has the command of its options, the whole input, and a new pool. -/
theorem xargsModeCreate_cases {sys : System} {opts : Options} {argIndex : Nat}
    {argv : List CStr} {toker : TokenStream} {s : XargsMode}
    (h : xargsModeCreate sys opts argIndex argv toker = .ok s) :
    ∃ cmd, commandCreate sys opts argIndex argv = .ok cmd ∧
      s = ⟨cmd, toker, .none, Procs.start sys.childMax opts.maxProcs []⟩ := by
  unfold xargsModeCreate at h
  cases hcmd : commandCreate sys opts argIndex argv with
  | error e => rw [hcmd] at h; cases h
  | ok cmd =>
      rw [hcmd] at h
      cases h
      exact ⟨cmd, rfl, rfl⟩

theorem xargsModeCreate_starts {sys : System} {opts : Options} {argIndex : Nat}
    {argv : List CStr} {toker : TokenStream} {s : XargsMode}
    (h : xargsModeCreate sys opts argIndex argv toker = .ok s) :
    s.Starts ∧ s.toker = toker ∧ commandCreate sys opts argIndex argv = .ok s.cmd := by
  obtain ⟨cmd, hcmd, rfl⟩ := xargsModeCreate_cases h
  exact ⟨⟨Procs.inv_create _ _ _, rfl, rfl, rfl⟩, rfl, hcmd⟩

/-- `xargs_create` accepts exactly the options that `options_create` accepts, if the mode can be
created from them. -/
theorem xargsCreate_cases {sys : System} {scanned : List Getopt} {optind : Nat}
    {argv : List CStr} {toker : TokenStream} {opts : Options} {s : XargsMode}
    (h : xargsCreate sys scanned optind argv toker = .ok (opts, s)) :
    optionsCreate sys.childMax scanned optind = .ok opts ∧
      xargsModeCreate sys opts opts.optindVal argv toker = .ok s := by
  unfold xargsCreate at h
  cases hopts : optionsCreate sys.childMax scanned optind with
  | error e => rw [hopts] at h; cases h
  | ok opts' =>
      rw [hopts] at h
      cases hmode : xargsModeCreate sys opts' opts'.optindVal argv toker with
      | error e => simp only [bind, Except.bind, hmode] at h; cases h
      | ok s' =>
          simp only [bind, Except.bind, hmode] at h
          cases h
          exact ⟨rfl, hmode⟩

/-- What `xargs_create` establishes before the run. -/
theorem xargsCreate_spec {sys : System} {scanned : List Getopt} {optind : Nat}
    {argv : List CStr} {toker : TokenStream} {opts : Options} {s : XargsMode}
    (h : xargsCreate sys scanned optind argv toker = .ok (opts, s)) :
    opts.Valid ∧ s.Starts ∧ s.toker = toker ∧
      commandCreate sys opts opts.optindVal argv = .ok s.cmd := by
  obtain ⟨hopts, hmode⟩ := xargsCreate_cases h
  exact ⟨optionsCreate_valid hopts, xargsModeCreate_starts hmode⟩

/-- A run from `s` against its plan. `exit` is `none` for a normal return. -/
structure Follows (s : XargsMode) (p : Plan) (exit : Option Exit) (s' : XargsMode) : Prop where
  inv : s'.procs.Inv
  planned : ∃ l, l <+: p.commands ∧ s'.forked = s.forked ++ l
  whole : s'.halted = false → exit ≠ some Exit.forkFailed →
    s'.forked = s.forked ++ p.commands ∧ exit = p.exit ∧ s'.toker.tokens = p.rest

/-- Executing a command at most adds it to the history. -/
theorem Executed.planned {s s' : XargsMode} (h : Executed s s') :
    ∃ l, l <+: [s.cmd] ∧ s'.forked = s.forked ++ l := by
  rcases h.cases with ⟨-, -, hforked⟩ | ⟨-, -, hforked⟩
  · exact forked_nothing hforked _
  · exact ⟨[s.cmd], List.prefix_rfl, hforked⟩

/-- What remains of a mode after its loop: it forks the commands `last`, unless the pool has
halted, and drains the pool. -/
structure Finishes (s : XargsMode) (last : List Command) (s' : XargsMode) : Prop where
  inv : s'.procs.Inv
  toker : s'.toker = s.toker
  drained : s'.procs.os.children = []
  halt : s.halted = true → s'.halted = true
  planned : ∃ l, l <+: last ∧ s'.forked = s.forked ++ l
  unhalted : s.halted = true → s'.forked = s.forked
  whole : s'.halted = false → s'.forked = s.forked ++ last

/-- The drain at the end of every run. -/
theorem xargsModeDrain_spec (w : World) {s : XargsMode} (hinv : s.procs.Inv) :
    wp (xargsModeDrain w) (fun _ s' => Finishes s [] s') (fun _ _ => False) s := by
  simp only [xargsModeDrain, onProcs, wp_focus]
  refine wp_mono_return (processPoolDrain_spec w hinv) ?_
  rintro _ p ⟨hinv', hreaps, hchildren⟩
  have hsame : XargsMode.forked { s with procs := p } = s.forked := hreaps.forked
  exact ⟨hinv', rfl, hchildren, hreaps.halt, forked_nothing hsame [], fun _ => hsame,
    fun _ => hsame.trans (List.append_nil _).symm⟩

/-- A last execution, and then the drain. -/
theorem Finishes.after_execute {s s' s'' : XargsMode} (h : Executed s s')
    (h' : Finishes s' [] s'') : Finishes s [s.cmd] s'' := by
  have hsame : s''.forked = s'.forked := by
    obtain ⟨l, hl, hforked⟩ := h'.planned
    rw [hforked, List.prefix_nil.mp hl, List.append_nil]
  refine ⟨h'.inv, h'.toker.trans h.toker, h'.drained, fun hh => h'.halt (h.halt hh), ?_, ?_, ?_⟩
  · obtain ⟨l, hl, hforked⟩ := h.planned
    exact ⟨l, hl, hsame.trans hforked⟩
  · intro hh
    -- A halt from before is a halt behind the wait, so nothing was executed.
    rcases h.cases with ⟨-, -, hforked⟩ | ⟨hrunning, -, -⟩
    · exact hsame.trans hforked
    · exact absurd (h.halt hh) (XargsMode.not_halted hrunning)
  · intro hrunning
    rcases h.cases with ⟨hh, -, -⟩ | ⟨-, -, hforked⟩
    · exact absurd (h'.halt hh) (XargsMode.not_halted hrunning)
    · exact hsame.trans hforked

/-- The end of an appender run forks `appenderLast`. -/
theorem appenderModeFinish_spec (w : World) (suppress present : Bool) {s : XargsMode}
    (hinv : s.procs.Inv) :
    wp (appenderModeFinish w suppress present)
      (fun _ s' => Finishes s (appenderLast suppress present s.cmd) s')
      (fun e s' => e = Exit.forkFailed ∧ s'.procs.Inv ∧ s'.forked = s.forked) s := by
  apply wp_appenderModeFinish
  · intro hlast
    rw [hlast]
    refine wp_mono_return (xargsModeExecuteCommand_spec w hinv) ?_
    intro _ s' hexec
    exact wp_mono_noExit (xargsModeDrain_spec w hexec.inv)
      fun _ _ h => Finishes.after_execute hexec h
  · intro hlast
    rw [hlast]
    exact wp_mono_noExit (xargsModeDrain_spec w hinv) fun _ _ h => h

/-- A loop that exits follows the plan that its batches give. -/
theorem LoopStops.follows {s s' : XargsMode} {b : Batches} {e : Exit}
    (h : LoopStops s b e s') (stream : TokenStream) (last : Command → List Command) :
    Follows s (endPlan b stream last) (some e) s' := by
  rcases h.cases with ⟨herr, hforked, hrest⟩ | ⟨hfail, l, hl, hforked⟩
  · have hplan : endPlan b stream last = ⟨b.commands, b.rest, some e⟩ := by
      rw [endPlan, herr]
    rw [hplan]
    exact ⟨h.inv, ⟨b.commands, List.prefix_rfl, hforked⟩,
      fun _ hne => ⟨hforked, rfl, hrest fun he => hne (congrArg some he)⟩⟩
  · -- A failed `fork` leaves a part of the batches, and those are a part of the plan.
    refine ⟨h.inv, ⟨l, hl.trans ?_, hforked⟩, fun _ hne => absurd (congrArg some hfail) hne⟩
    unfold endPlan
    split
    · exact List.prefix_rfl
    · split
      · exact List.prefix_append ..
      · exact List.prefix_rfl

/-- Both runs end in the same way. `finish` runs only after a loop without a tokenizer
error, and forks the commands `last`. -/
theorem loopAndFinish_follows (w : World) {loop : EStateM Exit XargsMode Bool}
    {finish : Bool → EStateM Exit XargsMode Nat} {last : Command → List Command}
    {b : Batches} {s : XargsMode}
    (hloop : wp loop (fun present s' => Loops s s.toker false b present s')
      (fun e s' => LoopStops s b e s') s)
    (hfinish : ∀ {s' : XargsMode}, s'.procs.Inv →
      wp (finish (!s.toker.tokens.isEmpty)) (fun _ s'' => Finishes s' (last s'.cmd) s'')
        (fun e s'' => e = Exit.forkFailed ∧ s''.procs.Inv ∧ s''.forked = s'.forked) s') :
    wp (do
        let present ← loop
        if ← xargsModeTokenizerErrored then
          xargsModeTokenizerFailure w
        else
          finish present)
      (fun _ s' => Follows s (endPlan b s.toker last) none s')
      (fun e s' => Follows s (endPlan b s.toker last) (some e) s') s := by
  apply wp_loopAndFinish
  refine wp_mono hloop ?_ (fun e s' h => h.follows s.toker last)
  rintro present s' ⟨hinv, hpresent, hcases⟩
  rw [Bool.false_or] at hpresent
  subst hpresent
  rcases hcases with ⟨hrunning, htokens, herror, hforked, hrest, cmd, hok, hcmd⟩ |
    ⟨hhalt, hnone, l, hl, hforked⟩
  · -- Every token has been requested: the plan ends as the input ends.
    rw [herror]
    constructor
    · intro hclean
      have hplan : endPlan b s.toker last = ⟨b.commands ++ last s'.cmd, b.rest, none⟩ := by
        rw [endPlan, hok, hcmd]
        exact if_pos hclean
      rw [hplan]
      refine wp_mono (hfinish hinv) ?_ ?_
      · intro _ s'' h
        obtain ⟨l, hl, hlast⟩ := h.planned
        refine ⟨h.inv, ⟨b.commands ++ l, (List.prefix_append_right_inj _).mpr hl, ?_⟩, ?_⟩
        · rw [hlast, hforked, List.append_assoc]
        · intro hrunning' _
          refine ⟨?_, rfl, ?_⟩
          · rw [h.whole hrunning', hforked, List.append_assoc]
          · rw [h.toker, htokens]
            exact hrest.symm
      · rintro e s'' ⟨rfl, hinv'', hsame⟩
        exact ⟨hinv'', ⟨b.commands, List.prefix_append .., hsame.trans hforked⟩,
          fun _ hne => absurd rfl hne⟩
    · intro herrored
      have hplan : endPlan b s.toker last
          = ⟨b.commands, b.rest, some (Exit.failure .alreadyReported)⟩ := by
        rw [endPlan, hok]
        exact if_neg herrored
      rw [hplan]
      refine wp_mono_noExit (xargsModeDrain_spec w hinv) ?_
      intro _ s'' h
      obtain ⟨l, hl, hlast⟩ := h.planned
      have hsame : s''.forked = s.forked ++ b.commands := by
        rw [hlast, List.prefix_nil.mp hl, List.append_nil, hforked]
      exact ⟨h.inv, ⟨b.commands, List.prefix_rfl, hsame⟩,
        fun _ _ => ⟨hsame, rfl, by rw [h.toker, htokens]; exact hrest.symm⟩⟩
  · -- After a halt nothing more is forked.
    refine ⟨fun _ => ?_, fun herrored => absurd hnone herrored⟩
    have hpart : l <+: (endPlan b s.toker last).commands := by
      unfold endPlan
      split
      · exact hl
      · split
        · exact hl.trans (List.prefix_append ..)
        · exact hl
    refine wp_mono (hfinish hinv) ?_ ?_
    · intro _ s'' h
      refine ⟨h.inv, ⟨l, hpart, (h.unhalted hhalt).trans hforked⟩, fun hrunning => ?_⟩
      exact absurd (h.halt hhalt) (XargsMode.not_halted hrunning)
    · rintro e s'' ⟨rfl, hinv'', hsame⟩
      exact ⟨hinv'', ⟨l, hpart, hsame.trans hforked⟩, fun _ hne => absurd rfl hne⟩

/-- A loop of a mode, from the state in which it starts. -/
theorem loop_follows {iteration : CStr → EStateM Exit XargsMode Bool}
    {step : Command → CStr → Planned} (hstep : FollowsStep iteration step) {s : XargsMode}
    (h : s.Starts) :
    wp (do forEach xargsModeNextToken iteration (← get).rounds false)
      (fun present s' => Loops s s.toker false (batches step s.cmd s.toker.tokens) present s')
      (fun e s' => LoopStops s (batches step s.cmd s.toker.tokens) e s') s := by
  simp only [wp_bind, wp_get]
  exact forEach_follows hstep s.toker.endBoundaries s.toker.endError s.toker.tokens _ false s
    (Nat.lt_succ_self _) h.inv h.running h.noError rfl

/-- The rounds of a loop that follows a step. Each round starts without a halt, and it keeps `I`. `P`
is the condition of a round: a round that returns has met it, and one that exits leaves `E` if it has
met it and `E'` if not. -/
theorem FollowsStep.rounds {iteration : CStr → EStateM Exit XargsMode Bool}
    {step : Command → CStr → Planned} (hstep : FollowsStep iteration step)
    (I : Procs → Prop) (P : CStr → XargsMode → Prop) (E E' : Exit → XargsMode → Prop)
    (hround : ∀ (arg : CStr) {s : XargsMode}, s.procs.Inv → s.halted = false → I s.procs →
      wp (iteration arg) (fun _ t => P arg s ∧ I t.procs)
        (fun e t => P arg s ∧ E e t ∨ ¬ P arg s ∧ E' e t) s)
    {s : XargsMode} (h : s.Starts) (hI : I s.procs) :
    wp (forEach xargsModeNextToken iteration s.rounds false)
      (fun _ t => (t.procs.Inv ∧ I t.procs) ∧
        ∀ r ∈ forEachRounds xargsModeNextToken iteration s.rounds s, P r.1 r.2)
      (fun e t =>
        (∀ r ∈ forEachRounds xargsModeNextToken iteration s.rounds s, P r.1 r.2) ∧ E e t ∨
        ¬ (∀ r ∈ forEachRounds xargsModeNextToken iteration s.rounds s, P r.1 r.2) ∧ E' e t) s := by
  -- The tokens that are left bound the rounds, and a round that goes on has not halted.
  apply wp_forEach xargsModeNextToken iteration
    (fun n t => t.toker.tokens.length < n ∧ t.procs.Inv ∧ t.halted = false ∧ I t.procs) P
    (fun _ t => t.procs.Inv ∧ I t.procs) E E'
  · exact fun t ht => absurd ht.1 (Nat.not_lt_zero _)
  · rintro n present t ⟨hleft, hinv, hrunning, hI⟩
    simp only [xargsModeNextToken, wp_bind, wp_get]
    cases htokens : t.toker.tokens with
    | nil =>
        simp only [wp_bind, wp_set, wp_pure]
        exact ⟨hinv, hI⟩
    | cons token tokens =>
        simp only [wp_bind, wp_set, wp_pure]
        rw [htokens, List.length_cons] at hleft
        apply wp_mono (wp_and (hround token.arg (s := { t with
            cmd := commandIncrementLineCount t.cmd token.boundaries
            toker := { t.toker with tokens := tokens } }) hinv hrunning hI)
          (hstep token.arg hinv hrunning))
        · rintro leave u ⟨⟨hP, hI'⟩, hiter⟩
          refine ⟨hP, ?_⟩
          -- The loop goes on, or the halt leaves it.
          obtain ⟨rfl, hrunning', -⟩ | ⟨rfl, -⟩ := hiter.cases
          · rw [if_neg Bool.false_ne_true, hiter.toker]
            exact ⟨Nat.lt_of_succ_lt_succ hleft, hiter.inv, hrunning', hI'⟩
          · rw [if_pos rfl]
            exact ⟨hiter.inv, hI'⟩
        · exact fun _ _ hu => hu.1
  · exact ⟨Nat.lt_succ_self _, h.inv, h.running, hI⟩

/-- What every round leaves by an exit, the loop leaves by an exit. -/
theorem loop_exits {iteration : CStr → EStateM Exit XargsMode Bool}
    {step : Command → CStr → Planned} (hstep : FollowsStep iteration step)
    {E : Exit → XargsMode → Prop}
    (hexit : ∀ (arg : CStr) {s : XargsMode}, s.procs.Inv → s.halted = false →
      wp (iteration arg) (fun _ _ => True) E s)
    {s : XargsMode} (h : s.Starts) :
    wp (do forEach xargsModeNextToken iteration (← get).rounds false)
      (fun _ t => t.procs.Inv) E s := by
  simp only [wp_bind, wp_get]
  have hrounds := hstep.rounds (fun _ => True) (fun _ _ => True) E E ?_ h trivial
  · exact wp_mono hrounds (fun _ _ ht => ht.1.1) fun _ _ ht => ht.elim And.right And.right
  · intro arg s hinv hrunning _
    refine wp_mono (hexit arg hinv hrunning) (fun _ _ h => ⟨h, trivial⟩) fun _ _ h => ?_
    exact Or.inl ⟨trivial, h⟩

/-- Every run of `appender_mode_run` follows `appenderPlan`. -/
theorem appenderModeRun_follows (w : World) (suppress : Bool) {s : XargsMode} (h : s.Starts) :
    wp (appenderModeRun w suppress)
      (fun _ s' => Follows s (appenderPlan suppress s.cmd s.toker) none s')
      (fun e s' => Follows s (appenderPlan suppress s.cmd s.toker) (some e) s') s :=
  loopAndFinish_follows w
    (loop_follows (fun arg _ hinv hrunning => appenderModeIteration_spec w arg hinv hrunning) h)
    (fun hinv => appenderModeFinish_spec w suppress _ hinv)

/-- Every run of `replacer_mode_run` follows `replacerPlan`. -/
theorem replacerModeRun_follows (w : World) {s : XargsMode} (h : s.Starts) :
    wp (replacerModeRun w) (fun _ s' => Follows s (replacerPlan s.cmd s.toker) none s')
      (fun e s' => Follows s (replacerPlan s.cmd s.toker) (some e) s') s := by
  refine loopAndFinish_follows w
    (loop_follows (fun arg _ hinv _ => replacerModeIteration_spec w arg hinv) h) ?_
  intro s' hinv
  simp only [wp_bind, wp_pure]
  exact wp_mono_noExit (xargsModeDrain_spec w hinv) fun _ _ h' => h'

/-- **Refinement.** In every world, a run follows the plan of its options and its input. -/
theorem xargsRun_follows (w : World) (opts : Options) {s : XargsMode} (h : s.Starts) :
    Follows s (planOf opts s.cmd s.toker) (exitOf (xargsRun w opts s))
      (finalState (xargsRun w opts s)) := by
  refine wp_finalState (P := fun exit s' => Follows s (planOf opts s.cmd s.toker) exit s') ?_
  unfold xargsRun planOf
  split
  · exact appenderModeRun_follows w _ h
  · exact replacerModeRun_follows w h

/-! ### Reading a run off its plan -/

/-- The commands that a run has forked are the first ones of its plan. -/
theorem Follows.forked_isPrefix {s s' : XargsMode} {p : Plan} {exit : Option Exit}
    (h : Follows s p exit s') (hs : s.Starts) : s'.forked <+: p.commands := by
  obtain ⟨l, hl, hforked⟩ := h.planned
  rw [hs.unforked, List.nil_append] at hforked
  rw [hforked]
  exact hl

/-- A run without a halt forks its plan and ends as planned. -/
theorem Follows.completes {s s' : XargsMode} {p : Plan} {exit : Option Exit}
    (h : Follows s p exit s') (hs : s.Starts) (hrunning : s'.halted = false)
    (hfork : exit ≠ some Exit.forkFailed) :
    s'.forked = p.commands ∧ exit = p.exit ∧ s'.toker.tokens = p.rest := by
  have hwhole := h.whole hrunning hfork
  rw [hs.unforked, List.nil_append] at hwhole
  exact hwhole

/-- A run can halt only after a child exited with status 255. -/
theorem Follows.running {s s' : XargsMode} {p : Plan} {exit : Option Exit}
    (h : Follows s p exit s')
    (hstatus : ∀ child ∈ s'.procs.os.forkedChildren, child.status ≠ .exited 255) :
    s'.halted = false := by
  cases hhalt : s'.halted with
  | false => rfl
  | true =>
      obtain ⟨child, hchild, h255⟩ := h.inv.halted hhalt
      exact absurd h255 (hstatus child hchild)

/-- The first planned command is forked in every world: nothing can halt before it. -/
theorem Follows.forked_ne_nil {s s' : XargsMode} {p : Plan} {exit : Option Exit}
    (h : Follows s p exit s') (hs : s.Starts) (hfork : exit ≠ some Exit.forkFailed)
    (hne : p.commands ≠ []) : s'.forked ≠ [] := by
  intro hempty
  -- Without a fork no child can have asked for a halt.
  have hchildren : s'.procs.os.forkedChildren = [] := by
    have hlen := s'.procs.os.length_forkedChildren
    rw [show s'.procs.os.forked = [] from hempty] at hlen
    exact List.length_eq_zero_iff.mp hlen
  have hrunning : s'.halted = false := by
    apply h.running
    intro child hchild
    rw [hchildren] at hchild
    exact (List.not_mem_nil hchild).elim
  exact hne ((h.completes hs hrunning hfork).1 ▸ hempty)

/-- A plan of one command is carried out in every world. -/
theorem Follows.forked_singleton {s s' : XargsMode} {p : Plan} {exit : Option Exit}
    (h : Follows s p exit s') (hs : s.Starts) (hfork : exit ≠ some Exit.forkFailed)
    {cmd : Command} (hplan : p.commands = [cmd]) : s'.forked = [cmd] := by
  have hne : s'.forked ≠ [] := h.forked_ne_nil hs hfork (by rw [hplan]; exact List.cons_ne_nil _ _)
  have hpart := h.forked_isPrefix hs
  rw [hplan] at hpart
  obtain ⟨first, later, hcons⟩ := List.exists_cons_of_ne_nil hne
  rw [hcons, List.cons_prefix_cons] at hpart
  rw [hcons, hpart.1, List.prefix_nil.mp hpart.2]

end Phxargs
