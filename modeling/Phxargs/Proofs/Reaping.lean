import Phxargs.Proofs.Halt

/-!
# `Phxargs.Proofs.Reaping`: which exits leave children running

Every return of a mode, every tokenizer error and the size check after an add drain the pool
before they end the process. Four exits do not, because they are raised below the layer that
owns the pool: the size check of `command_ensure_length_not_exceeded`, the growth of the argument
list, the overflow check of `str_replace`, and a failed `fork`.

A wait makes room for one more child only, so from the first command on a child is in flight at
every token (`Procs.Busy`). So a run leaves no child exactly if such an exit comes before the first
command. Only a `fork` may fail later, under a limit of one, where the wait has left no child.
`RunSafe` says this about the run: `AppenderRoundSafe` and `ReplacerRoundSafe` where a token has just
been read, `ForkSafe` where a command is going to be executed.
-/

set_option autoImplicit false

namespace Phxargs

open Lib

/-- The children that no `waitpid` has reported. -/
def XargsMode.children (s : XargsMode) : List Child := s.procs.os.children

/-! ### The conditions on the steps -/

/-- Where a command is going to be executed: the pool has halted before the reaps that make room for
it or by them, or `fork` succeeds behind them, or no command has been executed before, or the limit
is one. -/
def ForkSafe (w : World) (s : XargsMode) : Prop :=
  s.halted = true ∨
    (∃ child ∈ s.procs.os.reports w (s.procs.adjustedPool w).reapsForRoom,
      child.status = .exited 255) ∨
    ForksAfter w s.procs (s.procs.adjustedPool w).reapsForRoom ∨
    s.forked = [] ∨ (s.procs.adjustedPool w).maxProcs = 1

/-- Where `arg` is going to be added: the size check after the add drains, so only the fork
of a completed command counts. The list growth exits directly. -/
def AppenderAddSafe (w : World) (arg : CStr) (s : XargsMode) : Prop :=
  match commandAddInputArgument s.cmd arg with
  | .error _ => s.forked = []
  | .ok cmd => commandShouldExecuteAfterArgAdded cmd > 0 → ForkSafe w { s with cmd := cmd }

/-- Where an appender iteration starts. -/
def AppenderRoundSafe (w : World) (arg : CStr) (s : XargsMode) : Prop :=
  match commandArgWouldExceedLimits s.cmd arg with
  | .error _ => s.forked = []
  | .ok true => ForkSafe w s ∧ wp (xargsModeExecuteCommand w)
      (fun _ t => t.halted = true ∨ AppenderAddSafe w arg t) (fun _ _ => True) s
  | .ok false => AppenderAddSafe w arg s

/-- Where a replacer iteration starts. -/
def ReplacerRoundSafe (w : World) (arg : CStr) (s : XargsMode) : Prop :=
  match commandEnsureLengthNotExceeded s.cmd arg with
  | .error _ => s.forked = []
  | .ok () =>
      match commandReplaceArgs s.cmd arg with
      | .error _ => s.forked = []
      | .ok cmd => ForkSafe w { s with cmd := cmd }

/-- The steps of a run of the appender mode: its rounds, and the last command. -/
def AppenderSafe (w : World) (suppress : Bool) (s : XargsMode) : Prop :=
  (∀ r ∈ forEachRounds xargsModeNextToken (appenderModeIteration w) s.rounds s,
    AppenderRoundSafe w r.1 r.2) ∧
  wp (appenderModeLoop w)
    (fun present t => t.tokerError = .none → appenderLast suppress present t.cmd ≠ [] →
      ForkSafe w t)
    (fun _ _ => True) s

/-- The steps of a run of the replacer mode. -/
def ReplacerSafe (w : World) (s : XargsMode) : Prop :=
  ∀ r ∈ forEachRounds xargsModeNextToken (replacerModeIteration w) s.rounds s,
    ReplacerRoundSafe w r.1 r.2

/-- The steps of a run of the mode that `xargs_create` chooses. -/
def RunSafe (w : World) (opts : Options) (s : XargsMode) : Prop :=
  if opts.argPlaceholder.isNone then
    AppenderSafe w opts.suppressExecutionOnEmptyInput s
  else
    ReplacerSafe w s

/-! ### Which states have children -/

/-- Once a command has been executed, a child is in flight, until a halt. -/
def Procs.Busy (s : Procs) : Prop := s.pool.halt = false → s.os.forked ≠ [] → s.os.children ≠ []

/-- So no child is in flight exactly if no command has been executed. -/
theorem Procs.Busy.idle_iff {s : Procs} (hbusy : s.Busy) (hinv : s.Inv)
    (hrunning : s.pool.halt = false) :
    s.os.children = [] ↔ s.os.forked = [] := by
  constructor
  · intro hidle
    by_contra hforked
    exact hbusy hrunning hforked hidle
  · intro hforked
    have hnone : s.os.forkedChildren = [] := by
      rw [← List.length_eq_zero_iff, Os.length_forkedChildren, hforked, List.length_nil]
    refine List.eq_nil_iff_forall_not_mem.mpr fun child hchild => ?_
    have hborn := hinv.born child hchild
    rw [hnone] at hborn
    exact List.not_mem_nil hborn

/-- The reaps that make room leave a child, unless the limit is one. -/
theorem Procs.MakesRoom.idle_iff {w : World} {s p : Procs} (h : s.MakesRoom w p) (hbusy : s.Busy)
    (hinv : s.Inv) (hrunning : s.pool.halt = false) :
    p.os.children = [] ↔ s.os.forked = [] ∨ (s.adjustedPool w).maxProcs = 1 := by
  have hcount : (s.adjustedPool w).count = s.os.children.length := by
    rw [← hinv.count_eq]
    unfold Procs.adjustedPool
    split
    · rfl
    · exact (s.pool.adjust_fields _ _).1
  rw [← hbusy.idle_iff hinv hrunning, ← List.length_eq_zero_iff, ← List.length_eq_zero_iff, h.children,
    ProcessPool.reapsForRoom, hcount]
  split <;> omega

/-! ### Executing a command -/

/-- An execution that returns was safe. One that exits leaves no child exactly if it was. -/
theorem xargsModeExecuteCommand_reaps (w : World) {s : XargsMode} (hinv : s.procs.Inv)
    (hbusy : s.procs.Busy) :
    wp (xargsModeExecuteCommand w) (fun _ s' => ForkSafe w s ∧ s'.procs.Busy)
      (fun _ s' => s'.children = [] ↔ ForkSafe w s) s := by
  apply wp_executeCommand hinv (processPoolWaitIfFull_makesRoom w hinv)
  · intro p hroom _ hhalt
    refine ⟨(hroom.halt.mp hhalt).imp id Or.inl, fun hrunning => ?_⟩
    exact absurd (hhalt.symm.trans hrunning) (by decide)
  · intro p hroom _ hrunning hfork
    -- `phxargs_fork` exits here, with the children that `p` has.
    have hnone : ¬ (s.halted = true ∨
        ∃ child ∈ s.procs.os.reports w (s.procs.adjustedPool w).reapsForRoom,
          child.status = .exited 255) := by
      intro hhalts
      exact absurd ((hroom.halt.mpr hhalts).symm.trans hrunning) (by decide)
    have hfails : ¬ ForksAfter w s.procs (s.procs.adjustedPool w).reapsForRoom := by
      rw [← hroom.forks_iff s.cmd, hfork]
      exact Bool.false_ne_true
    rw [not_or] at hnone
    rw [ForkSafe, or_iff_right hnone.1, or_iff_right hnone.2, or_iff_right hfails]
    exact hroom.idle_iff hbusy hinv (Bool.eq_false_of_not_eq_true hnone.1)
  · intro p q hroom _ _ hstep
    obtain ⟨child, hsubmits⟩ := hstep.toPoolStep.submit_cases
    refine ⟨Or.inr (Or.inr (Or.inl ?_)), fun _ _ => ?_⟩
    · rw [← hroom.forks_iff s.cmd, hsubmits.fork, Option.isSome_some]
    · -- The child that has just been submitted.
      show q.os.children ≠ []
      rw [hsubmits.children]
      exact List.append_ne_nil_of_right_ne_nil _ (List.cons_ne_nil _ _)

/-- Nothing is left behind by a drain. -/
theorem xargsModeDrain_reaps (w : World) {s : XargsMode} (hinv : s.procs.Inv) :
    wp (xargsModeDrain w) (fun _ s' => s'.children = []) (fun _ _ => False) s :=
  wp_mono_return (xargsModeDrain_spec w hinv) fun _ _ h => h.drained

/-! ### The iterations -/

/-- A condition that holds tells nothing about an exit that drains. -/
theorem drained_iff {s : XargsMode} {P : Prop} (hdrained : s.children = []) (h : P) :
    s.children = [] ↔ P := iff_of_true hdrained h

section Iterations

variable (w : World) (arg : CStr) {s : XargsMode}

theorem appenderModeAdd_reaps (hinv : s.procs.Inv) (hrunning : s.halted = false)
    (hbusy : s.procs.Busy) :
    wp (appenderModeAdd w arg) (fun _ s' => AppenderAddSafe w arg s ∧ s'.procs.Busy)
      (fun _ s' => s'.children = [] ↔ AppenderAddSafe w arg s) s := by
  unfold AppenderAddSafe
  apply wp_appenderModeAdd
  · intro e hadd
    rw [hadd]
    exact hbusy.idle_iff hinv hrunning
  · -- Nothing is executed, and the pool is drained before the exit.
    intro cmd hadd hlong
    rw [hadd]
    refine wp_mono_noExit (xargsModeDrain_reaps w hinv) ?_
    exact fun _ _ hdrained => drained_iff hdrained fun hdone => by omega
  · intro cmd hadd hdone
    rw [hadd]
    apply wp_mono (xargsModeExecuteCommand_reaps w (s := { s with cmd := cmd }) hinv hbusy)
    · exact fun _ _ hsafe => ⟨fun _ => hsafe.1, hsafe.2⟩
    · intro _ s' hsafe
      rw [hsafe]
      exact ⟨fun h _ => h, fun h => h hdone⟩
  · intro cmd hadd _ hopen
    rw [hadd]
    exact ⟨fun hdone => absurd hdone hopen, hbusy⟩

theorem appenderModeIteration_reaps (hinv : s.procs.Inv) (hrunning : s.halted = false)
    (hbusy : s.procs.Busy) :
    wp (appenderModeIteration w arg) (fun _ s' => AppenderRoundSafe w arg s ∧ s'.procs.Busy)
      (fun _ s' => s'.children = [] ↔ AppenderRoundSafe w arg s) s := by
  unfold AppenderRoundSafe
  apply wp_appenderModeIteration
  · intro e hexceeds
    rw [hexceeds]
    exact hbusy.idle_iff hinv hrunning
  · intro hexceeds
    rw [hexceeds]
    apply wp_mono_run (wp_and (xargsModeExecuteCommand_reaps w hinv hbusy)
      (xargsModeExecuteCommand_spec w hinv))
    · rintro _ t hrun ⟨⟨hfork, hbusy'⟩, hexec⟩
      -- The rest of the condition is about the state behind the flush.
      rw [wp_of_ok hrun]
      refine ⟨fun hhalt => ⟨⟨hfork, Or.inl hhalt⟩, hbusy'⟩, fun hrunning => ?_⟩
      -- The flush did not halt, so the add decides.
      apply wp_mono (appenderModeAdd_reaps w arg hexec.inv hrunning hbusy')
      · exact fun _ _ hadd => ⟨⟨hfork, Or.inr hadd.1⟩, hadd.2⟩
      · intro _ u hu
        rw [hu]
        exact ⟨fun h => ⟨hfork, Or.inr h⟩,
          fun h => h.2.resolve_left (XargsMode.not_halted hrunning)⟩
    · intro e t hrun ht
      have htrue : wp (xargsModeExecuteCommand w)
          (fun _ t => t.halted = true ∨ AppenderAddSafe w arg t) (fun _ _ => True) s :=
        (wp_of_error hrun).mpr trivial
      rw [ht.1]
      exact ⟨fun h => ⟨h, htrue⟩, And.left⟩
  · intro hexceeds
    rw [hexceeds]
    exact appenderModeAdd_reaps w arg hinv hrunning hbusy

theorem replacerModeIteration_reaps (hinv : s.procs.Inv) (hrunning : s.halted = false)
    (hbusy : s.procs.Busy) :
    wp (replacerModeIteration w arg) (fun _ s' => ReplacerRoundSafe w arg s ∧ s'.procs.Busy)
      (fun _ s' => s'.children = [] ↔ ReplacerRoundSafe w arg s) s := by
  unfold ReplacerRoundSafe
  apply wp_replacerModeIteration
  · intro e hlength
    rw [hlength]
    exact hbusy.idle_iff hinv hrunning
  · intro e hlength hreplace
    rw [hlength, hreplace]
    exact hbusy.idle_iff hinv hrunning
  · intro cmd hlength hreplace
    rw [hlength, hreplace]
    exact xargsModeExecuteCommand_reaps w (s := { s with cmd := cmd }) hinv hbusy

end Iterations

/-! ### The loops -/

/-- A loop that returns had safe rounds only. One that exits leaves no child exactly if its
rounds were safe. -/
theorem loop_reaps {iteration : CStr → EStateM Exit XargsMode Bool}
    {step : Command → CStr → Planned} (hstep : FollowsStep iteration step)
    {P : CStr → XargsMode → Prop}
    (hreaps : ∀ (arg : CStr) {s : XargsMode}, s.procs.Inv → s.halted = false → s.procs.Busy →
      wp (iteration arg) (fun _ s' => P arg s ∧ s'.procs.Busy)
        (fun _ s' => s'.children = [] ↔ P arg s) s)
    {s : XargsMode} (h : s.Starts) :
    wp (forEach xargsModeNextToken iteration s.rounds false)
      (fun _ s' => (s'.procs.Inv ∧ s'.procs.Busy) ∧
        ∀ r ∈ forEachRounds xargsModeNextToken iteration s.rounds s, P r.1 r.2)
      (fun _ s' => s'.children = [] ↔
        ∀ r ∈ forEachRounds xargsModeNextToken iteration s.rounds s, P r.1 r.2) s := by
  -- The round that exits has met its condition exactly if no child is left.
  have hstart : s.procs.Busy := fun _ hforked => absurd h.unforked hforked
  have hrounds := hstep.rounds Procs.Busy P (fun _ t => t.children = []) (fun _ t => t.children ≠ [])
    ?_ h hstart
  · refine wp_mono hrounds (fun _ _ h => h) fun _ _ h => ?_
    tauto
  · intro arg s hinv hrunning hbusy
    refine wp_mono (hreaps arg hinv hrunning hbusy) (fun _ _ h => h) fun _ _ h => ?_
    tauto

/-! ### The runs -/

/-- The end of an appender run leaves no child exactly if its last command is safe. -/
theorem appenderModeFinish_reaps (w : World) (suppress present : Bool) {s : XargsMode}
    (hinv : s.procs.Inv) (hbusy : s.procs.Busy) :
    wp (appenderModeFinish w suppress present)
      (fun _ s' => s'.children = [] ∧ (appenderLast suppress present s.cmd ≠ [] → ForkSafe w s))
      (fun _ s' => s'.children = [] ↔ (appenderLast suppress present s.cmd ≠ [] → ForkSafe w s))
      s := by
  apply wp_appenderModeFinish
  · intro hlast
    have hne : appenderLast suppress present s.cmd ≠ [] := hlast ▸ List.cons_ne_nil _ _
    apply wp_mono (wp_and (xargsModeExecuteCommand_reaps w hinv hbusy)
      (xargsModeExecuteCommand_spec w hinv))
    · rintro _ t ⟨⟨hfork, -⟩, hexec⟩
      refine wp_mono_noExit (xargsModeDrain_reaps w hexec.inv) ?_
      exact fun _ _ hdrained => ⟨hdrained, fun _ => hfork⟩
    · rintro _ t ⟨hfork, -⟩
      rw [hfork]
      exact ⟨fun h _ => h, fun h => h hne⟩
  · intro hlast
    refine wp_mono_noExit (xargsModeDrain_reaps w hinv) ?_
    exact fun _ _ hdrained => ⟨hdrained, fun hne => absurd hlast hne⟩

/-- A run of the appender mode leaves no child exactly if its steps are safe. -/
theorem appenderModeRun_reaps (w : World) (suppress : Bool) {s : XargsMode} (h : s.Starts) :
    wp (appenderModeRun w suppress)
      (fun _ s' => s'.children = [] ↔ AppenderSafe w suppress s)
      (fun _ s' => s'.children = [] ↔ AppenderSafe w suppress s) s := by
  have hloop := loop_reaps
    (fun arg _ hinv hrunning => appenderModeIteration_spec w arg hinv hrunning)
    (fun arg _ hinv => appenderModeIteration_reaps w arg hinv) h
  apply wp_loopAndFinish
  apply wp_mono_run (m := appenderModeLoop w) hloop
  · rintro present t hrun ⟨⟨hinv, hbusy⟩, hrounds⟩
    -- The condition on the last command is about the state behind the loop.
    have hsafe : AppenderSafe w suppress s ↔ (t.tokerError = .none →
        appenderLast suppress present t.cmd ≠ [] → ForkSafe w t) := by
      rw [AppenderSafe, wp_of_ok hrun]
      exact and_iff_right hrounds
    rw [hsafe]
    constructor
    · intro hnone
      apply wp_mono (appenderModeFinish_reaps w suppress present hinv hbusy)
      · exact fun _ _ hu => drained_iff hu.1 fun _ => hu.2
      · intro _ _ hu
        rw [hu]
        exact ⟨fun h _ => h, fun h => h hnone⟩
    · -- After a tokenizer error, nothing more is executed.
      intro herror
      refine wp_mono_noExit (xargsModeDrain_reaps w hinv) ?_
      exact fun _ _ hdrained => drained_iff hdrained fun hnone => absurd hnone herror
  · intro e t hrun ht
    have htrue : wp (appenderModeLoop w)
        (fun present t => t.tokerError = .none → appenderLast suppress present t.cmd ≠ [] →
          ForkSafe w t)
        (fun _ _ => True) s := (wp_of_error hrun).mpr trivial
    rw [ht]
    exact (and_iff_left htrue).symm

/-- A run of the replacer mode leaves no child exactly if its steps are safe. -/
theorem replacerModeRun_reaps (w : World) {s : XargsMode} (h : s.Starts) :
    wp (replacerModeRun w) (fun _ s' => s'.children = [] ↔ ReplacerSafe w s)
      (fun _ s' => s'.children = [] ↔ ReplacerSafe w s) s := by
  have hloop := loop_reaps (fun arg _ hinv _ => replacerModeIteration_spec w arg hinv)
    (fun arg _ hinv => replacerModeIteration_reaps w arg hinv) h
  apply wp_loopAndFinish
  apply wp_mono (m := replacerModeLoop w) hloop
  · rintro present t ⟨⟨hinv, -⟩, hrounds⟩
    -- With or without a tokenizer error, the run ends in a drain.
    have hdrain := xargsModeDrain_reaps w hinv
    constructor
    · intro _
      rw [wp_bind]
      exact wp_mono_noExit hdrain fun _ _ hdrained => drained_iff hdrained hrounds
    · intro _
      exact wp_mono_noExit hdrain fun _ _ hdrained => drained_iff hdrained hrounds
  · exact fun _ _ ht => ht

/-- **Reaping.** In every mode and every world, the pool counts the children in flight when
the run ends. None is in flight exactly if each exit without a drain comes before the first command:
a token that fails the size check of `command_ensure_length_not_exceeded` or the overflow check of
`str_replace`, or that the argument list cannot grow for, and a `fork` that fails, which may come
later under a limit of one. -/
theorem xargsRun_reaps_iff {sys : System} {scanned : List Getopt} {optind : Nat}
    {argv : List CStr} {stream : TokenStream} {opts : Options} {s : XargsMode}
    (hcreate : xargsCreate sys scanned optind argv stream = .ok (opts, s)) (w : World) :
    (finalState (xargsRun w opts s)).procs.pool.count
      = (finalState (xargsRun w opts s)).children.length ∧
    ((finalState (xargsRun w opts s)).children = [] ↔ RunSafe w opts s) := by
  have hstarts : s.Starts := (xargsCreate_spec hcreate).2.1
  constructor
  · exact (xargsRun_follows w opts hstarts).inv.count_eq
  · apply wp_finalState (P := fun _ (s' : XargsMode) => s'.children = [] ↔ RunSafe w opts s)
    unfold xargsRun RunSafe
    split
    · exact appenderModeRun_reaps w _ hstarts
    · exact replacerModeRun_reaps w hstarts

/-- `printf 'a\nb\n' | phxargs -L 1 c` in the quiet world: every step is safe. -/
theorem xargsRun_reaps_lines :
    ∃ opts s, xargsCreate System.bare [.optL [49]] 3 [[120], [45, 76], [49], [99]]
        (.ofLines [[97], [98]]) = .ok (opts, s) ∧ RunSafe World.quiet opts s := by
  obtain ⟨opts, s, hcreate, hreaped⟩ : ∃ opts s,
      xargsCreate System.bare [.optL [49]] 3 [[120], [45, 76], [49], [99]]
        (.ofLines [[97], [98]]) = .ok (opts, s) ∧
      (finalState (xargsRun World.quiet opts s)).children = [] := by
    exact ⟨_, _, rfl, by decide +kernel⟩
  exact ⟨opts, s, hcreate, (xargsRun_reaps_iff hcreate World.quiet).2.mp hreaped⟩

/-- `printf 'a\nbbb\n' | phxargs -L 1 -s 5 c`: the command of the first line is in flight when
the second token is rejected, and the run exits without waiting for it. -/
theorem rejectedLine_child_running :
    ∃ opts s, xargsCreate System.bare [.optL [49], .opts [53]] 4
        [[120], [45, 76], [49], [45, 115, 53], [99]] (.ofLines [[97], [98, 98, 98]])
          = .ok (opts, s) ∧
      exitOf (xargsRun World.quiet opts s) = some Exit.commandTooLong ∧
      (finalState (xargsRun World.quiet opts s)).children = [⟨1, .exited 0⟩] := by
  exact ⟨_, _, rfl, by decide +kernel, by decide +kernel⟩

end Phxargs
