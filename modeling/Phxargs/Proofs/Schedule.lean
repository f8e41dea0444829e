import Phxargs.Proofs.Ledger

/-!
# `Phxargs.Proofs.Schedule`: the pool waits only where it has to

`Phxargs.Proofs.Parallelism` bounds the children in flight from above. Here is the other side: a
run does not wait for a child while it could start one. Every run is a run of `EagerStep`s, in
which a child is reaped only out of a full pool, and behind it a run of reaps, in which nothing is
forked any more (`xargsRun_phases`).

Without signals the limit is a constant, and this decides the order of all forks and reaps:
the first `n` commands start at once, then each reap is followed by the next fork, and
the rest is reaped at the end (`schedule`). `-P 1` alternates, and `-P 0` starts everything before
it waits for anything.
-/

set_option autoImplicit false

namespace Phxargs

open Lib

/-! ### The two phases -/

/-- A step of a mode, where a reap makes room in a full pool. -/
structure EagerStep (w : World) (call : PoolCall) (s t : Procs) : Prop extends
    ModeStep w call s t where
  eager : call = .reap → s.pool.full = true

/-- A step of a drain. -/
structure DrainStep (w : World) (call : PoolCall) (s t : Procs) : Prop extends
    ModeStep w call s t where
  reaps : call = .reap

/-- The run has made eager steps only, from `p`. -/
def XargsMode.Eager (w : World) (p : Procs) (t : XargsMode) : Prop :=
  t.procs.Inv ∧ Leads (EagerStep w) p t.procs

/-- The run has made eager steps, and then reaped. -/
def XargsMode.Drained (w : World) (p : Procs) (t : XargsMode) : Prop :=
  ∃ q, Leads (EagerStep w) p q ∧ Leads (DrainStep w) q t.procs

section Phases

variable {w : World} {p : Procs} {s : XargsMode}

/-- Before the drain nothing has been drained. -/
theorem XargsMode.Eager.drained (h : s.Eager w p) : s.Drained w p :=
  ⟨s.procs, h.2, .refl _ _⟩

/-- What does not touch the pool stays eager. -/
theorem XargsMode.Eager.of_procs {t : XargsMode} (h : s.Eager w p) (hprocs : t.procs = s.procs) :
    t.Eager w p := by
  unfold XargsMode.Eager
  rw [hprocs]
  exact h

/-- The wait for room reaps out of a full pool only. -/
theorem processPoolWaitIfFull_eager (w : World) {q : Procs} (hinv : q.Inv) :
    wp (processPoolWaitIfFull w) (fun _ t => Leads (EagerStep w) q t) (fun _ _ => False) q := by
  simp only [processPoolWaitIfFull, wp_bind, wp_get]
  apply wp_mono_run (applySignalAdjustments_spec w hinv)
  · rintro _ r hrun ⟨hinv', -⟩
    have hadjust : EagerStep w .adjust q r :=
      ⟨⟨⟨trivial, hrun⟩, fun image h => by cases h⟩, fun h => by cases h⟩
    -- The loop carries the steps that have been made so far, and tests the pool before each one.
    refine wp_mono_return (wp_whileDo
      (fun t : Procs => t.Inv ∧ Leads (EagerStep w) q t) (fun t => t.pool.count) ?_ ?_
      r.pool.count r ⟨hinv', .single hadjust⟩ (Nat.le_refl _)) ?_
    · intro t _ hzero
      cases hfull : t.pool.full with
      | false => rfl
      | true => exact absurd hzero (ProcessPool.count_pos_of_full hfull).ne'
    · rintro t ⟨hinv'', hleads⟩ hfull
      have hpos := ProcessPool.count_pos_of_full hfull
      apply wp_mono_run (reapOne_spec w hinv'' hpos)
      · rintro _ u hrun' ⟨hinvU, -, hcount, -⟩
        have hreap : EagerStep w .reap t u :=
          ⟨⟨⟨hpos, hrun'⟩, fun image h => by cases h⟩, fun _ => hfull⟩
        exact ⟨⟨hinvU, hleads.trans (.single hreap)⟩, by omega⟩
      · exact fun _ _ _ h => h
    · exact fun _ t ht => ht.1.2
  · exact fun _ _ _ h => h

/-- A drain only reaps. -/
theorem processPoolDrain_reaps (w : World) {q : Procs} (hinv : q.Inv) :
    wp (processPoolDrain w) (fun _ t => Leads (DrainStep w) q t) (fun _ _ => False) q := by
  simp only [processPoolDrain, wp_bind, wp_get, wp_pure]
  refine wp_mono_return (wp_reapWhile (w := w) (E := fun _ _ => False)
    (I := fun t : Procs => t.Inv ∧ Leads (DrainStep w) q t) (fun _ => of_decide_eq_true) ?_
    ⟨hinv, .refl _ _⟩) fun _ t ht => ht.1.2
  rintro t ⟨hinv', hleads⟩ hpos
  apply wp_mono_run (reapOne_spec w hinv' hpos)
  · rintro _ u hrun ⟨hinv'', -, hcount, -⟩
    have hreap : DrainStep w .reap t u := ⟨⟨⟨hpos, hrun⟩, fun image h => by cases h⟩, rfl⟩
    exact ⟨⟨hinv'', hleads.trans (.single hreap)⟩, by omega⟩
  · exact fun _ _ _ h => h

/-! ### The functions of the modes -/

theorem xargsModeExecuteCommand_eager (h : s.Eager w p) :
    wp (xargsModeExecuteCommand w) (fun _ t => t.Eager w p) (fun _ t => t.Drained w p) s := by
  have hwait := wp_mono_return (processPoolWaitIfFull_eager w h.1)
    fun _ t ht => Leads.trans h.2 ht
  apply wp_executeCommand h.1 hwait
  · exact fun q hleads hinv _ => ⟨hinv, hleads⟩
  · exact fun q hleads hinv _ _ => ⟨q, hleads, .refl _ _⟩
  · intro q r hleads _ hinv hstep
    have hsubmit : EagerStep w (.submit s.cmd) q r := ⟨hstep, fun h => by cases h⟩
    exact ⟨hinv, hleads.trans (.single hsubmit)⟩

theorem xargsModeDrain_drained (h : s.Eager w p) :
    wp (xargsModeDrain w) (fun _ t => t.Drained w p) (fun _ _ => False) s := by
  simp only [xargsModeDrain, onProcs, wp_focus]
  exact wp_mono_return (processPoolDrain_reaps w h.1) fun _ t ht => ⟨s.procs, h.2, ht⟩

theorem xargsModeNextToken_eager (h : s.Eager w p) :
    wp xargsModeNextToken (fun _ t => t.Eager w p) (fun _ t => t.Drained w p) s := by
  simp only [xargsModeNextToken, wp_bind, wp_get]
  split
  · exact h.of_procs rfl
  · exact h.of_procs rfl

theorem appenderModeAdd_eager (arg : CStr) (h : s.Eager w p) :
    wp (appenderModeAdd w arg) (fun _ t => t.Eager w p) (fun _ t => t.Drained w p) s := by
  apply wp_appenderModeAdd
  · exact fun _ _ => h.drained
  · -- The size check drains before it exits.
    intro cmd _ _
    exact wp_mono_noExit (xargsModeDrain_drained (s := { s with cmd := cmd }) (h.of_procs rfl))
      fun _ _ ht => ht
  · exact fun cmd _ _ => xargsModeExecuteCommand_eager (s := { s with cmd := cmd }) (h.of_procs rfl)
  · exact fun _ _ _ _ => h.of_procs rfl

theorem appenderModeIteration_eager (arg : CStr) (h : s.Eager w p) :
    wp (appenderModeIteration w arg) (fun _ t => t.Eager w p) (fun _ t => t.Drained w p) s := by
  apply wp_appenderModeIteration
  · exact fun _ _ => h.drained
  · intro _
    exact wp_mono_return (xargsModeExecuteCommand_eager h)
      fun _ t ht => ⟨fun _ => ht, fun _ => appenderModeAdd_eager arg ht⟩
  · exact fun _ => appenderModeAdd_eager arg h

theorem replacerModeIteration_eager (arg : CStr) (h : s.Eager w p) :
    wp (replacerModeIteration w arg) (fun _ t => t.Eager w p) (fun _ t => t.Drained w p) s := by
  apply wp_replacerModeIteration
  · exact fun _ _ => h.drained
  · exact fun _ _ _ => h.drained
  · exact fun cmd _ _ => xargsModeExecuteCommand_eager (s := { s with cmd := cmd }) (h.of_procs rfl)

theorem appenderModeFinish_drained (suppress present : Bool) (h : s.Eager w p) :
    wp (appenderModeFinish w suppress present) (fun _ t => t.Drained w p)
      (fun _ t => t.Drained w p) s := by
  apply wp_appenderModeFinish
  · intro _
    exact wp_mono_return (xargsModeExecuteCommand_eager h)
      fun _ _ ht => wp_mono_noExit (xargsModeDrain_drained ht) fun _ _ hu => hu
  · exact fun _ => wp_mono_noExit (xargsModeDrain_drained h) fun _ _ ht => ht

/-- A loop of a mode is eager where its iterations are. -/
theorem loop_eager {iteration : CStr → EStateM Exit XargsMode Bool}
    (hiteration : ∀ (arg : CStr) (t : XargsMode), t.Eager w p →
      wp (iteration arg) (fun _ u => u.Eager w p) (fun _ u => u.Drained w p) t)
    (h : s.Eager w p) :
    wp (do forEach xargsModeNextToken iteration (← get).rounds false)
      (fun _ t => t.Eager w p) (fun _ t => t.Drained w p) s := by
  simp only [wp_bind, wp_get]
  exact wp_forEach_keeps (fun _ ht => xargsModeNextToken_eager ht)
    (fun arg t ht => hiteration arg t ht) _ _ s h

end Phases

/-- Every run has an eager phase, and behind it a phase of reaps. -/
theorem xargsRun_phases (w : World) (opts : Options) {s : XargsMode} (hinv : s.procs.Inv) :
    (finalState (xargsRun w opts s)).Drained w s.procs := by
  have hstart : s.Eager w s.procs := ⟨hinv, .refl _ _⟩
  -- A tokenizer error drains before it exits.
  have hfailure : ∀ {t : XargsMode}, t.Eager w s.procs →
      wp (xargsModeDrain w) (fun _ u => u.Drained w s.procs) (fun _ u => u.Drained w s.procs) t :=
    fun ht => wp_mono_noExit (xargsModeDrain_drained ht) fun _ _ hu => hu
  apply wp_finalState (P := fun _ t => XargsMode.Drained w s.procs t)
  unfold xargsRun
  split
  · apply wp_loopAndFinish
    apply wp_mono_return (m := appenderModeLoop w)
      (loop_eager (fun arg _ ht => appenderModeIteration_eager arg ht) hstart)
    exact fun present t ht =>
      ⟨fun _ => appenderModeFinish_drained _ present ht, fun _ => hfailure ht⟩
  · apply wp_loopAndFinish
    apply wp_mono_return (m := replacerModeLoop w)
      (loop_eager (fun arg _ ht => replacerModeIteration_eager arg ht) hstart)
    intro present t ht
    refine ⟨fun _ => ?_, fun _ => hfailure ht⟩
    rw [wp_bind]
    exact wp_mono_noExit (xargsModeDrain_drained ht) fun _ _ hu => hu

/-! ### The order of the forks and the reaps -/

/-- An entry of the history is a fork, or a reap. -/
def OsEvent.isFork : OsEvent → Bool
  | .forked _ _ => true
  | .reaped _ => false

/-- The order of the forks (`true`) and the reaps up to the `k`-th fork, under the limit `n`. -/
def schedule (n k : Nat) : List Bool :=
  if n = 0 then
    List.replicate k true
  else
    List.replicate (min n k) true ++ (List.replicate (k - n) [false, true]).flatten

/-- The children in flight behind the `k`-th fork. -/
def inFlight (n k : Nat) : Nat := if n = 0 then k else min n k

/-- With room, the next command starts. -/
theorem schedule_start {n k : Nat} (h : n = 0 ∨ k < n) :
    schedule n (k + 1) = schedule n k ++ [true] ∧ inFlight n (k + 1) = inFlight n k + 1 := by
  unfold schedule inFlight
  rcases h with rfl | hlt
  · simp [List.replicate_succ']
  · have hne : n ≠ 0 := by omega
    have hnext : k + 1 - n = 0 := by omega
    have hlast : k - n = 0 := by omega
    simp [hne, hnext, hlast, Nat.min_eq_right hlt.le, Nat.min_eq_right hlt, List.replicate_succ']

/-- Without room, a reap comes first. -/
theorem schedule_refill {n k : Nat} (hne : n ≠ 0) (h : n ≤ k) :
    schedule n (k + 1) = schedule n k ++ [false, true] ∧ inFlight n (k + 1) = n ∧ inFlight n k = n := by
  unfold schedule inFlight
  have hnext : k + 1 - n = (k - n) + 1 := by omega
  have hmin : min n (k + 1) = n := by omega
  simp [hne, hnext, hmin, Nat.min_eq_left h, List.replicate_succ']

/-- The limit is `n`, no signal is pending, and the history is the schedule. The pool is where the
schedule is, or has made room for the next fork. -/
structure Procs.Scheduled (n : Nat) (s : Procs) : Prop where
  maxProcs : s.pool.maxProcs = n
  applied1 : s.signals.sigusr1Count = s.signals.appliedSigusr1
  applied2 : s.signals.sigusr2Count = s.signals.appliedSigusr2
  log : (s.os.log.map OsEvent.isFork = schedule n s.os.forked.length ∧
      s.pool.count = inFlight n s.os.forked.length) ∨
    (n ≠ 0 ∧ n ≤ s.os.forked.length ∧
      s.os.log.map OsEvent.isFork = schedule n s.os.forked.length ++ [false] ∧
      s.pool.count + 1 = inFlight n s.os.forked.length)

/-- No signal is ever delivered. -/
def World.Unsignaled (w : World) : Prop := ∀ i, w.usr1 i = 0 ∧ w.usr2 i = 0

/-- Only an adjustment looks at the signals. -/
theorem PoolStep.signals_eq {w : World} {call : PoolCall} {s t : Procs} (h : PoolStep w call s t)
    (hcall : call ≠ .adjust) : t.signals = s.signals := by
  cases call with
  | adjust => exact absurd rfl hcall
  | reap =>
      have hrun : wp (reapOne w) (fun _ t => t.signals = s.signals) (fun _ _ => True) s := by
        simp only [reapOne, wp_bind, wp_get]
        cases s.os.waitpid w with
        | none => exact trivial
        | some answer =>
            simp only [wp_bind, wp_set, wp_ite, wp_throw, wp_modify]
            split
            · exact trivial
            · exact trivial
      exact (wp_of_ok h.returns).mp hrun
  | submit image =>
      have hrun : wp (forkAndSubmit w image) (fun _ t => t.signals = s.signals) (fun _ _ => True) s := by
        simp only [forkAndSubmit, wp_bind, wp_get]
        cases s.os.fork w image with
        | none => exact trivial
        | some answer =>
            simp only [processPoolSubmit, wp_bind, wp_get, wp_set, wp_ite, wp_modify]
            split
            · cases phxargsDoubleCapacity s.pool.capacity with
              | error e => exact trivial
              | ok capacity => rfl
            · exact trivial
      exact (wp_of_ok h.returns).mp hrun

/-- Without a signal, an adjustment changes nothing. -/
theorem PoolStep.adjust_unsignaled {w : World} {s t : Procs} (hw : w.Unsignaled)
    (h : PoolStep w .adjust s t) (h1 : s.signals.sigusr1Count = s.signals.appliedSigusr1)
    (h2 : s.signals.sigusr2Count = s.signals.appliedSigusr2) :
    t.pool = s.pool ∧ t.signals.sigusr1Count = t.signals.appliedSigusr1 ∧
      t.signals.sigusr2Count = t.signals.appliedSigusr2 := by
  have hrun : wp (applySignalAdjustments w)
      (fun _ t => t.pool = s.pool ∧ t.signals.sigusr1Count = t.signals.appliedSigusr1 ∧
        t.signals.sigusr2Count = t.signals.appliedSigusr2) (fun _ _ => False) s := by
    simp only [applySignalAdjustments, readSigusr1Count, readSigusr2Count, wp_bind, wp_get, wp_ite,
      wp_pure, wp_modify, Procs.deliverSignals, (hw _).1, (hw _).2, Nat.cast_zero, Int.add_zero,
      h1, h2, Int.sub_self, and_self, if_true]
  exact (wp_of_ok h.returns).mp hrun

/-- **The step lemma.** -/
theorem Procs.Scheduled.step {w : World} (hw : w.Unsignaled) {n : Nat} (call : PoolCall)
    {s t : Procs} (h : s.Scheduled n) (hstep : EagerStep w call s t) : t.Scheduled n := by
  cases call with
  | adjust =>
      obtain ⟨hpool, h1, h2⟩ := hstep.toPoolStep.adjust_unsignaled hw h.applied1 h.applied2
      have hlog := hstep.toPoolStep.adjust_cases.2.2.1
      refine ⟨by rw [hpool]; exact h.maxProcs, h1, h2, ?_⟩
      rw [Os.forked, hlog, hpool]
      exact h.log
  | reap =>
      obtain ⟨child, hwait, hforgets⟩ := hstep.toPoolStep.reap_forgets
      have hsignals := hstep.toPoolStep.signals_eq (by simp)
      have hforked := (Os.waitpid_some hwait).2.1
      obtain ⟨hne, hle⟩ := ProcessPool.full_iff.mp (hstep.eager rfl)
      rw [h.maxProcs] at hne hle
      refine ⟨hforgets.maxProcs.trans h.maxProcs, by rw [hsignals]; exact h.applied1,
        by rw [hsignals]; exact h.applied2, ?_⟩
      rw [hforked, Os.waitpid_log hwait, List.map_append, hforgets.count]
      rcases h.log with ⟨hlog, hcount⟩ | ⟨-, hlater, hlog, hcount⟩
      · -- The pool is full, so the limit has been reached.
        have hlater : n ≤ s.os.forked.length := by
          unfold inFlight at hcount
          rw [if_neg hne] at hcount
          omega
        exact .inr ⟨hne, hlater, by rw [hlog]; rfl, by omega⟩
      · -- It has made room before, and is not full.
        have hfull := (schedule_refill hne hlater).2.2
        omega
  | submit image =>
      obtain ⟨child, hsubmits⟩ := hstep.toPoolStep.submit_cases
      have hsignals := hstep.toPoolStep.signals_eq (by simp)
      have hroom := ProcessPool.not_full_iff.mp (hstep.ready image rfl).2
      rw [h.maxProcs] at hroom
      refine ⟨hsubmits.maxProcs.trans h.maxProcs, by rw [hsignals]; exact h.applied1,
        by rw [hsignals]; exact h.applied2, .inl ?_⟩
      rw [hsubmits.forked, hsubmits.log, List.map_append, List.length_append, hsubmits.count]
      rcases h.log with ⟨hlog, hcount⟩ | ⟨hne, hlater, hlog, hcount⟩
      · have hstart : n = 0 ∨ s.os.forked.length < n := by
          unfold inFlight at hcount
          by_cases hzero : n = 0
          · exact .inl hzero
          · rw [if_neg hzero] at hcount
            omega
        obtain ⟨hschedule, hnext⟩ := schedule_start hstart
        exact ⟨by rw [hlog, List.length_singleton, hschedule]; rfl,
          by rw [List.length_singleton, hnext]; omega⟩
      · obtain ⟨hschedule, hnext, hlast⟩ := schedule_refill hne hlater
        refine ⟨?_, by rw [List.length_singleton, hnext]; omega⟩
        rw [hlog, List.length_singleton, hschedule, List.append_assoc]
        rfl

/-- A drain adds reaps to the history, one for each child that it takes away. -/
theorem leads_drained {w : World} {s t : Procs} (h : Leads (DrainStep w) s t) :
    ∃ r, t.os.log.map OsEvent.isFork = s.os.log.map OsEvent.isFork ++ List.replicate r false ∧
      t.os.forked = s.os.forked ∧ r + t.os.children.length = s.os.children.length := by
  obtain ⟨steps, hsteps⟩ := h
  refine (hsteps.invariant (I := fun t : Procs => ∃ r,
    t.os.log.map OsEvent.isFork = s.os.log.map OsEvent.isFork ++ List.replicate r false ∧
      t.os.forked = s.os.forked ∧ r + t.os.children.length = s.os.children.length) ?_
    ⟨0, by simp⟩).1
  rintro call u v ⟨r, hlog, hforked, hlength⟩ hstep
  have hreap : PoolStep w .reap u v := hstep.reaps ▸ hstep.toPoolStep
  obtain ⟨child, hwait, -⟩ := hreap.reap_forgets
  have hperm := (Os.waitpid_some hwait).1.length_eq
  rw [List.length_cons] at hperm
  refine ⟨r + 1, ?_, (Os.waitpid_some hwait).2.1.trans hforked, by omega⟩
  rw [Os.waitpid_log hwait, List.map_append, hlog, List.append_assoc, List.replicate_succ']
  rfl

end Phxargs
