import Phxargs.Model.PoolSteps
import Phxargs.Model.Signals

/-!
# `Phxargs.Proofs.Signals`: which signals are counted

`apply_signal_adjustments` reads each counter twice: the first read counts what is pending, the
second one marks as applied. A signal between the two is marked without being counted.

`lost1` and `lost2` measure this in every state of an interleaving. Only a second read raises
them, by what it sees above the first one (`missed1`, `missed2`). A handler only increments, so
nothing lowers them, and they are 0 at the end of a call exactly if no second read has missed
anything.

`applySignalAdjustments_signals` connects the function of the pool: each of its runs is an
interleaving of one call.
-/

set_option autoImplicit false

namespace Phxargs

open Lib

/-! ### What is lost -/

namespace SignalState

/-- The sum of the `u1` of the completed calls. -/
def counted1 (s : SignalState) : Int := (s.completed.map Prod.fst).sum

/-- The sum of the `u2` of the completed calls. -/
def counted2 (s : SignalState) : Int := (s.completed.map Prod.snd).sum

/-- No signal is lost: what is marked as applied has been counted. -/
structure Counted (s : SignalState) : Prop where
  sigusr1 : s.counted1 = s.signals.appliedSigusr1
  sigusr2 : s.counted2 = s.signals.appliedSigusr2

/-- What is marked, or going to be marked, above what has been counted with the call that is
running. -/
def lost1 (s : SignalState) : Int :=
  match s.point with
  | .writeAppliedSigusr1 u1 _ seen => seen - (s.counted1 + u1)
  | .rereadSigusr2 u1 _ => s.signals.appliedSigusr1 - (s.counted1 + u1)
  | .writeAppliedSigusr2 u1 _ _ => s.signals.appliedSigusr1 - (s.counted1 + u1)
  | _ => s.signals.appliedSigusr1 - s.counted1

/-- The same for `SIGUSR2`. -/
def lost2 (s : SignalState) : Int :=
  match s.point with
  | .writeAppliedSigusr2 _ u2 seen => seen - (s.counted2 + u2)
  | _ => s.signals.appliedSigusr2 - s.counted2

/-- The first reads of a call are behind the counters: they have only grown since. -/
def Behind (s : SignalState) : Prop :=
  match s.point with
  | .outside => True
  | .readAppliedSigusr1 count => count ≤ s.signals.sigusr1Count
  | .readSigusr2 u1 => u1 ≤ s.signals.sigusr1Count - s.signals.appliedSigusr1
  | .readAppliedSigusr2 u1 count =>
      u1 ≤ s.signals.sigusr1Count - s.signals.appliedSigusr1 ∧ count ≤ s.signals.sigusr2Count
  | .rereadSigusr1 u1 u2 =>
      u1 ≤ s.signals.sigusr1Count - s.signals.appliedSigusr1 ∧
        u2 ≤ s.signals.sigusr2Count - s.signals.appliedSigusr2
  | .writeAppliedSigusr1 _ u2 _ => u2 ≤ s.signals.sigusr2Count - s.signals.appliedSigusr2
  | .rereadSigusr2 _ u2 => u2 ≤ s.signals.sigusr2Count - s.signals.appliedSigusr2
  | .writeAppliedSigusr2 _ _ _ => True

end SignalState

/-- What a second read of `sigusr1_count` sees above the first one. -/
def missed1 (p : SignalState × SignalEvent) : Int :=
  match p.2, p.1.point with
  | .access, .rereadSigusr1 u1 _ => p.1.signals.sigusr1Count - p.1.signals.appliedSigusr1 - u1
  | _, _ => 0

/-- What a second read of `sigusr2_count` sees above the first one. -/
def missed2 (p : SignalState × SignalEvent) : Int :=
  match p.2, p.1.point with
  | .access, .rereadSigusr2 _ u2 => p.1.signals.sigusr2Count - p.1.signals.appliedSigusr2 - u2
  | _, _ => 0

/-- A second read sees what the first one has counted. -/
structure RereadsCounted (p : SignalState × SignalEvent) : Prop where
  sigusr1 : ∀ u1 u2, p.2 = .access → p.1.point = .rereadSigusr1 u1 u2 →
    p.1.signals.sigusr1Count = p.1.signals.appliedSigusr1 + u1
  sigusr2 : ∀ u1 u2, p.2 = .access → p.1.point = .rereadSigusr2 u1 u2 →
    p.1.signals.sigusr2Count = p.1.signals.appliedSigusr2 + u2

theorem rereadsCounted_iff (p : SignalState × SignalEvent) :
    RereadsCounted p ↔ missed1 p = 0 ∧ missed2 p = 0 := by
  obtain ⟨⟨signals, point, completed⟩, event⟩ := p
  constructor
  · intro h
    cases event with
    | onSigusr1 => exact ⟨rfl, rfl⟩
    | onSigusr2 => exact ⟨rfl, rfl⟩
    | access =>
        cases point with
        | rereadSigusr1 u1 u2 =>
            have hsame := h.sigusr1 u1 u2 rfl rfl
            refine ⟨?_, rfl⟩
            show signals.sigusr1Count - signals.appliedSigusr1 - u1 = 0
            dsimp only at hsame
            omega
        | rereadSigusr2 u1 u2 =>
            have hsame := h.sigusr2 u1 u2 rfl rfl
            refine ⟨rfl, ?_⟩
            show signals.sigusr2Count - signals.appliedSigusr2 - u2 = 0
            dsimp only at hsame
            omega
        | _ => exact ⟨rfl, rfl⟩
  · rintro ⟨h1, h2⟩
    constructor
    · rintro u1 u2 rfl rfl
      replace h1 : signals.sigusr1Count - signals.appliedSigusr1 - u1 = 0 := h1
      show signals.sigusr1Count = signals.appliedSigusr1 + u1
      omega
    · rintro u1 u2 rfl rfl
      replace h2 : signals.sigusr2Count - signals.appliedSigusr2 - u2 = 0 := h2
      show signals.sigusr2Count = signals.appliedSigusr2 + u2
      omega

/-! ### One event -/

namespace SignalState

theorem counted1_complete (completed : List (Int × Int)) (u1 u2 : Int) :
    ((completed ++ [(u1, u2)]).map Prod.fst).sum = (completed.map Prod.fst).sum + u1 := by
  simp

theorem counted2_complete (completed : List (Int × Int)) (u1 u2 : Int) :
    ((completed ++ [(u1, u2)]).map Prod.snd).sum = (completed.map Prod.snd).sum + u2 := by
  simp

/-- **The step lemma** of `lost1`: only a second read raises it. -/
theorem lost1_step (event : SignalEvent) (s t : SignalState) (h : SignalStep event s t) :
    t.lost1 = s.lost1 + missed1 (s, event) := by
  subst h
  obtain ⟨signals, point, completed⟩ := s
  cases event with
  | onSigusr1 =>
      show _ = _ + 0
      rw [Int.add_zero]
      cases point <;> rfl
  | onSigusr2 =>
      show _ = _ + 0
      rw [Int.add_zero]
      cases point <;> rfl
  | access =>
      cases point with
      | readAppliedSigusr2 u1 count =>
          show (accessNext _).lost1 = signals.appliedSigusr1 - (completed.map Prod.fst).sum + 0
          simp only [accessNext]
          split
          · -- The early return: a call without a signal is completed.
            rename_i hnone
            show signals.appliedSigusr1 - ((completed ++ [(u1, _)]).map Prod.fst).sum = _
            rw [counted1_complete, hnone.1]
            omega
          · exact (Int.add_zero _).symm
      -- The second read: from here on its value is what is going to be marked.
      | rereadSigusr1 u1 u2 =>
          show signals.sigusr1Count - ((completed.map Prod.fst).sum + u1)
            = signals.appliedSigusr1 - (completed.map Prod.fst).sum
              + (signals.sigusr1Count - signals.appliedSigusr1 - u1)
          omega
      -- The end of the call: its `u1` joins those of the completed calls.
      | writeAppliedSigusr2 u1 u2 seen =>
          show signals.appliedSigusr1 - ((completed ++ [(u1, u2)]).map Prod.fst).sum
            = signals.appliedSigusr1 - ((completed.map Prod.fst).sum + u1) + 0
          rw [counted1_complete]
          omega
      | _ => exact (Int.add_zero _).symm

/-- **The step lemma** of `lost2`. -/
theorem lost2_step (event : SignalEvent) (s t : SignalState) (h : SignalStep event s t) :
    t.lost2 = s.lost2 + missed2 (s, event) := by
  subst h
  obtain ⟨signals, point, completed⟩ := s
  cases event with
  | onSigusr1 =>
      show _ = _ + 0
      rw [Int.add_zero]
      cases point <;> rfl
  | onSigusr2 =>
      show _ = _ + 0
      rw [Int.add_zero]
      cases point <;> rfl
  | access =>
      cases point with
      | readAppliedSigusr2 u1 count =>
          show (accessNext _).lost2 = signals.appliedSigusr2 - (completed.map Prod.snd).sum + 0
          simp only [accessNext]
          split
          · rename_i hnone
            show signals.appliedSigusr2
              - ((completed ++ [(u1, count - signals.appliedSigusr2)]).map Prod.snd).sum = _
            rw [counted2_complete, hnone.2]
            omega
          · exact (Int.add_zero _).symm
      -- The second read, as for `SIGUSR1`.
      | rereadSigusr2 u1 u2 =>
          show signals.sigusr2Count - ((completed.map Prod.snd).sum + u2)
            = signals.appliedSigusr2 - (completed.map Prod.snd).sum
              + (signals.sigusr2Count - signals.appliedSigusr2 - u2)
          omega
      -- What was going to be marked is marked, and the call is completed.
      | writeAppliedSigusr2 u1 u2 seen =>
          show seen - ((completed ++ [(u1, u2)]).map Prod.snd).sum
            = seen - ((completed.map Prod.snd).sum + u2) + 0
          rw [counted2_complete]
          omega
      | _ => exact (Int.add_zero _).symm

/-- A handler only increments, so it keeps the first reads behind. -/
theorem Behind.step (event : SignalEvent) (s t : SignalState) (h : s.Behind)
    (hstep : SignalStep event s t) : t.Behind := by
  subst hstep
  obtain ⟨signals, point, completed⟩ := s
  cases event with
  | onSigusr1 => cases point <;> simp only [Behind, signalNext] at h ⊢ <;> omega
  | onSigusr2 => cases point <;> simp only [Behind, signalNext] at h ⊢ <;> omega
  | access =>
      cases point with
      | outside => exact Int.le_refl _
      | readAppliedSigusr1 count =>
          show count - signals.appliedSigusr1 ≤ signals.sigusr1Count - signals.appliedSigusr1
          exact Int.sub_le_sub_right h _
      | readSigusr2 u1 => exact ⟨h, Int.le_refl _⟩
      | readAppliedSigusr2 u1 count =>
          simp only [signalNext, accessNext]
          split
          · exact trivial
          · exact ⟨h.1, Int.sub_le_sub_right h.2 _⟩
      -- Behind its second read, the first read of `sigusr1_count` plays no part any more.
      | rereadSigusr1 u1 u2 => exact h.2
      | writeAppliedSigusr1 u1 u2 seen => exact h
      | rereadSigusr2 u1 u2 => exact trivial
      | writeAppliedSigusr2 u1 u2 seen => exact trivial

/-- So a second read never sees less than the first one. -/
theorem Behind.missed_nonneg {s : SignalState} (h : s.Behind) (event : SignalEvent) :
    0 ≤ missed1 (s, event) ∧ 0 ≤ missed2 (s, event) := by
  obtain ⟨signals, point, completed⟩ := s
  cases event with
  | onSigusr1 => exact ⟨Int.le_refl 0, Int.le_refl 0⟩
  | onSigusr2 => exact ⟨Int.le_refl 0, Int.le_refl 0⟩
  | access =>
      cases point with
      | rereadSigusr1 u1 u2 =>
          refine ⟨?_, Int.le_refl 0⟩
          show 0 ≤ signals.sigusr1Count - signals.appliedSigusr1 - u1
          exact Int.sub_nonneg_of_le h.1
      | rereadSigusr2 u1 u2 =>
          refine ⟨Int.le_refl 0, ?_⟩
          show 0 ≤ signals.sigusr2Count - signals.appliedSigusr2 - u2
          exact Int.sub_nonneg_of_le h
      | _ => exact ⟨Int.le_refl 0, Int.le_refl 0⟩

end SignalState

/-! ### The interleavings -/

open SignalState in
/-- The number of signals that an interleaving has lost is what its second reads have missed. -/
theorem lost_eq {steps : List (SignalState × SignalEvent)} {t : SignalState}
    (h : Trace SignalStep start steps t) :
    t.lost1 = (steps.map missed1).sum ∧ t.lost2 = (steps.map missed2).sum := by
  have h1 := h.measure_eq lost1_step
  have h2 := h.measure_eq lost2_step
  rw [h1, h2]
  exact ⟨Int.zero_add _, Int.zero_add _⟩

open SignalState in
/-- Nothing is lost exactly if no second read has missed anything. -/
theorem lost_eq_zero_iff {steps : List (SignalState × SignalEvent)} {t : SignalState}
    (h : Trace SignalStep start steps t) :
    t.lost1 = 0 ∧ t.lost2 = 0 ↔ ∀ p ∈ steps, RereadsCounted p := by
  have hbehind : ∀ p ∈ steps, p.1.Behind := (h.invariant Behind.step trivial).2
  -- The start has lost nothing, and no step lowers what is lost.
  have h1 : t.lost1 = 0 ↔ ∀ p ∈ steps, missed1 p = 0 :=
    h.measure_const_iff lost1_step fun p hp => ((hbehind p hp).missed_nonneg p.2).1
  have h2 : t.lost2 = 0 ↔ ∀ p ∈ steps, missed2 p = 0 :=
    h.measure_const_iff lost2_step fun p hp => ((hbehind p hp).missed_nonneg p.2).2
  rw [h1, h2, ← forall₂_and]
  exact forall₂_congr fun p _ => (rereadsCounted_iff p).symm

/-- Between two calls, nothing is lost exactly if what is marked has been counted. -/
theorem SignalState.counted_iff {s : SignalState} (h : s.point = .outside) :
    s.Counted ↔ s.lost1 = 0 ∧ s.lost2 = 0 := by
  obtain ⟨signals, point, completed⟩ := s
  cases h
  constructor
  · rintro ⟨h1, h2⟩
    exact ⟨Int.sub_eq_zero.mpr h1.symm, Int.sub_eq_zero.mpr h2.symm⟩
  · rintro ⟨h1, h2⟩
    exact ⟨(Int.sub_eq_zero.mp h1).symm, (Int.sub_eq_zero.mp h2).symm⟩

/-! ### The function of the pool -/

/-- A handler can run any number of times. -/
theorem onSigusr1_leads (s : SignalState) :
    ∀ n : Nat, Leads SignalStep s
      { s with signals := { s.signals with sigusr1Count := s.signals.sigusr1Count + n } } := by
  intro n
  induction n with
  | zero =>
      rw [Int.natCast_zero, Int.add_zero]
      exact .refl _ s
  | succ n ih =>
      have hnext : SignalStep .onSigusr1
          { s with signals := { s.signals with sigusr1Count := s.signals.sigusr1Count + n } }
          { s with signals :=
            { s.signals with sigusr1Count := s.signals.sigusr1Count + (n + 1 : Nat) } } := by
        rw [Int.natCast_succ, ← Int.add_assoc]
        rfl
      exact ih.trans (.single hnext)

theorem onSigusr2_leads (s : SignalState) :
    ∀ n : Nat, Leads SignalStep s
      { s with signals := { s.signals with sigusr2Count := s.signals.sigusr2Count + n } } := by
  intro n
  induction n with
  | zero =>
      rw [Int.natCast_zero, Int.add_zero]
      exact .refl _ s
  | succ n ih =>
      have hnext : SignalStep .onSigusr2
          { s with signals := { s.signals with sigusr2Count := s.signals.sigusr2Count + n } }
          { s with signals :=
            { s.signals with sigusr2Count := s.signals.sigusr2Count + (n + 1 : Nat) } } := by
        rw [Int.natCast_succ, ← Int.add_assoc]
        rfl
      exact ih.trans (.single hnext)

/-- The handlers in front of a read. -/
theorem deliverSignals_leads (w : World) (s : Procs) (point : AdjustPoint)
    (completed : List (Int × Int)) :
    Leads SignalStep ⟨s.signals, point, completed⟩
      ⟨(s.deliverSignals w).signals, point, completed⟩ :=
  (onSigusr1_leads _ (w.usr1 s.os.reads)).trans (onSigusr2_leads _ (w.usr2 s.os.reads))

theorem access_leads (s : SignalState) : Leads SignalStep s (accessNext s) :=
  .single (i := .access) rfl

/-- A run of the pool's `apply_signal_adjustments` is an interleaving of one call, and this call
computes the `u1` and `u2` of the adjustment. -/
theorem applySignalAdjustments_signals (w : World) (s : Procs) (completed : List (Int × Int)) :
    wp (applySignalAdjustments w)
      (fun _ t => Leads SignalStep ⟨s.signals, .outside, completed⟩
        ⟨t.signals, .outside, completed ++ [(s.pendingSigusr1 w, s.pendingSigusr2 w)]⟩)
      (fun _ _ => False) s := by
  -- The two first reads. The accesses to the `applied` fields run without a handler between.
  have hfirst : Leads SignalStep ⟨s.signals, .outside, completed⟩
      ⟨((s.deliverSignals w).deliverSignals w).signals,
        .readAppliedSigusr2 (s.pendingSigusr1 w)
          ((s.deliverSignals w).deliverSignals w).signals.sigusr2Count, completed⟩ :=
    (deliverSignals_leads w s _ _).trans <| (access_leads _).trans <| (access_leads _).trans <|
      (deliverSignals_leads w (s.deliverSignals w) _ _).trans (access_leads _)
  simp only [applySignalAdjustments, readSigusr1Count, readSigusr2Count, wp_bind, wp_get, wp_ite,
    wp_pure, wp_modify]
  split
  · -- The early return completes the call at once.
    rename_i hnone
    have htest : SignalStep .access
        ⟨((s.deliverSignals w).deliverSignals w).signals,
          .readAppliedSigusr2 (s.pendingSigusr1 w)
            ((s.deliverSignals w).deliverSignals w).signals.sigusr2Count, completed⟩
        ⟨((s.deliverSignals w).deliverSignals w).signals, .outside,
          completed ++ [(s.pendingSigusr1 w, s.pendingSigusr2 w)]⟩ :=
      (if_pos hnone).symm
    exact hfirst.trans (.single htest)
  · rename_i hsome
    have htest : SignalStep .access
        ⟨((s.deliverSignals w).deliverSignals w).signals,
          .readAppliedSigusr2 (s.pendingSigusr1 w)
            ((s.deliverSignals w).deliverSignals w).signals.sigusr2Count, completed⟩
        ⟨((s.deliverSignals w).deliverSignals w).signals,
          .rereadSigusr1 (s.pendingSigusr1 w) (s.pendingSigusr2 w), completed⟩ :=
      (if_neg hsome).symm
    -- The second reads, each with its write. Handlers run in front of the reads.
    refine hfirst.trans ((Leads.single htest).trans ?_)
    refine (deliverSignals_leads w ((s.deliverSignals w).deliverSignals w) _ _).trans ?_
    refine (access_leads _).trans ((access_leads _).trans ?_)
    exact (deliverSignals_leads w { (((s.deliverSignals w).deliverSignals w).deliverSignals w) with
        signals := _ } _ _).trans ((access_leads _).trans (access_leads _))

/-- **Signals.** For every interleaving of handlers with the accesses of any number of calls, at
the end of a call: what is marked as applied has been counted, for both signals, if and only if
no second read of a counter sees more than the first one. Every run of the pool's function is
such an interleaving. -/
theorem signals_counted_iff {steps : List (SignalState × SignalEvent)} {t : SignalState}
    (h : Trace SignalStep SignalState.start steps t) (houtside : t.point = .outside) :
    (t.Counted ↔ ∀ p ∈ steps, RereadsCounted p) ∧
    ∀ (w : World) (s : Procs) (completed : List (Int × Int)),
      wp (applySignalAdjustments w)
        (fun _ s' => Leads SignalStep ⟨s.signals, .outside, completed⟩
          ⟨s'.signals, .outside, completed ++ [(s.pendingSigusr1 w, s.pendingSigusr2 w)]⟩)
        (fun _ _ => False) s := by
  constructor
  · rw [SignalState.counted_iff houtside]
    exact lost_eq_zero_iff h
  · exact fun w s completed => applySignalAdjustments_signals w s completed

/-- `SIGUSR1` arrives in front of a call, and `SIGUSR2` behind the last read of its counter: this
one stays pending. -/
theorem signals_counted_one :
    ∃ steps t, Trace SignalStep SignalState.start steps t ∧ t.completed = [(1, 0)] ∧
      t.signals.sigusr2Count = 1 ∧ t.Counted := by
  have hrun := Trace.ofNext signalNext [.onSigusr1, .access, .access, .access, .access, .access,
    .access, .access, .onSigusr2, .access] SignalState.start
  have hnone : ∀ p ∈ stepsOf signalNext SignalState.start [.onSigusr1, .access, .access, .access,
      .access, .access, .access, .access, .onSigusr2, .access], missed1 p = 0 ∧ missed2 p = 0 := by
    decide
  have hreads := fun p hp => (rereadsCounted_iff p).mpr (hnone p hp)
  exact ⟨_, _, hrun, rfl, rfl, ((signals_counted_iff hrun rfl).1).mpr hreads⟩

/-- `SIGUSR1` arrives in front of the call, and again between the two reads of its counter: two
signals are marked as applied, and one has been counted. -/
theorem signals_lost :
    ∃ steps t, Trace SignalStep SignalState.start steps t ∧ t.point = .outside ∧
      t.counted1 = 1 ∧ t.signals.appliedSigusr1 = 2 ∧ ¬ t.Counted := by
  refine ⟨_, _, Trace.ofNext signalNext [.onSigusr1, .access, .access, .onSigusr1, .access,
    .access, .access, .access, .access, .access] SignalState.start, rfl, rfl, rfl, ?_⟩
  intro hcounted
  exact absurd hcounted.sigusr1 (by decide)

end Phxargs
