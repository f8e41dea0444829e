import Phxargs.Proofs.Ledger

/-!
# `Phxargs.Proofs.Foreign`: children that the pool has not forked

`waitpid(-1)` reports any child of the process. A process keeps its children across `exec`, so
there can be some that `command_execute_async` never forked.

As long as each reap is answered with an own child, they do no harm (`Procs.Sound`), and this holds
in every state of a run. `foreign_reap` says what the first other answer does: the assertion
of `reap_one` fails, and without it a slot is given up while all own children are still in
flight.
-/

set_option autoImplicit false

namespace Phxargs

open Lib

/-! ### Draining from any state -/

/-- A drain that returns is a run of the pool, and no slot is in use behind it. -/
theorem processPoolDrain_trace (w : World) (s : Procs) :
    wp (processPoolDrain w)
      (fun status t => Leads (PoolStep w) s t ∧ t.pool.count = 0 ∧ status = t.pool.status)
      (fun _ _ => True) s := by
  have hloop : wp (whileDo (fun s => s.pool.count > 0) (reapOne w) s.pool.count)
      (fun _ t => Leads (PoolStep w) s t ∧ decide (t.pool.count > 0) = false)
      (fun _ _ => True) s := by
    refine wp_reapWhile (fun _ => of_decide_eq_true) ?_ (.refl _ s)
    intro t hleads hpos
    unfold wp
    cases hrun : reapOne w t with
    | error e u => exact trivial
    | ok _ u =>
        -- Any child that is reported lowers the count, with or without a slot of its own.
        have hreap : PoolStep w .reap t u := ⟨hpos, hrun⟩
        obtain ⟨child, -, hforgets⟩ := hreap.reap_forgets
        refine ⟨hleads.trans (.single hreap), ?_⟩
        rw [hforgets.count]
        exact Nat.sub_lt hpos Nat.one_pos
  simp only [processPoolDrain, wp_bind, wp_get, wp_pure]
  refine wp_mono_return hloop ?_
  rintro _ t ⟨hleads, hc⟩
  have hzero : t.pool.count = 0 := by simpa using hc
  exact ⟨hleads, hzero, trivial⟩

/-! ### Own reports -/

/-- The pool is sound in this state, whatever children the process has inherited. -/
structure Procs.Sound (w : World) (inherited : List Child) (s : Procs) : Prop where
  /-- The slots in use are the children that have been submitted and not reaped, and the status
  and the halt are those of submitted children. -/
  ledger : ∃ own, s.Ledger inherited own ∧ ∀ c ∈ s.os.reapedChildren, c ∈ s.os.forkedChildren
  /-- The assertion of `reap_one` holds for an own report: only `fork` exits. -/
  asserts : ∀ call : PoolCall, call.Enabled s → OwnReport w inherited (s, call) →
    exitOf (poolCall w call s) = none ∨ exitOf (poolCall w call s) = some Exit.forkFailed
  /-- A drain that sees own reports only returns when every submitted child has been reaped. -/
  drains : ∀ status t, processPoolDrain w s = .ok status t → ∃ steps,
    Trace (PoolStep w) s steps t ∧ ((∀ p ∈ steps, OwnReport w inherited p) →
      t.os.reapedChildren.Perm t.os.forkedChildren ∧ WorstStatus t.os.forkedChildren status)

namespace Procs

variable {w : World} {inherited own : List Child} {s t : Procs}

/-- What has been reaped has been forked. -/
theorem Ledger.reaped_forked (h : s.Ledger inherited own) :
    ∀ c ∈ s.os.reapedChildren, c ∈ s.os.forkedChildren :=
  fun _ hc => h.conserved.mem_iff.mpr (List.mem_append_left _ hc)

theorem Ledger.sound (h : s.Ledger inherited own) : s.Sound w inherited where
  ledger := ⟨own, h, h.reaped_forked⟩
  asserts := fun _ henabled hown => h.asserts henabled hown
  drains := by
    intro status t hdrain
    obtain ⟨⟨steps, hsteps⟩, hcount, rfl⟩ := (wp_of_ok hdrain).mp (processPoolDrain_trace w s)
    -- The reaps of the drain are steps like the others, and the ledger goes on through them.
    refine ⟨steps, hsteps, fun hown => ?_⟩
    have hledger := (hsteps.invariant_of (C := OwnReport w inherited)
      (I := fun s => ∃ own, s.Ledger inherited own)
      (fun call _ _ hown h hstep => Ledger.step call h hown hstep) hown ⟨own, h⟩).1
    obtain ⟨own', hledger'⟩ := hledger
    exact hledger'.reaped_all hcount

/-! ### A foreign report -/

/-- A reap that is answered with a child that has no slot: the assertion fails, or the pool gives
up a slot while all own children are in flight. -/
theorem foreign_reap (h : s.Ledger inherited own) (hcount : 0 < s.pool.count) {child : Child}
    {os : Os} (hwait : s.os.waitpid w = some (child, os)) (hforeign : child.pid ∉ s.pool.inUse) :
    if w.ndebug then
      ∃ t, poolCall w .reap s = .ok () t ∧ t.pool.count < own.length ∧ ∀ c ∈ own, c ∈ t.os.children
    else
      exitOf (poolCall w .reap s) = some ⟨ABORT_STATUS, .assertionFailed⟩ := by
  -- The search of `reap_one` ends behind the slots in use.
  have hslot : ¬ s.pool.slotOf child.pid < s.pool.count := by
    show ¬ s.pool.inUse.idxOf child.pid < s.pool.count
    rw [List.idxOf_of_notMem hforeign, h.length_inUse]
    exact Nat.lt_irrefl _
  have hrun : wp (reapOne w)
      (fun _ t => w.ndebug = true ∧ t.pool.count = s.pool.count - 1 ∧ t.os = os)
      (fun e _ => w.ndebug = false ∧ e = ⟨ABORT_STATUS, .assertionFailed⟩) s := by
    simp only [reapOne, wp_bind, wp_get, hwait, wp_set, wp_ite, wp_throw, wp_modify]
    split
    · rename_i hfails
      exact ⟨Bool.eq_false_of_not_eq_true hfails.2, trivial⟩
    · rename_i hpasses
      refine ⟨?_, (s.pool.forgets child).count, trivial⟩
      by_contra hdebug
      exact hpasses ⟨hslot, hdebug⟩
  unfold wp at hrun
  show if w.ndebug then ∃ t, reapOne w s = .ok () t ∧ _ else exitOf (reapOne w s) = _
  -- Which of the two it is depends on the build alone.
  cases hcall : reapOne w s with
  | error e t =>
      rw [hcall] at hrun
      rw [if_neg (Bool.eq_false_iff.mp hrun.1), hrun.2]
      rfl
  | ok _ t =>
      rw [hcall] at hrun
      obtain ⟨hndebug, hcount', hos⟩ := hrun
      rw [if_pos hndebug]
      have hlength := h.count_eq
      refine ⟨t, rfl, by omega, ?_⟩
      intro c hc
      -- An own child has a slot, so it is not the one that has been reported.
      have hne : c ≠ child := by
        rintro rfl
        exact hforeign (h.inUse.mem_iff.mpr (List.mem_map_of_mem hc))
      have hmem : c ∈ s.os.children := h.children.mem_iff.mpr (List.mem_append_right _ hc)
      rw [hos]
      exact List.mem_of_ne_of_mem hne ((Os.waitpid_some hwait).1.mem_iff.mp hmem)

end Procs

/-- **Foreign children.** In every run of the pool of a process with any inherited children, with
and without `NDEBUG`: if each reap of the run is answered with an own child, the pool is sound in
every state. A reap that is answered with another child breaks it: the assertion of
`reap_one` fails, and without it a slot is given up while all own children are in flight. -/
theorem foreignChildren_sound {w : World} {childMax : Int} {maxProcs : Nat} {inherited : List Child}
    {steps : List (Procs × PoolCall)} {s : Procs}
    (h : Trace (PoolStep w) (Procs.start childMax maxProcs inherited) steps s)
    (hown : ∀ p ∈ steps, OwnReport w inherited p) :
    (∀ p ∈ steps, p.1.Sound w inherited) ∧ s.Sound w inherited ∧
    ∀ child os, 0 < s.pool.count → s.os.waitpid w = some (child, os) →
      child.pid ∉ s.pool.inUse →
      if w.ndebug then
        ∃ own t, s.Ledger inherited own ∧ poolCall w .reap s = .ok () t ∧
          t.pool.count < own.length ∧ ∀ c ∈ own, c ∈ t.os.children
      else
        exitOf (poolCall w .reap s) = some ⟨ABORT_STATUS, .assertionFailed⟩ := by
  obtain ⟨⟨own, hledger⟩, hledgers⟩ := Procs.ledger_of_trace h hown
  refine ⟨?_, hledger.sound, ?_⟩
  · intro p hp
    obtain ⟨own', hledger'⟩ := hledgers p hp
    exact hledger'.sound
  · intro child os hcount hwait hforeign
    have hbroken := Procs.foreign_reap hledger hcount hwait hforeign
    split
    · rename_i hndebug
      rw [if_pos hndebug] at hbroken
      obtain ⟨t, hreturns, hlost⟩ := hbroken
      exact ⟨own, t, hledger, hreturns, hlost⟩
    · rename_i hdebug
      rw [if_neg hdebug] at hbroken
      exact hbroken

/-- A process that has inherited a child with status 3, behind a submission. -/
def inheritedSubmitted (w : World) (image : Command) : Procs :=
  finalState (poolCall w (.submit image) (Procs.start 0 1 [⟨7, .exited 3⟩]))

/-- Each `waitpid` reports the child that was forked last. -/
def World.newestFirst : World := { World.quiet with wait := fun _ => 1 }

/-- The own child is reported, and the inherited one stays. -/
theorem foreignChildren_sound_own :
    ∃ opts mode s, xargsCreate System.bare [] 1 [[120]] (.ofLines []) = .ok (opts, mode) ∧
      poolCall World.newestFirst .reap (inheritedSubmitted World.newestFirst mode.cmd)
        = .ok () s ∧
      s.os.children = [⟨7, .exited 3⟩] ∧ s.pool.status = 0 ∧
      s.Sound World.newestFirst [⟨7, .exited 3⟩] := by
  obtain ⟨opts, mode, hcreate⟩ : ∃ opts mode,
      xargsCreate System.bare [] 1 [[120]] (.ofLines []) = .ok (opts, mode) := ⟨_, _, rfl⟩
  have hsubmit : PoolStep World.newestFirst (.submit mode.cmd) (Procs.start 0 1 [⟨7, .exited 3⟩])
      (inheritedSubmitted World.newestFirst mode.cmd) := ⟨trivial, rfl⟩
  have hreap : PoolStep World.newestFirst .reap (inheritedSubmitted World.newestFirst mode.cmd)
      (finalState (poolCall World.newestFirst .reap
        (inheritedSubmitted World.newestFirst mode.cmd))) := ⟨Nat.one_pos, rfl⟩
  have hown : ∀ p ∈ [(Procs.start 0 1 [⟨7, .exited 3⟩], PoolCall.submit mode.cmd),
      (inheritedSubmitted World.newestFirst mode.cmd, PoolCall.reap)],
      OwnReport World.newestFirst [⟨7, .exited 3⟩] p := by
    intro p hp hcall child os hwait
    rcases List.mem_pair.mp hp with rfl | rfl
    · cases hcall
    · cases hwait
      decide
  have hsound := (foreignChildren_sound (.cons hsubmit (.cons hreap (.nil _))) hown).2.1
  exact ⟨opts, mode, _, hcreate, rfl, rfl, rfl, hsound⟩

/-- `sh -c 'sh -c "exit 3" & exec phxargs c'`: the inherited child is reported first. In a debug
build the assertion fails. In a release build the drain returns its status, and the child
that was submitted is still in flight. -/
theorem foreignChild_breaks :
    ∃ opts mode, xargsCreate System.bare [] 1 [[120]] (.ofLines []) = .ok (opts, mode) ∧
      exitOf (processPoolDrain World.quiet (inheritedSubmitted World.quiet mode.cmd))
        = some ⟨ABORT_STATUS, .assertionFailed⟩ ∧
      ∃ s, processPoolDrain { World.quiet with ndebug := true }
          (inheritedSubmitted World.quiet mode.cmd) = .ok 123 s ∧
        s.os.forkedChildren = [⟨1, .exited 0⟩] ∧ s.os.children = [⟨1, .exited 0⟩] := by
  exact ⟨_, _, rfl, rfl, _, rfl, rfl, rfl⟩

end Phxargs
