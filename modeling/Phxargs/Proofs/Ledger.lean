import Phxargs.Proofs.PoolTrace

/-!
# `Phxargs.Proofs.Ledger`: what the pool knows about its children

`Procs.Ledger` is the pool invariant with the history in it: the slots in use are the pids of
the children that have been forked and not reported, the status is the worst one of the
reported children, and the pool has halted exactly if one of these exited with status 255. The
process may have inherited other children. As long as no reap is answered with one of them, every
step keeps the ledger.

`WorstStatus` says what the accumulated status is without an order: statuses that can occur are
told apart by their severity, so two lists with the same statuses have the same worst one.
-/

set_option autoImplicit false

namespace Phxargs

open Lib

/-! ### The worst status -/

/-- The status that phxargs gives the end of a child. -/
def Child.mappedStatus (child : Child) : Nat := (childExitStatus child.status).1

/-- The most severe one of the mapped statuses, 0 without a child. -/
structure WorstStatus (children : List Child) (status : Nat) : Prop where
  mem : status = 0 ∨ status ∈ children.map Child.mappedStatus
  max : ∀ child ∈ children, severity child.mappedStatus ≤ severity status

/-- The statuses that can occur. -/
def IsMapped (status : Nat) : Prop :=
  status = 0 ∨ status = 123 ∨ status = 124 ∨ status = 125 ∨ status = 126 ∨ status = 127

theorem childExitStatus_isMapped (status : RawStatus) : IsMapped (childExitStatus status).1 := by
  unfold IsMapped
  cases status with
  | signaled sig => simp [childExitStatus, PHXARGS_STATUS_SIGNALLED]
  | exited code =>
      by_cases h : code = 255
      · simp [childExitStatus, h, PHXARGS_STATUS_HALT]
      · by_cases h' : code = 0 ∨ code = 126 ∨ code = 127
        · rcases h' with rfl | rfl | rfl <;> simp [childExitStatus]
        · simp [childExitStatus, h, h', PHXARGS_STATUS_CHILD_FAILED]

/-- Severity tells the statuses apart. -/
theorem severity_inj {a b : Nat} (ha : IsMapped a) (hb : IsMapped b)
    (h : severity a = severity b) : a = b := by
  -- Each of the six statuses has a severity of its own.
  rcases ha with rfl | rfl | rfl | rfl | rfl | rfl <;>
    rcases hb with rfl | rfl | rfl | rfl | rfl | rfl <;> first | rfl | (exact absurd h (by decide))

theorem WorstStatus.isMapped {children : List Child} {status : Nat}
    (h : WorstStatus children status) : IsMapped status := by
  rcases h.mem with rfl | hmem
  · exact Or.inl rfl
  · obtain ⟨child, -, rfl⟩ := List.mem_map.mp hmem
    exact childExitStatus_isMapped child.status

theorem WorstStatus.le {children children' : List Child} {status status' : Nat}
    (h : WorstStatus children status) (h' : WorstStatus children' status')
    (hsub : ∀ s ∈ children.map Child.mappedStatus, s ∈ children'.map Child.mappedStatus) :
    severity status ≤ severity status' := by
  rcases h.mem with rfl | hmem
  · exact Nat.zero_le _
  · obtain ⟨child, hchild, heq⟩ := List.mem_map.mp (hsub status hmem)
    rw [← heq]
    exact h'.max child hchild

/-- The worst status depends on the statuses alone, not on their order. -/
theorem WorstStatus.unique {children children' : List Child} {status status' : Nat}
    (h : WorstStatus children status) (h' : WorstStatus children' status')
    (hperm : (children.map Child.status).Perm (children'.map Child.status)) :
    status = status' := by
  have hmapped : (children.map Child.mappedStatus).Perm (children'.map Child.mappedStatus) := by
    have hmap := hperm.map fun status => (childExitStatus status).1
    rw [List.map_map, List.map_map] at hmap
    exact hmap
  apply severity_inj h.isMapped h'.isMapped
  apply Nat.le_antisymm
  · exact h.le h' fun s hs => hmapped.mem_iff.mp hs
  · exact h'.le h fun s hs => hmapped.mem_iff.mpr hs

theorem WorstStatus.perm {children children' : List Child} {status : Nat}
    (h : WorstStatus children status) (hperm : children.Perm children') :
    WorstStatus children' status where
  mem := h.mem.imp id fun hmem => (hperm.map Child.mappedStatus).mem_iff.mp hmem
  max := fun child hchild => h.max child (hperm.mem_iff.mpr hchild)

/-- `accumulate_status` takes one more child into account. -/
theorem WorstStatus.accumulate {children : List Child} {pool : ProcessPool}
    (h : WorstStatus children pool.status) (child : Child) :
    WorstStatus (children ++ [child]) (accumulateStatus pool child.mappedStatus).status := by
  unfold accumulateStatus
  -- The comparison is strict: among equal ones the first stays, which is the same status.
  by_cases hworse : severity child.mappedStatus > severity pool.status
  · rw [if_pos hworse]
    refine ⟨Or.inr (by simp), ?_⟩
    intro c hc
    rcases List.mem_append.mp hc with hc | hc
    · exact Nat.le_of_lt (Nat.lt_of_le_of_lt (h.max c hc) hworse)
    · rw [List.mem_singleton.mp hc]
  · rw [if_neg hworse]
    refine ⟨h.mem.imp id fun hmem => by simp [hmem], ?_⟩
    intro c hc
    rcases List.mem_append.mp hc with hc | hc
    · exact h.max c hc
    · rw [List.mem_singleton.mp hc]
      exact Nat.not_lt.mp hworse

/-! ### The ledger -/

/-- The pids in use. -/
def ProcessPool.inUse (pool : ProcessPool) : List Pid := pool.pids.take pool.count

/-- The pool, the children of the process, and the history agree: `own` are the children that
have been forked and not reported. -/
structure Procs.Ledger (inherited own : List Child) (s : Procs) : Prop where
  slots : s.pool.pids.length = s.pool.capacity
  count_le : s.pool.count ≤ s.pool.capacity
  inUse : s.pool.inUse.Perm (own.map Child.pid)
  children : s.os.children.Perm (inherited ++ own)
  conserved : s.os.forkedChildren.Perm (s.os.reapedChildren ++ own)
  status : WorstStatus s.os.reapedChildren s.pool.status
  halt : s.pool.halt = true ↔ ∃ c ∈ s.os.reapedChildren, c.status = .exited 255

/-- Where a reap is answered, it is not with an inherited child. -/
def OwnReport (w : World) (inherited : List Child) (p : Procs × PoolCall) : Prop :=
  p.2 = .reap → ∀ child os, p.1.os.waitpid w = some (child, os) → child ∉ inherited

namespace Procs

variable {w : World} {inherited own : List Child} {s t : Procs}

theorem ledger_start (childMax : Int) (maxProcs : Nat) (inherited : List Child) :
    (Procs.start childMax maxProcs inherited).Ledger inherited [] where
  slots := List.length_replicate ..
  count_le := Nat.zero_le _
  inUse := List.Perm.refl _
  children := by
    rw [List.append_nil]
    exact List.Perm.refl _
  conserved := List.Perm.refl _
  status := ⟨Or.inl rfl, List.forall_mem_nil _⟩
  halt := ⟨fun h => absurd h Bool.false_ne_true, fun ⟨_, hc, _⟩ => absurd hc List.not_mem_nil⟩

theorem Ledger.length_inUse (h : s.Ledger inherited own) : s.pool.inUse.length = s.pool.count := by
  rw [ProcessPool.inUse, List.length_take, h.slots, Nat.min_eq_left h.count_le]

/-- The pool counts its own children. -/
theorem Ledger.count_eq (h : s.Ledger inherited own) : s.pool.count = own.length := by
  rw [← h.length_inUse, h.inUse.length_eq, List.length_map]

/-- An adjustment changes the limit, and perhaps the table behind the slots in use. -/
theorem adjust_inUse (pool : ProcessPool) (u1 u2 : Int) (hslots : pool.pids.length = pool.capacity)
    (hcount : pool.count ≤ pool.capacity) :
    (pool.adjust u1 u2).pids.length = (pool.adjust u1 u2).capacity ∧
      (pool.adjust u1 u2).count ≤ (pool.adjust u1 u2).capacity ∧
      (pool.adjust u1 u2).inUse = pool.inUse ∧ (pool.adjust u1 u2).status = pool.status ∧
      (pool.adjust u1 u2).halt = pool.halt := by
  obtain ⟨-, hstatus, hhalt⟩ := pool.adjust_fields u1 u2
  have htable := (ProcessPool.table_take hslots hcount).adjust u1 u2
  exact ⟨htable.slots, htable.count_le, htable.inUse.take_eq, hstatus, hhalt⟩

theorem Ledger.adjust (h : s.Ledger inherited own) (hstep : PoolStep w .adjust s t) :
    t.Ledger inherited own := by
  obtain ⟨hpool, hchildren, hlog, -⟩ := hstep.adjust_cases
  have hforked : t.os.forkedChildren = s.os.forkedChildren :=
    congrArg (List.filterMap OsEvent.child?) hlog
  have hreaped : t.os.reapedChildren = s.os.reapedChildren :=
    congrArg (List.filterMap OsEvent.reaped?) hlog
  have hfields : t.pool.pids.length = t.pool.capacity ∧ t.pool.count ≤ t.pool.capacity ∧
      t.pool.inUse = s.pool.inUse ∧ t.pool.status = s.pool.status ∧ t.pool.halt = s.pool.halt := by
    rw [hpool]
    unfold adjustedPool
    split
    · exact ⟨h.slots, h.count_le, rfl, rfl, rfl⟩
    · exact adjust_inUse s.pool _ _ h.slots h.count_le
  obtain ⟨hslots, hcount, hinUse, hstatus, hhalt⟩ := hfields
  exact
    { slots := hslots
      count_le := hcount
      inUse := hinUse ▸ h.inUse
      children := hchildren ▸ h.children
      conserved := hforked ▸ hreaped ▸ h.conserved
      status := hreaped ▸ hstatus ▸ h.status
      halt := by rw [hhalt, hreaped]; exact h.halt }

/-- A child of the process that is not inherited is one of its own. -/
theorem Ledger.mem_own (h : s.Ledger inherited own) {child : Child}
    (hmem : child ∈ s.os.children) (hnot : child ∉ inherited) : child ∈ own :=
  (List.mem_append.mp (h.children.mem_iff.mp hmem)).resolve_left hnot

theorem Ledger.reap (h : s.Ledger inherited own) (hstep : PoolStep w .reap s t)
    (hown : OwnReport w inherited (s, .reap)) : ∃ own', t.Ledger inherited own' := by
  obtain ⟨child, hwait, hforgets⟩ := hstep.reap_forgets
  obtain ⟨hperm, -, hborn⟩ := Os.waitpid_some hwait
  have hlog := Os.waitpid_log hwait
  have hchild : child ∈ own :=
    h.mem_own (hperm.mem_iff.mpr List.mem_cons_self) (hown rfl child t.os hwait)
  -- Exactly this child leaves the ledger.
  obtain ⟨own', hown'⟩ : ∃ own', own.Perm (child :: own') :=
    ⟨own.erase child, List.perm_cons_erase hchild⟩
  have hcount : 0 < s.pool.count := hstep.enabled
  have hslots : s.pool.count ≤ s.pool.pids.length := h.slots ▸ h.count_le
  have hmem : child.pid ∈ s.pool.pids.take s.pool.count :=
    h.inUse.mem_iff.mpr (List.mem_map_of_mem hchild)
  have hreaped : t.os.reapedChildren = s.os.reapedChildren ++ [child] := by
    rw [Os.reapedChildren, hlog, List.filterMap_append]
    rfl
  refine ⟨own', ?_⟩
  constructor
  · rw [hforgets.slots, hforgets.capacity, h.slots]
  · rw [hforgets.count, hforgets.capacity]
    exact Nat.le_trans (Nat.sub_le _ _) h.count_le
  · show (t.pool.pids.take t.pool.count).Perm _
    rw [hforgets.pids, hforgets.count]
    have hslot := (replaceWithLast_perm hcount hslots hmem).symm.trans
      (h.inUse.trans (hown'.map Child.pid))
    rw [List.map_cons] at hslot
    exact hslot.cons_inv
  · -- The kernel forgets the same child.
    have hkernel : (child :: t.os.children).Perm (child :: (inherited ++ own')) :=
      hperm.symm.trans (h.children.trans
        ((hown'.append_left inherited).trans List.perm_middle))
    exact hkernel.cons_inv
  · rw [hborn, hreaped, List.append_assoc]
    exact h.conserved.trans (hown'.append_left _)
  · rw [hreaped, hforgets.status]
    exact h.status.accumulate child
  · rw [hreaped, hforgets.halt, Bool.or_eq_true, childExitStatus_halt, h.halt]
    simp only [List.mem_append, List.mem_singleton, or_and_right, exists_or, exists_eq_left]

/-- A submission writes the next slot. -/
theorem submit_inUse {image : Command} {child : Child} (hstep : PoolStep w (.submit image) s t)
    (hfork : s.os.fork w image = some (child.pid, t.os))
    (hslots : s.pool.pids.length = s.pool.capacity) (hcount : s.pool.count ≤ s.pool.capacity) :
    t.pool.pids.length = t.pool.capacity ∧ t.pool.count ≤ t.pool.capacity ∧
      t.pool.inUse = s.pool.inUse ++ [child.pid] := by
  have hreturns : processPoolSubmit child.pid { s with os := t.os } = .ok () t :=
    (forkAndSubmit_of_fork hfork).symm.trans hstep.returns
  obtain ⟨hsubmitted, -⟩ := (wp_of_ok hreturns).mp (processPoolSubmit_submitted child.pid _)
  have htable := hsubmitted.table (ProcessPool.table_take hslots hcount)
  exact ⟨htable.slots, htable.count_le, htable.inUse.take_eq⟩

theorem Ledger.submit {image : Command} (h : s.Ledger inherited own)
    (hstep : PoolStep w (.submit image) s t) : ∃ own', t.Ledger inherited own' := by
  obtain ⟨child, hsubmits⟩ := hstep.submit_cases
  obtain ⟨hslots, hcount, hinUse⟩ := submit_inUse hstep hsubmits.fork h.slots h.count_le
  have hforked : t.os.forkedChildren = s.os.forkedChildren ++ [child] := by
    rw [Os.forkedChildren, hsubmits.log, List.filterMap_append]
    rfl
  have hreaped : t.os.reapedChildren = s.os.reapedChildren := by
    rw [Os.reapedChildren, hsubmits.log, List.filterMap_append]
    exact List.append_nil _
  refine ⟨own ++ [child], hslots, hcount, ?_, ?_, ?_, ?_, ?_⟩
  · rw [hinUse, List.map_append, List.map_singleton]
    exact h.inUse.append_right _
  · rw [hsubmits.children, ← List.append_assoc]
    exact h.children.append_right _
  · rw [hforked, hreaped, ← List.append_assoc]
    exact h.conserved.append_right _
  · rw [hreaped, hsubmits.status]
    exact h.status
  · rw [hreaped, hsubmits.halt]
    exact h.halt

/-- **The step lemma.** -/
theorem Ledger.step (call : PoolCall) (h : ∃ own, s.Ledger inherited own)
    (hown : OwnReport w inherited (s, call)) (hstep : PoolStep w call s t) :
    ∃ own, t.Ledger inherited own := by
  obtain ⟨own, h⟩ := h
  cases call with
  | adjust => exact ⟨own, h.adjust hstep⟩
  | reap => exact h.reap hstep hown
  | submit image => exact h.submit hstep

/-- **The run lemma.** -/
theorem ledger_of_trace {childMax : Int} {maxProcs : Nat} {steps : List (Procs × PoolCall)}
    (h : Trace (PoolStep w) (Procs.start childMax maxProcs inherited) steps s)
    (hown : ∀ p ∈ steps, OwnReport w inherited p) :
    (∃ own, s.Ledger inherited own) ∧ ∀ p ∈ steps, ∃ own, p.1.Ledger inherited own :=
  h.invariant_of (C := OwnReport w inherited) (I := fun s => ∃ own, s.Ledger inherited own)
    (fun call _ _ hown h hstep => Ledger.step call h hown hstep) hown
    ⟨[], ledger_start childMax maxProcs inherited⟩

/-- A call that is made where the reports are its own exits only in `fork`. -/
theorem Ledger.progress {call : PoolCall} (h : s.Ledger inherited own) (henabled : call.Enabled s)
    (hown : OwnReport w inherited (s, call)) :
    wp (poolCall w call) (fun _ _ => True) (fun e _ => e = Exit.forkFailed) s := by
  cases call with
  | adjust =>
      simp only [poolCall, applySignalAdjustments, readSigusr1Count, readSigusr2Count, wp_bind,
        wp_get, wp_ite, wp_pure, wp_modify, ite_self]
  | reap =>
      -- A slot is in use, so a child of its own is in flight, and `waitpid` reports one.
      have hlength : 0 < own.length := h.count_eq ▸ henabled
      have hchildren : s.os.children ≠ [] := by
        intro hnil
        have hlen := h.children.length_eq
        rw [hnil, List.length_nil, List.length_append] at hlen
        omega
      obtain ⟨child, os, hwait⟩ := Os.waitpid_isSome (w := w) hchildren
      have hchild : child ∈ own :=
        h.mem_own ((Os.waitpid_some hwait).1.mem_iff.mpr List.mem_cons_self)
          (hown rfl child os hwait)
      have hslot : s.pool.slotOf child.pid < s.pool.count :=
        slotOf_lt (h.slots ▸ h.count_le) (h.inUse.mem_iff.mpr (List.mem_map_of_mem hchild))
      simp only [poolCall, reapOne, wp_bind, wp_get, hwait, wp_set, hslot, not_true, false_and,
        if_false, wp_modify]
  | submit image =>
      simp only [poolCall, forkAndSubmit, wp_bind, wp_get]
      cases hfork : s.os.fork w image with
      | none => exact rfl
      | some answer =>
          obtain ⟨pid, os⟩ := answer
          obtain ⟨child, -, -, hroom, -⟩ := Os.fork_some hfork
          simp only [wp_bind, wp_set]
          apply wp_mono (processPoolSubmit_submitted pid { s with os := os })
          · exact fun _ _ _ => trivial
          · -- The guard of the doubling is far above the number of pids.
            intro _ _ hexit
            have hlen := h.children.length_eq
            rw [List.length_append] at hlen
            have hcount := h.count_eq
            have hmax : PID_MAX ≤ SIZE_MAX / 2 := by decide
            have hfull : s.pool.count = s.pool.capacity := hexit.1
            have hguard : SIZE_MAX / 2 < s.pool.capacity := hexit.2
            omega

/-- No call that is made where the reports are its own ends in the assertion of `reap_one`. -/
theorem Ledger.asserts (h : s.Ledger inherited own) {call : PoolCall} (henabled : call.Enabled s)
    (hown : OwnReport w inherited (s, call)) :
    exitOf (poolCall w call s) = none ∨ exitOf (poolCall w call s) = some Exit.forkFailed := by
  apply wp_finalState (P := fun exit _ => exit = none ∨ exit = some Exit.forkFailed)
  apply wp_mono (h.progress henabled hown)
  · exact fun _ _ _ => Or.inl rfl
  · exact fun _ _ he => Or.inr (congrArg some he)

/-- With no slot in use, every own child has been reaped, and the status is the worst. -/
theorem Ledger.reaped_all (h : s.Ledger inherited own) (hcount : s.pool.count = 0) :
    s.os.reapedChildren.Perm s.os.forkedChildren ∧
      WorstStatus s.os.forkedChildren s.pool.status := by
  have hempty : own = [] := List.length_eq_zero_iff.mp (h.count_eq.symm.trans hcount)
  have hperm := h.conserved
  rw [hempty, List.append_nil] at hperm
  exact ⟨hperm.symm, h.status.perm hperm.symm⟩

/-- Every step of the pool keeps its invariant. -/
theorem Inv.poolStep {call : PoolCall} (hinv : s.Inv) (h : PoolStep w call s t) : t.Inv := by
  cases call with
  | adjust => exact ((wp_of_ok h.returns).mp (applySignalAdjustments_spec w hinv)).1
  | reap => exact ((wp_of_ok h.returns).mp (reapOne_spec w hinv h.enabled)).1
  | submit image =>
      obtain ⟨child, hsubmits⟩ := h.submit_cases
      obtain ⟨child', hpid, -, hroom, hchildren, -, hborn⟩ := Os.fork_some hsubmits.fork
      have hunsubmitted : Unsubmitted { s with os := t.os } child' s :=
        ⟨hinv, rfl, hchildren, hborn, hroom⟩
      have hreturns : processPoolSubmit child'.pid { s with os := t.os } = .ok () t :=
        hpid ▸ (forkAndSubmit_of_fork hsubmits.fork).symm.trans h.returns
      exact ((wp_of_ok hreturns).mp (processPoolSubmit_spec hunsubmitted)).1

end Procs

/-! ### Conservation -/

/-- Nothing is lost or counted twice in this state of the pool. -/
structure Procs.Conserves (w : World) (s : Procs) : Prop where
  count_le : s.pool.count ≤ s.pool.capacity
  slots : s.pool.pids.length = s.pool.capacity
  /-- The slots in use are the children that have been submitted and not reaped. -/
  inUse : ∃ own, s.os.forkedChildren.Perm (s.os.reapedChildren ++ own) ∧
    (s.pool.pids.take s.pool.count).Perm (own.map Child.pid)
  /-- The assertion of `reap_one` holds: whatever is called next exits only in `fork`. -/
  asserts : ∀ call : PoolCall, call.Enabled s → exitOf (poolCall w call s) = none ∨
    exitOf (poolCall w call s) = some Exit.forkFailed
  /-- A drain reaps every child once, and returns the worst status. -/
  drains : ∃ status t, processPoolDrain w s = .ok status t ∧
    t.os.forkedChildren = s.os.forkedChildren ∧
    t.os.reapedChildren.Perm t.os.forkedChildren ∧ WorstStatus t.os.forkedChildren status

/-- Without inherited children, every report is an own one. -/
theorem ownReport_nil (w : World) (p : Procs × PoolCall) : OwnReport w [] p :=
  fun _ _ _ _ => List.not_mem_nil

/-- Where no child is in flight, no slot is in use. -/
theorem Procs.Ledger.count_eq_zero {own : List Child} {s : Procs} (h : s.Ledger [] own)
    (hchildren : s.os.children = []) : s.pool.count = 0 := by
  have hlength := h.children.length_eq
  rw [hchildren, List.nil_append] at hlength
  rw [h.count_eq, ← hlength, List.length_nil]

/-- The pool conserves in every state of every run of the pool. -/
theorem conserves_of_trace {w : World} {childMax : Int} {maxProcs : Nat}
    {steps : List (Procs × PoolCall)} {s : Procs}
    (h : Trace (PoolStep w) (Procs.start childMax maxProcs []) steps s) : s.Conserves w := by
  obtain ⟨⟨own, hledger⟩, -⟩ := Procs.ledger_of_trace h fun p _ => ownReport_nil w p
  have hinv : s.Inv := (h.invariant (fun _ _ _ hinv hstep => hinv.poolStep hstep)
    (Procs.inv_start childMax maxProcs)).1
  constructor
  · exact hledger.count_le
  · exact hledger.slots
  · exact ⟨own, hledger.conserved, hledger.inUse⟩
  · exact fun call henabled => hledger.asserts henabled (ownReport_nil w (s, call))
  · -- The drain is a longer run, so it keeps the ledger, and it leaves no child in flight.
    have hdrain := processPoolDrain_leads w hinv
    unfold wp at hdrain
    cases hcall : processPoolDrain w s with
    | error e t => rw [hcall] at hdrain; exact hdrain.elim
    | ok status t =>
        rw [hcall] at hdrain
        obtain ⟨-, hleads, hchildren, hstatus⟩ := hdrain
        obtain ⟨steps', hsteps'⟩ := leads_toPool hleads
        obtain ⟨⟨own', hledger'⟩, -⟩ := Procs.ledger_of_trace (h.append hsteps')
          fun p _ => ownReport_nil w p
        obtain ⟨hreaped, hworst⟩ := hledger'.reaped_all (hledger'.count_eq_zero hchildren)
        have hforked : t.os.forkedChildren = s.os.forkedChildren := by
          have hspec := (wp_of_ok hcall).mp (processPoolDrain_spec w hinv)
          exact hspec.2.1.forkedChildren
        exact ⟨status, t, rfl, hforked, hreaped, hstatus ▸ hworst⟩

/-! ### The exit status of a run -/

/-- The end of a run that returns: every child is reaped, and the status is that of the pool. -/
def ReturnsStatus (status : Nat) (t : XargsMode) : Prop :=
  t.procs.os.children = [] ∧ status = t.procs.pool.status

theorem drain_returns (w : World) {s : XargsMode} (hinv : s.procs.Inv) :
    wp (xargsModeDrain w) (fun status t => ReturnsStatus (EXIT_SUCCESS ||| status) t)
      (fun _ _ => True) s := by
  simp only [xargsModeDrain, onProcs, wp_focus]
  refine wp_mono_noExit (processPoolDrain_leads w hinv) ?_
  intro status p hp
  refine ⟨hp.2.2.1, ?_⟩
  show 0 ||| status = p.pool.status
  rw [Nat.zero_or]
  exact hp.2.2.2

theorem appenderModeFinish_returns (w : World) (suppress present : Bool) {s : XargsMode}
    (hinv : s.procs.Inv) :
    wp (appenderModeFinish w suppress present) ReturnsStatus (fun _ _ => True) s := by
  apply wp_appenderModeFinish
  · intro _
    apply wp_mono (xargsModeExecuteCommand_moves w s)
    · exact fun _ t hsteps => drain_returns w (hsteps hinv).1
    · exact fun _ _ _ => trivial
  · exact fun _ => drain_returns w hinv

theorem xargsRun_returns (w : World) (opts : Options) {s : XargsMode} (hinv : s.procs.Inv) :
    wp (xargsRun w opts) ReturnsStatus (fun _ _ => True) s := by
  -- Nothing is said about an exit, and a tokenizer error is one.
  have hexits : ∀ t : XargsMode, t.procs.Inv →
      wp (xargsModeDrain w) (fun _ _ => True) (fun _ _ => True) t :=
    fun t hinv' => wp_mono_return (drain_returns w hinv') fun _ _ _ => trivial
  unfold xargsRun
  split
  · apply wp_loopAndFinish
    apply wp_mono (m := appenderModeLoop w) (loop_moves w (appenderModeIteration_moves w) s)
    · intro present t hsteps
      have hinv' := (hsteps hinv).1
      exact ⟨fun _ => appenderModeFinish_returns w _ present hinv', fun _ => hexits t hinv'⟩
    · exact fun _ _ _ => trivial
  · apply wp_loopAndFinish
    apply wp_mono (m := replacerModeLoop w) (loop_moves w (replacerModeIteration_moves w) s)
    · intro present t hsteps
      have hinv' := (hsteps hinv).1
      refine ⟨fun _ => ?_, fun _ => hexits t hinv'⟩
      rw [wp_bind]
      exact drain_returns w hinv'
    · exact fun _ _ _ => trivial

/-- The pool of a new mode. -/
theorem xargsCreate_procs {sys : System} {scanned : List Getopt} {optind : Nat} {argv : List CStr}
    {stream : TokenStream} {opts : Options} {s : XargsMode}
    (h : xargsCreate sys scanned optind argv stream = .ok (opts, s)) :
    s.procs = Procs.start sys.childMax opts.maxProcs [] := by
  obtain ⟨cmd, -, rfl⟩ := xargsModeCreate_cases (xargsCreate_cases h).2
  rfl

/-- A run that returns has reaped every child, and returns the worst status. -/
theorem xargsRun_worstStatus {w : World} {opts : Options} {s t : XargsMode} {childMax : Int}
    {maxProcs status : Nat} (hstart : s.procs = Procs.start childMax maxProcs [])
    (hrun : xargsRun w opts s = .ok status t) :
    t.procs.os.reapedChildren.Perm t.procs.os.forkedChildren ∧
      WorstStatus t.procs.os.forkedChildren status := by
  have hinv : s.procs.Inv := hstart ▸ Procs.inv_start childMax maxProcs
  obtain ⟨steps, hsteps⟩ := leads_toPool (xargsRun_leads w opts hinv)
  rw [hrun, hstart] at hsteps
  obtain ⟨⟨own, hledger⟩, -⟩ := Procs.ledger_of_trace hsteps fun p _ => ownReport_nil w p
  -- Every way to a normal return goes through the drain.
  obtain ⟨hchildren, hstatus⟩ := (wp_of_ok hrun).mp (xargsRun_returns w opts hinv)
  rw [hstatus]
  exact hledger.reaped_all (hledger.count_eq_zero hchildren)

/-! ### The warnings of a run -/

/-- What is reported about these children, in the order in which they are reaped. -/
def warningsOf (children : List Child) : List String :=
  children.flatMap fun child => childExitWarnings child.status

/-- Nothing else has been written. -/
def Procs.Warned (s : Procs) : Prop := s.warnings = warningsOf s.os.reapedChildren

theorem Procs.Warned.step {w : World} {call : PoolCall} {s t : Procs} (h : s.Warned)
    (hstep : PoolStep w call s t) : t.Warned := by
  unfold Procs.Warned at h ⊢
  cases call with
  | adjust =>
      obtain ⟨-, -, hlog, hwarnings⟩ := hstep.adjust_cases
      rw [hwarnings, h, Os.reapedChildren, Os.reapedChildren, hlog]
  | reap =>
      obtain ⟨child, hwait, -, -, hwarnings⟩ := hstep.reap_cases
      have hreaped : t.os.reapedChildren = s.os.reapedChildren ++ [child] := by
        rw [Os.reapedChildren, Os.waitpid_log hwait, List.filterMap_append]
        rfl
      rw [hwarnings, h, hreaped, warningsOf, warningsOf, List.flatMap_append, List.flatMap_singleton]
  | submit image =>
      obtain ⟨child, hsubmits⟩ := hstep.submit_cases
      have hreaped : t.os.reapedChildren = s.os.reapedChildren := by
        rw [Os.reapedChildren, hsubmits.log, List.filterMap_append]
        exact List.append_nil _
      rw [hsubmits.warnings, h, hreaped]

/-- However a run ends, it has warned of the children that it has reaped. -/
theorem xargsRun_warned (w : World) (opts : Options) {s : XargsMode} {childMax : Int}
    {maxProcs : Nat} (hstart : s.procs = Procs.start childMax maxProcs []) :
    (finalState (xargsRun w opts s)).procs.Warned := by
  have hinv : s.procs.Inv := hstart ▸ Procs.inv_start childMax maxProcs
  obtain ⟨steps, hsteps⟩ := leads_toPool (xargsRun_leads w opts hinv)
  rw [hstart] at hsteps
  exact (hsteps.invariant (I := Procs.Warned) (fun _ _ _ h hstep => h.step hstep) rfl).1

/-- **Conservation.** For every limit, in every run of the pool (submissions, reaps and signal
adjustments in any order), the slots in use hold the children that have been submitted and not
reaped, the assertion of `reap_one` holds, and a drain reaps every child exactly once. Every
run of a mode is a run of the pool. If it returns, every child has been reaped, and the
status is the most severe one of all children. So two runs whose children end with the same
statuses, in any order, return the same status. -/
theorem processPool_conserves {sys : System} {scanned : List Getopt} {optind : Nat}
    {argv : List CStr} {stream : TokenStream} {opts : Options} {s : XargsMode}
    (hcreate : xargsCreate sys scanned optind argv stream = .ok (opts, s)) :
    (∀ (w : World) (childMax : Int) (maxProcs : Nat) (steps : List (Procs × PoolCall)) (p : Procs),
      Trace (PoolStep w) (Procs.start childMax maxProcs []) steps p → p.Conserves w) ∧
    (∀ w, Leads (PoolStep w) (Procs.start sys.childMax opts.maxProcs [])
      (finalState (xargsRun w opts s)).procs) ∧
    (∀ w status t, xargsRun w opts s = .ok status t →
      t.procs.os.reapedChildren.Perm t.procs.os.forkedChildren ∧
        WorstStatus t.procs.os.forkedChildren status) ∧
    (∀ w w' status status' t t', xargsRun w opts s = .ok status t →
      xargsRun w' opts s = .ok status' t' →
      (t.procs.os.forkedChildren.map Child.status).Perm
        (t'.procs.os.forkedChildren.map Child.status) → status = status') := by
  have hstart := xargsCreate_procs hcreate
  have hinv : s.procs.Inv := hstart ▸ Procs.inv_start sys.childMax opts.maxProcs
  refine ⟨?_, ?_, ?_, ?_⟩
  · exact fun w childMax maxProcs steps p h => conserves_of_trace h
  · intro w
    have hleads := leads_toPool (xargsRun_leads w opts hinv)
    rw [hstart] at hleads
    exact hleads
  · exact fun w status t hrun => xargsRun_worstStatus hstart hrun
  · intro w w' status status' t t' hrun hrun' hperm
    exact (xargsRun_worstStatus hstart hrun).2.unique (xargsRun_worstStatus hstart hrun').2 hperm

/-- The first child exits with status 1, every later one is killed. -/
def World.failing : World :=
  { World.quiet with
    fork := fun n => some ⟨n + 1, if n = 0 then .exited 1 else .signaled 9⟩ }

/-- `printf 'a\nb\n' | phxargs -P 2 -n 1 c`: 125 is more severe than 123. -/
theorem processPool_conserves_failing :
    ∃ opts s t, xargsCreate System.bare [.optP [50], .optn [49]] 5
        [[120], [45, 80], [50], [45, 110], [49], [99]] (.ofLines [[97], [98]]) = .ok (opts, s) ∧
      xargsRun World.failing opts s = .ok 125 t ∧ WorstStatus t.procs.os.forkedChildren 125 := by
  obtain ⟨opts, s, hcreate, hreturns, hstatus⟩ : ∃ opts s,
      xargsCreate System.bare [.optP [50], .optn [49]] 5
        [[120], [45, 80], [50], [45, 110], [49], [99]] (.ofLines [[97], [98]]) = .ok (opts, s) ∧
      exitOf (xargsRun World.failing opts s) = none ∧
      (finalState (xargsRun World.failing opts s)).procs.pool.status = 125 := by
    exact ⟨_, _, rfl, by decide +kernel, by decide +kernel⟩
  cases hrun : xargsRun World.failing opts s with
  | error e t =>
      rw [hrun] at hreturns
      cases hreturns
  | ok status t =>
      rw [hrun] at hstatus
      have hworst := ((processPool_conserves hcreate).2.2.1 World.failing status t hrun).2
      have hinv : s.procs.Inv := (xargsCreate_spec hcreate).2.1.inv
      have hpool := ((wp_of_ok hrun).mp (xargsRun_returns World.failing opts hinv)).2
      have h125 : status = 125 := hpool.trans hstatus
      subst h125
      exact ⟨opts, s, t, hcreate, hrun, hworst⟩

end Phxargs
