import Phxargs.Model.ProcessPool

/-!
# `Phxargs.Proofs.Pool`: the pool holds exactly the children in flight

`Procs.Inv` relates the pid table of the pool to the children of the kernel. Every pool
function keeps it, and under it `waitpid` always reports a child, the assertion of `reap_one`
holds, and no slot outside the table is written.

The children are those that the process forked itself: `Os.init` has none, and only
`Os.fork` adds one.

What a wait can change besides the pool is `Procs.Reaps`: it forks nothing, and a halt
stays. Each function has one specification in these terms.
-/

set_option autoImplicit false

namespace Phxargs

open Lib

/-- The pool invariant. -/
structure Procs.Inv (s : Procs) : Prop where
  /-- The table has as many slots as the capacity says. -/
  slots : s.pool.pids.length = s.pool.capacity
  /-- The slots in use are slots of the table. -/
  count_le : s.pool.count ≤ s.pool.capacity
  /-- The pids in use are those of the children that have not been reported. -/
  live : (s.pool.pids.take s.pool.count).Perm (s.os.children.map Child.pid)
  /-- There are no more children than pids. -/
  room : s.os.children.length ≤ PID_MAX
  /-- Every child was forked by this process. -/
  born : ∀ c ∈ s.os.children, c ∈ s.os.forkedChildren
  /-- Only a child that exited with status 255 halts the pool. -/
  halted : s.pool.halt = true → ∃ c ∈ s.os.forkedChildren, c.status = .exited 255

/-- What signal deliveries and reaping can change outside the pool: nothing is forked, the
children only become fewer, and a halt stays. -/
structure Procs.Reaps (s s' : Procs) : Prop where
  forked : s'.os.forked = s.os.forked
  forkedChildren : s'.os.forkedChildren = s.os.forkedChildren
  children : ∀ c ∈ s'.os.children, c ∈ s.os.children
  halt : s.pool.halt = true → s'.pool.halt = true

namespace Procs

theorem Reaps.refl (s : Procs) : s.Reaps s := ⟨rfl, rfl, fun _ h => h, fun h => h⟩

theorem Reaps.trans {s s' s'' : Procs} (h : s.Reaps s') (h' : s'.Reaps s'') : s.Reaps s'' where
  forked := h'.forked.trans h.forked
  forkedChildren := h'.forkedChildren.trans h.forkedChildren
  children := fun c hc => h.children c (h'.children c hc)
  halt := fun hh => h'.halt (h.halt hh)

/-- The pool counts the children in flight. -/
theorem Inv.count_eq {s : Procs} (h : s.Inv) : s.pool.count = s.os.children.length := by
  have hlen := h.live.length_eq
  rw [List.length_take, h.slots, Nat.min_eq_left h.count_le, List.length_map] at hlen
  exact hlen

theorem Inv.table {s : Procs} (h : s.Inv) : s.pool.Table (s.pool.pids.take s.pool.count) :=
  ProcessPool.table_take h.slots h.count_le

/-- A new pool and a process without children. -/
theorem inv_create (childMax : Int) (maxProcs : Nat) (signals : Signals) :
    Inv ⟨processPoolCreate childMax maxProcs, signals, Os.init, []⟩ where
  slots := List.length_replicate ..
  count_le := Nat.zero_le _
  live := List.Perm.refl _
  room := Nat.zero_le _
  born := fun _ hc => nomatch hc
  halted := fun h => nomatch h

end Procs

/-! ### `reap_one` -/

/-- Overwriting an element by the last one and dropping the last slot removes exactly this
element. Induction along the search for the element. -/
theorem perm_set_last {α : Type} [DecidableEq α] (a last : α) :
    ∀ l : List α, a ∈ l ++ [last] →
      (l ++ [last]).Perm (a :: ((l ++ [last]).set ((l ++ [last]).idxOf a) last).take l.length) := by
  intro l
  induction l with
  | nil =>
      intro hmem
      have ha : a = last := by simpa using hmem
      simp [ha]
  | cons x l ih =>
      intro hmem
      by_cases hx : x = a
      · subst hx
        have hset : ((x :: l ++ [last]).set ((x :: l ++ [last]).idxOf x) last).take (l.length + 1)
            = last :: l := by
          simp
        -- The search ends at the head: the last element moves there.
        rw [List.length_cons, hset]
        exact (List.perm_append_singleton last l).cons x
      · have hmem' : a ∈ l ++ [last] := by
          rw [List.cons_append] at hmem
          exact (List.mem_cons.mp hmem).resolve_left (Ne.symm hx)
        have hidx : (x :: l ++ [last]).idxOf a = (l ++ [last]).idxOf a + 1 := by
          rw [List.cons_append, List.idxOf_cons_ne _ hx]
        rw [hidx, List.cons_append, List.set_cons_succ, List.length_cons, List.take_succ_cons]
        exact ((ih hmem').cons x).trans (List.Perm.swap a x _)

/-- A pid in use has its slot among those in use. -/
theorem slotOf_lt {pool : ProcessPool} {pid : Pid} (hslots : pool.count ≤ pool.pids.length)
    (hmem : pid ∈ pool.pids.take pool.count) : pool.slotOf pid < pool.count := by
  have hlt := List.idxOf_lt_length_of_mem hmem
  rw [List.length_take, Nat.min_eq_left hslots] at hlt
  exact hlt

/-- The pids in use after `replaceWithLast` and the decrement: exactly `pid` is gone. -/
theorem replaceWithLast_perm {pool : ProcessPool} {pid : Pid}
    (hcount : 0 < pool.count) (hslots : pool.count ≤ pool.pids.length)
    (hmem : pid ∈ pool.pids.take pool.count) :
    (pool.pids.take pool.count).Perm
      (pid :: (pool.replaceWithLast pid).pids.take (pool.count - 1)) := by
  -- The last slot in use is slot `n`.
  obtain ⟨n, hn⟩ : ∃ n, pool.count = n + 1 := ⟨pool.count - 1, by omega⟩
  have hlast : pool.pids.take (n + 1) = pool.pids.take n ++ [pool.pids.getD n 0] := by
    rw [List.take_succ_eq_append_getElem (by omega), List.getD_eq_getElem?_getD,
      List.getElem?_eq_getElem (by omega), Option.getD_some]
  have hlen : (pool.pids.take n).length = n := by
    rw [List.length_take, Nat.min_eq_left (by omega)]
  have hslot := slotOf_lt hslots hmem
  have hperm := perm_set_last pid (pool.pids.getD n 0) (pool.pids.take n)
    (by rw [← hlast, ← hn]; exact hmem)
  rw [← hlast, hlen, List.take_set] at hperm
  rw [ProcessPool.replaceWithLast, if_pos hslot, ProcessPool.slotOf, hn, Nat.add_sub_cancel,
    List.take_set]
  rw [List.take_take, Nat.min_eq_left (Nat.le_succ n)] at hperm
  exact hperm

/-! ### One reap -/

/-- What a reap of `child` makes of the pool: everything but the slots, the halt and the status
stays. -/
structure ProcessPool.Forgets (pool : ProcessPool) (child : Child) (pool' : ProcessPool) : Prop where
  count : pool'.count = pool.count - 1
  capacity : pool'.capacity = pool.capacity
  maxProcs : pool'.maxProcs = pool.maxProcs
  childMax : pool'.childMax = pool.childMax
  pids : pool'.pids = (pool.replaceWithLast child.pid).pids
  slots : pool'.pids.length = pool.pids.length
  halt : pool'.halt = (pool.halt || (childExitStatus child.status).2)
  status : pool'.status = (accumulateStatus pool (childExitStatus child.status).1).status

/-- The two parts of `reap_one` together. -/
theorem ProcessPool.forgets (pool : ProcessPool) (child : Child) :
    pool.Forgets child ((pool.replaceWithLast child.pid).countReaped child.status) := by
  -- Neither the search nor the status decides about the other fields.
  unfold ProcessPool.countReaped accumulateStatus ProcessPool.replaceWithLast
  by_cases hfound : pool.slotOf child.pid < pool.count
  · rw [if_pos hfound]
    dsimp only
    split
    · rename_i hworse
      exact ⟨rfl, rfl, rfl, rfl, by rw [replaceWithLast, if_pos hfound], List.length_set .., rfl,
        by rw [accumulateStatus, if_pos hworse]⟩
    · rename_i hworse
      exact ⟨rfl, rfl, rfl, rfl, by rw [replaceWithLast, if_pos hfound], List.length_set .., rfl,
        by rw [accumulateStatus, if_neg hworse]⟩
  · rw [if_neg hfound]
    dsimp only
    split
    · rename_i hworse
      exact ⟨rfl, rfl, rfl, rfl, by rw [replaceWithLast, if_neg hfound], rfl, rfl,
        by rw [accumulateStatus, if_pos hworse]⟩
    · rename_i hworse
      exact ⟨rfl, rfl, rfl, rfl, by rw [replaceWithLast, if_neg hfound], rfl, rfl,
        by rw [accumulateStatus, if_neg hworse]⟩

/-- `child_exit_status` asks to halt exactly for the exit status 255. -/
theorem childExitStatus_halt (status : RawStatus) :
    (childExitStatus status).2 = true ↔ status = .exited 255 := by
  cases status with
  | signaled sig => simp [childExitStatus]
  | exited code =>
      by_cases h : code = 255
      · simp [childExitStatus, h]
      · by_cases h' : code = 0 ∨ code = 126 ∨ code = 127
        · simp [childExitStatus, h, h']
        · simp [childExitStatus, h, h']

/-- `reap_one` with a child in flight: it reports one child, and the pool forgets exactly
this one. -/
theorem reapOne_spec (w : World) {s : Procs} (hinv : s.Inv) (hcount : 0 < s.pool.count) :
    wp (reapOne w)
      (fun _ s' => s'.Inv ∧ s.Reaps s' ∧ s'.pool.count + 1 = s.pool.count ∧
        s'.pool.maxProcs = s.pool.maxProcs)
      (fun _ _ => False) s := by
  -- A child is in flight, so `waitpid` reports one.
  have hchildren : s.os.children ≠ [] := by
    intro hnil
    rw [hinv.count_eq, hnil] at hcount
    exact absurd hcount (Nat.lt_irrefl 0)
  obtain ⟨child, os, hwait⟩ := Os.waitpid_isSome (w := w) hchildren
  obtain ⟨hperm, hforked, hborn⟩ := Os.waitpid_some hwait
  have hslots : s.pool.count ≤ s.pool.pids.length := hinv.slots ▸ hinv.count_le
  -- Its pid is in the table, which is what `assert(found)` checks.
  have hmem : child.pid ∈ s.pool.pids.take s.pool.count := by
    rw [hinv.live.mem_iff, (hperm.map Child.pid).mem_iff]
    exact List.mem_cons_self
  have hslot := slotOf_lt hslots hmem
  have hforgets := s.pool.forgets child
  have hchild : child ∈ s.os.forkedChildren :=
    hinv.born child (hperm.mem_iff.mpr List.mem_cons_self)
  simp only [reapOne, wp_bind, wp_get, hwait, wp_set, hslot, not_true, false_and,
    if_false, wp_modify]
  refine ⟨⟨?_, ?_, ?_, ?_, ?_, ?_⟩, ⟨hforked, hborn, ?_, ?_⟩, ?_, hforgets.maxProcs⟩
  · rw [hforgets.slots, hforgets.capacity, hinv.slots]
  · rw [hforgets.count, hforgets.capacity]
    exact Nat.le_trans (Nat.sub_le _ _) hinv.count_le
  · -- The table and the kernel both lose this one child.
    rw [hforgets.pids, hforgets.count]
    have h := ((replaceWithLast_perm hcount hslots hmem).symm.trans hinv.live).trans
      (hperm.map Child.pid)
    rw [List.map_cons] at h
    exact h.cons_inv
  · show os.children.length ≤ PID_MAX
    have hlen := hperm.length_eq
    rw [List.length_cons] at hlen
    have hroom := hinv.room
    omega
  · intro c hc
    rw [hborn]
    exact hinv.born c (hperm.mem_iff.mpr (List.mem_cons_of_mem _ hc))
  · intro hh
    rw [hforgets.halt] at hh
    rw [hborn]
    -- The halt is an old one, or this child has asked for it.
    rcases Bool.or_eq_true_iff.mp hh with hold | hnew
    · exact hinv.halted hold
    · exact ⟨child, hchild, (childExitStatus_halt _).mp hnew⟩
  · intro c hc
    exact hperm.mem_iff.mpr (List.mem_cons_of_mem _ hc)
  · intro hh
    rw [hforgets.halt]
    exact Bool.or_eq_true_iff.mpr (Or.inl hh)
  · rw [hforgets.count]
    exact Nat.sub_add_cancel hcount

/-! ### Signals -/

/-- What reading the signal counters can change: neither the pool nor the children nor the
history. -/
structure Procs.Polls (s s' : Procs) : Prop where
  pool : s'.pool = s.pool
  children : s'.os.children = s.os.children
  log : s'.os.log = s.os.log

theorem Procs.Inv.polls {s s' : Procs} (hinv : s.Inv) (h : s.Polls s') : s'.Inv := by
  obtain ⟨hpool, hchildren, hlog⟩ := h
  obtain ⟨slots, count_le, live, room, born, halted⟩ := hinv
  have hborn : s'.os.forkedChildren = s.os.forkedChildren := by
    rw [Os.forkedChildren, hlog, Os.forkedChildren]
  rw [← hpool] at slots count_le live halted
  rw [← hchildren] at live room born
  rw [← hborn] at born halted
  exact ⟨slots, count_le, live, room, born, halted⟩

theorem Procs.Polls.reaps {s s' : Procs} (h : s.Polls s') : s.Reaps s' where
  forked := by rw [Os.forked, h.log, Os.forked]
  forkedChildren := by rw [Os.forkedChildren, h.log, Os.forkedChildren]
  children := fun c hc => h.children ▸ hc
  halt := fun hh => h.pool ▸ hh

theorem Procs.Polls.trans {s s' s'' : Procs} (h : s.Polls s') (h' : s'.Polls s'') :
    s.Polls s'' :=
  ⟨h'.pool.trans h.pool, h'.children.trans h.children, h'.log.trans h.log⟩

theorem readSigusr1Count_spec (w : World) (s : Procs) :
    wp (readSigusr1Count w) (fun _ s' => s.Polls s') (fun _ _ => False) s := by
  simp only [readSigusr1Count, wp_bind, wp_modify, wp_get, wp_pure]
  exact ⟨rfl, rfl, rfl⟩

theorem readSigusr2Count_spec (w : World) (s : Procs) :
    wp (readSigusr2Count w) (fun _ s' => s.Polls s') (fun _ _ => False) s := by
  simp only [readSigusr2Count, wp_bind, wp_modify, wp_get, wp_pure]
  exact ⟨rfl, rfl, rfl⟩

/-- A new limit may add slots. The slots in use stay. -/
theorem inv_adjust {s : Procs} (hinv : s.Inv) (u1 u2 : Int) :
    Procs.Inv { s with pool := s.pool.adjust u1 u2 } ∧
      (s.pool.adjust u1 u2).count = s.pool.count ∧
      (s.pool.adjust u1 u2).halt = s.pool.halt := by
  obtain ⟨hcount, -, hhalt⟩ := s.pool.adjust_fields u1 u2
  have htable := hinv.table.adjust u1 u2
  exact
    ⟨{ slots := htable.slots
       count_le := htable.count_le
       live := htable.inUse.take_eq ▸ hinv.live
       room := hinv.room
       born := hinv.born
       halted := fun hh => hinv.halted (hhalt ▸ hh) }, hcount, hhalt⟩

/-- `apply_signal_adjustments` reaps nothing and always returns. -/
theorem applySignalAdjustments_spec (w : World) {s : Procs} (hinv : s.Inv) :
    wp (applySignalAdjustments w)
      (fun _ s' => s'.Inv ∧ s.Reaps s' ∧ s'.os.children = s.os.children ∧
        s'.pool.halt = s.pool.halt)
      (fun _ _ => False) s := by
  simp only [applySignalAdjustments, wp_bind, wp_get, wp_ite, wp_pure, wp_modify]
  refine wp_mono_return (readSigusr1Count_spec w s) ?_
  intro _ s1 h1
  refine wp_mono_return (readSigusr2Count_spec w s1) ?_
  intro _ s2 h2
  have h02 := h1.trans h2
  split
  · exact ⟨hinv.polls h02, h02.reaps, h02.children, congrArg ProcessPool.halt h02.pool⟩
  · refine wp_mono_return (readSigusr1Count_spec w s2) ?_
    intro seen1 s3 h3
    refine wp_mono_return (readSigusr2Count_spec w _) ?_
    intro seen2 s4 h4
    -- Before the adjustment, only counters have changed.
    have h04 : s.Polls { s4 with signals := { s4.signals with appliedSigusr2 := seen2 } } :=
      ⟨h4.pool.trans (h3.pool.trans h02.pool), h4.children.trans (h3.children.trans h02.children),
        h4.log.trans (h3.log.trans h02.log)⟩
    obtain ⟨hinv', -, hhalt⟩ := inv_adjust (hinv.polls h04) _ _
    exact ⟨hinv', ⟨h04.reaps.forked, h04.reaps.forkedChildren, h04.reaps.children,
      fun hh => hhalt.trans (h04.reaps.halt hh)⟩, h04.children,
      hhalt.trans (congrArg ProcessPool.halt h04.pool)⟩

/-! ### Waiting, submitting and draining -/

/-- A pool is full under a limit that the slots in use have reached. -/
theorem ProcessPool.full_iff {pool : ProcessPool} :
    pool.full = true ↔ pool.maxProcs ≠ 0 ∧ pool.maxProcs ≤ pool.count := by
  simp [ProcessPool.full]

/-- A pool with room has no limit, or is below it. -/
theorem ProcessPool.not_full_iff {pool : ProcessPool} :
    pool.full = false ↔ pool.maxProcs = 0 ∨ pool.count < pool.maxProcs := by
  simp [ProcessPool.full, Decidable.or_iff_not_imp_left]

/-- The pool is full only under a positive limit, so a slot is in use. -/
theorem ProcessPool.count_pos_of_full {pool : ProcessPool} (h : pool.full = true) :
    0 < pool.count := by
  obtain ⟨hlimit, hle⟩ := ProcessPool.full_iff.mp h
  omega

/-- The rule of the loops of the pool, which reap only while a slot is in use. The bound on
their rounds is the count. Each reap lowers it, so the loop ends because its condition is
false. -/
theorem wp_reapWhile {w : World} {cond : Procs → Bool} {I : Procs → Prop}
    {E : Exit → Procs → Prop} (hcond : ∀ s : Procs, cond s = true → 0 < s.pool.count)
    (hreap : ∀ s : Procs, I s → 0 < s.pool.count →
      wp (reapOne w) (fun _ t => I t ∧ t.pool.count < s.pool.count) E s)
    {s : Procs} (hI : I s) :
    wp (whileDo cond (reapOne w) s.pool.count) (fun _ t => I t ∧ cond t = false) E s := by
  have hzero : ∀ t : Procs, I t → t.pool.count = 0 → cond t = false := by
    intro t _ hcount
    cases hc : cond t with
    | false => rfl
    | true => exact absurd hcount (Nat.pos_iff_ne_zero.mp (hcond t hc))
  exact wp_whileDo I (fun t => t.pool.count) hzero (fun t ht hc => hreap t ht (hcond t hc))
    s.pool.count s hI (Nat.le_refl _)

/-- The loops of the pool keep the invariant, and only reap. -/
theorem reapWhile_spec (w : World) {cond : Procs → Bool}
    (hcond : ∀ s : Procs, cond s = true → 0 < s.pool.count) {s : Procs} (hinv : s.Inv) :
    wp (whileDo cond (reapOne w) s.pool.count)
      (fun _ s' => (s'.Inv ∧ s.Reaps s') ∧ cond s' = false) (fun _ _ => False) s := by
  refine wp_reapWhile hcond ?_ ⟨hinv, .refl s⟩
  rintro s' ⟨hinv', hreaps⟩ hpos
  refine wp_mono_return (reapOne_spec w hinv' hpos) ?_
  rintro _ s'' ⟨hinv'', hreaps', hcount, -⟩
  exact ⟨⟨hinv'', hreaps.trans hreaps'⟩, by omega⟩

/-- `process_pool_wait_if_full` always returns, with room for one more child. -/
theorem processPoolWaitIfFull_spec (w : World) {s : Procs} (hinv : s.Inv) :
    wp (processPoolWaitIfFull w)
      (fun _ s' => s'.Inv ∧ s.Reaps s' ∧ s'.pool.full = false) (fun _ _ => False) s := by
  simp only [processPoolWaitIfFull, wp_bind, wp_get]
  refine wp_mono_return (applySignalAdjustments_spec w hinv) ?_
  rintro _ s' ⟨hinv', hreaps, -, -⟩
  refine wp_mono_return (reapWhile_spec w (fun _ => ProcessPool.count_pos_of_full) hinv') ?_
  rintro _ s'' ⟨⟨hinv'', hreaps'⟩, hfull⟩
  exact ⟨hinv'', hreaps.trans hreaps', hfull⟩

/-- `process_pool_drain` always returns, and no child is left. -/
theorem processPoolDrain_spec (w : World) {s : Procs} (hinv : s.Inv) :
    wp (processPoolDrain w)
      (fun _ s' => s'.Inv ∧ s.Reaps s' ∧ s'.os.children = []) (fun _ _ => False) s := by
  simp only [processPoolDrain, wp_bind, wp_get, wp_pure]
  refine wp_mono_return (reapWhile_spec w (fun _ => of_decide_eq_true) hinv) ?_
  rintro _ s' ⟨⟨hinv', hreaps⟩, hc⟩
  -- No slot is in use, so no child is in flight.
  have hzero : s'.pool.count = 0 := by simpa using hc
  rw [hinv'.count_eq] at hzero
  exact ⟨hinv', hreaps, List.length_eq_zero_iff.mp hzero⟩

/-- The state between `fork` and `process_pool_submit`: the invariant, but for the newest
child. -/
structure Procs.Unsubmitted (s : Procs) (child : Child) (before : Procs) : Prop where
  inv : before.Inv
  pool : s.pool = before.pool
  children : s.os.children = before.os.children ++ [child]
  forkedChildren : s.os.forkedChildren = before.os.forkedChildren ++ [child]
  room : before.os.children.length < PID_MAX

/-- `process_pool_submit` of the newest child always returns and restores the invariant. The
table has room, or it is doubled: the guard of the doubling is far above `PID_MAX`. -/
theorem processPoolSubmit_spec {s before : Procs} {child : Child}
    (h : s.Unsubmitted child before) :
    wp (processPoolSubmit child.pid)
      (fun _ s' => s'.Inv ∧ s'.os = s.os ∧ s'.pool.halt = s.pool.halt) (fun _ _ => False) s := by
  obtain ⟨hinv, hpool, hchildren, hborn, hroom⟩ := h
  have hmax : PID_MAX ≤ SIZE_MAX / 2 := by decide
  apply wp_mono (processPoolSubmit_submitted child.pid s)
  · intro _ t hsubmit
    obtain ⟨hsubmitted, hos, -⟩ := hsubmit
    have hbefore : s.pool.Table (before.pool.pids.take before.pool.count) := by
      rw [hpool]
      exact hinv.table
    have htable := hsubmitted.table hbefore
    refine ⟨⟨htable.slots, htable.count_le, ?_, ?_, ?_, ?_⟩, hos, hsubmitted.halt⟩
    · rw [htable.inUse.take_eq, hos, hchildren, List.map_append, List.map_singleton]
      exact hinv.live.append_right _
    · rw [hos, hchildren, List.length_append]
      exact hroom
    · intro c hc
      rw [hos, hchildren] at hc
      rw [hos, hborn]
      rcases List.mem_append.mp hc with hold | hnew
      · exact List.mem_append_left _ (hinv.born c hold)
      · exact List.mem_append_right _ hnew
    · intro hh
      rw [hsubmitted.halt, hpool] at hh
      obtain ⟨c, hc, hstatus⟩ := hinv.halted hh
      rw [hos, hborn]
      exact ⟨c, List.mem_append_left _ hc, hstatus⟩
  · -- There are no more slots in use than pids.
    intro _ _ hexit
    obtain ⟨hfull, hguard⟩ := hexit
    rw [hpool] at hfull hguard
    have hcount := hinv.count_eq
    omega

end Phxargs
