import Phxargs.Lib.Program
import Phxargs.Lib.Slots
import Phxargs.Model.Os

/-!
# `Phxargs.Model.ProcessPool`: the process pool

`process_pool.c`. `Procs` is the state that these functions share: the pool, the static
signal counters, and the kernel. Each read of a counter is a point where signal handlers can
run.

`pids` are the allocated slots, and the first `count` of them are in use.
-/

set_option autoImplicit false

namespace Phxargs

open Lib

/-- `struct process_pool_s`. -/
structure ProcessPool where
  maxProcs : Nat
  capacity : Nat
  childMax : Int
  count : Nat
  status : Nat
  halt : Bool
  pids : List Pid

/-- The counters of the signal handlers, and what has been applied of them. -/
structure Signals where
  sigusr1Count : Int
  sigusr2Count : Int
  appliedSigusr1 : Int
  appliedSigusr2 : Int

/-- The state of the pool functions. `warnings` are the lines that they write to standard error
before they go on. -/
structure Procs where
  pool : ProcessPool
  signals : Signals
  os : Os
  warnings : List String

/-- `severity`. -/
def severity (phxargsStatus : Nat) : Nat :=
  -- There is no severity 1: every status that is not listed counts as success.
  if phxargsStatus = PHXARGS_STATUS_NOT_FOUND then 6
  else if phxargsStatus = PHXARGS_STATUS_NOT_EXECUTABLE then 5
  else if phxargsStatus = PHXARGS_STATUS_SIGNALLED then 4
  else if phxargsStatus = PHXARGS_STATUS_HALT then 3
  else if phxargsStatus = PHXARGS_STATUS_CHILD_FAILED then 2
  else 0

/-- `accumulate_status`. -/
def accumulateStatus (pool : ProcessPool) (newStatus : Nat) : ProcessPool :=
  if severity newStatus > severity pool.status then { pool with status := newStatus } else pool

/-- `child_exit_status`: the mapped status, and whether the child asks to halt. -/
def childExitStatus : RawStatus → Nat × Bool
  | .exited code =>
      if code = 255 then (PHXARGS_STATUS_HALT, true)
      -- `exec_child` exits with 126 and 127 where `execvp` fails. A command that exits with one of
      -- them by itself is not told apart.
      else if code = 0 ∨ code = 126 ∨ code = 127 then (code.toNat, false)
      else (PHXARGS_STATUS_CHILD_FAILED, false)
  | .signaled _ => (PHXARGS_STATUS_SIGNALLED, false)

/-- What `child_exit_status` writes to standard error. -/
def childExitWarnings (status : RawStatus) : List String :=
  if status = .exited 255 then ["phxargs: child exited with status 255 -- halting"] else []

/-- The slot of `pid` among those in use, `count` if it has none. -/
def ProcessPool.slotOf (pool : ProcessPool) (pid : Pid) : Nat :=
  (pool.pids.take pool.count).idxOf pid

/-- The search loop of `reap_one`: the last pid in use replaces the one that ended. -/
def ProcessPool.replaceWithLast (pool : ProcessPool) (pid : Pid) : ProcessPool :=
  if pool.slotOf pid < pool.count then
    { pool with pids := pool.pids.set (pool.slotOf pid) (pool.pids.getD (pool.count - 1) 0) }
  else
    pool

/-- The end of `reap_one`: one slot less of those in use, and the status of the child. -/
def ProcessPool.countReaped (pool : ProcessPool) (status : RawStatus) : ProcessPool :=
  let mapped := childExitStatus status
  accumulateStatus { pool with count := pool.count - 1, halt := pool.halt || mapped.2 } mapped.1

/-- The status with which `abort` ends the process. -/
def ABORT_STATUS : Nat := 134

/-- `reap_one`. -/
def reapOne (w : World) : EStateM Exit Procs Unit := do
  let s ← get
  match s.os.waitpid w with
  | none => throw (Exit.failure .waitpidFailed)
  | some (child, os) =>
      set { s with os := os, pool := s.pool.replaceWithLast child.pid }
      -- The loop has run to `count` without a match. With `NDEBUG` the source goes on.
      if ¬ s.pool.slotOf child.pid < s.pool.count ∧ ¬ w.ndebug then
        throw ⟨ABORT_STATUS, .assertionFailed⟩
      else
        modify fun s => { s with
          pool := s.pool.countReaped child.status
          warnings := s.warnings ++ childExitWarnings child.status }

/-- The handlers that run before the next read of a counter. -/
def Procs.deliverSignals (w : World) (s : Procs) : Procs :=
  { s with
    signals :=
      { s.signals with
        sigusr1Count := s.signals.sigusr1Count + w.usr1 s.os.reads
        sigusr2Count := s.signals.sigusr2Count + w.usr2 s.os.reads }
    os := { s.os with reads := s.os.reads + 1 } }

/-- A read of `sigusr1_count`. -/
def readSigusr1Count (w : World) : EStateM Exit Procs Int := do
  modify (·.deliverSignals w)
  return (← get).signals.sigusr1Count

/-- A read of `sigusr2_count`. -/
def readSigusr2Count (w : World) : EStateM Exit Procs Int := do
  modify (·.deliverSignals w)
  return (← get).signals.sigusr2Count

/-- The new limit of `apply_signal_adjustments`, clamped to `1 .. child_max`. -/
def adjustedMaxProcs (pool : ProcessPool) (u1 u2 : Int) : Int :=
  let newMax := pool.maxProcs + u1 - u2
  let newMax := if newMax < 1 then 1 else newMax
  -- `sysconf` answers `-1` where there is no limit.
  if pool.childMax > 0 ∧ newMax > pool.childMax then pool.childMax else newMax

/-- The pool part of `apply_signal_adjustments`. A limit of `0` is unlimited and stays. -/
def ProcessPool.adjust (pool : ProcessPool) (u1 u2 : Int) : ProcessPool :=
  if pool.maxProcs = 0 then
    pool
  else
    let newMax := (adjustedMaxProcs pool u1 u2).toNat
    -- The slots only grow: a lower limit leaves the slots of the running children alone.
    let grown :=
      if newMax > pool.capacity then
        { pool with
          pids := pool.pids ++ List.replicate (newMax - pool.capacity) 0
          capacity := newMax }
      else
        pool
    { grown with maxProcs := newMax }

/-- `apply_signal_adjustments`. -/
def applySignalAdjustments (w : World) : EStateM Exit Procs Unit := do
  let u1 := (← readSigusr1Count w) - (← get).signals.appliedSigusr1
  let u2 := (← readSigusr2Count w) - (← get).signals.appliedSigusr2
  if u1 = 0 ∧ u2 = 0 then
    pure ()
  else
    -- The counters are read a second time, so a handler can have run since `u1` and `u2`.
    let seen1 ← readSigusr1Count w
    modify fun s => { s with signals := { s.signals with appliedSigusr1 := seen1 } }
    let seen2 ← readSigusr2Count w
    modify fun s => { s with signals := { s.signals with appliedSigusr2 := seen2 } }
    -- The signals are marked as applied before the check for an unlimited pool.
    modify fun s => { s with pool := s.pool.adjust u1 u2 }

/-- `process_pool_create`. -/
def processPoolCreate (childMax : Int) (maxProcs : Nat) : ProcessPool :=
  let capacity := if maxProcs = 0 then 16 else maxProcs
  { maxProcs := maxProcs
    capacity := capacity
    childMax := childMax
    count := 0
    status := 0
    halt := false
    pids := List.replicate capacity 0 }

/-- `process_pool_halted`. -/
def processPoolHalted (pool : ProcessPool) : Bool := pool.halt

/-- The loop condition of `process_pool_wait_if_full`. -/
def ProcessPool.full (pool : ProcessPool) : Bool :=
  pool.maxProcs ≠ 0 && pool.count ≥ pool.maxProcs

/-- `process_pool_wait_if_full`. -/
def processPoolWaitIfFull (w : World) : EStateM Exit Procs Unit := do
  applySignalAdjustments w
  -- Each round takes one slot away, so `count` rounds are enough.
  whileDo (fun s => s.pool.full) (reapOne w) (← get).pool.count

/-- `process_pool_submit`. -/
def processPoolSubmit (pid : Pid) : EStateM Exit Procs Unit := do
  let pool := (← get).pool
  if pool.count = pool.capacity then
    let capacity ← ofExcept (phxargsDoubleCapacity pool.capacity)
    modify fun s => { s with
      pool :=
        { pool with
          pids := (pool.pids ++ List.replicate (capacity - pool.capacity) 0).set pool.count pid
          capacity := capacity
          count := pool.count + 1 } }
  else
    modify fun s => { s with
      pool := { pool with pids := pool.pids.set pool.count pid, count := pool.count + 1 } }

/-- `process_pool_drain`. -/
def processPoolDrain (w : World) : EStateM Exit Procs Nat := do
  whileDo (fun s => s.pool.count > 0) (reapOne w) (← get).pool.count
  return (← get).pool.status

/-! ### The table of pids -/

/-- The table has as many slots as the capacity says, and those in use hold these pids. -/
structure ProcessPool.Table (pool : ProcessPool) (pids : List Pid) : Prop where
  slots : pool.pids.length = pool.capacity
  inUse : InUse pool.pids pool.count pids

namespace ProcessPool

theorem Table.count_le {pool : ProcessPool} {pids : List Pid} (h : pool.Table pids) :
    pool.count ≤ pool.capacity :=
  h.slots ▸ h.inUse.le_length

/-- The table where the slots in use are not named otherwise. -/
theorem table_take {pool : ProcessPool} (hslots : pool.pids.length = pool.capacity)
    (hcount : pool.count ≤ pool.capacity) : pool.Table (pool.pids.take pool.count) :=
  ⟨hslots, hslots ▸ hcount, rfl⟩

/-- New slots are behind the old ones. -/
theorem Table.grow {pool : ProcessPool} {pids : List Pid} (h : pool.Table pids) {capacity : Nat}
    (hlt : pool.capacity < capacity) :
    Table { pool with
      pids := pool.pids ++ List.replicate (capacity - pool.capacity) 0
      capacity := capacity } pids where
  slots := by
    show (pool.pids ++ List.replicate (capacity - pool.capacity) 0).length = capacity
    rw [List.length_append, List.length_replicate, h.slots]
    omega
  inUse := h.inUse.grow _

/-- The first free slot is taken. -/
theorem Table.take {pool : ProcessPool} {pids : List Pid} (h : pool.Table pids)
    (hfree : pool.count < pool.capacity) (pid : Pid) :
    Table { pool with pids := pool.pids.set pool.count pid, count := pool.count + 1 }
      (pids ++ [pid]) where
  slots := by
    show (pool.pids.set pool.count pid).length = pool.capacity
    rw [List.length_set, h.slots]
  inUse := h.inUse.store (h.slots ▸ hfree) pid

/-- An adjustment keeps the slots in use. -/
theorem Table.adjust {pool : ProcessPool} {pids : List Pid} (h : pool.Table pids) (u1 u2 : Int) :
    (pool.adjust u1 u2).Table pids := by
  unfold ProcessPool.adjust
  dsimp only
  split
  · exact h
  · split
    · rename_i hgrow
      exact ⟨(h.grow hgrow).slots, (h.grow hgrow).inUse⟩
    · exact ⟨h.slots, h.inUse⟩

/-- An adjustment changes the limit and the table only. -/
theorem adjust_fields (pool : ProcessPool) (u1 u2 : Int) :
    (pool.adjust u1 u2).count = pool.count ∧ (pool.adjust u1 u2).status = pool.status ∧
      (pool.adjust u1 u2).halt = pool.halt := by
  unfold ProcessPool.adjust
  dsimp only
  split
  · exact ⟨rfl, rfl, rfl⟩
  · split
    · exact ⟨rfl, rfl, rfl⟩
    · exact ⟨rfl, rfl, rfl⟩

/-- What a submission makes of the pool: the pid has a slot, and nothing but the table changes. -/
structure Submitted (pid : Pid) (pool pool' : ProcessPool) : Prop where
  table : ∀ {pids : List Pid}, pool.Table pids → pool'.Table (pids ++ [pid])
  count : pool'.count = pool.count + 1
  maxProcs : pool'.maxProcs = pool.maxProcs
  childMax : pool'.childMax = pool.childMax
  status : pool'.status = pool.status
  halt : pool'.halt = pool.halt

end ProcessPool

/-- `process_pool_submit` takes a slot, or it exits in the guard of the doubling. -/
theorem processPoolSubmit_submitted (pid : Pid) (s : Procs) :
    wp (processPoolSubmit pid)
      (fun _ t => s.pool.Submitted pid t.pool ∧ t.os = s.os ∧ t.warnings = s.warnings)
      (fun _ _ => s.pool.count = s.pool.capacity ∧ SIZE_MAX / 2 < s.pool.capacity) s := by
  simp only [processPoolSubmit, wp_bind, wp_get, wp_ite, wp_modify]
  split
  · -- The table is full: it is doubled.
    rename_i hfull
    cases hdouble : phxargsDoubleCapacity s.pool.capacity with
    | error e => exact ⟨hfull, (phxargsDoubleCapacity_error hdouble).2⟩
    | ok capacity =>
        have hlt := lt_of_phxargsDoubleCapacity hdouble
        have hfree : s.pool.count < capacity := hfull ▸ hlt
        exact ⟨⟨fun h => (h.grow hlt).take hfree pid, rfl, rfl, rfl, rfl, rfl⟩, rfl, rfl⟩
  · rename_i hroom
    exact ⟨⟨fun h => h.take (Nat.lt_of_le_of_ne h.count_le hroom) pid, rfl, rfl, rfl, rfl, rfl⟩,
      trivial, trivial⟩

end Phxargs
