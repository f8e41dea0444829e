import Phxargs.Proofs.Ledger

/-!
# `Phxargs.Proofs.ExitStatus`: the documented precedence of the exit statuses

The man page orders the statuses by severity, "125 > 124 > 123 > 126/127". `severity` puts 126 and
127 on top instead, so a run with a command that could not be executed returns 126 or 127 whatever
else has failed. Without such a command, and where nothing else fails, the two orders agree
(`processPoolDrain_documented_iff`).
-/

set_option autoImplicit false

namespace Phxargs

open Lib

/-! ### The two orders -/

/-- The severity of a status in the man page. -/
def documentedRank (status : Nat) : Nat :=
  if status = 125 then 4
  else if status = 124 then 3
  else if status = 123 then 2
  else if status = 126 ∨ status = 127 then 1
  else 0

/-- The status is the most severe one of the children by the man page, 0 without a child. Of 126
and 127, either may be reported, and only if nothing else has gone wrong. -/
structure DocumentedStatus (children : List Child) (status : Nat) : Prop where
  mem : status = 0 ∨ status ∈ children.map Child.mappedStatus
  max : ∀ child ∈ children, documentedRank child.mappedStatus ≤ documentedRank status
  unexecuted : status = 126 ∨ status = 127 → ∀ child ∈ children,
    child.mappedStatus = 0 ∨ child.mappedStatus = 126 ∨ child.mappedStatus = 127

/-- The command was not executed: `exec_child` exits with 126 or 127, as a command may by itself. -/
def RawStatus.NotExecuted : RawStatus → Prop
  | .exited code => code = 126 ∨ code = 127
  | .signaled _ => False

/-- The command was executed, and has failed, halted the run or been killed. -/
def RawStatus.Failed : RawStatus → Prop
  | .exited code => code ≠ 0 ∧ code ≠ 126 ∧ code ≠ 127
  | .signaled _ => True

/-- The mapped status shows which of the two it is. -/
theorem Child.mappedStatus_cases (child : Child) :
    (child.status.NotExecuted ∧ ¬ child.status.Failed ∧
        (child.mappedStatus = 126 ∨ child.mappedStatus = 127)) ∨
      (child.status.Failed ∧ ¬ child.status.NotExecuted ∧
        (child.mappedStatus = 123 ∨ child.mappedStatus = 124 ∨ child.mappedStatus = 125)) ∨
      (¬ child.status.NotExecuted ∧ ¬ child.status.Failed ∧ child.mappedStatus = 0) := by
  obtain ⟨pid, status⟩ := child
  cases status with
  | signaled sig =>
      simp [RawStatus.NotExecuted, RawStatus.Failed, Child.mappedStatus, childExitStatus,
        PHXARGS_STATUS_SIGNALLED]
  | exited code =>
      by_cases h255 : code = 255
      · simp [RawStatus.NotExecuted, RawStatus.Failed, Child.mappedStatus, childExitStatus,
          PHXARGS_STATUS_HALT, h255]
      · by_cases hcode : code = 0 ∨ code = 126 ∨ code = 127
        · rcases hcode with rfl | rfl | rfl <;>
            simp [RawStatus.NotExecuted, RawStatus.Failed, Child.mappedStatus, childExitStatus]
        · have hne := hcode
          rw [not_or, not_or] at hne
          simp [RawStatus.NotExecuted, RawStatus.Failed, Child.mappedStatus, childExitStatus,
            PHXARGS_STATUS_CHILD_FAILED, h255, hne]

/-- Among the statuses of commands that were executed, the two orders agree. -/
theorem documentedRank_le_of_executed {a b : Nat} (ha : a = 0 ∨ a = 123 ∨ a = 124 ∨ a = 125)
    (hb : b = 0 ∨ b = 123 ∨ b = 124 ∨ b = 125) (h : severity a ≤ severity b) :
    documentedRank a ≤ documentedRank b := by
  revert h
  rcases ha with rfl | rfl | rfl | rfl <;> rcases hb with rfl | rfl | rfl | rfl <;> decide

/-- Among 0, 126 and 127 they agree as well. -/
theorem documentedRank_le_of_unexecuted {a b : Nat} (ha : a = 0 ∨ a = 126 ∨ a = 127)
    (hb : b = 0 ∨ b = 126 ∨ b = 127) (h : severity a ≤ severity b) :
    documentedRank a ≤ documentedRank b := by
  revert h
  rcases ha with rfl | rfl | rfl <;> rcases hb with rfl | rfl | rfl <;> decide

/-- 126 and 127 are on top of `severity`. -/
theorem eq_of_severity_ge {a b : Nat} (ha : a = 126 ∨ a = 127) (hb : IsMapped b)
    (h : severity a ≤ severity b) : b = 126 ∨ b = 127 := by
  revert h
  rcases ha with rfl | rfl <;> rcases hb with rfl | rfl | rfl | rfl | rfl | rfl <;> decide

/-- Every status of the children, and so the worst one, is one of these. -/
theorem WorstStatus.mem_of_forall {children : List Child} {status : Nat} {P : Nat → Prop}
    (h : WorstStatus children status) (hzero : P 0)
    (hchildren : ∀ child ∈ children, P child.mappedStatus) : P status := by
  rcases h.mem with rfl | hmem
  · exact hzero
  · obtain ⟨child, hchild, rfl⟩ := List.mem_map.mp hmem
    exact hchildren child hchild

/-- **Where the orders agree.** The worst status is the documented one, unless there are both a
command that was not executed and one that was executed and has failed. -/
theorem WorstStatus.documented_iff {children : List Child} {status : Nat}
    (h : WorstStatus children status) :
    DocumentedStatus children status ↔
      ¬ ((∃ child ∈ children, child.status.NotExecuted) ∧
        ∃ child ∈ children, child.status.Failed) := by
  constructor
  · rintro hdocumented ⟨⟨child, hchild, hnot⟩, child', hchild', hfailed⟩
    -- The command that was not executed decides, and the failure of the other one is not seen.
    have hmapped : child.mappedStatus = 126 ∨ child.mappedStatus = 127 := by
      rcases child.mappedStatus_cases with ⟨-, -, hm⟩ | ⟨-, hno, -⟩ | ⟨hno, -, -⟩
      · exact hm
      · exact absurd hnot hno
      · exact absurd hnot hno
    have hstatus := eq_of_severity_ge hmapped h.isMapped (h.max child hchild)
    have hmapped' := hdocumented.unexecuted hstatus child' hchild'
    rcases child'.mappedStatus_cases with ⟨-, hno, -⟩ | ⟨-, -, hm⟩ | ⟨-, hno, -⟩
    · exact hno hfailed
    · omega
    · exact hno hfailed
  · intro hboth
    by_cases hfailed : ∃ child ∈ children, child.status.Failed
    · have hchildren : ∀ child ∈ children, child.mappedStatus = 0 ∨ child.mappedStatus = 123 ∨
          child.mappedStatus = 124 ∨ child.mappedStatus = 125 := by
        intro child hchild
        rcases child.mappedStatus_cases with ⟨hnot, -, -⟩ | ⟨-, -, hm⟩ | ⟨-, -, hm⟩
        · exact absurd ⟨⟨child, hchild, hnot⟩, hfailed⟩ hboth
        · exact Or.inr hm
        · exact Or.inl hm
      have hstatus : status = 0 ∨ status = 123 ∨ status = 124 ∨ status = 125 :=
        h.mem_of_forall (P := fun s => s = 0 ∨ s = 123 ∨ s = 124 ∨ s = 125) (Or.inl rfl) hchildren
      refine ⟨h.mem, ?_, fun hunexecuted => by omega⟩
      intro child hchild
      exact documentedRank_le_of_executed (hchildren child hchild) hstatus (h.max child hchild)
    · have hchildren : ∀ child ∈ children, child.mappedStatus = 0 ∨ child.mappedStatus = 126 ∨
          child.mappedStatus = 127 := by
        intro child hchild
        rcases child.mappedStatus_cases with ⟨-, -, hm⟩ | ⟨hno, -, -⟩ | ⟨-, -, hm⟩
        · exact Or.inr hm
        · exact absurd ⟨child, hchild, hno⟩ hfailed
        · exact Or.inl hm
      have hstatus : status = 0 ∨ status = 126 ∨ status = 127 :=
        h.mem_of_forall (P := fun s => s = 0 ∨ s = 126 ∨ s = 127) (Or.inl rfl) hchildren
      refine ⟨h.mem, ?_, fun _ => hchildren⟩
      intro child hchild
      exact documentedRank_le_of_unexecuted (hchildren child hchild) hstatus (h.max child hchild)

/-! ### The drain -/

/-- **The exit status.** In every run of the pool, with children that end in any way and are
reported in any order, a drain returns. Its status is the documented one for the children that
have been forked, if and only if it is not the case that one of them was not executed and another
one was executed and has failed. -/
theorem processPoolDrain_documented_iff {w : World} {childMax : Int} {maxProcs : Nat}
    {steps : List (Procs × PoolCall)} {s : Procs}
    (h : Trace (PoolStep w) (Procs.start childMax maxProcs []) steps s) :
    ∃ status t, processPoolDrain w s = .ok status t ∧
      (DocumentedStatus s.os.forkedChildren status ↔
        ¬ ((∃ child ∈ s.os.forkedChildren, child.status.NotExecuted) ∧
          ∃ child ∈ s.os.forkedChildren, child.status.Failed)) := by
  obtain ⟨status, t, hdrain, hforked, -, hworst⟩ := (conserves_of_trace h).drains
  rw [hforked] at hworst
  exact ⟨status, t, hdrain, hworst.documented_iff⟩

/-- A run of two submissions to a new pool. -/
def submittedTwice (w : World) (image : Command) : Procs :=
  finalState (forkAndSubmit w image (finalState (forkAndSubmit w image (Procs.start 0 2 []))))

/-- The first child is killed by a signal, and every later one has this status. -/
def World.killedFirst (status : RawStatus) : World :=
  { World.quiet with fork := fun n => some ⟨n + 1, if n = 0 then .signaled 9 else status⟩ }

theorem submittedTwice_trace (status : RawStatus) (image : Command) :
    Trace (PoolStep (World.killedFirst status)) (Procs.start 0 2 [])
      [(Procs.start 0 2 [], .submit image),
        (finalState (forkAndSubmit (World.killedFirst status) image (Procs.start 0 2 [])),
          .submit image)] (submittedTwice (World.killedFirst status) image) := by
  have hfirst : PoolStep (World.killedFirst status) (.submit image) (Procs.start 0 2 [])
      (finalState (forkAndSubmit (World.killedFirst status) image (Procs.start 0 2 []))) :=
    ⟨trivial, rfl⟩
  have hsecond : PoolStep (World.killedFirst status) (.submit image)
      (finalState (forkAndSubmit (World.killedFirst status) image (Procs.start 0 2 [])))
      (submittedTwice (World.killedFirst status) image) := ⟨trivial, rfl⟩
  exact .cons hfirst (.cons hsecond (.nil _))

/-- A killed command and one that exits with 1: 125. -/
theorem processPoolDrain_documented_killed :
    ∃ opts mode status t, xargsCreate System.bare [] 1 [[120]] (.ofLines []) = .ok (opts, mode) ∧
      processPoolDrain (World.killedFirst (.exited 1))
        (submittedTwice (World.killedFirst (.exited 1)) mode.cmd) = .ok status t ∧
      DocumentedStatus [⟨1, .signaled 9⟩, ⟨2, .exited 1⟩] status := by
  obtain ⟨opts, mode, hcreate⟩ : ∃ opts mode,
      xargsCreate System.bare [] 1 [[120]] (.ofLines []) = .ok (opts, mode) := ⟨_, _, rfl⟩
  obtain ⟨status, t, hdrain, hiff⟩ :=
    processPoolDrain_documented_iff (submittedTwice_trace (.exited 1) mode.cmd)
  rw [show (submittedTwice (World.killedFirst (.exited 1)) mode.cmd).os.forkedChildren
    = [⟨1, .signaled 9⟩, ⟨2, .exited 1⟩] from rfl] at hiff
  refine ⟨opts, mode, status, t, hcreate, hdrain, hiff.mpr ?_⟩
  rintro ⟨⟨child, hchild, hnot⟩, -⟩
  rcases List.mem_pair.mp hchild with rfl | rfl
  · exact hnot
  · exact (show ¬ ((1 : UInt8) = 126 ∨ (1 : UInt8) = 127) by decide) hnot

/-- A killed command and one that was not found: the drain returns 127, and the man page has 125
above it. -/
theorem unexecuted_hides_killed :
    ∃ opts mode t, xargsCreate System.bare [] 1 [[120]] (.ofLines []) = .ok (opts, mode) ∧
      processPoolDrain (World.killedFirst (.exited 127))
        (submittedTwice (World.killedFirst (.exited 127)) mode.cmd) = .ok 127 t ∧
      t.os.forkedChildren = [⟨1, .signaled 9⟩, ⟨2, .exited 127⟩] ∧
      ¬ DocumentedStatus [⟨1, .signaled 9⟩, ⟨2, .exited 127⟩] 127 := by
  refine ⟨_, _, _, rfl, rfl, rfl, ?_⟩
  intro hdocumented
  have hmax := hdocumented.max ⟨1, .signaled 9⟩ List.mem_cons_self
  exact absurd hmax (by decide)

end Phxargs
