import Phxargs.Proofs.Refinement

/-!
# `Phxargs.Proofs.Parallelism`: the limit on processes does not change what is run

Two command lines that differ only in `-P` have the same plan. Their runs follow it in any
two worlds, with any orders of child terminations and any signals. So they agree, unless a
child asks to halt, and a run that halts has only forked less.
-/

set_option autoImplicit false

namespace Phxargs

open Lib

/-- The argvs of the forked commands, in fork order. -/
def XargsMode.argvs (s : XargsMode) : List (List CStr) := s.forked.map buildExecArgs

/-- No child of the run exits with status 255. -/
def XargsMode.NoHalt (s : XargsMode) : Prop :=
  ∀ child ∈ s.procs.os.forkedChildren, child.status ≠ .exited 255

instance (s : XargsMode) : Decidable s.NoHalt :=
  inferInstanceAs (Decidable (∀ child ∈ s.procs.os.forkedChildren, _))

/-- The options without the limit on processes and without the position of the operands. -/
def Options.batching (opts : Options) : Options := { opts with maxProcs := 0, optindVal := 0 }

/-- Two command lines with the same options but for `-P`, and with the same operands.
`getopt` leaves `optind` within the command line. -/
structure SameButMaxProcs (opts₁ opts₂ : Options) (argv₁ argv₂ : List CStr) : Prop where
  options : opts₁.batching = opts₂.batching
  operands : argv₁.drop opts₁.optindVal = argv₂.drop opts₂.optindVal
  inside₁ : opts₁.optindVal ≤ argv₁.length
  inside₂ : opts₂.optindVal ≤ argv₂.length

/-- `command_create` uses the operands alone. -/
theorem commandCreate_operands (sys : System) (opts : Options) {argIndex : Nat}
    {argv : List CStr} (h : argIndex ≤ argv.length) :
    commandCreate sys opts argIndex argv = commandCreate sys opts.batching 0 (argv.drop argIndex) := by
  have hlength : (argv.drop argIndex).length = argv.length - argIndex := List.length_drop
  have hempty : (0 = argv.length - argIndex) ↔ argIndex = argv.length := by omega
  show _ = commandCreate sys opts 0 (argv.drop argIndex)
  -- `optind` is used in the test for no operands and in the number of them, no more.
  unfold commandCreate
  simp only [hlength, hempty, List.drop_zero, Nat.sub_zero]

/-- Command lines that differ only in `-P` start with the same command. -/
theorem SameButMaxProcs.commandCreate {opts₁ opts₂ : Options} {argv₁ argv₂ : List CStr}
    (h : SameButMaxProcs opts₁ opts₂ argv₁ argv₂) (sys : System) :
    Phxargs.commandCreate sys opts₁ opts₁.optindVal argv₁
      = Phxargs.commandCreate sys opts₂ opts₂.optindVal argv₂ := by
  rw [commandCreate_operands sys opts₁ h.inside₁, commandCreate_operands sys opts₂ h.inside₂,
    h.options, h.operands]

/-- The plan does not depend on the limit. -/
theorem planOf_batching (opts : Options) (cmd : Command) (stream : TokenStream) :
    planOf opts cmd stream = planOf opts.batching cmd stream := rfl

/-- **Parallelism.** Take two accepted command lines that differ only in `-P`, and two worlds
in which `fork` succeeds. If no child exits with status 255, both runs fork the same
sequence of argvs, have the same exit, and leave the same tokens unread. A run with such a
child forks a prefix of what the other one forks. If both have such children, one of
the two sequences is a prefix of the other. -/
theorem xargsRun_parallelism {sys : System} {scanned₁ scanned₂ : List Getopt}
    {optind₁ optind₂ : Nat} {argv₁ argv₂ : List CStr} {stream : TokenStream}
    {opts₁ opts₂ : Options} {s₁ s₂ : XargsMode}
    (hcreate₁ : xargsCreate sys scanned₁ optind₁ argv₁ stream = .ok (opts₁, s₁))
    (hcreate₂ : xargsCreate sys scanned₂ optind₂ argv₂ stream = .ok (opts₂, s₂))
    (hsame : SameButMaxProcs opts₁ opts₂ argv₁ argv₂) (w₁ w₂ : World)
    (hfork₁ : exitOf (xargsRun w₁ opts₁ s₁) ≠ some Exit.forkFailed)
    (hfork₂ : exitOf (xargsRun w₂ opts₂ s₂) ≠ some Exit.forkFailed) :
    let run₁ := xargsRun w₁ opts₁ s₁
    let run₂ := xargsRun w₂ opts₂ s₂
    let final₁ := finalState run₁
    let final₂ := finalState run₂
    (final₁.NoHalt → final₂.NoHalt → final₁.argvs = final₂.argvs ∧
      exitOf run₁ = exitOf run₂ ∧ final₁.toker.tokens = final₂.toker.tokens) ∧
    (final₁.NoHalt → final₂.argvs <+: final₁.argvs) ∧
    (final₂.NoHalt → final₁.argvs <+: final₂.argvs) ∧
    (final₁.argvs <+: final₂.argvs ∨ final₂.argvs <+: final₁.argvs) := by
  intro run₁ run₂ final₁ final₂
  obtain ⟨-, hstarts₁, htoker₁, hcommand₁⟩ := xargsCreate_spec hcreate₁
  obtain ⟨-, hstarts₂, htoker₂, hcommand₂⟩ := xargsCreate_spec hcreate₂
  have hcmd : s₁.cmd = s₂.cmd := by
    have heq := hsame.commandCreate sys
    rw [hcommand₁, hcommand₂] at heq
    exact Except.ok.inj heq
  have hplan : planOf opts₁ s₁.cmd s₁.toker = planOf opts₂ s₂.cmd s₂.toker := by
    rw [planOf_batching opts₁, planOf_batching opts₂, hsame.options, hcmd, htoker₁, htoker₂]
  have hfollows₁ := xargsRun_follows w₁ opts₁ hstarts₁
  have hfollows₂ := xargsRun_follows w₂ opts₂ hstarts₂
  -- Both runs are measured against the one plan.
  rw [hplan] at hfollows₁
  have hpart₁ := hfollows₁.forked_isPrefix hstarts₁
  have hpart₂ := hfollows₂.forked_isPrefix hstarts₂
  have hwhole₁ : final₁.NoHalt → final₁.forked = (planOf opts₂ s₂.cmd s₂.toker).commands ∧
      exitOf run₁ = (planOf opts₂ s₂.cmd s₂.toker).exit ∧
      final₁.toker.tokens = (planOf opts₂ s₂.cmd s₂.toker).rest :=
    fun hno => hfollows₁.completes hstarts₁ (hfollows₁.running hno) hfork₁
  have hwhole₂ : final₂.NoHalt → final₂.forked = (planOf opts₂ s₂.cmd s₂.toker).commands ∧
      exitOf run₂ = (planOf opts₂ s₂.cmd s₂.toker).exit ∧
      final₂.toker.tokens = (planOf opts₂ s₂.cmd s₂.toker).rest :=
    fun hno => hfollows₂.completes hstarts₂ (hfollows₂.running hno) hfork₂
  refine ⟨?_, ?_, ?_, ?_⟩
  · intro hno₁ hno₂
    obtain ⟨hforked₁, hexit₁, hrest₁⟩ := hwhole₁ hno₁
    obtain ⟨hforked₂, hexit₂, hrest₂⟩ := hwhole₂ hno₂
    refine ⟨?_, hexit₁.trans hexit₂.symm, hrest₁.trans hrest₂.symm⟩
    show final₁.forked.map buildExecArgs = final₂.forked.map buildExecArgs
    rw [hforked₁, hforked₂]
  · intro hno₁
    -- The other run has forked a part of the plan, and this one all of it.
    rw [← (hwhole₁ hno₁).1] at hpart₂
    exact hpart₂.map buildExecArgs
  · intro hno₂
    rw [← (hwhole₂ hno₂).1] at hpart₁
    exact hpart₁.map buildExecArgs
  · -- Two parts of one plan.
    rcases List.prefix_or_prefix_of_prefix hpart₁ hpart₂ with h | h
    · exact Or.inl (h.map buildExecArgs)
    · exact Or.inr (h.map buildExecArgs)

/-- `printf 'a\nb\nc\n' | phxargs -n1 -P2 c` against the same without `-P2`. In the second
world the children are reported in another order, and a signal raises the limit. -/
theorem xargsRun_parallelism_two_limits :
    ∃ opts₁ s₁ opts₂ s₂, xargsCreate System.bare [.optn [49], .optP [50]] 3
        [[120], [45, 110, 49], [45, 80, 50], [99]] (.ofLines [[97], [98], [99]]) = .ok (opts₁, s₁) ∧
      xargsCreate System.bare [.optn [49]] 2 [[120], [45, 110, 49], [99]]
        (.ofLines [[97], [98], [99]]) = .ok (opts₂, s₂) ∧
      (finalState (xargsRun World.quiet opts₁ s₁)).argvs
        = (finalState (xargsRun { World.quiet with wait := id, usr1 := id } opts₂ s₂)).argvs := by
  obtain ⟨opts₁, s₁, opts₂, s₂, hcreate₁, hcreate₂, hsame, hfork₁, hfork₂, hno₁, hno₂⟩ :
      ∃ opts₁ s₁ opts₂ s₂, xargsCreate System.bare [.optn [49], .optP [50]] 3
        [[120], [45, 110, 49], [45, 80, 50], [99]] (.ofLines [[97], [98], [99]]) = .ok (opts₁, s₁) ∧
      xargsCreate System.bare [.optn [49]] 2 [[120], [45, 110, 49], [99]]
        (.ofLines [[97], [98], [99]]) = .ok (opts₂, s₂) ∧
      SameButMaxProcs opts₁ opts₂ [[120], [45, 110, 49], [45, 80, 50], [99]]
        [[120], [45, 110, 49], [99]] ∧
      exitOf (xargsRun World.quiet opts₁ s₁) ≠ some Exit.forkFailed ∧
      exitOf (xargsRun { World.quiet with wait := id, usr1 := id } opts₂ s₂)
        ≠ some Exit.forkFailed ∧
      (finalState (xargsRun World.quiet opts₁ s₁)).NoHalt ∧
      (finalState (xargsRun { World.quiet with wait := id, usr1 := id } opts₂ s₂)).NoHalt := by
    exact ⟨_, _, _, _, rfl, rfl, ⟨by decide +kernel, rfl, by decide +kernel, by decide +kernel⟩,
      by decide +kernel, by decide +kernel, by decide +kernel, by decide +kernel⟩
  exact ⟨opts₁, s₁, opts₂, s₂, hcreate₁, hcreate₂,
    ((xargsRun_parallelism hcreate₁ hcreate₂ hsame _ _ hfork₁ hfork₂).1 hno₁ hno₂).1⟩

end Phxargs
