import Phxargs.Proofs.Ledger

/-!
# `Phxargs.Proofs.Limit`: the limit on processes

`max_procs` is a count, and 0 stands for no limit. Signals change it while the run goes on, but
`apply_signal_adjustments` leaves 0 alone and clamps everything else to `1 .. child_max`. So a
limit stays a limit, and no limit stays no limit (`LimitKept`). A fork comes only behind a wait
for room under the limit of that moment.

For `-p` the limit ought to be 1 all the time. `configure_options` refuses only a limit that is
greater than 1, and the signals do not look at the option. `prompt_exclusive_iff` says what is
left of it.
-/

set_option autoImplicit false

namespace Phxargs

open Lib

/-! ### Options -/

/-- Only `-P` sets the limit, and it refuses more than the system allows. -/
theorem ParsedOption.maxProcs_le {childMax : Int} (hpos : childMax > 0) {o o' : Options}
    (h : ParsedOption childMax o o') (hle : (o.maxProcs : Int) ≤ childMax) :
    (o'.maxProcs : Int) ≤ childMax := by
  cases h with
  | placeholder optarg => exact hle
  | lines n _ => exact hle
  | args n _ => exact hle
  | length n _ => exact hle
  | procs n hallowed => exact hallowed hpos
  | other hsame =>
      rw [hsame.maxProcs]
      exact hle

/-- The implications do not touch the limit. -/
theorem applyImplications_maxProcs (o : Options) :
    (applyImplications o).maxProcs = o.maxProcs := by
  by_cases h : o.argPlaceholder = none
  · rw [applyImplications_of_none h]
  · rw [applyImplications_of_some h]

/-- What an accepted option sequence says about the limit. -/
theorem optionsCreate_maxProcs {childMax : Int} {scanned : List Getopt} {optind : Nat}
    {o : Options} (h : optionsCreate childMax scanned optind = .ok o) :
    (childMax > 0 → (o.maxProcs : Int) ≤ childMax) ∧ (o.prompt = true → o.maxProcs ≤ 1) := by
  obtain ⟨o', hp, hexclusive, rfl⟩ := optionsCreate_cases h
  constructor
  · intro hpos
    show ((applyImplications o').maxProcs : Int) ≤ childMax
    rw [applyImplications_maxProcs]
    exact parseOptions_invariant (I := fun o => (o.maxProcs : Int) ≤ childMax)
      (ParsedOption.maxProcs_le hpos) scanned hp (show (1 : Int) ≤ childMax from hpos)
  · intro hprompt
    by_contra hlarge
    exact hexclusive ⟨hprompt, Nat.not_le.mp hlarge⟩

/-- The limits of a mode that has been created. -/
theorem xargsCreate_maxProcs {sys : System} {scanned : List Getopt} {optind : Nat}
    {argv : List CStr} {stream : TokenStream} {opts : Options} {s : XargsMode}
    (h : xargsCreate sys scanned optind argv stream = .ok (opts, s)) :
    (sys.childMax > 0 → (opts.maxProcs : Int) ≤ sys.childMax) ∧
      (opts.prompt = true → opts.maxProcs ≤ 1) :=
  optionsCreate_maxProcs (xargsCreate_cases h).1

/-! ### Signals -/

/-- The limit that an adjustment computes is in range. -/
theorem adjustedMaxProcs_range (pool : ProcessPool) (u1 u2 : Int) :
    1 ≤ adjustedMaxProcs pool u1 u2 ∧
      (pool.childMax > 0 → adjustedMaxProcs pool u1 u2 ≤ pool.childMax) := by
  unfold adjustedMaxProcs
  dsimp only
  -- First the clamp from below, then the one from above.
  split
  · split
    · omega
    · omega
  · split
    · omega
    · omega

theorem adjust_maxProcs (pool : ProcessPool) (u1 u2 : Int) :
    (pool.adjust u1 u2).childMax = pool.childMax ∧
      (pool.adjust u1 u2).maxProcs =
        if pool.maxProcs = 0 then 0 else (adjustedMaxProcs pool u1 u2).toNat := by
  unfold ProcessPool.adjust
  dsimp only
  split
  · rename_i hzero
    exact ⟨rfl, hzero⟩
  · split
    · exact ⟨rfl, rfl⟩
    · exact ⟨rfl, rfl⟩

/-- The limit of a pool that started with the limit `started`. -/
structure LimitKept (childMax : Int) (started : Nat) (pool : ProcessPool) : Prop where
  childMax_eq : pool.childMax = childMax
  unlimited : started = 0 → pool.maxProcs = 0
  limited : started ≠ 0 → 1 ≤ pool.maxProcs ∧ (childMax > 0 → (pool.maxProcs : Int) ≤ childMax)

/-- An adjustment keeps the limit in its range, and no limit as it is. -/
theorem LimitKept.adjust {childMax : Int} {started : Nat} {pool : ProcessPool}
    (h : LimitKept childMax started pool) (u1 u2 : Int) :
    LimitKept childMax started (pool.adjust u1 u2) := by
  obtain ⟨hchildMax, hmax⟩ := adjust_maxProcs pool u1 u2
  obtain ⟨hlow, hhigh⟩ := adjustedMaxProcs_range pool u1 u2
  have hsame := h.childMax_eq
  constructor
  · exact hchildMax.trans hsame
  · intro hzero
    rw [hmax, if_pos (h.unlimited hzero)]
  · intro hne
    have hpos := (h.limited hne).1
    -- A limit is not 0, so the adjustment does not return early on the sentinel.
    rw [hmax, if_neg (by omega)]
    refine ⟨by omega, fun hchild => ?_⟩
    have := hhigh (by omega)
    omega

/-- What does not change the limit keeps it. -/
theorem LimitKept.of_eq {childMax : Int} {started : Nat} {pool pool' : ProcessPool}
    (h : LimitKept childMax started pool) (hchildMax : pool'.childMax = pool.childMax)
    (hmax : pool'.maxProcs = pool.maxProcs) : LimitKept childMax started pool' where
  childMax_eq := hchildMax.trans h.childMax_eq
  unlimited := fun hzero => hmax.trans (h.unlimited hzero)
  limited := fun hne => hmax ▸ h.limited hne

/-- **The step lemma.** -/
theorem LimitKept.step {w : World} {childMax : Int} {started : Nat} (call : PoolCall) (s t : Procs)
    (h : LimitKept childMax started s.pool) (hstep : PoolStep w call s t) :
    LimitKept childMax started t.pool := by
  cases call with
  | adjust =>
      rw [hstep.adjust_cases.1, Procs.adjustedPool]
      split
      · exact h
      · exact h.adjust _ _
  | reap =>
      obtain ⟨child, -, hforgets⟩ := hstep.reap_forgets
      exact h.of_eq hforgets.childMax hforgets.maxProcs
  | submit image =>
      obtain ⟨child, hsubmits⟩ := hstep.submit_cases
      exact h.of_eq hsubmits.childMax hsubmits.maxProcs

theorem limitKept_start {childMax : Int} {maxProcs : Nat}
    (h : childMax > 0 → (maxProcs : Int) ≤ childMax) (inherited : List Child) :
    LimitKept childMax maxProcs (Procs.start childMax maxProcs inherited).pool where
  childMax_eq := rfl
  unlimited := id
  limited := fun hne => ⟨Nat.pos_of_ne_zero hne, h⟩

/-! ### Room for the fork -/

/-- A fork comes behind a wait for room, so the new child is within the limit. -/
theorem ModeStep.submit_le {w : World} {image : Command} {s t : Procs} (hinv : s.Inv)
    (h : ModeStep w (.submit image) s t) (hlimit : t.pool.maxProcs ≠ 0) :
    t.os.children.length ≤ t.pool.maxProcs := by
  obtain ⟨child, hsubmits⟩ := h.toPoolStep.submit_cases
  -- The wait has left `count < max_procs`, and the fork adds one.
  have hroom := ProcessPool.not_full_iff.mp (h.ready image rfl).2
  have hcount := hinv.count_eq
  rw [hsubmits.maxProcs] at hlimit ⊢
  rw [hsubmits.children, List.length_append, List.length_singleton, ← hcount]
  omega

/-- `xargs_mode_execute_command` leaves at most as many children as the limit allows, unless
it forks nothing because of a halt. -/
theorem xargsModeExecuteCommand_le (w : World) {s : XargsMode} (hinv : s.procs.Inv) :
    wp (xargsModeExecuteCommand w)
      (fun _ t => t.halted = false → t.procs.pool.maxProcs ≠ 0 →
        t.procs.os.children.length ≤ t.procs.pool.maxProcs)
      (fun _ _ => True) s := by
  have hwait : wp (processPoolWaitIfFull w) (fun _ _ => True) (fun _ _ => False) s.procs :=
    wp_mono_return (processPoolWaitIfFull_spec w hinv) fun _ _ _ => trivial
  apply wp_executeCommand hinv hwait
  · intro p _ _ hhalt hrunning
    exact absurd hhalt (XargsMode.not_halted (s := { s with procs := p }) hrunning)
  · exact fun _ _ _ _ _ => trivial
  · exact fun p q _ hinv' _ hstep _ hlimit => hstep.submit_le hinv' hlimit

/-- **The limit.** In every run of the pool of an accepted command line, a limit stays between 1
and `child_max`, and no limit stays no limit. Every run of a mode is a run of the pool. When
`xargs_mode_execute_command` has submitted a child, from whatever state a run of the pool has
reached, there are no more children in flight than the limit of that moment allows. -/
theorem maxProcs_bounded {sys : System} {scanned : List Getopt} {optind : Nat}
    {argv : List CStr} {stream : TokenStream} {opts : Options} {s : XargsMode}
    (hcreate : xargsCreate sys scanned optind argv stream = .ok (opts, s)) (w : World) :
    (∀ steps p, Trace (PoolStep w) s.procs steps p →
      LimitKept sys.childMax opts.maxProcs p.pool) ∧
    Leads (PoolStep w) s.procs (finalState (xargsRun w opts s)).procs ∧
    (∀ mode : XargsMode, Leads (PoolStep w) s.procs mode.procs →
      wp (xargsModeExecuteCommand w)
        (fun _ t => t.halted = false → t.procs.pool.maxProcs ≠ 0 →
          t.procs.os.children.length ≤ t.procs.pool.maxProcs)
        (fun _ _ => True) mode) := by
  have hstart := xargsCreate_procs hcreate
  have hinv : s.procs.Inv := hstart ▸ Procs.inv_start sys.childMax opts.maxProcs
  refine ⟨?_, ?_, ?_⟩
  · intro steps p htrace
    refine (htrace.invariant (I := fun p => LimitKept sys.childMax opts.maxProcs p.pool)
      LimitKept.step ?_).1
    rw [hstart]
    exact limitKept_start (xargsCreate_maxProcs hcreate).1 []
  · exact leads_toPool (xargsRun_leads w opts hinv)
  · rintro mode ⟨steps, hsteps⟩
    exact xargsModeExecuteCommand_le w
      (hsteps.invariant (fun _ _ _ hinv hstep => hinv.poolStep hstep) hinv).1

/-- `printf 'a\nb\n' | phxargs -P 3 -n 1 c` where the system allows 4 processes, and `SIGUSR1`
arrives nine times before each read. -/
theorem maxProcs_bounded_raised :
    ∃ opts s, xargsCreate ⟨[], 0, 4, by decide⟩ [.optP [51], .optn [49]] 5
        [[120], [45, 80], [51], [45, 110], [49], [99]] (.ofLines [[97], [98]]) = .ok (opts, s) ∧
      LimitKept 4 3 (finalState
        (xargsRun { World.quiet with usr1 := fun _ => 9 } opts s)).procs.pool ∧
      (finalState (xargsRun { World.quiet with usr1 := fun _ => 9 } opts s)).procs.pool.maxProcs
        = 4 := by
  obtain ⟨opts, s, hcreate, hstarted, hraised⟩ : ∃ opts s,
      xargsCreate ⟨[], 0, 4, by decide⟩ [.optP [51], .optn [49]] 5
        [[120], [45, 80], [51], [45, 110], [49], [99]] (.ofLines [[97], [98]]) = .ok (opts, s) ∧
      opts.maxProcs = 3 ∧
      (finalState (xargsRun { World.quiet with usr1 := fun _ => 9 } opts s)).procs.pool.maxProcs
        = 4 := by
    exact ⟨_, _, rfl, rfl, by decide +kernel⟩
  obtain ⟨hkept, ⟨steps, hsteps⟩, -⟩ :=
    maxProcs_bounded hcreate { World.quiet with usr1 := fun _ => 9 }
  exact ⟨opts, s, hcreate, hstarted ▸ hkept steps _ hsteps, hraised⟩

/-! ### Prompting -/

/-- What `-p` asks for: the limit is 1, and no two children are in flight. -/
structure Procs.Exclusive (s : Procs) : Prop where
  limit : s.pool.maxProcs = 1
  children : s.os.children.length ≤ 1

/-- An adjustment that leaves the limit 1 alone: it does not count more of `SIGUSR1` than of
`SIGUSR2`, or the system allows one process only. -/
def KeepsOne (w : World) (childMax : Int) (p : Procs × PoolCall) : Prop :=
  p.2 = .adjust → p.1.pendingSigusr1 w ≤ p.1.pendingSigusr2 w ∨ childMax = 1

/-- Under the limit 1, an adjustment gives 1 exactly if it does not raise the limit. -/
theorem adjustedMaxProcs_one {pool : ProcessPool} (hone : pool.maxProcs = 1) (u1 u2 : Int) :
    (adjustedMaxProcs pool u1 u2).toNat = 1 ↔ u1 ≤ u2 ∨ pool.childMax = 1 := by
  unfold adjustedMaxProcs
  dsimp only
  rw [hone]
  split
  · split
    · omega
    · omega
  · split
    · omega
    · omega

theorem adjustedPool_one {w : World} {s : Procs} (hone : s.pool.maxProcs = 1) :
    (s.adjustedPool w).maxProcs = 1 ↔
      s.pendingSigusr1 w ≤ s.pendingSigusr2 w ∨ s.pool.childMax = 1 := by
  unfold Procs.adjustedPool
  split
  · rename_i hnone
    exact iff_of_true hone (Or.inl (by omega))
  · rw [(adjust_maxProcs s.pool _ _).2, if_neg (by omega), adjustedMaxProcs_one hone]

/-- **The step lemma.** -/
theorem Procs.Exclusive.step {w : World} (call : PoolCall) {s t : Procs} (hinv : s.Inv)
    (h : s.Exclusive) (hkeeps : KeepsOne w s.pool.childMax (s, call)) (hstep : ModeStep w call s t) :
    t.Exclusive := by
  cases call with
  | adjust =>
      obtain ⟨hpool, hchildren, -⟩ := hstep.toPoolStep.adjust_cases
      refine ⟨?_, hchildren ▸ h.children⟩
      rw [hpool]
      exact (adjustedPool_one h.limit).mpr (hkeeps rfl)
  | reap =>
      -- One child less, and the limit is not touched.
      obtain ⟨child, hwait, hforgets⟩ := hstep.toPoolStep.reap_forgets
      have hlength := (Os.waitpid_some hwait).1.length_eq
      have hchildren := h.children
      rw [List.length_cons] at hlength
      exact ⟨hforgets.maxProcs.trans h.limit, by omega⟩
  | submit image =>
      obtain ⟨child, hsubmits⟩ := hstep.toPoolStep.submit_cases
      -- The pool had room under the limit 1, so it was empty.
      have hlimit : t.pool.maxProcs = 1 := hsubmits.maxProcs.trans h.limit
      have hle := hstep.submit_le hinv (by rw [hlimit]; exact Nat.one_ne_zero)
      exact ⟨hlimit, hlimit ▸ hle⟩

/-- The rules of `-p` for a run of the pool: the limit is never 0, and no adjustment raises
it. -/
theorem exclusive_iff {w : World} {childMax : Int} {maxProcs : Nat} (hmax : maxProcs ≤ 1)
    {steps : List (Procs × PoolCall)} {p : Procs}
    (h : Trace (ModeStep w) (Procs.start childMax maxProcs []) steps p)
    (hlimit : childMax > 0 → (maxProcs : Int) ≤ childMax) :
    ((∀ q ∈ steps, q.1.Exclusive) ∧ p.Exclusive) ↔
      maxProcs ≠ 0 ∧ ∀ q ∈ steps, KeepsOne w childMax q := by
  have hpoolTrace : Trace (PoolStep w) (Procs.start childMax maxProcs []) steps p :=
    h.mono fun _ _ _ hstep => hstep.toPoolStep
  -- The size of the system does not change.
  have hkept := hpoolTrace.invariant (I := fun s => LimitKept childMax maxProcs s.pool)
    LimitKept.step (limitKept_start hlimit [])
  constructor
  · rintro ⟨hsteps, hlast⟩
    -- The first state has the limit of the options. The state behind an adjustment is one of the
    -- run, so its limit is 1 too.
    have hstart := h.first (P := Procs.Exclusive) hsteps hlast
    have hone : maxProcs = 1 := hstart.limit
    refine ⟨by omega, ?_⟩
    intro q hq hadjust
    obtain ⟨t, hstep, before, after, hsplit, -, hafter⟩ := h.step_of_mem q hq
    have ht : t.Exclusive := by
      refine hafter.first (P := Procs.Exclusive) ?_ hlast
      intro q' hq'
      exact hsteps q' (by rw [hsplit]; exact List.mem_append_right _ (List.mem_cons_of_mem _ hq'))
    rw [hadjust] at hstep
    have hpool := hstep.toPoolStep.adjust_cases.1
    have hchildMax := (hkept.2 q hq).childMax_eq
    rw [← hchildMax]
    exact (adjustedPool_one (hsteps q hq).limit).mp (hpool ▸ ht.limit)
  · rintro ⟨hne, hkeeps⟩
    have hstart : (Procs.start childMax maxProcs []).Exclusive :=
      ⟨show maxProcs = 1 by omega, Nat.zero_le _⟩
    have hinv : (Procs.start childMax maxProcs []).Inv :=
      Procs.inv_start childMax maxProcs
    -- `childMax` of the condition is that of the pool, so `LimitKept` is carried along.
    have hall := h.invariant_of (C := KeepsOne w childMax)
      (I := fun s => s.Inv ∧ LimitKept childMax maxProcs s.pool ∧ s.Exclusive) ?_ hkeeps
      ⟨hinv, limitKept_start hlimit [], hstart⟩
    · exact ⟨fun q hq => (hall.2 q hq).2.2, hall.1.2.2⟩
    · rintro call s t hC ⟨hinv', hlimitKept, hexclusive⟩ hstep
      refine ⟨hinv'.poolStep hstep.toPoolStep, ?_, ?_⟩
      · exact hlimitKept.step call s t hstep.toPoolStep
      · exact hexclusive.step call hinv' (hlimitKept.childMax_eq ▸ hC) hstep

/-- **Prompting.** For every accepted command line with `-p`, in every run of the pool in the
order in which a mode calls it: the limit is 1 and at most one child is in flight in every
state of the run, if and only if the limit of the options is not 0 and no adjustment of the
run raises it. Every run of a mode is such a run of the pool. -/
theorem prompt_exclusive_iff {sys : System} {scanned : List Getopt} {optind : Nat}
    {argv : List CStr} {stream : TokenStream} {opts : Options} {s : XargsMode}
    (hcreate : xargsCreate sys scanned optind argv stream = .ok (opts, s))
    (hprompt : opts.prompt = true) (w : World) :
    (∀ steps p, Trace (ModeStep w) s.procs steps p →
      (((∀ q ∈ steps, q.1.Exclusive) ∧ p.Exclusive) ↔
        opts.maxProcs ≠ 0 ∧ ∀ q ∈ steps, KeepsOne w sys.childMax q)) ∧
    Leads (ModeStep w) s.procs (finalState (xargsRun w opts s)).procs := by
  have hstart := xargsCreate_procs hcreate
  obtain ⟨hchildMax, hone⟩ := xargsCreate_maxProcs hcreate
  constructor
  · intro steps p htrace
    rw [hstart] at htrace
    exact exclusive_iff (hone hprompt) htrace hchildMax
  · exact xargsRun_leads w opts (hstart ▸ Procs.inv_start sys.childMax opts.maxProcs)

/-- `printf 'a\nb\n' | phxargs -p -n 1 c` where the system allows one process, and `SIGUSR1`
arrives before each read. -/
theorem prompt_exclusive_clamped :
    ∃ opts s steps, xargsCreate ⟨[], 0, 1, by decide⟩ [.optp, .optn [49]] 4
        [[120], [45, 112], [45, 110], [49], [99]] (.ofLines [[97], [98]]) = .ok (opts, s) ∧
      Trace (ModeStep { World.quiet with usr1 := fun _ => 1 }) s.procs steps
        (finalState (xargsRun { World.quiet with usr1 := fun _ => 1 } opts s)).procs ∧
      ∀ q ∈ steps, q.1.Exclusive := by
  obtain ⟨opts, s, hcreate, hprompt, hlimit⟩ : ∃ opts s,
      xargsCreate ⟨[], 0, 1, by decide⟩ [.optp, .optn [49]] 4
        [[120], [45, 112], [45, 110], [49], [99]] (.ofLines [[97], [98]]) = .ok (opts, s) ∧
      opts.prompt = true ∧ opts.maxProcs = 1 := by
    exact ⟨_, _, rfl, rfl, rfl⟩
  obtain ⟨hiff, ⟨steps, hsteps⟩⟩ :=
    prompt_exclusive_iff hcreate hprompt { World.quiet with usr1 := fun _ => 1 }
  have hkeeps : ∀ q ∈ steps, KeepsOne { World.quiet with usr1 := fun _ => 1 } 1 q :=
    fun _ _ _ => Or.inr rfl
  exact ⟨opts, s, steps, hcreate, hsteps, ((hiff steps _ hsteps).mpr ⟨by omega, hkeeps⟩).1⟩

/-- `printf 'a\nb\n' | phxargs -p -P 0 -n 1 c`: the options are accepted, and the second
command is forked while the first one is in flight. -/
theorem unlimitedPrompt_overlaps :
    ∃ opts s, xargsCreate System.bare [.optp, .optP [48], .optn [49]] 6
        [[120], [45, 112], [45, 80], [48], [45, 110], [49], [99]] (.ofLines [[97], [98]])
          = .ok (opts, s) ∧
      opts.prompt = true ∧ opts.maxProcs = 0 ∧
      (finalState (xargsRun World.quiet opts s)).procs.os.log.map OsEvent.child?
        = [some ⟨1, .exited 0⟩, some ⟨2, .exited 0⟩, none, none] := by
  exact ⟨_, _, rfl, rfl, rfl, by decide +kernel⟩

end Phxargs
