import Phxargs.Proofs.Command
import Phxargs.Proofs.Ledger

/-!
# `Phxargs.Proofs.Halt`: a halt is final

A child that exits with status 255 halts the pool when it is reaped. The halt is found inside of
a wait or a drain, below the functions of the modes. `haltFinal_of_trace` says it for the runs
of the pool: a fork needs a pool without a halt, so the history has no fork behind such a
reap. Both loops request a token only from a state without a halt, and every exit that does not
drain the pool comes from such a state too.
-/

set_option autoImplicit false

namespace Phxargs

open Lib

/-! ### The history -/

/-- Nothing is forked behind the reap of a child that exited with status 255. -/
def NoForkAfterHalt (log : List OsEvent) : Prop :=
  ∀ before child after, log = before ++ .reaped child :: after → child.status = .exited 255 →
    ∀ event ∈ after, event.child? = none

/-- Such a child has been reaped. -/
def Os.SawHalt (os : Os) : Prop := ∃ child ∈ os.reapedChildren, child.status = .exited 255

/-- A reap can be added to the history. -/
theorem NoForkAfterHalt.reap {log : List OsEvent} (h : NoForkAfterHalt log) (child : Child) :
    NoForkAfterHalt (log ++ [.reaped child]) := by
  intro before child' after hsplit hstatus event hevent
  rcases List.eq_nil_or_concat after with rfl | ⟨init, last, rfl⟩
  · exact absurd hevent List.not_mem_nil
  · -- The new entry is the last one of `after`.
    rw [List.concat_eq_append, ← List.cons_append, ← List.append_assoc] at hsplit
    obtain ⟨hlog, hlast⟩ := List.append_inj' hsplit rfl
    rw [List.concat_eq_append] at hevent
    rcases List.mem_append.mp hevent with hold | hnew
    · exact h before child' init hlog hstatus event hold
    · rw [List.mem_singleton.mp hnew, ← (List.cons.inj hlast).1]
      rfl

/-- Without a halt, a fork can be added too. -/
theorem noForkAfterHalt_of_not_saw {os : Os} (h : ¬ os.SawHalt) : NoForkAfterHalt os.log := by
  intro before child after hsplit hstatus
  refine absurd ⟨child, ?_, hstatus⟩ h
  rw [Os.reapedChildren, hsplit, List.filterMap_append]
  exact List.mem_append_right _ List.mem_cons_self

/-- **The step lemma.** -/
theorem NoForkAfterHalt.step {w : World} {own : List Child} (call : PoolCall) {s t : Procs}
    (hledger : s.Ledger [] own) (h : NoForkAfterHalt s.os.log) (hstep : ModeStep w call s t) :
    NoForkAfterHalt t.os.log := by
  cases call with
  | adjust =>
      rw [hstep.toPoolStep.adjust_cases.2.2.1]
      exact h
  | reap =>
      obtain ⟨child, hwait, -⟩ := hstep.toPoolStep.reap_forgets
      rw [Os.waitpid_log hwait]
      exact h.reap child
  | submit image =>
      obtain ⟨child, hsubmits⟩ := hstep.toPoolStep.submit_cases
      have hhalt := (hstep.ready image rfl).1
      -- The fork found the pool without a halt, so by the ledger no reap has seen 255.
      have hnot : ¬ t.os.SawHalt := by
        intro hsaw
        have hreaped : t.os.reapedChildren = s.os.reapedChildren := by
          rw [Os.reapedChildren, hsubmits.log, List.filterMap_append]
          exact List.append_nil _
        rw [Os.SawHalt, hreaped, ← hledger.halt, hhalt] at hsaw
        exact Bool.false_ne_true hsaw
      exact noForkAfterHalt_of_not_saw hnot

/-- What the steps of the pool keep, from any state with a ledger. -/
theorem Leads.ledger {w : World} {own : List Child} {s t : Procs} (hledger : s.Ledger [] own)
    (h : Leads (ModeStep w) s t) : ∃ own', t.Ledger [] own' := by
  obtain ⟨steps, hsteps⟩ := h
  refine (hsteps.invariant (I := fun s => ∃ own, s.Ledger [] own) ?_ ⟨own, hledger⟩).1
  exact fun call s t h hstep =>
    Procs.Ledger.step call h (ownReport_nil w (s, call)) hstep.toPoolStep

/-- **The run lemma.** -/
theorem haltFinal_of_trace {w : World} {childMax : Int} {maxProcs : Nat} {s : Procs}
    (h : Leads (ModeStep w) (Procs.start childMax maxProcs []) s) :
    (∃ own, s.Ledger [] own) ∧ NoForkAfterHalt s.os.log := by
  obtain ⟨steps, hsteps⟩ := h
  refine (hsteps.invariant
    (I := fun s => (∃ own, s.Ledger [] own) ∧ NoForkAfterHalt s.os.log) ?_ ?_).1
  · rintro call s t ⟨⟨own, hledger⟩, hlog⟩ hstep
    refine ⟨?_, hlog.step call hledger hstep⟩
    exact Procs.Ledger.step call ⟨own, hledger⟩ (ownReport_nil w (s, call)) hstep.toPoolStep
  · refine ⟨⟨[], Procs.ledger_start childMax maxProcs []⟩, ?_⟩
    intro before child after hsplit
    exact absurd (congrArg List.length hsplit) (by simp [Procs.start])

/-! ### The loops -/

/-- The states in which a run requests a token. -/
def tokenRequests (w : World) (opts : Options) (s : XargsMode) : List XargsMode :=
  if opts.argPlaceholder.isNone then
    forEachCalls xargsModeNextToken (appenderModeIteration w) s.rounds s
  else
    forEachCalls xargsModeNextToken (replacerModeIteration w) s.rounds s

/-- A loop requests a token only where no halt has been reaped: an iteration that goes on
leaves the pool without one. -/
theorem loop_requests {w : World} {iteration : CStr → EStateM Exit XargsMode Bool}
    {step : Command → CStr → Planned} (hstep : FollowsStep iteration step)
    (hmoves : ∀ arg, Moves (XargsMode.Steps w) (iteration arg)) {own : List Child} {s : XargsMode}
    (hinv : s.procs.Inv) (hrunning : s.halted = false) (hledger : s.procs.Ledger [] own) :
    ∀ u ∈ forEachCalls xargsModeNextToken iteration s.rounds s, ¬ u.procs.os.SawHalt := by
  have hcalls : ∀ u ∈ forEachCalls xargsModeNextToken iteration s.rounds s,
      u.procs.Inv ∧ u.halted = false ∧ ∃ own, u.procs.Ledger [] own := by
    refine forEachCalls_forall ?_ s.rounds s ⟨hinv, hrunning, own, hledger⟩
    rintro u arg t v ⟨hinv', hrunning', own', hledger'⟩ hnext hbody
    -- Reading the token does not touch the pool.
    have hprocs : t.procs = u.procs := by
      have hread : wp xargsModeNextToken (fun _ t => t.procs = u.procs) (fun _ _ => False) u := by
        simp only [xargsModeNextToken, wp_bind, wp_get]
        split
        · exact rfl
        · exact rfl
      exact (wp_of_ok hnext).mp hread
    have hinvT : t.procs.Inv := hprocs ▸ hinv'
    have hrunningT : t.halted = false := by
      rw [XargsMode.halted, hprocs]
      exact hrunning'
    have hiterates := (wp_of_ok hbody).mp (hstep arg hinvT hrunningT)
    have hleads := ((wp_of_ok hbody).mp (hmoves arg t) hinvT).2
    refine ⟨hiterates.inv, ?_, ?_⟩
    · rcases hiterates.cases with ⟨-, hhalt, -⟩ | ⟨hleave, -⟩
      · exact hhalt
      · exact absurd hleave Bool.false_ne_true
    · rw [hprocs] at hleads
      exact Leads.ledger hledger' hleads
  intro u hu hsaw
  obtain ⟨-, hrunning', own', hledger'⟩ := hcalls u hu
  exact XargsMode.not_halted hrunning' (hledger'.halt.mpr hsaw)

/-! ### The exits -/

/-- A halted pool has no child in flight. -/
def XargsMode.HaltDrained (s : XargsMode) : Prop := s.halted = true → s.procs.os.children = []

theorem XargsMode.haltDrained_of_running {s : XargsMode} (h : s.halted = false) : s.HaltDrained :=
  fun hhalt => absurd hhalt (XargsMode.not_halted h)

/-- What a run leaves by an exit: a halted pool is drained, and behind a failed `fork`, `fork`
fails. -/
structure Exits (w : World) (e : Exit) (t : XargsMode) : Prop where
  drained : t.HaltDrained
  refused : e = Exit.forkFailed → t.procs.os.fork w t.cmd = none

/-- An exit of a check, in a running mode. -/
theorem Exits.of_running {w : World} {e : Exit} {t : XargsMode} (h : t.halted = false)
    (he : e ≠ Exit.forkFailed) : Exits w e t :=
  ⟨XargsMode.haltDrained_of_running h, fun hfork => absurd hfork he⟩

/-- An exit behind a drain. -/
theorem Exits.of_drained {w : World} {e : Exit} {t : XargsMode} (h : t.procs.os.children = [])
    (he : e ≠ Exit.forkFailed) : Exits w e t :=
  ⟨fun _ => h, fun hfork => absurd hfork he⟩

/-- A failed `fork` comes behind the check for a halt. -/
theorem xargsModeExecuteCommand_exits (w : World) {s : XargsMode} (hinv : s.procs.Inv) :
    wp (xargsModeExecuteCommand w) (fun _ _ => True) (Exits w) s := by
  have hwait : wp (processPoolWaitIfFull w) (fun _ _ => True) (fun _ _ => False) s.procs :=
    wp_mono_return (processPoolWaitIfFull_spec w hinv) fun _ _ _ => trivial
  apply wp_executeCommand hinv hwait
  · exact fun _ _ _ _ => trivial
  · exact fun _ _ _ hrunning hfork => ⟨XargsMode.haltDrained_of_running hrunning, fun _ => hfork⟩
  · exact fun _ _ _ _ _ _ => trivial

theorem appenderModeAdd_exits (w : World) (arg : CStr) {s : XargsMode} (hinv : s.procs.Inv)
    (hrunning : s.halted = false) :
    wp (appenderModeAdd w arg) (fun _ _ => True) (Exits w) s := by
  apply wp_appenderModeAdd
  · intro e he
    rw [commandAddInputArgument_error he]
    exact Exits.of_running hrunning (by decide)
  · -- The size check drains before it exits, and the drain may be what finds the halt.
    intro cmd _ _
    exact wp_mono_noExit (xargsModeDrain_spec w (s := { s with cmd := cmd }) hinv)
      fun _ _ ht => Exits.of_drained ht.drained (by decide)
  · exact fun cmd _ _ => xargsModeExecuteCommand_exits w (s := { s with cmd := cmd }) hinv
  · exact fun _ _ _ _ => trivial

theorem appenderModeIteration_exits (w : World) (arg : CStr) {s : XargsMode}
    (hinv : s.procs.Inv) (hrunning : s.halted = false) :
    wp (appenderModeIteration w arg) (fun _ _ => True) (Exits w) s := by
  apply wp_appenderModeIteration
  · intro e he
    rw [commandArgWouldExceedLimits_error he]
    exact Exits.of_running hrunning (by decide)
  · intro _
    apply wp_mono (wp_and (xargsModeExecuteCommand_exits w hinv)
      (xargsModeExecuteCommand_spec w hinv))
    · intro _ t ht
      exact ⟨fun _ => trivial, appenderModeAdd_exits w arg ht.2.inv⟩
    · exact fun _ _ ht => ht.1
  · exact fun _ => appenderModeAdd_exits w arg hinv hrunning

theorem replacerModeIteration_exits (w : World) (arg : CStr) {s : XargsMode}
    (hinv : s.procs.Inv) (hrunning : s.halted = false) :
    wp (replacerModeIteration w arg) (fun _ _ => True) (Exits w) s := by
  apply wp_replacerModeIteration
  · intro e he
    rw [commandEnsureLengthNotExceeded_error he]
    exact Exits.of_running hrunning (by decide)
  · intro e _ he
    rcases commandReplaceArgs_error he with rfl | rfl
    · exact Exits.of_running hrunning (by decide)
    · exact Exits.of_running hrunning (by decide)
  · exact fun cmd _ _ => xargsModeExecuteCommand_exits w (s := { s with cmd := cmd }) hinv

/-- The end of an appender run: it drains, or it exits in `fork`. -/
theorem appenderModeFinish_exits (w : World) (suppress present : Bool) {s : XargsMode}
    (hinv : s.procs.Inv) :
    wp (appenderModeFinish w suppress present) (fun _ _ => True) (Exits w) s := by
  apply wp_appenderModeFinish
  · intro _
    apply wp_mono (wp_and (xargsModeExecuteCommand_exits w hinv)
      (xargsModeExecuteCommand_spec w hinv))
    · exact fun _ _ ht => wp_mono_noExit (xargsModeDrain_spec w ht.2.inv) fun _ _ _ => trivial
    · exact fun _ _ ht => ht.1
  · exact fun _ => wp_mono_noExit (xargsModeDrain_spec w hinv) fun _ _ _ => trivial

/-- Every exit of a run. -/
theorem xargsRun_exits (w : World) (opts : Options) {s : XargsMode} (h : s.Starts) :
    wp (xargsRun w opts) (fun _ _ => True) (Exits w) s := by
  -- A tokenizer error drains before it exits.
  have hfailure : ∀ {t : XargsMode}, t.procs.Inv →
      wp (xargsModeDrain w) (fun _ u => Exits w (Exit.failure .alreadyReported) u) (Exits w) t :=
    fun hinv => wp_mono_noExit (xargsModeDrain_spec w hinv)
      fun _ _ hu => Exits.of_drained hu.drained (by decide)
  unfold xargsRun
  split
  · apply wp_loopAndFinish
    have hloop := loop_exits
      (fun arg _ hinv hrunning => appenderModeIteration_spec w arg hinv hrunning)
      (fun arg _ hinv hrunning => appenderModeIteration_exits w arg hinv hrunning) h
    apply wp_mono_return (m := appenderModeLoop w) hloop
    intro present t hinv
    exact ⟨fun _ => appenderModeFinish_exits w _ present hinv, fun _ => hfailure hinv⟩
  · apply wp_loopAndFinish
    have hloop := loop_exits (fun arg _ hinv _ => replacerModeIteration_spec w arg hinv)
      (fun arg _ hinv hrunning => replacerModeIteration_exits w arg hinv hrunning) h
    apply wp_mono_return (m := replacerModeLoop w) hloop
    intro present t hinv
    refine ⟨fun _ => ?_, fun _ => hfailure hinv⟩
    rw [wp_bind]
    exact wp_mono_noExit (xargsModeDrain_spec w hinv) fun _ _ _ => trivial

/-- Every run that ends with a halted pool leaves no child in flight. -/
theorem xargsRun_haltDrained (w : World) (opts : Options) {s : XargsMode} (h : s.Starts) :
    (finalState (xargsRun w opts s)).HaltDrained := by
  have hreturns := xargsRun_returns w opts h.inv
  have hexits := xargsRun_exits w opts h
  -- A return has drained in any case; an exit has drained, or has not halted.
  unfold wp at hreturns hexits
  cases hrun : xargsRun w opts s with
  | ok status t => rw [hrun] at hreturns; exact fun _ => hreturns.1
  | error e t => rw [hrun] at hexits; exact hexits.drained

/-- A run exits in `fork` only where `fork` fails. -/
theorem xargsRun_refused (w : World) (opts : Options) {s : XargsMode} (h : s.Starts)
    (hexit : exitOf (xargsRun w opts s) = some Exit.forkFailed) :
    (finalState (xargsRun w opts s)).procs.os.fork w (finalState (xargsRun w opts s)).cmd = none := by
  have hexits := xargsRun_exits w opts h
  unfold wp at hexits
  cases hrun : xargsRun w opts s with
  | ok status t =>
      rw [hrun] at hexit
      cases hexit
  | error e t =>
      rw [hrun] at hexits hexit
      exact hexits.refused (Option.some.inj hexit)

/-- The statuses that a child with status 255 leaves possible. -/
theorem WorstStatus.of_halt {children : List Child} {status : Nat}
    (h : WorstStatus children status) {child : Child} (hchild : child ∈ children)
    (hstatus : child.status = .exited 255) :
    status = 124 ∨ status = 125 ∨ status = 126 ∨ status = 127 := by
  have hsevere : 3 ≤ severity status := by
    have hle := h.max child hchild
    rw [Child.mappedStatus, hstatus] at hle
    exact hle
  -- 0 and 123 are less severe than the 124 of this child.
  rcases h.isMapped with rfl | rfl | rfl | rfl | rfl | rfl
  · exact absurd hsevere (by decide)
  · exact absurd hsevere (by decide)
  · exact Or.inl rfl
  · exact Or.inr (Or.inl rfl)
  · exact Or.inr (Or.inr (Or.inl rfl))
  · exact Or.inr (Or.inr (Or.inr rfl))

/-- **A halt is final.** In every run of either mode, nothing is forked behind the reap of a
child that exited with status 255, and no token is requested. If there was such a reap, no
child is in flight at the end of the run, and a run that returns has one of the statuses 124
to 127. -/
theorem xargsRun_halts {sys : System} {scanned : List Getopt} {optind : Nat} {argv : List CStr}
    {stream : TokenStream} {opts : Options} {s : XargsMode}
    (hcreate : xargsCreate sys scanned optind argv stream = .ok (opts, s)) (w : World) :
    let run := xargsRun w opts s
    let os := (finalState run).procs.os
    NoForkAfterHalt os.log ∧
    (∀ u ∈ tokenRequests w opts s, ¬ u.procs.os.SawHalt) ∧
    (os.SawHalt → os.children = [] ∧ ∀ status t, run = .ok status t →
      status = 124 ∨ status = 125 ∨ status = 126 ∨ status = 127) := by
  intro run os
  have hstart := xargsCreate_procs hcreate
  have hstarts := (xargsCreate_spec hcreate).2.1
  have hleads := xargsRun_leads w opts hstarts.inv
  rw [hstart] at hleads
  obtain ⟨⟨own, hledger⟩, hlog⟩ := haltFinal_of_trace hleads
  refine ⟨hlog, ?_, ?_⟩
  · have hledger' : s.procs.Ledger [] [] :=
      hstart ▸ Procs.ledger_start sys.childMax opts.maxProcs []
    unfold tokenRequests
    split
    · exact loop_requests
        (fun arg _ hinv hrunning => appenderModeIteration_spec w arg hinv hrunning)
        (appenderModeIteration_moves w) hstarts.inv hstarts.running hledger'
    · exact loop_requests (fun arg _ hinv _ => replacerModeIteration_spec w arg hinv)
        (replacerModeIteration_moves w) hstarts.inv hstarts.running hledger'
  · intro hsaw
    refine ⟨xargsRun_haltDrained w opts hstarts (hledger.halt.mpr hsaw), ?_⟩
    intro status t hrun
    obtain ⟨hreaped, hworst⟩ := xargsRun_worstStatus hstart hrun
    obtain ⟨child, hchild, hstatus⟩ := hsaw
    have hos : os = t.procs.os := congrArg (fun r => (finalState r).procs.os) hrun
    rw [hos] at hchild
    exact hworst.of_halt (hreaped.mem_iff.mp hchild) hstatus

/-- The first child exits with status 255, the others with status 0. -/
def World.halting : World :=
  { World.quiet with
    fork := fun n => some ⟨n + 1, if n = 0 then .exited 255 else .exited 0⟩ }

/-- `printf 'a\nb\nc\n' | phxargs -P 2 -n 1 c`: the halt is found when the third command is
going to be executed. -/
theorem xargsRun_halts_third :
    ∃ opts s, xargsCreate System.bare [.optP [50], .optn [49]] 5
        [[120], [45, 80], [50], [45, 110], [49], [99]] (.ofLines [[97], [98], [99]])
          = .ok (opts, s) ∧
      (finalState (xargsRun World.halting opts s)).procs.os.forkedChildren
        = [⟨1, .exited 255⟩, ⟨2, .exited 0⟩] ∧
      NoForkAfterHalt (finalState (xargsRun World.halting opts s)).procs.os.log ∧
      (finalState (xargsRun World.halting opts s)).procs.os.children = [] := by
  obtain ⟨opts, s, hcreate, hforked, hreaped⟩ : ∃ opts s,
      xargsCreate System.bare [.optP [50], .optn [49]] 5
        [[120], [45, 80], [50], [45, 110], [49], [99]] (.ofLines [[97], [98], [99]])
          = .ok (opts, s) ∧
      (finalState (xargsRun World.halting opts s)).procs.os.forkedChildren
        = [⟨1, .exited 255⟩, ⟨2, .exited 0⟩] ∧
      (finalState (xargsRun World.halting opts s)).procs.os.reapedChildren
        = [⟨1, .exited 255⟩, ⟨2, .exited 0⟩] := by
    exact ⟨_, _, rfl, by decide +kernel, by decide +kernel⟩
  obtain ⟨hlog, -, hdrained⟩ := xargsRun_halts hcreate World.halting
  have hsaw : (finalState (xargsRun World.halting opts s)).procs.os.SawHalt := by
    rw [Os.SawHalt, hreaped]
    exact ⟨⟨1, .exited 255⟩, List.mem_cons_self, rfl⟩
  exact ⟨opts, s, hcreate, hforked, hlog, (hdrained hsaw).1⟩

/-! ### When a halt is noticed -/

/-- The children that `waitpid` reports in at most `n` calls in a row. -/
def Os.reports (w : World) : Nat → Os → List Child
  | 0, _ => []
  | n + 1, os =>
      match os.waitpid w with
      | none => []
      | some (child, os) => child :: os.reports w n

/-- The number of reaps that make room for one more child under the limit. -/
def ProcessPool.reapsForRoom (pool : ProcessPool) : Nat :=
  if pool.maxProcs = 0 then 0 else pool.count + 1 - pool.maxProcs

/-- No reap is needed exactly where the pool is not full. -/
theorem ProcessPool.reapsForRoom_eq_zero {pool : ProcessPool} (h : pool.full = false) :
    pool.reapsForRoom = 0 := by
  have hroom := ProcessPool.not_full_iff.mp h
  unfold ProcessPool.reapsForRoom
  split
  · rfl
  · omega

theorem Os.reports_congr (w : World) :
    ∀ (n : Nat) {os os' : Os}, os'.children = os.children → os'.log = os.log →
      os'.reports w n = os.reports w n := by
  intro n
  induction n with
  | zero => exact fun _ _ => rfl
  | succ n ih =>
      intro os os' hchildren hlog
      unfold Os.reports Os.waitpid
      dsimp only
      rw [hchildren, hlog]
      cases os.children[w.wait os.log.length % os.children.length]? with
      | none => rfl
      | some child => exact congrArg (child :: ·) (ih rfl rfl)

/-- The wait for room looks at exactly the children that it needs to: the pool has halted
behind it exactly if it had before, or one of these exited with status 255. -/
theorem waitForRoom_halt (w : World) :
    ∀ (n : Nat) {s : Procs}, s.Inv → s.pool.count ≤ n →
      wp (whileDo (fun s => s.pool.full) (reapOne w) n)
        (fun _ p => p.Inv ∧ p.os.log.length = s.os.log.length + s.pool.reapsForRoom ∧
          p.os.children.length = s.os.children.length - s.pool.reapsForRoom ∧
          (p.pool.halt = true ↔ s.pool.halt = true ∨
            ∃ child ∈ s.os.reports w s.pool.reapsForRoom, child.status = .exited 255))
        (fun _ _ => False) s := by
  intro n
  induction n with
  -- No slot is in use, so the pool is not full and nothing is reaped.
  | zero =>
      intro s hinv hn
      have hfull : s.pool.full = false := ProcessPool.not_full_iff.mpr (by omega)
      rw [ProcessPool.reapsForRoom_eq_zero hfull]
      exact ⟨hinv, rfl, rfl, by simp [Os.reports]⟩
  | succ n ih =>
      intro s hinv hn
      simp only [whileDo, wp_bind, wp_get, wp_ite, wp_pure]
      cases hfull : s.pool.full with
      | false =>
          rw [if_neg Bool.false_ne_true, ProcessPool.reapsForRoom_eq_zero hfull]
          exact ⟨hinv, rfl, rfl, by simp [Os.reports]⟩
      | true =>
          have hcount := ProcessPool.count_pos_of_full hfull
          have hlimit := ProcessPool.full_iff.mp hfull
          rw [if_pos rfl]
          apply wp_mono_run (reapOne_spec w hinv hcount)
          · intro _ t hrun ht
            have hstep : PoolStep w .reap s t := ⟨hcount, hrun⟩
            obtain ⟨child, hwait, hforgets⟩ := hstep.reap_forgets
            -- The first report is that of this reap, and the rest needs one reap less.
            have hroom : s.pool.reapsForRoom = t.pool.reapsForRoom + 1 := by
              unfold ProcessPool.reapsForRoom
              rw [hforgets.maxProcs, hforgets.count, if_neg hlimit.1, if_neg hlimit.1]
              omega
            have hlength := (Os.waitpid_some hwait).1.length_eq
            have hlog := congrArg List.length (Os.waitpid_log hwait)
            rw [List.length_cons] at hlength
            rw [List.length_append, List.length_singleton] at hlog
            refine wp_mono_return (ih ht.1 (by rw [hforgets.count]; omega)) ?_
            rintro _ p ⟨hinv', hlog', hchildren', hhalt'⟩
            refine ⟨hinv', by omega, by omega, ?_⟩
            have hreports : s.os.reports w s.pool.reapsForRoom
                = child :: t.os.reports w t.pool.reapsForRoom := by
              rw [hroom, Os.reports, hwait]
            rw [hhalt', hreports, hforgets.halt, Bool.or_eq_true, childExitStatus_halt]
            simp only [List.mem_cons, exists_eq_or_imp]
            exact or_assoc
          · exact fun _ _ _ h => h

/-- What a call of `process_pool_wait_if_full` has done, from `s` to `p`. -/
structure Procs.MakesRoom (w : World) (s p : Procs) : Prop where
  reaps : s.Reaps p
  log : p.os.log.length = s.os.log.length + (s.adjustedPool w).reapsForRoom
  children : p.os.children.length = s.os.children.length - (s.adjustedPool w).reapsForRoom
  halt : p.pool.halt = true ↔ s.pool.halt = true ∨
    ∃ child ∈ s.os.reports w (s.adjustedPool w).reapsForRoom, child.status = .exited 255

theorem processPoolWaitIfFull_makesRoom (w : World) {s : Procs} (hinv : s.Inv) :
    wp (processPoolWaitIfFull w) (fun _ p => s.MakesRoom w p) (fun _ _ => False) s := by
  have hreaps := processPoolWaitIfFull_spec w hinv
  have hroom : wp (processPoolWaitIfFull w)
      (fun _ p => p.os.log.length = s.os.log.length + (s.adjustedPool w).reapsForRoom ∧
        p.os.children.length = s.os.children.length - (s.adjustedPool w).reapsForRoom ∧
        (p.pool.halt = true ↔ s.pool.halt = true ∨
          ∃ child ∈ s.os.reports w (s.adjustedPool w).reapsForRoom, child.status = .exited 255))
      (fun _ _ => False) s := by
    simp only [processPoolWaitIfFull, wp_bind, wp_get]
    apply wp_mono_run (applySignalAdjustments_spec w hinv)
    · rintro _ q hadjust ⟨hinv', -, -, hhalt⟩
      -- The adjustment changes the limit, and nothing that the reports depend on.
      have hstep : PoolStep w .adjust s q := ⟨trivial, hadjust⟩
      obtain ⟨hpool, hchildren, hlog, -⟩ := hstep.adjust_cases
      have hwait := waitForRoom_halt w q.pool.count hinv' (Nat.le_refl _)
      rw [Os.reports_congr w _ hchildren hlog, hhalt, hlog, hchildren, hpool] at hwait
      rw [hpool]
      exact wp_mono_return hwait fun _ p hp => hp.2
    · exact fun _ _ _ h => h
  apply wp_mono (wp_and hreaps hroom)
  · rintro _ p ⟨⟨-, hreaps, -⟩, hlog, hchildren, hhalt⟩
    exact ⟨hreaps, hlog, hchildren, hhalt⟩
  · exact fun _ _ h => h.1

/-- `fork` succeeds behind a wait of so many reaps. -/
def ForksAfter (w : World) (s : Procs) (reaps : Nat) : Prop :=
  (w.fork (s.os.log.length + reaps)).isSome ∧ s.os.children.length - reaps < PID_MAX

theorem Os.fork_isSome (w : World) (image : Command) (os : Os) :
    (os.fork w image).isSome ↔ (w.fork os.log.length).isSome ∧ os.children.length < PID_MAX := by
  unfold Os.fork
  split
  · rename_i hfull
    simp only [Option.isSome_none, Bool.false_eq_true, false_iff, not_and]
    exact fun _ => by omega
  · rename_i hroom
    have hlt : os.children.length < PID_MAX := Nat.not_le.mp hroom
    cases w.fork os.log.length with
    | none => simp
    | some child => simp [hlt]

theorem Procs.MakesRoom.forks_iff {w : World} {s p : Procs} (h : s.MakesRoom w p)
    (image : Command) :
    (p.os.fork w image).isSome ↔ ForksAfter w s (s.adjustedPool w).reapsForRoom := by
  rw [Os.fork_isSome, h.log, h.children, ForksAfter]

/-- The pool has halted, or one of the children that the wait for room reaps exited with status
255, or `fork` fails behind this wait. -/
def NoticesHalt (w : World) (s : XargsMode) : Prop :=
  s.halted = true ∨
    (∃ child ∈ s.procs.os.reports w (s.procs.adjustedPool w).reapsForRoom,
      child.status = .exited 255) ∨
    ¬ ForksAfter w s.procs (s.procs.adjustedPool w).reapsForRoom

/-- What decides whether `xargs_mode_execute_command` forks. -/
theorem xargsModeExecuteCommand_forks_iff (w : World) {s : XargsMode} (hinv : s.procs.Inv) :
    (finalState (xargsModeExecuteCommand w s)).forked = s.forked ↔ NoticesHalt w s := by
  apply wp_finalState (P := fun _ (t : XargsMode) => t.forked = s.forked ↔ _)
  -- Nothing is forked after a halt and after a failed `fork`, the two ways to notice.
  apply wp_executeCommand hinv (processPoolWaitIfFull_makesRoom w hinv)
  · intro p hroom _ hhalt
    refine iff_of_true hroom.reaps.forked ?_
    exact (hroom.halt.mp hhalt).imp id Or.inl
  · intro p hroom _ _ hfork
    refine iff_of_true hroom.reaps.forked (Or.inr (Or.inr ?_))
    rw [← hroom.forks_iff s.cmd, hfork]
    exact Bool.false_ne_true
  · intro p q hroom _ _ hstep
    obtain ⟨child, hsubmits⟩ := hstep.toPoolStep.submit_cases
    have hrunning := (hstep.ready s.cmd rfl).1
    apply iff_of_false
    · -- The history has one fork more.
      show ¬ q.os.forked = s.procs.os.forked
      rw [hsubmits.forked, hroom.reaps.forked]
      exact fun h => List.cons_ne_nil _ _ (List.append_right_eq_self.mp h)
    · rintro (hhalt | hreport | hnone)
      · exact absurd (hroom.halt.mpr (Or.inl hhalt)) (by rw [hrunning]; exact Bool.false_ne_true)
      · exact absurd (hroom.halt.mpr (Or.inr hreport)) (by rw [hrunning]; exact Bool.false_ne_true)
      · refine hnone ((hroom.forks_iff s.cmd).mp ?_)
        rw [hsubmits.fork, Option.isSome_some]

/-- A call on its own is a run of the pool. -/
theorem xargsModeExecuteCommand_leads (w : World) {s : XargsMode} (hinv : s.procs.Inv) :
    Leads (PoolStep w) s.procs (finalState (xargsModeExecuteCommand w s)).procs := by
  have hmoves := wp_finalState (P := fun _ t => s.Steps w t) (xargsModeExecuteCommand_moves w s)
  exact leads_toPool (hmoves hinv).2

/-- What the documentation promises for a call of `xargs_mode_execute_command`: where a child in
flight has ended with status 255, nothing is forked. -/
def HaltPromise (w : World) (s : XargsMode) : Prop :=
  (∃ child ∈ s.procs.os.children, child.status = .exited 255) →
    (finalState (xargsModeExecuteCommand w s)).forked = s.forked

/-- **The documented halt.** In every state that a run of the pool of an accepted command line can
reach, a call of `xargs_mode_execute_command` keeps the promise if and only if the halt is
noticed. With room in the pool, and under `-P 0`, the wait reaps no child at all. -/
theorem haltPromise_iff {sys : System} {scanned : List Getopt} {optind : Nat} {argv : List CStr}
    {stream : TokenStream} {opts : Options} {s : XargsMode}
    (hcreate : xargsCreate sys scanned optind argv stream = .ok (opts, s)) (w : World)
    {mode : XargsMode} (hreach : Leads (PoolStep w) s.procs mode.procs) :
    (HaltPromise w mode ↔
      ((∃ child ∈ mode.procs.os.children, child.status = .exited 255) → NoticesHalt w mode)) ∧
    ((mode.procs.adjustedPool w).full = false →
      mode.procs.os.reports w (mode.procs.adjustedPool w).reapsForRoom = []) := by
  have hinv : mode.procs.Inv := by
    obtain ⟨steps, hsteps⟩ := hreach
    refine (hsteps.invariant (fun _ _ _ hinv hstep => hinv.poolStep hstep) ?_).1
    exact (xargsCreate_spec hcreate).2.1.inv
  constructor
  · exact imp_congr_right fun _ => xargsModeExecuteCommand_forks_iff w hinv
  · intro hroom
    rw [ProcessPool.reapsForRoom_eq_zero hroom]
    rfl

/-- `-P 1`: the first child has ended with status 255, and the wait for room reaps it. -/
theorem haltPromise_full :
    ∃ opts s, xargsCreate System.bare [.optP [49], .optn [49]] 5
        [[120], [45, 80], [49], [45, 110], [49], [99]] (.ofLines [[97], [98]]) = .ok (opts, s) ∧
      HaltPromise World.halting (finalState (xargsModeExecuteCommand World.halting s)) := by
  obtain ⟨opts, s, hcreate, hreports⟩ : ∃ opts s,
      xargsCreate System.bare [.optP [49], .optn [49]] 5
        [[120], [45, 80], [49], [45, 110], [49], [99]] (.ofLines [[97], [98]]) = .ok (opts, s) ∧
      let mode := finalState (xargsModeExecuteCommand World.halting s)
      mode.procs.os.reports World.halting (mode.procs.adjustedPool World.halting).reapsForRoom
        = [⟨1, .exited 255⟩] := by
    exact ⟨_, _, rfl, by decide +kernel⟩
  have hinv : s.procs.Inv := (xargsCreate_spec hcreate).2.1.inv
  have hreach := xargsModeExecuteCommand_leads World.halting hinv
  refine ⟨opts, s, hcreate, ?_⟩
  refine (haltPromise_iff hcreate World.halting hreach).1.mpr fun _ => Or.inr (Or.inl ?_)
  rw [hreports]
  exact ⟨_, List.mem_cons_self, rfl⟩

/-- `-P 2`: the first child has ended with status 255, and there is room for a second one. The
wait reaps nothing, and the call forks. -/
theorem haltPromise_broken :
    ∃ opts s, xargsCreate System.bare [.optP [50], .optn [49]] 5
        [[120], [45, 80], [50], [45, 110], [49], [99]] (.ofLines [[97], [98]]) = .ok (opts, s) ∧
      Leads (PoolStep World.halting) s.procs
        (finalState (xargsModeExecuteCommand World.halting s)).procs ∧
      ¬ HaltPromise World.halting (finalState (xargsModeExecuteCommand World.halting s)) := by
  obtain ⟨opts, s, hcreate, hchildren, hforked, hforked'⟩ : ∃ opts s,
      xargsCreate System.bare [.optP [50], .optn [49]] 5
        [[120], [45, 80], [50], [45, 110], [49], [99]] (.ofLines [[97], [98]]) = .ok (opts, s) ∧
      let mode := finalState (xargsModeExecuteCommand World.halting s)
      mode.procs.os.children = [⟨1, .exited 255⟩] ∧ mode.forked.length = 1 ∧
      (finalState (xargsModeExecuteCommand World.halting mode)).forked.length = 2 := by
    exact ⟨_, _, rfl, by decide +kernel, by decide +kernel, by decide +kernel⟩
  have hinv : s.procs.Inv := (xargsCreate_spec hcreate).2.1.inv
  refine ⟨opts, s, hcreate, xargsModeExecuteCommand_leads World.halting hinv, ?_⟩
  intro hpromise
  have hsame := hpromise ⟨_, hchildren ▸ List.mem_cons_self, rfl⟩
  rw [hsame] at hforked'
  omega

end Phxargs
