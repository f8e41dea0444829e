import Phxargs.Proofs.CommandLine
import Phxargs.Proofs.PoolTrace
import Phxargs.Model.Parts

/-!
# `Phxargs.Proofs.Parts`: a run is a sequence of calls

Whatever a mode does to its command and to its pool, in any run, is a sequence of the calls of
`Phxargs.Model.Parts`. Each command that is forked is the command behind a first part of them.

`xargsRun_moves_of` is the rule behind it: a preorder along which five functions of a mode move has
every run.
-/

set_option autoImplicit false

namespace Phxargs

open Lib

/-! ### What every call keeps -/

namespace Parts

theorem Valid.onBuffer {s s' : Parts} (h : s.Valid) {r : Except Exit Buffer}
    (hs' : s.onBuffer r = .ok s') : s'.Valid := by
  cases r with
  | error e => cases hs'
  | ok b =>
      cases hs'
      exact ⟨h.slots, h.count_le, h.fixedArgs_ne⟩

/-- A call on the command keeps the words of `argv`. -/
theorem Valid.onCommand {s s' : Parts} (h : s.Valid) {r : Except Exit Command}
    (hr : ∀ cmd, r = .ok cmd → cmd.fixedArgs = s.cmd.fixedArgs) (hs' : s.onCommand r = .ok s') :
    s'.Valid := by
  cases r with
  | error e => cases hs'
  | ok cmd =>
      cases hs'
      refine ⟨h.slots, h.count_le, ?_⟩
      show cmd.fixedArgs.args ≠ []
      rw [hr cmd rfl]
      exact h.fixedArgs_ne

theorem Valid.onPool {s s' : Parts} (h : s.Valid) {r : Except Exit ProcessPool}
    (hr : ∀ pool, r = .ok pool → pool.pids.length = pool.capacity ∧ pool.count ≤ pool.capacity)
    (hs' : s.onPool r = .ok s') : s'.Valid := by
  cases r with
  | error e => cases hs'
  | ok pool =>
      cases hs'
      exact ⟨(hr pool rfl).1, (hr pool rfl).2, h.fixedArgs_ne⟩

end Parts

section Kept

variable {cmd cmd' : Command} {newArg : CStr} {pool pool' : ProcessPool}

theorem commandAddInputArgument_fixedArgs (h : commandAddInputArgument cmd newArg = .ok cmd') :
    cmd'.fixedArgs = cmd.fixedArgs := by
  unfold commandAddInputArgument at h
  split at h
  · cases h
  · cases h
    rfl

theorem commandReplaceArgs_fixedArgs (h : commandReplaceArgs cmd newArg = .ok cmd') :
    cmd'.fixedArgs = cmd.fixedArgs := by
  unfold commandReplaceArgs at h
  split at h
  · cases h
    rfl
  · split at h
    · cases h
    · split at h
      · cases h
      · cases h
        rfl

/-- A submission finds a free slot, or it makes one. -/
theorem ProcessPool.submit_table {pid : Pid} {pids : List Pid} (h : pool.Table pids)
    (hsubmit : pool.submit pid = .ok pool') : pool'.Table (pids ++ [pid]) := by
  unfold ProcessPool.submit ProcessPool.makeRoom at hsubmit
  split at hsubmit
  · cases hsubmit
  · rename_i room hroom
    cases hsubmit
    split at hroom
    · rename_i hfull
      split at hroom
      · cases hroom
      · rename_i capacity hdouble
        cases hroom
        have hlt := lt_of_phxargsDoubleCapacity hdouble
        exact (h.grow hlt).take (show pool.count < capacity from hfull ▸ hlt) pid
    · rename_i hfull
      cases hroom
      exact h.take (Nat.lt_of_le_of_ne h.count_le hfull) pid

/-- A reap keeps the table as large as it is. -/
theorem ProcessPool.reap_table {ndebug : Bool} {child : Child}
    (hslots : pool.pids.length = pool.capacity) (hcount : pool.count ≤ pool.capacity)
    (hreap : pool.reap ndebug child = .ok pool') :
    pool'.pids.length = pool'.capacity ∧ pool'.count ≤ pool'.capacity := by
  unfold ProcessPool.reap at hreap
  split at hreap
  · cases hreap
  · cases hreap
    have hforgets := pool.forgets child
    rw [hforgets.slots, hforgets.capacity, hforgets.count]
    exact ⟨hslots, by omega⟩

end Kept

/-- What every call keeps. -/
theorem Parts.Valid.call {fresh : Nat → UInt8} {s s' : Parts} {call : Call} (h : s.Valid)
    (hcall : s.call fresh call = .ok s') : s'.Valid := by
  have htable := ProcessPool.table_take h.slots h.count_le
  cases call with
  | tokenizerAdd ch => exact h.onBuffer hcall
  | tokenizerDropLast => exact h.onBuffer hcall
  | tokenizerReset => exact h.onBuffer hcall
  | inputBoundary => exact h.onCommand (fun cmd hcmd => by cases hcmd; rfl) hcall
  | addInputArgument newArg =>
      exact h.onCommand (fun cmd hcmd => commandAddInputArgument_fixedArgs hcmd) hcall
  | replaceArgs newArg =>
      exact h.onCommand (fun cmd hcmd => commandReplaceArgs_fixedArgs hcmd) hcall
  | recycle => exact h.onCommand (fun cmd hcmd => by cases hcmd; rfl) hcall
  | submit pid =>
      refine h.onPool (fun pool hpool => ?_) hcall
      have hsubmitted := ProcessPool.submit_table htable hpool
      exact ⟨hsubmitted.slots, hsubmitted.count_le⟩
  | adjust u1 u2 =>
      refine h.onPool (fun pool hpool => ?_) hcall
      cases hpool
      exact ⟨(htable.adjust u1 u2).slots, (htable.adjust u1 u2).count_le⟩
  | reap ndebug child =>
      refine h.onPool (fun pool hpool => ?_) hcall
      exact ProcessPool.reap_table h.slots h.count_le hpool

/-! ### Sequences of calls -/

/-- The calls lead from `s` to `t`, and each of them is made where it can be. -/
structure Parts.Leads (fresh : Nat → UInt8) (calls : List Call) (s t : Parts) : Prop where
  allows : s.Allows fresh calls
  run : s.run fresh calls = .ok t

namespace Parts.Leads

variable {fresh : Nat → UInt8} {calls later : List Call} {call : Call} {s t u : Parts}

theorem nil (s : Parts) : Leads fresh [] s s := ⟨trivial, rfl⟩

theorem cons (henabled : s.Enabled call) (hcall : s.call fresh call = .ok t)
    (h : Leads fresh calls t u) : Leads fresh (call :: calls) s u where
  allows := by
    refine ⟨henabled, ?_⟩
    rw [hcall]
    exact h.allows
  run := by
    rw [Parts.run, List.foldlM_cons, hcall]
    exact h.run

theorem singleton (henabled : s.Enabled call) (hcall : s.call fresh call = .ok t) :
    Leads fresh [call] s t := cons henabled hcall (nil t)

/-- The first call, and the others. -/
theorem of_cons (h : Leads fresh (call :: calls) s u) :
    ∃ t, s.Enabled call ∧ s.call fresh call = .ok t ∧ Leads fresh calls t u := by
  obtain ⟨⟨henabled, hallows⟩, hrun⟩ := h
  rw [Parts.run, List.foldlM_cons] at hrun
  cases hcall : s.call fresh call with
  | error e =>
      rw [hcall] at hrun
      cases hrun
  | ok t =>
      rw [hcall] at hrun hallows
      exact ⟨t, henabled, rfl, hallows, hrun⟩

/-- Induction on the first calls. -/
theorem append (h : Leads fresh calls s t) (h' : Leads fresh later t u) :
    Leads fresh (calls ++ later) s u := by
  induction calls generalizing s with
  | nil =>
      cases h.run
      exact h'
  | cons call calls ih =>
      obtain ⟨r, henabled, hcall, hrest⟩ := h.of_cons
      exact cons henabled hcall (ih hrest)

end Parts.Leads

/-- The objects of a mode, with this buffer. -/
def XargsMode.parts (mode : XargsMode) (buf : Buffer) : Parts := ⟨mode.cmd, buf, mode.procs.pool⟩

/-- These calls lead from the objects of `s` to those of `t`. They leave the buffer alone. -/
def XargsMode.Via (calls : List Call) (s t : XargsMode) : Prop :=
  ∀ fresh buf, Parts.Leads fresh calls (s.parts buf) (t.parts buf)

/-- The mode goes from `s` to `t` by calls, and has forked each of its new commands where they had
come to it. -/
def XargsMode.CallsTo (s t : XargsMode) : Prop :=
  ∃ calls images, XargsMode.Via calls s t ∧ t.procs.os.forked = s.procs.os.forked ++ images ∧
    ∀ image ∈ images, ∃ before between, before <+: calls ∧ XargsMode.Via before s between ∧
      between.cmd = image

namespace XargsMode

theorem Via.trans {calls later : List Call} {s t u : XargsMode} (h : Via calls s t)
    (h' : Via later t u) : Via (calls ++ later) s u :=
  fun fresh buf => (h fresh buf).append (h' fresh buf)

theorem CallsTo.of_via (calls : List Call) {s t : XargsMode} (h : Via calls s t)
    (hforked : t.procs.os.forked = s.procs.os.forked) : s.CallsTo t :=
  ⟨calls, [], h, by rw [hforked, List.append_nil], List.forall_mem_nil _⟩

theorem CallsTo.refl (s : XargsMode) : s.CallsTo s := .of_via [] (fun _ _ => .nil _) rfl

/-- A first part of the later calls is one of all calls, with the earlier ones in front. -/
theorem CallsTo.trans {s t u : XargsMode} (h : s.CallsTo t) (h' : t.CallsTo u) : s.CallsTo u := by
  obtain ⟨calls, images, hvia, hforked, himages⟩ := h
  obtain ⟨later, images', hvia', hforked', himages'⟩ := h'
  refine ⟨calls ++ later, images ++ images', hvia.trans hvia', ?_, ?_⟩
  · rw [hforked', hforked, List.append_assoc]
  · intro image hmem
    rcases List.mem_append.mp hmem with hmem | hmem
    · obtain ⟨before, between, hprefix, hbefore, hcmd⟩ := himages image hmem
      exact ⟨before, between, hprefix.trans (List.prefix_append _ _), hbefore, hcmd⟩
    · obtain ⟨before, between, hprefix, hbefore, hcmd⟩ := himages' image hmem
      exact ⟨calls ++ before, between, (List.prefix_append_right_inj calls).mpr hprefix,
        hvia.trans hbefore, hcmd⟩

/-- Where the pool is in order, the mode goes on by calls, and it stays in order. -/
def Tracked (s t : XargsMode) : Prop := s.procs.Inv → t.procs.Inv ∧ s.CallsTo t

theorem Tracked.refl (s : XargsMode) : s.Tracked s := fun hinv => ⟨hinv, .refl s⟩

theorem Tracked.trans (s t u : XargsMode) (h : s.Tracked t) (h' : t.Tracked u) : s.Tracked u := by
  intro hinv
  obtain ⟨hinv', hcalls⟩ := h hinv
  obtain ⟨hinv'', hcalls'⟩ := h' hinv'
  exact ⟨hinv'', hcalls.trans hcalls'⟩

end XargsMode

/-! ### The functions of the pool -/

/-- The pool goes from `s` to `t` by calls, and nothing is forked. -/
def Procs.CallsTo (s t : Procs) : Prop :=
  t.os.forked = s.os.forked ∧
    ∃ calls, ∀ mode : XargsMode, mode.procs = s → XargsMode.Via calls mode { mode with procs := t }

namespace Procs

theorem CallsTo.refl (s : Procs) : s.CallsTo s :=
  ⟨rfl, [], fun mode hmode fresh buf => by rw [← hmode]; exact .nil _⟩

theorem CallsTo.trans {s t u : Procs} (h : s.CallsTo t) (h' : t.CallsTo u) : s.CallsTo u := by
  obtain ⟨hforked, calls, hcalls⟩ := h
  obtain ⟨hforked', later, hlater⟩ := h'
  exact ⟨hforked'.trans hforked, calls ++ later,
    fun mode hmode => (hcalls mode hmode).trans (hlater { mode with procs := t } rfl)⟩

/-- One call. -/
theorem CallsTo.single {s t : Procs} (call : Call) (hforked : t.os.forked = s.os.forked)
    (hcall : ∀ fresh (parts : Parts), parts.pool = s.pool → parts.Enabled call ∧
      parts.call fresh call = .ok { parts with pool := t.pool }) : s.CallsTo t := by
  refine ⟨hforked, [call], fun mode hmode fresh buf => ?_⟩
  obtain ⟨henabled, hcall⟩ := hcall fresh (mode.parts buf) (by rw [← hmode]; rfl)
  exact .singleton henabled hcall

end Procs

theorem PoolStep.adjust_callsTo {w : World} {s t : Procs} (h : PoolStep w .adjust s t) :
    s.CallsTo t := by
  obtain ⟨hpool, -, hlog, -⟩ := h.adjust_cases
  have hforked : t.os.forked = s.os.forked := by rw [Os.forked, hlog, Os.forked]
  by_cases hpending : s.pendingSigusr1 w = 0 ∧ s.pendingSigusr2 w = 0
  · rw [Procs.adjustedPool, if_pos hpending] at hpool
    refine ⟨hforked, [], fun mode hmode fresh buf => ?_⟩
    have hsame : XargsMode.parts { mode with procs := t } buf = mode.parts buf := by
      rw [XargsMode.parts, XargsMode.parts, hpool, hmode]
    rw [hsame]
    exact .nil _
  · rw [Procs.adjustedPool, if_neg hpending] at hpool
    refine .single (.adjust (s.pendingSigusr1 w) (s.pendingSigusr2 w)) hforked ?_
    intro fresh parts hparts
    rw [hpool, ← hparts]
    exact ⟨trivial, rfl⟩

/-- The assertion of `reap_one` held, or there was none. -/
theorem PoolStep.reap_callsTo {w : World} {s t : Procs} (h : PoolStep w .reap s t) :
    s.CallsTo t := by
  obtain ⟨child, hwait, hasserts, hpool, -⟩ := h.reap_cases
  refine .single (.reap w.ndebug child) (Os.waitpid_some hwait).2.1 ?_
  intro fresh parts hparts
  have hreap : s.pool.reap w.ndebug child = .ok t.pool := by
    rw [ProcessPool.reap, if_neg (by tauto), hpool]
  refine ⟨?_, ?_⟩
  · show 0 < parts.pool.count
    rw [hparts]
    exact h.enabled
  · show Except.map _ (parts.pool.reap w.ndebug child) = _
    rw [hparts, hreap]
    rfl

theorem applySignalAdjustments_callsTo (w : World) {s : Procs} (hinv : s.Inv) :
    wp (applySignalAdjustments w) (fun _ t => t.Inv ∧ s.CallsTo t) (fun _ _ => False) s := by
  apply wp_mono_run (applySignalAdjustments_spec w hinv)
  · intro _ t hrun ht
    have hstep : PoolStep w .adjust s t := ⟨trivial, hrun⟩
    exact ⟨ht.1, hstep.adjust_callsTo⟩
  · exact fun _ _ _ h => h

theorem reapWhile_callsTo (w : World) {cond : Procs → Bool}
    (hcond : ∀ s : Procs, cond s = true → 0 < s.pool.count) {s : Procs} (hinv : s.Inv) :
    wp (whileDo cond (reapOne w) s.pool.count)
      (fun _ t => (t.Inv ∧ s.CallsTo t) ∧ cond t = false) (fun _ _ => False) s := by
  refine wp_reapWhile hcond ?_ ⟨hinv, .refl s⟩
  rintro t ⟨hinv', hcalls⟩ hpos
  apply wp_mono_run (reapOne_spec w hinv' hpos)
  · rintro _ u hrun ⟨hinv'', -, hcount, -⟩
    have hstep : PoolStep w .reap t u := ⟨hpos, hrun⟩
    exact ⟨⟨hinv'', hcalls.trans hstep.reap_callsTo⟩, by omega⟩
  · exact fun _ _ _ h => h

theorem processPoolWaitIfFull_callsTo (w : World) {s : Procs} (hinv : s.Inv) :
    wp (processPoolWaitIfFull w) (fun _ t => s.CallsTo t) (fun _ _ => False) s := by
  simp only [processPoolWaitIfFull, wp_bind, wp_get]
  refine wp_mono_return (applySignalAdjustments_callsTo w hinv) ?_
  rintro _ t ⟨hinv', hcalls⟩
  refine wp_mono_return (reapWhile_callsTo w (fun _ => ProcessPool.count_pos_of_full) hinv') ?_
  rintro _ u ⟨⟨-, hcalls'⟩, -⟩
  exact hcalls.trans hcalls'

theorem processPoolDrain_callsTo (w : World) {s : Procs} (hinv : s.Inv) :
    wp (processPoolDrain w) (fun _ t => t.Inv ∧ s.CallsTo t) (fun _ _ => False) s := by
  simp only [processPoolDrain, wp_bind, wp_get, wp_pure]
  refine wp_mono_return (reapWhile_callsTo w (fun _ => of_decide_eq_true) hinv) ?_
  exact fun _ t ht => ht.1

/-- A submission is the call. -/
theorem PoolStep.submit_call {w : World} {image : Command} {s t : Procs}
    (h : PoolStep w (.submit image) s t) : ∃ pid, s.pool.submit pid = .ok t.pool := by
  have hsubmit : ∀ (pid : Pid) (s : Procs), wp (processPoolSubmit pid)
      (fun _ t => s.pool.submit pid = .ok t.pool) (fun _ _ => True) s := by
    intro pid s
    simp only [processPoolSubmit, wp_bind, wp_get, wp_ite, wp_modify]
    unfold ProcessPool.submit ProcessPool.makeRoom
    split
    · cases hdouble : phxargsDoubleCapacity s.pool.capacity with
      | error e => exact trivial
      | ok capacity => rfl
    · rfl
  have hrun : wp (forkAndSubmit w image) (fun _ t => ∃ pid, s.pool.submit pid = .ok t.pool)
      (fun _ _ => True) s := by
    simp only [forkAndSubmit, wp_bind, wp_get]
    cases hfork : s.os.fork w image with
    | none => exact trivial
    | some answer =>
        obtain ⟨pid, os⟩ := answer
        simp only [wp_bind, wp_set]
        refine wp_mono_return (hsubmit pid { s with os := os }) fun _ t ht => ⟨pid, ht⟩
  exact (wp_of_ok h.returns).mp hrun

/-! ### The functions of a mode -/

/-- Every run moves along a preorder along which these functions move. -/
theorem xargsRun_moves_of {R : XargsMode → XargsMode → Prop} (hrefl : ∀ s, R s s)
    (htrans : ∀ s t u, R s t → R t u → R s u) (w : World) (hnext : Moves R xargsModeNextToken)
    (hexecute : Moves R (xargsModeExecuteCommand w))
    (hdrain : Moves R (onProcs (processPoolDrain w)))
    (hadd : ∀ arg, Moves R (xargsModeAddInputArgument arg))
    (hreplace : ∀ arg, Moves R (xargsReplaceArgs arg)) (opts : Options) :
    Moves R (xargsRun w opts) := by
  have hhalted : Moves R xargsModeHalted := .bind htrans (.get hrefl) fun _ => .pure hrefl _
  have herrored : Moves R xargsModeTokenizerErrored :=
    .bind htrans (.get hrefl) fun _ => .pure hrefl _
  have hfailure : Moves R (xargsModeTokenizerFailure w) :=
    .bind htrans hdrain fun _ => .throw hrefl _
  have hfinish : Moves R (do return EXIT_SUCCESS ||| (← xargsModeDrain w)) :=
    .bind htrans hdrain fun _ => .pure hrefl _
  have hloop : ∀ {iteration : CStr → EStateM Exit XargsMode Bool}, (∀ arg, Moves R (iteration arg)) →
      Moves R (do forEach xargsModeNextToken iteration (← get).rounds false) := fun h =>
    .bind htrans (.get hrefl) fun _ => .forEach hrefl htrans hnext h _ _
  unfold xargsRun
  split
  · -- `appender_mode_run`.
    have hcheck : Moves R (xargsModeShouldExecuteCommandAfterArgAdded w) := by
      refine .bind htrans (.get hrefl) fun mode => .ite _ ?_ (.pure hrefl _)
      exact .bind htrans hdrain fun _ => .throw hrefl _
    have hpart : ∀ arg, Moves R (appenderModeAdd w arg) := by
      intro arg
      refine .bind htrans (hadd arg) fun _ => .bind htrans hcheck fun execute => ?_
      exact .ite _ (.bind htrans hexecute fun _ => hhalted) (.pure hrefl _)
    have hiteration : ∀ arg, Moves R (appenderModeIteration w arg) := by
      intro arg
      have hexceeds : Moves R (xargsModeArgWouldExceedLimits arg) :=
        .bind htrans (.get hrefl) fun _ => .ofExcept hrefl _
      refine .bind htrans hexceeds fun exceeds => .ite _ ?_ (hpart arg)
      refine .bind htrans hexecute fun _ => .bind htrans hhalted fun halted => ?_
      exact .ite _ (.pure hrefl _) (hpart arg)
    have hremain : Moves R xargsModeInputArgsRemain :=
      .bind htrans (.get hrefl) fun _ => .pure hrefl _
    refine .bind htrans (hloop hiteration) fun present => .bind htrans herrored fun errored => ?_
    refine .ite _ hfailure ?_
    unfold appenderModeFinish
    cases present with
    | false =>
        cases opts.suppressExecutionOnEmptyInput with
        | false => exact .bind htrans hexecute fun _ => hfinish
        | true => exact hfinish
    | true =>
        refine .bind htrans hremain fun remain => ?_
        cases remain with
        | false => exact hfinish
        | true => exact .bind htrans hexecute fun _ => hfinish
  · -- `replacer_mode_run`.
    have hiteration : ∀ arg, Moves R (replacerModeIteration w arg) := by
      intro arg
      have hlength : Moves R (xargsModeEnsureCommandLengthNotExceeded arg) :=
        .bind htrans (.get hrefl) fun _ => .ofExcept hrefl _
      refine .bind htrans hlength fun _ => .bind htrans (hreplace arg) fun _ => ?_
      exact .bind htrans hexecute fun _ => hhalted
    refine .bind htrans (hloop hiteration) fun _ => .bind htrans herrored fun errored => ?_
    exact .ite _ hfailure hfinish

/-- Calls of `on_input_boundary`. -/
theorem via_boundaries (n : Nat) : ∀ s : XargsMode,
    XargsMode.Via (List.replicate n .inputBoundary) s
      { s with cmd := commandIncrementLineCount s.cmd n } := by
  induction n with
  | zero => exact fun s fresh buf => .nil _
  | succ n ih =>
      intro s fresh buf
      have hcount : s.cmd.lineCount + (n + 1) = s.cmd.lineCount + 1 + n := by omega
      have hlater := ih { s with cmd := commandIncrementLineCount s.cmd 1 } fresh buf
      rw [List.replicate_succ, commandIncrementLineCount, hcount]
      exact .cons trivial rfl hlater

theorem xargsModeNextToken_tracked : Moves XargsMode.Tracked xargsModeNextToken := by
  intro s
  simp only [xargsModeNextToken, wp_bind, wp_get]
  split
  · simp only [wp_bind, wp_set, wp_pure]
    exact fun hinv => ⟨hinv, .of_via _ (via_boundaries s.toker.endBoundaries s) rfl⟩
  · rename_i token tokens _
    simp only [wp_bind, wp_set, wp_pure]
    exact fun hinv => ⟨hinv, .of_via _ (via_boundaries token.boundaries s) rfl⟩

/-- What a program does from a state where the pool is not in order does not matter. -/
theorem tracked_of_inv {α : Type} {m : EStateM Exit XargsMode α}
    (h : ∀ s : XargsMode, s.procs.Inv →
      wp m (fun _ t => t.procs.Inv ∧ s.CallsTo t) (fun _ t => t.procs.Inv ∧ s.CallsTo t) s) :
    Moves XargsMode.Tracked m := by
  intro s
  by_cases hinv : s.procs.Inv
  · exact wp_mono_state (h s hinv) fun t ht _ => ht
  · unfold wp
    split
    · exact fun hinv' => absurd hinv' hinv
    · exact fun hinv' => absurd hinv' hinv

/-- What the pool does, in the middle of a mode. -/
theorem callsTo_of_procs {s : XargsMode} {p : Procs} (h : s.procs.CallsTo p) :
    s.CallsTo { s with procs := p } := by
  obtain ⟨hforked, calls, hcalls⟩ := h
  exact .of_via calls (hcalls s rfl) hforked

theorem xargsModeExecuteCommand_tracked (w : World) :
    Moves XargsMode.Tracked (xargsModeExecuteCommand w) := by
  apply tracked_of_inv
  intro s hinv
  apply wp_executeCommand hinv (processPoolWaitIfFull_callsTo w hinv)
  · exact fun p hcalls hinv' _ => ⟨hinv', callsTo_of_procs hcalls⟩
  · exact fun p hcalls hinv' _ _ => ⟨hinv', callsTo_of_procs hcalls⟩
  · intro p q hcalls _ hinv'' hstep
    obtain ⟨pid, hsubmit⟩ := hstep.submit_call
    obtain ⟨child, hsubmits⟩ := hstep.submit_cases
    obtain ⟨hforked, calls, hwait⟩ := hcalls
    refine ⟨hinv'', calls ++ [.recycle, .submit pid], [s.cmd], ?_, ?_, ?_⟩
    · -- The command is recycled before the child gets its slot.
      have hlast : XargsMode.Via [.recycle, .submit pid] { s with procs := p }
          { s with cmd := recycleCommand s.cmd, procs := q } := by
        intro fresh buf
        have hlast : (XargsMode.parts { s with cmd := recycleCommand s.cmd, procs := p } buf).call fresh
            (.submit pid)
            = .ok (XargsMode.parts { s with cmd := recycleCommand s.cmd, procs := q } buf) := by
          show Except.map _ (p.pool.submit pid) = _
          rw [hsubmit]
          rfl
        exact .cons trivial rfl (.singleton trivial hlast)
      exact (hwait s rfl).trans hlast
    · show q.os.forked = _
      rw [hsubmits.forked, hforked]
    · intro image himage
      rw [List.mem_singleton.mp himage]
      exact ⟨calls, { s with procs := p }, List.prefix_append _ _, hwait s rfl, rfl⟩

theorem processPoolDrain_tracked (w : World) :
    Moves XargsMode.Tracked (onProcs (processPoolDrain w)) := by
  apply tracked_of_inv
  intro s hinv
  simp only [onProcs, wp_focus]
  exact wp_mono_noExit (processPoolDrain_callsTo w hinv) fun _ p hp =>
    ⟨hp.1, callsTo_of_procs hp.2⟩

/-- A function that changes the command by one call, or exits. -/
theorem setCommand_tracked {f : Command → Except Exit Command} (call : Call)
    (henabled : ∀ parts : Parts, parts.Enabled call)
    (hcall : ∀ fresh (parts : Parts) cmd, f parts.cmd = .ok cmd →
      parts.call fresh call = .ok { parts with cmd := cmd }) :
    Moves XargsMode.Tracked (do
      let mode ← get
      let cmd ← ofExcept (f mode.cmd)
      set { mode with cmd := cmd } : EStateM Exit XargsMode PUnit) := by
  intro s
  simp only [wp_bind, wp_get]
  cases hf : f s.cmd with
  | error e => exact .refl s
  | ok cmd =>
      have hvia : XargsMode.Via [call] s { s with cmd := cmd } :=
        fun fresh buf => .singleton (henabled _) (hcall fresh (s.parts buf) cmd hf)
      exact fun hinv => ⟨hinv, .of_via [call] hvia rfl⟩

theorem xargsRun_tracked (w : World) (opts : Options) : Moves XargsMode.Tracked (xargsRun w opts) := by
  have hadd : ∀ arg, Moves XargsMode.Tracked (xargsModeAddInputArgument arg) := by
    intro arg
    refine setCommand_tracked (f := (commandAddInputArgument · arg)) (.addInputArgument arg)
      (fun _ => trivial) ?_
    intro fresh parts cmd hcmd
    show Except.map _ (commandAddInputArgument parts.cmd arg) = _
    rw [hcmd]
    rfl
  have hreplace : ∀ arg, Moves XargsMode.Tracked (xargsReplaceArgs arg) := by
    intro arg
    refine setCommand_tracked (f := (commandReplaceArgs · arg)) (.replaceArgs arg)
      (fun _ => trivial) ?_
    intro fresh parts cmd hcmd
    show Except.map _ (commandReplaceArgs parts.cmd arg) = _
    rw [hcmd]
    rfl
  exact xargsRun_moves_of .refl .trans w xargsModeNextToken_tracked (xargsModeExecuteCommand_tracked w)
    (processPoolDrain_tracked w) hadd hreplace opts

/-- Every run, with whatever end, is a sequence of calls. -/
theorem xargsRun_callsTo (w : World) (opts : Options) {s : XargsMode} (hinv : s.procs.Inv) :
    s.CallsTo (finalState (xargsRun w opts s)) := by
  have htracked := wp_finalState (P := fun _ t => s.Tracked t) (xargsRun_tracked w opts s)
  exact (htracked hinv).2

/-! ### The start -/

/-- What `xargs_create` makes, where it makes a mode. -/
theorem Parts.create_of_ok {m : Machine} {argv : List CStr} {opts : Options} {mode : XargsMode}
    (h : xargsCreateFrom m argv = .ok (opts, mode)) :
    Parts.create m argv = .ok (mode.parts (bufferCreate mode.cmd.maxLength)) := by
  obtain ⟨source, hopts, hsource, hcmd, hmode⟩ := xargsCreateFrom_ok.mp h
  simp only [Parts.create, hopts, Parts.createMode, hsource, hcmd]
  rw [hmode]
  rfl

/-- Where it exits, the objects do not exist, and the status is the same. -/
theorem Parts.create_of_error {m : Machine} {argv : List CStr} {ended : ProcessEnd}
    (h : xargsCreateFrom m argv = .error ended) :
    ∃ e, Parts.create m argv = .error e ∧ e.status = ended.status := by
  unfold xargsCreateFrom at h
  unfold Parts.create
  cases hopts : optionsCreateFrom m.sys.childMax argv with
  | error e =>
      rw [hopts] at h
      cases h
      exact ⟨e, rfl, rfl⟩
  | ok opts =>
      simp only [hopts] at h
      dsimp only [Parts.createMode]
      cases hsource : argSourceOpen m opts.argFilePath with
      | error ended' =>
          simp only [hsource] at h
          cases h
          refine ⟨_, rfl, ?_⟩
          unfold argSourceOpen at hsource
          split at hsource
          · cases hsource
          · split at hsource
            · cases hsource
            · cases hsource
              rfl
      | ok source =>
          simp only [hsource] at h
          cases hcmd : commandCreateFrom m opts argv with
          | error e =>
              simp only [hcmd] at h
              cases h
              exact ⟨e, rfl, rfl⟩
          | ok cmd => simp [hcmd, xargsModeCreate, (commandCreateFrom_ok.mp hcmd).1] at h

/-- The objects of a program that was started under a name. -/
theorem Parts.create_valid {m : Machine} {name : CStr} {args : List CStr} {parts : Parts}
    (h : Parts.create m (name :: args) = .ok parts) : parts.Valid := by
  cases hcreate : xargsCreateFrom m (name :: args) with
  | error ended =>
      obtain ⟨e, herror, -⟩ := Parts.create_of_error hcreate
      rw [herror] at h
      cases h
  | ok made =>
      obtain ⟨opts, mode⟩ := made
      rw [Parts.create_of_ok hcreate] at h
      cases h
      obtain ⟨source, hopts, -, -, hmode⟩ := xargsCreateFrom_ok.mp hcreate
      have hpool : mode.procs.pool = processPoolCreate m.sys.childMax opts.maxProcs := by
        rw [hmode]
        rfl
      refine ⟨?_, ?_, ?_⟩
      · show mode.procs.pool.pids.length = mode.procs.pool.capacity
        rw [hpool]
        exact List.length_replicate
      · show mode.procs.pool.count ≤ mode.procs.pool.capacity
        rw [hpool]
        exact Nat.zero_le _
      · show mode.cmd.fixedArgs.args ≠ []
        obtain ⟨p, rfl⟩ := exists_optParse phxargsOptString args
        cases hoperands : p.operands? with
        | none =>
            obtain ⟨before, bad, e, -, herror, -⟩ :=
              optionsCreateFrom_error m.sys.childMax name hoperands
            rw [hopts] at herror
            cases herror
        | some operands =>
            rw [xargsCreateFrom_operands hoperands hcreate]
            split
            · exact List.cons_ne_nil _ _
            · assumption

/-- A run of the program starts with the objects of `xargs_create` and makes calls. -/
theorem xargsRun_parts {m : Machine} {argv : List CStr} {opts : Options} {mode : XargsMode}
    (h : xargsCreateFrom m argv = .ok (opts, mode)) (w : World) :
    mode.CallsTo (finalState (xargsRun w opts mode)) := by
  obtain ⟨source, -, -, -, hmode⟩ := xargsCreateFrom_ok.mp h
  refine xargsRun_callsTo w opts ?_
  rw [hmode]
  exact Procs.inv_start _ _

end Phxargs
