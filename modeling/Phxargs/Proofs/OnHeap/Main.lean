import Phxargs.Proofs.CommandLine
import Phxargs.Proofs.Memory.Tokenizers
import Phxargs.Proofs.OnHeap.Child
import Phxargs.Proofs.OnHeap.Parts
import Phxargs.Proofs.Parts
import Phxargs.Proofs.Programs

/-!
# `Phxargs.Proofs.OnHeap.Main`: the program frees what it allocates

All blocks of the program, from `xargs_create` to `xargs_destroy`, with any calls between the two.

* `mainWith_frees`: no call reads, writes or frees a block that is not allocated, and in the end
  nothing is left. A reap needs a slot in use, as its callers check.
* `phxargsMain_onHeap`: every run is such a sequence of calls, and every child that it forks builds
  its argv and its trace on what it inherits.
-/

set_option autoImplicit false

namespace Phxargs.OnHeap

open Lib
open scoped Pointwise

variable {γ δ : Type}

/-! ### All blocks -/

/-- The objects that a run changes. The tokenizer has a pointer to the command. -/
def partsAt (s : ModeBlock) (parts : Parts) : Assertion Cell :=
  commandAt s.cmd parts.cmd + (tokenizerAt s.toker s.cmd parts.buf + poolAt s.pool parts.pool)

/-- The `FILE` of a mode that reads a file. -/
def argSourceAt (source : Option Ptr) : Assertion Cell :=
  pointsToOrNull source (source.map fun _ => .file)

/-- A mode with the structure of its own, and what the two of them point to. -/
def modeAt (mode : Ptr) (parts : Parts) : Assertion Cell :=
  ⋃ (s : ModeBlock) (own : Cell),
    pointsTo mode (.mode s) + (pointsTo s.impl own + (argSourceAt s.argSource + partsAt s parts))

theorem modeAt_of {mode : Ptr} {parts : Parts} (s : ModeBlock) (own : Cell) :
    pointsTo mode (.mode s) + (pointsTo s.impl own + (argSourceAt s.argSource + partsAt s parts))
      ⊆ modeAt mode parts :=
  Set.subset_iUnion_of_subset s (Set.subset_iUnion_of_subset own (Set.Subset.refl _))

/-- All blocks of the program. -/
def xargsAt (x : Ptr) (parts : Parts) : Assertion Cell :=
  ⋃ mode : Ptr, pointsTo x (.xargs mode) + modeAt mode parts

theorem xargsAt_of {x mode : Ptr} {parts : Parts} :
    pointsTo x (.xargs mode) + modeAt mode parts ⊆ xargsAt x parts :=
  Set.subset_iUnion (fun mode : Ptr => pointsTo x (Cell.xargs mode) + modeAt mode parts) mode

/-- All blocks but the objects that a run changes. -/
def pathAt (x mode : Ptr) (s : ModeBlock) (own : Cell) : Assertion Cell :=
  pointsTo x (.xargs mode) + (pointsTo mode (.mode s) + (pointsTo s.impl own + argSourceAt s.argSource))

/-- The objects under a path make the whole again. -/
theorem xargsAt_of_path {x mode : Ptr} {s : ModeBlock} {own : Cell} {parts : Parts} :
    partsAt s parts + pathAt x mode s own ⊆ xargsAt x parts := by
  have hclosed : pointsTo x (.xargs mode) + (pointsTo mode (.mode s) + (pointsTo s.impl own +
      (argSourceAt s.argSource + partsAt s parts))) ⊆ xargsAt x parts :=
    Set.Subset.trans (Set.add_subset_add_left (modeAt_of s own)) xargsAt_of
  refine Set.Subset.trans (Eq.subset ?_) hclosed
  unfold pathAt
  ac_rfl

/-- A call reads its way to the objects. -/
theorem implements_openXargs {x : Ptr} {parts : Parts} {f : ModeBlock → M δ}
    {r : Except Exit γ} {T : γ → δ → Assertion Cell}
    (h : ∀ mode s own, Implements (partsAt s parts + pathAt x mode s own) (f s) r T) :
    Implements (xargsAt x parts)
      (do
        let s ← loadAs Cell.asMode (← loadAs Cell.asXargs x)
        f s) r T := by
  refine Implements.iUnion fun mode => ?_
  refine Implements.loadAs ((holds_pointsTo _ _).add_right _) rfl ?_
  rw [add_comm]
  refine Implements.iUnion_add fun s => ?_
  rw [Set.iUnion_add]
  refine Implements.iUnion fun own => ?_
  refine Implements.loadAs (((holds_pointsTo _ _).add_right _).add_right _) rfl ?_
  exact Implements.rearrange (partsAt s parts + pathAt x mode s own) (by rw [pathAt]; ac_rfl)
    (h mode s own)

/-! ### `xargs_create` -/

theorem implements_argSourceOpen (m : Machine) (path : Option CStr) :
    Implements 0 (argSourceOpen m path)
      ((Phxargs.argSourceOpen m path).mapError fun _ => Exit.failure .alreadyReported)
      fun _ source => argSourceAt source := by
  cases path with
  | none => exact Implements.pure (Set.Subset.refl _)
  | some path =>
      unfold argSourceOpen Phxargs.argSourceOpen
      dsimp only
      cases m.fopen path with
      | ok source =>
          refine Implements.malloc fun p => Implements.pure ?_
          rw [add_zero]
          exact Set.Subset.refl _
      | error reason => exact Implements.exit _ _ _

theorem implements_commandCreateFrom (m : Machine) (opts : Options) (argv : List CStr) :
    Implements 0 (commandCreateFrom m opts argv) (Phxargs.commandCreateFrom m opts argv)
      fun cmd p => commandAt p cmd := by
  unfold commandCreateFrom Phxargs.commandCreateFrom
  cases hslots : m.phxargsCalloc opts.inputArgSlots SIZEOF_POINTER with
  | error e => exact Implements.orExit_error rfl
  | ok _ =>
      refine Implements.orExit_ok rfl ?_
      refine (implements_commandCreate m.sys opts opts.optindVal argv).seq (fun cmd p hcmd => ?_)
        fun e hcmd => by simp only [hcmd]
      simp only [hcmd]
      refine Implements.iUnion fun l => ?_
      refine Implements.loadAs ((holds_pointsTo _ _).add_right _) rfl ?_
      have hmax : l.block.maxLength = cmd.maxLength := rfl
      rw [hmax]
      cases m.phxargsCalloc (Phxargs.processPoolCreate m.sys.childMax opts.maxProcs).capacity
          SIZEOF_PID with
      | error e => exact Implements.orExit_error rfl
      | ok _ =>
          refine Implements.orExit_ok rfl ?_
          cases m.phxargsCalloc (cmd.maxLength + 1) 1 with
          | error e => exact Implements.orExit_error rfl
          | ok _ => exact Implements.orExit_ok rfl (Implements.pure (commandAt_of l))

/-- The tokenizer is created with a pointer to the command. -/
theorem implements_createTokenizer (opts : Options) (p : Ptr) {cmd : Command}
    (hlength : cmd.maxLength < SIZE_MAX) :
    Implements (commandAt p cmd) (createTokenizer opts p) (.ok ())
      fun _ toker => commandAt p cmd + tokenizerAt toker p (Phxargs.bufferCreate cmd.maxLength) := by
  refine Implements.iUnion fun l => ?_
  unfold createTokenizer
  refine Implements.loadAs ((holds_pointsTo _ _).add_right _) rfl ?_
  have hmax : l.block.maxLength = cmd.maxLength := rfl
  rw [hmax]
  have hcreate : ∀ {create : M Ptr}, Implements 0 create (.ok ())
        (fun (_ : Unit) toker => tokenizerAt toker p (Phxargs.bufferCreate cmd.maxLength)) →
      Implements (pointsTo p (.command l.block) + l.owned) create (.ok ())
        fun (_ : Unit) toker =>
          commandAt p cmd + tokenizerAt toker p (Phxargs.bufferCreate cmd.maxLength) := by
    intro create h
    refine (h.frame (pointsTo p (.command l.block) + l.owned)).mono ?_ fun _ toker _ => ?_
    · rw [zero_add]
    · rw [add_comm]
      exact Set.add_subset_add_right (commandAt_of l)
  split
  · exact hcreate (implements_delimTokenizerCreate hlength _ p)
  · exact hcreate (implements_spaceTokenizerCreate hlength _ p)

/-- A mode has everything but the structure of its own, `impl`. -/
theorem implements_xargsModeCreate (m : Machine) (ops : ModeOps) {opts : Options} {argv : List CStr}
    (impl : Ptr)
    (hlength : ∀ cmd, Phxargs.commandCreate m.sys opts opts.optindVal argv = .ok cmd →
      cmd.maxLength < SIZE_MAX) :
    Implements 0 (xargsModeCreate m ops opts argv impl) (Parts.createMode m opts argv)
      fun parts mode => ⋃ s : { s : ModeBlock // s.impl = impl },
        pointsTo mode (.mode s.val) + (argSourceAt s.val.argSource + partsAt s.val parts) := by
  unfold xargsModeCreate Parts.createMode
  refine Implements.malloc fun mode => ?_
  rw [add_comm]
  refine (implements_argSourceOpen m opts.argFilePath).call (fun file source hfile => ?_)
    fun e hfile => ?_
  · have hok : Phxargs.argSourceOpen m opts.argFilePath = .ok file := by
      cases hopen : Phxargs.argSourceOpen m opts.argFilePath with
      | error ended => rw [hopen] at hfile; cases hfile
      | ok file' => rw [hopen] at hfile; cases hfile; rfl
    rw [hok, ← zero_add (argSourceAt source + _)]
    refine (implements_commandCreateFrom m opts argv).call (fun cmd p hcmd => ?_)
      fun e hcmd => by rw [hcmd]
    rw [hcmd, ← zero_add (commandAt p cmd + _)]
    refine (implements_processPoolCreate m.sys.childMax opts.maxProcs).callOk fun pool => ?_
    refine Implements.rearrange (commandAt p cmd +
      (poolAt pool (Phxargs.processPoolCreate m.sys.childMax opts.maxProcs) +
        (argSourceAt source + pointsTo mode .raw))) (by ac_rfl) ?_
    have hshort := hlength cmd (commandCreateFrom_ok.mp hcmd).1
    refine (implements_createTokenizer opts p hshort).callOk fun toker => ?_
    refine Implements.rearrange (pointsTo mode .raw + (argSourceAt source + (commandAt p cmd +
      (tokenizerAt toker p (Phxargs.bufferCreate cmd.maxLength) +
        poolAt pool (Phxargs.processPoolCreate m.sys.childMax opts.maxProcs))))) (by ac_rfl) ?_
    refine Implements.store (Implements.pure ?_)
    let s : { s : ModeBlock // s.impl = impl } := ⟨⟨ops, source, p, toker, pool, impl⟩, rfl⟩
    exact Set.subset_iUnion_of_subset s (Set.Subset.refl _)
  · cases hopen : Phxargs.argSourceOpen m opts.argFilePath with
    | error ended => rw [hopen] at hfile; cases hfile; rfl
    | ok file => rw [hopen] at hfile; cases hfile

/-- The two modes differ in the structure of their own. -/
theorem implements_modeCreate (m : Machine) (ops : ModeOps) {opts : Options} {argv : List CStr}
    (before after : Ptr → Cell)
    (hlength : ∀ cmd, Phxargs.commandCreate m.sys opts opts.optindVal argv = .ok cmd →
      cmd.maxLength < SIZE_MAX) :
    Implements 0
      (do
        let impl ← malloc .raw
        store impl (before impl)
        let base ← xargsModeCreate m ops opts argv impl
        store impl (after base)
        return base : M Ptr)
      (Parts.createMode m opts argv) fun parts mode => modeAt mode parts := by
  refine Implements.malloc fun impl => ?_
  refine Implements.store ?_
  rw [add_comm]
  refine (implements_xargsModeCreate m ops impl hlength).call (fun parts mode hparts => ?_)
    fun e hparts => hparts
  rw [hparts]
  refine Implements.iUnion_add fun s => ?_
  rw [add_comm]
  refine Implements.store (Implements.pure ?_)
  refine Set.Subset.trans (Eq.subset ?_) (modeAt_of s.val (after mode))
  rw [s.property, add_left_comm]

theorem implements_xargsCreate (m : Machine) (argv : List CStr) :
    Implements 0 (xargsCreate m argv) (Parts.create m argv) fun parts x => xargsAt x parts := by
  unfold xargsCreate optionsCreate Parts.create
  simp only [bind_assoc]
  refine Implements.malloc fun opts => ?_
  cases hopts : optionsCreateFrom m.sys.childMax argv with
  | error e => exact Implements.orExit_error rfl
  | ok o =>
      refine Implements.orExit_ok rfl ?_
      refine Implements.store ?_
      refine Implements.loadAs ((holds_pointsTo _ _).add_right _) rfl ?_
      refine Implements.malloc fun x => ?_
      have hlength : ∀ cmd, Phxargs.commandCreate m.sys o o.optindVal argv = .ok cmd →
          cmd.maxLength < SIZE_MAX := fun cmd hcmd => Memory.commandMaxLength_lt hopts hcmd
      -- What follows, behind the choice of the mode.
      have hlast : ∀ {create : M Ptr},
          Implements 0 create (Parts.createMode m o argv) (fun parts mode => modeAt mode parts) →
          Implements (pointsTo x .raw + (pointsTo opts (.options o) + 0))
            (do
              let mode ← create
              store x (.xargs mode)
              free opts
              return x) (Parts.createMode m o argv) fun parts x => xargsAt x parts := by
        intro create hcreate
        rw [add_zero, ← zero_add (pointsTo x _ + _)]
        refine hcreate.call (fun parts mode hparts => ?_) fun e hparts => hparts
        rw [hparts]
        refine Implements.rearrange (pointsTo x .raw + (pointsTo opts (.options o) +
          modeAt mode parts)) (by ac_rfl) ?_
        refine Implements.store ?_
        rw [add_left_comm]
        exact Implements.free (Implements.pure xargsAt_of)
      split
      · exact hlast (implements_modeCreate m .appender
          (fun _ => .appenderMode none o.suppressExecutionOnEmptyInput)
          (fun base => .appenderMode (some base) o.suppressExecutionOnEmptyInput) hlength)
      · exact hlast (implements_modeCreate m .replacer (fun _ => .replacerMode none)
          (fun base => .replacerMode (some base)) hlength)

/-! ### `xargs_destroy` -/

theorem implements_xargsModeDestroy (mode : Ptr) (parts : Parts) :
    Implements (modeAt mode parts) (xargsModeDestroy mode) (.ok ()) fun _ _ => 0 := by
  refine Implements.iUnion fun s => Implements.iUnion fun own => ?_
  unfold xargsModeDestroy
  refine Implements.loadAs ((holds_pointsTo _ _).add_right _) rfl ?_
  refine Implements.rearrange (pointsTo s.impl own + (commandAt s.cmd parts.cmd +
    (tokenizerAt s.toker s.cmd parts.buf + (poolAt s.pool parts.pool +
      (argSourceAt s.argSource + (pointsTo mode (.mode s) + 0))))))
    (by rw [partsAt, add_zero]; ac_rfl) ?_
  refine Implements.free ?_
  refine (implements_commandDestroy _ _).callOk fun _ => ?_
  rw [zero_add]
  refine (implements_tokenizerDestroy _ _ _).callOk fun _ => ?_
  rw [zero_add]
  refine (implements_processPoolDestroy _ _).callOk fun _ => ?_
  rw [zero_add]
  refine (Implements.freeOrNull_spec _ _).callOk fun _ => ?_
  rw [zero_add]
  exact Implements.free_last (Set.Subset.refl _)

theorem implements_xargsDestroy (x : Ptr) (parts : Parts) :
    Implements (xargsAt x parts) (xargsDestroy x) (.ok ()) fun _ _ => 0 := by
  refine Implements.iUnion fun mode => ?_
  unfold xargsDestroy
  refine Implements.loadAs ((holds_pointsTo _ _).add_right _) rfl ?_
  rw [add_comm]
  refine (implements_xargsModeDestroy mode parts).callOk fun _ => ?_
  rw [zero_add, ← add_zero (pointsTo x _)]
  exact Implements.free_last (Set.Subset.refl _)

/-! ### The calls of a run -/

section Calls

variable {s : ModeBlock} {parts : Parts}

theorem implements_onTokenizer {m : M Unit} {r : Except Exit Buffer}
    (h : Implements (tokenizerAt s.toker s.cmd parts.buf) m r fun b _ => tokenizerAt s.toker s.cmd b) :
    Implements (partsAt s parts) m (parts.onBuffer r) fun parts _ => partsAt s parts := by
  unfold partsAt Parts.onBuffer
  rw [add_left_comm]
  refine Implements.map ((h.frame _).imp fun b _ _ => ?_)
  rw [add_left_comm]

theorem implements_onCommand {m : M Unit} {r : Except Exit Command}
    (h : Implements (commandAt s.cmd parts.cmd) m r fun cmd _ => commandAt s.cmd cmd) :
    Implements (partsAt s parts) m (parts.onCommand r) fun parts _ => partsAt s parts :=
  Implements.map (h.frame _)

theorem implements_onPool {m : M Unit} {r : Except Exit ProcessPool}
    (h : Implements (poolAt s.pool parts.pool) m r fun pool _ => poolAt s.pool pool) :
    Implements (partsAt s parts) m (parts.onPool r) fun parts _ => partsAt s parts := by
  unfold partsAt Parts.onPool
  refine Implements.rearrange (poolAt s.pool parts.pool +
    (commandAt s.cmd parts.cmd + tokenizerAt s.toker s.cmd parts.buf)) (by ac_rfl) ?_
  refine Implements.map ((h.frame _).imp fun pool _ _ => Eq.subset ?_)
  ac_rfl

/-- Each call does to the objects what it does to their values, where it can be made. -/
theorem implements_runCall (fresh : Nat → UInt8) (s : ModeBlock) {parts : Parts} (hvalid : parts.Valid)
    {call : Call} (henabled : parts.Enabled call) :
    Implements (partsAt s parts) (runCall fresh s call) (parts.call fresh call)
      fun parts _ => partsAt s parts := by
  cases call with
  | tokenizerAdd ch =>
      exact implements_onTokenizer (implements_onBuffer _ _ fun buf => implements_bufferPut fresh buf _ ch)
  | tokenizerDropLast =>
      exact implements_onTokenizer (implements_onBuffer _ _ fun buf => implements_bufferDropLast buf _)
  | tokenizerReset =>
      exact implements_onTokenizer (implements_onBuffer _ _ fun buf => implements_bufferReset buf _)
  | inputBoundary =>
      unfold partsAt
      rw [← add_assoc]
      have hcall := (implements_inputBoundary s.toker s.cmd parts.buf parts.cmd).frame
        (poolAt s.pool parts.pool)
      refine Implements.map (g := fun cmd => { parts with cmd := cmd }) (hcall.imp fun cmd _ _ =>
        Eq.subset ?_)
      exact add_assoc _ _ _
  | addInputArgument newArg =>
      exact implements_onCommand (implements_commandAddInputArgument s.cmd parts.cmd newArg)
  | replaceArgs newArg =>
      exact implements_onCommand (implements_commandReplaceArgs s.cmd newArg hvalid.fixedArgs_ne)
  | recycle => exact implements_onCommand (implements_recycleCommand s.cmd parts.cmd)
  | submit pid =>
      exact implements_onPool (implements_processPoolSubmit s.pool hvalid.slots hvalid.count_le pid)
  | adjust u1 u2 =>
      exact implements_onPool (implements_applyAdjustment s.pool hvalid.slots u1 u2)
  | reap ndebug child =>
      exact implements_onPool
        (implements_reapChild ndebug s.pool hvalid.slots hvalid.count_le henabled child)

end Calls

/-- All calls of a run. Induction on them. -/
theorem implements_runCalls (fresh : Nat → UInt8) (x : Ptr) :
    ∀ (calls : List Call) {parts : Parts}, parts.Valid → parts.Allows fresh calls →
      Implements (xargsAt x parts) (runCalls fresh x calls) (parts.run fresh calls)
        fun parts _ => xargsAt x parts := by
  intro calls
  induction calls with
  | nil => exact fun _ _ => Implements.pure (Set.Subset.refl _)
  | cons call calls ih =>
      rintro parts hvalid ⟨henabled, hallows⟩
      rw [runCalls, Parts.run, List.foldlM_cons]
      refine implements_openXargs fun mode s own => ?_
      refine (implements_runCall fresh s hvalid henabled).call (fun parts' _ hcall => ?_)
        fun e hcall => ?_
      · rw [hcall] at hallows ⊢
        have hlater := ih (hvalid.call hcall) hallows
        exact Implements.of_subset (xargsAt x parts') xargsAt_of_path hlater
      · rw [hcall]
        rfl

/-! ### Whole runs -/

/-- The value of a run that makes these calls. -/
theorem implements_mainWith (m : Machine) (name : CStr) (args : List CStr) (calls : List Call)
    (hallows : ∀ parts, Parts.create m (name :: args) = .ok parts → parts.Allows m.fresh calls) :
    Implements 0 (mainWith m (name :: args) calls)
      (Parts.create m (name :: args) >>= (·.run m.fresh calls)) fun _ _ => 0 := by
  unfold mainWith
  refine (implements_xargsCreate m (name :: args)).seq (fun parts x hparts => ?_) fun e he => by
    rw [he]; rfl
  rw [hparts]
  show Implements _ _ (parts.run m.fresh calls) _
  have hcalls := implements_runCalls m.fresh x calls (Parts.create_valid hparts) (hallows parts hparts)
  refine hcalls.seq (fun last _ hlast => ?_) fun e he => he
  rw [hlast]
  exact (implements_xargsDestroy x last).result last

/-- **No leak and no invalid access.** For every machine, every command line and every sequence of
calls on the objects, with a reap only where a slot is in use: where none of them exits,
`xargs_create`, the calls and `xargs_destroy` free every block, and else they end in the exit that the
values end in. A read, a write or a `free` of a block that is not allocated would end the run in
another way, and so would a read or a write behind the end of the table. -/
theorem mainWith_frees (m : Machine) (name : CStr) (args : List CStr) (calls : List Call)
    (hallows : ∀ parts, Parts.create m (name :: args) = .ok parts → parts.Allows m.fresh calls) :
    match Parts.create m (name :: args) >>= (·.run m.fresh calls) with
    | .ok _ => ∃ heap, mainWith m (name :: args) calls [] = .ok () heap ∧ blocks heap = 0
    | .error e => ∃ heap, mainWith m (name :: args) calls [] = .error (.exit e) heap := by
  have hmain := implements_mainWith m name args calls hallows
  split
  · rename_i last hlast
    rw [hlast] at hmain
    obtain ⟨_, heap, hrun, hfreed⟩ := hmain.run_ok
    exact ⟨heap, hrun, hfreed⟩
  · rename_i e he
    rw [he] at hmain
    exact hmain.run_error

/-- A byte of the input, and a child that is reaped. -/
theorem mainWith_frees_reap :
    ∃ heap, mainWith (.ofLines []) [[120], [99]]
        [.tokenizerAdd 97, .submit 7, .reap false ⟨7, .exited 0⟩] [] = .ok () heap ∧
      blocks heap = 0 := by
  obtain ⟨parts, hparts, hallows, last, hlast⟩ : ∃ parts,
      Parts.create (.ofLines []) [[120], [99]] = .ok parts ∧
      parts.Allows (Machine.ofLines []).fresh
        [.tokenizerAdd 97, .submit 7, .reap false ⟨7, .exited 0⟩] ∧
      ∃ last, parts.run (Machine.ofLines []).fresh
        [.tokenizerAdd 97, .submit 7, .reap false ⟨7, .exited 0⟩] = .ok last :=
    ⟨_, rfl, ⟨trivial, trivial, Nat.one_pos, trivial⟩, _, rfl⟩
  have hfrees := mainWith_frees (.ofLines []) [120] [[99]]
    [.tokenizerAdd 97, .submit 7, .reap false ⟨7, .exited 0⟩] fun parts' hparts' => by
      rw [hparts] at hparts'
      cases hparts'
      exact hallows
  have hrun : Parts.create (.ofLines []) [[120], [99]] >>= (·.run (Machine.ofLines []).fresh
      [.tokenizerAdd 97, .submit 7, .reap false ⟨7, .exited 0⟩]) = .ok last := by
    rw [hparts]
    exact hlast
  rw [hrun] at hfrees
  exact hfrees

/-- The child of a run, and then `xargs_destroy`. -/
theorem implements_childWith {m : Machine} {name : CStr} {args : List CStr} {calls : List Call}
    {parts last : Parts} (hparts : Parts.create m (name :: args) = .ok parts)
    (hleads : Parts.Leads m.fresh calls parts last) :
    Implements 0
      (do
        let (x, child) ← childWith m (name :: args) calls
        xargsDestroy x
        return child)
      (.ok (Phxargs.buildExecArgs last.cmd,
        if last.cmd.trace then
          some (Phxargs.writeTrace (Phxargs.buildExecArgs last.cmd) (!last.cmd.prompt))
        else none))
      fun v b => withFact (b = v) 0 := by
  unfold childWith
  simp only [bind_assoc, pure_bind]
  refine (implements_xargsCreate m (name :: args)).seqOk hparts fun x => ?_
  have hcalls := implements_runCalls m.fresh x calls (Parts.create_valid hparts) hleads.allows
  refine hcalls.seqOk hleads.run fun _ => ?_
  refine implements_openXargs fun mode s own => ?_
  rw [partsAt, add_assoc]
  refine (implements_execChildDeclined m.fresh s.cmd last.cmd).callOk fun child => ?_
  refine Implements.withFact fun hchild => ?_
  rw [hchild, ← add_assoc]
  refine Implements.of_subset (xargsAt x last + 0) ?_ ?_
  · rw [add_zero]
    exact xargsAt_of_path
  · refine (implements_xargsDestroy x last).callOk fun _ => Implements.pure ?_
    rw [add_zero]
    exact subset_withFact rfl _

/-- **Every run is safe on the heap.** Whatever the children do, and however the run ends: there are
calls that lead from the objects of `xargs_create` to those that the run leaves behind, with the
command and the pool of the model without pointers, and on the heap these calls, with `xargs_destroy`
behind them, free everything. Each child that was forked inherits the heap behind a first part of the
calls. There it builds the argv and the trace of the command that was forked, and one that is declined
frees what it has allocated itself, the `FILE` of the terminal too. The calls are those on the command
and on the pool: what the tokenizer does to its buffer is left out.

Where `xargs_create` exits instead, it does so on the heap too, with the same status. -/
theorem phxargsMain_onHeap (m : Machine) (w : World) (name : CStr) (args : List CStr) :
    match xargsCreateFrom m (name :: args) with
    | .error ended =>
        ∃ e heap, xargsCreate m (name :: args) [] = .error (.exit e) heap ∧ e.status = ended.status
    | .ok (opts, mode) =>
        ∃ (calls : List Call) (last : Parts),
          Parts.create m (name :: args) >>= (·.run m.fresh calls) = .ok last ∧
          last.cmd = (finalState (xargsRun w opts mode)).cmd ∧
          last.pool = (finalState (xargsRun w opts mode)).procs.pool ∧
          (∃ heap, mainWith m (name :: args) calls [] = .ok () heap ∧ blocks heap = 0) ∧
          ∀ image ∈ (finalState (xargsRun w opts mode)).procs.os.forked, ∃ before, before <+: calls ∧
            ∃ heap, (do
                let (x, child) ← childWith m (name :: args) before
                xargsDestroy x
                return child) []
              = .ok (Phxargs.buildExecArgs image,
                  if image.trace then
                    some (Phxargs.writeTrace (Phxargs.buildExecArgs image) (!image.prompt))
                  else none) heap ∧
              blocks heap = 0 := by
  cases hcreate : xargsCreateFrom m (name :: args) with
  | error ended =>
      obtain ⟨e, herror, hstatus⟩ := Parts.create_of_error hcreate
      have hxargs := implements_xargsCreate m (name :: args)
      rw [herror] at hxargs
      obtain ⟨heap, hrun⟩ := hxargs.run_error
      exact ⟨e, heap, hrun, hstatus⟩
  | ok made =>
      obtain ⟨opts, mode⟩ := made
      have hparts := Parts.create_of_ok hcreate
      obtain ⟨calls, images, hvia, hforked, himages⟩ := xargsRun_parts hcreate w
      have hnone : mode.procs.os.forked = [] := by
        obtain ⟨source, -, -, -, hmode⟩ := xargsCreateFrom_ok.mp hcreate
        rw [hmode]
        rfl
      rw [hnone, List.nil_append] at hforked
      -- The calls from the objects of `xargs_create` on.
      have hleads := hvia m.fresh (Phxargs.bufferCreate mode.cmd.maxLength)
      have hfrom : Parts.create m (name :: args) >>= (·.run m.fresh calls)
          = .ok ((finalState (xargsRun w opts mode)).parts
            (Phxargs.bufferCreate mode.cmd.maxLength)) := by
        rw [hparts]
        exact hleads.run
      refine ⟨calls, _, hfrom, rfl, rfl, ?_, ?_⟩
      · have hmain := implements_mainWith m name args calls fun parts hcreated => by
          rw [hparts] at hcreated
          cases hcreated
          exact hleads.allows
        rw [hfrom] at hmain
        obtain ⟨_, heap, hrun, hfreed⟩ := hmain.run_ok
        exact ⟨heap, hrun, hfreed⟩
      · intro image himage
        rw [hforked] at himage
        obtain ⟨before, between, hprefix, hbefore, rfl⟩ := himages image himage
        have hchildren := implements_childWith hparts (hbefore m.fresh _)
        obtain ⟨child, heap, hrun, hchild, hfreed⟩ := hchildren.run_ok
        rw [hchild] at hrun
        exact ⟨before, hprefix, heap, hrun, hfreed⟩

end Phxargs.OnHeap
