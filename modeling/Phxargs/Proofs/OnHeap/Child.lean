import Phxargs.Model.Exec
import Phxargs.Proofs.OnHeap.Command

/-!
# `Phxargs.Proofs.OnHeap.Child`: the argv and the trace of a child

What `exec_child` does with the heap that it inherits. `build_exec_args` copies each string into a
block of its own, and `write_trace` computes the size of its buffer in one pass and fills it in
another. A child that is declined frees what it has allocated (`implements_execChildDeclined`).
-/

set_option autoImplicit false

namespace Phxargs.OnHeap

open Lib
open scoped Pointwise

variable {γ δ : Type}

/-! ### `build_exec_args` -/

/-- The pointers of an argv under construction, in an array of this size. -/
structure ArgvLayout (size : Nat) (argv : List CStr) where
  strings : List Ptr
  length_strings : strings.length = argv.length
  le_size : argv.length ≤ size

namespace ArgvLayout

variable {size : Nat} {argv : List CStr}

/-- The array. Behind the argv it is `NULL`. -/
def slots (l : ArgvLayout size argv) : List (Option Ptr) :=
  l.strings.map some ++ List.replicate (size - argv.length) none

theorem length_slots (l : ArgvLayout size argv) : l.slots.length = size := by
  have hle := l.le_size
  rw [slots, List.length_append, List.length_map, List.length_replicate, l.length_strings]
  omega

theorem inUse (l : ArgvLayout size argv) : InUse l.slots argv.length (l.strings.map some) where
  le_length := by
    rw [l.length_slots]
    exact l.le_size
  take_eq := by
    rw [slots, ← l.length_strings, ← List.length_map some]
    exact List.take_left

/-- The array and the strings. -/
def owned (l : ArgvLayout size argv) (execArgs : Ptr) : Assertion Cell :=
  pointsTo execArgs (.pointers l.slots) + pointToAll l.strings (argv.map .string)

end ArgvLayout

/-- An argv: the array and the strings. -/
def argvAt (execArgs : Ptr) (size : Nat) (argv : List CStr) : Assertion Cell :=
  ⋃ l : ArgvLayout size argv, l.owned execArgs

theorem argvAt_of {execArgs : Ptr} {size : Nat} {argv : List CStr} (l : ArgvLayout size argv) :
    l.owned execArgs ⊆ argvAt execArgs size argv :=
  Set.subset_iUnion (fun l : ArgvLayout size argv => l.owned execArgs) l

/-- One string behind the others. -/
theorem implements_storeArg (execArgs copy : Ptr) {size : Nat} {argv : List CStr} (arg : CStr)
    (hroom : argv.length < size) :
    Implements (argvAt execArgs size argv + pointsTo copy (.string arg))
      (storeSlot execArgs argv.length copy) (.ok ())
      fun _ _ => argvAt execArgs size (argv ++ [arg]) := by
  refine Implements.iUnion_add fun l => ?_
  rw [ArgvLayout.owned, add_assoc]
  have hfree : argv.length < l.slots.length := by rwa [l.length_slots]
  refine ((implements_storeSlot execArgs copy hfree).frame _).imp fun _ _ _ => ?_
  let l' : ArgvLayout size (argv ++ [arg]) :=
    { strings := l.strings ++ [copy]
      length_strings := by simp [l.length_strings]
      le_size := by simpa using hroom }
  refine Set.Subset.trans (Eq.subset ?_) (argvAt_of l')
  have hslots : l.slots.set argv.length (some copy) = l'.slots := by
    show (l.strings.map some ++ List.replicate (size - argv.length) none).set argv.length (some copy)
      = (l.strings ++ [copy]).map some ++ List.replicate (size - (argv ++ [arg]).length) none
    have hlength : (l.strings.map some).length = argv.length := by simp [l.length_strings]
    have hmore : size - argv.length = (size - (argv.length + 1)) + 1 := by omega
    rw [List.set_append_right _ _ (Nat.le_of_eq hlength), hlength, Nat.sub_self, hmore,
      List.replicate_succ, List.set_cons_zero, List.map_append, List.append_assoc, List.length_append]
    rfl
  rw [hslots, ArgvLayout.owned]
  show _ = _ + pointToAll (l.strings ++ [copy]) ((argv ++ [arg]).map Cell.string)
  rw [List.map_append, pointToAll_append (by rw [l.length_strings, List.length_map])]
  exact congrArg _ (congrArg _ (pointToAll_singleton _ _).symm)

/-- A loop of `build_exec_args` copies a list behind what there is. -/
theorem implements_copyArgs (execArgs : Ptr) {size : Nat} (done : List CStr) {a : CommandArgs}
    (l : ArgsLayout a) (hroom : done.length + a.args.length ≤ size) :
    Implements (l.owned + argvAt execArgs size done) (copyArgs execArgs done.length l.block) (.ok ())
      fun _ _ => l.owned + argvAt execArgs size (done ++ a.args) := by
  unfold copyArgs
  have hloop := implements_foldSlots_ok
    (fun i _ p => do
      let copy ← phxargsStrdup (← loadAs Cell.asString p)
      storeSlot execArgs (done.length + i) copy)
    (fun copied _ => l.owned + argvAt execArgs size (done ++ copied)) l.inUse
    (fun _ _ => l.holds_array.add_right _) ?_ ()
  · rw [List.append_nil] at hloop
    have hcount : l.block.count = a.args.length := a.count_eq
    rw [hcount]
    exact hloop
  · intro copied arg later p _ hargs hp
    have harg : a.args[copied.length]? = some arg := by rw [hargs]; simp
    have hlt : (done ++ copied).length < size := by
      rw [hargs, List.length_append, List.length_cons] at hroom
      rw [List.length_append]
      omega
    refine Implements.loadAs ((l.holds_string hp harg).add_right _) rfl ?_
    refine Implements.malloc fun copy => ?_
    refine Implements.rearrange (argvAt execArgs size (done ++ copied) + pointsTo copy (.string arg) +
      l.owned) (by ac_rfl) ?_
    have hstore := (implements_storeArg execArgs copy arg hlt).frame l.owned
    rw [List.length_append] at hstore
    refine hstore.imp fun _ _ _ => ?_
    rw [List.append_assoc, add_comm]

/-- `build_exec_args` copies the lists that are in play, and leaves the command as it is. -/
theorem implements_buildExecArgs (p : Ptr) (cmd : Command) :
    Implements (commandAt p cmd) (buildExecArgs p) (.ok (Phxargs.buildExecArgs cmd))
      fun argv result => withFact (result.2 = argv.length)
        (argvAt result.1 (argv.length + 1) argv + commandAt p cmd) := by
  refine Implements.iUnion fun l => ?_
  unfold buildExecArgs
  refine Implements.loadAs ((holds_pointsTo _ _).add_right _) rfl ?_
  -- The list in play, and everything else but the input arguments.
  obtain ⟨q, a, rest, hq, hargv, hparts⟩ : ∃ q a rest,
      (if l.block.argPlaceholder.isSome then l.block.replacedFixedArgs else l.block.fixedArgs) = q ∧
      Phxargs.buildExecArgs cmd = a.args ++ cmd.inputArgs.args ∧
      pointsTo p (.command l.block) + l.owned
        = argsAt q a + (argsAt l.inputArgs cmd.inputArgs + rest) := by
    have hsome : l.block.argPlaceholder.isSome = cmd.argPlaceholder.isSome := l.isSome_eq
    rw [hsome, Phxargs.buildExecArgs, CommandLayout.owned]
    cases cmd.argPlaceholder.isSome with
    | true =>
        exact ⟨l.replacedFixedArgs, cmd.replacedFixedArgs, pointsTo p (.command l.block) +
          (l.placeholder + argsAt l.fixedArgs cmd.fixedArgs), rfl, rfl, by ac_rfl⟩
    | false =>
        exact ⟨l.fixedArgs, cmd.fixedArgs, pointsTo p (.command l.block) +
          (l.placeholder + argsAt l.replacedFixedArgs cmd.replacedFixedArgs), rfl, rfl, by ac_rfl⟩
  rw [hq, hparts]
  refine Implements.iUnion_add fun la => ?_
  refine Implements.loadAs (((holds_pointsTo _ _).add_right _).add_right _) rfl ?_
  refine Implements.rearrange (argsAt l.inputArgs cmd.inputArgs +
    (rest + (pointsTo q (.commandArgs la.block) + la.owned))) (by ac_rfl) ?_
  refine Implements.iUnion_add fun li => ?_
  refine Implements.loadAs (((holds_pointsTo _ _).add_right _).add_right _) rfl ?_
  refine Implements.malloc fun execArgs => ?_
  have hcounts : la.block.count + li.block.count = (a.args ++ cmd.inputArgs.args).length := by
    show a.count + cmd.inputArgs.count = _
    rw [a.count_eq, cmd.inputArgs.count_eq, List.length_append]
  rw [hcounts, ← hargv]
  have hlength : (Phxargs.buildExecArgs cmd).length = a.args.length + cmd.inputArgs.args.length := by
    rw [hargv, List.length_append]
  let empty : ArgvLayout ((Phxargs.buildExecArgs cmd).length + 1) [] := ⟨[], rfl, Nat.zero_le _⟩
  have hempty : pointsTo execArgs
      (.pointers (List.replicate ((Phxargs.buildExecArgs cmd).length + 1) none))
      ⊆ argvAt execArgs ((Phxargs.buildExecArgs cmd).length + 1) [] := by
    refine Set.Subset.trans (Eq.subset ?_) (argvAt_of empty)
    exact (add_zero _).symm
  refine Implements.of_subset _ (Set.add_subset_add_right hempty) (Implements.rearrange
    (la.owned + argvAt execArgs ((Phxargs.buildExecArgs cmd).length + 1) [] +
      (pointsTo l.inputArgs (.commandArgs li.block) + li.owned +
        (rest + pointsTo q (.commandArgs la.block)))) (by ac_rfl) ?_)
  refine (implements_copyArgs execArgs [] la (by rw [List.length_nil, hlength]; omega)).callOk
    fun _ => ?_
  rw [List.nil_append]
  refine Implements.rearrange
    (li.owned + argvAt execArgs ((Phxargs.buildExecArgs cmd).length + 1) a.args +
      (pointsTo l.inputArgs (.commandArgs li.block) +
        (rest + (pointsTo q (.commandArgs la.block) + la.owned)))) (by ac_rfl) ?_
  have hoffset : la.block.count = a.args.length := a.count_eq
  rw [hoffset]
  refine (implements_copyArgs execArgs a.args li (by rw [hlength]; omega)).callOk fun _ => ?_
  rw [← hargv]
  refine Implements.pure (Set.Subset.trans ?_ (subset_withFact rfl _))
  -- The two lists are closed again.
  have hclosed : argsAt q a + (argsAt l.inputArgs cmd.inputArgs + rest) ⊆ commandAt p cmd :=
    hparts ▸ commandAt_of l
  refine Set.Subset.trans ?_ (Set.add_subset_add_left hclosed)
  refine Set.Subset.trans (Eq.subset ?_) (Set.add_subset_add_left
    (Set.add_subset_add (argsAt_of la) (Set.add_subset_add_right (argsAt_of li))))
  ac_rfl

/-! ### Reading an argv -/

theorem implements_loadArgv (execArgs : Ptr) {size : Nat} (argv : List CStr) :
    Implements (argvAt execArgs size argv) (loadArgv execArgs argv.length) (.ok argv)
      fun v b => withFact (b = v) (argvAt execArgs size argv) := by
  refine Implements.iUnion fun l => ?_
  unfold loadArgv
  have hloop := implements_foldSlots_ok
    (fun _ argv p => do return argv ++ [← loadAs Cell.asString p])
    (fun done read => withFact (read = done) (l.owned execArgs)) l.inUse
    (fun _ _ F hF => (holds_pointsTo _ _).add_right _ F hF.2) ?_ []
  · exact (hloop.result argv).mono (subset_withFact rfl _) fun _ _ hargv => by
      cases hargv
      exact fun F hF => ⟨hF.1, argvAt_of l hF.2⟩
  · intro done arg later p read hargv hp
    rw [← add_zero (withFact _ _)]
    refine Implements.withFact fun hread => ?_
    have hcell : (argv.map Cell.string)[done.length]? = some (.string arg) := by rw [hargv]; simp
    rw [add_zero, hread]
    refine Implements.loadAs ((holds_pointToAll hp hcell).add_left _) rfl ?_
    exact Implements.pure (subset_withFact rfl _)

/-! ### `write_trace` -/

/-- The text that the second loop of `write_trace` copies, from the `i`-th of `count` strings on. -/
def traceText (count : Nat) : Nat → List CStr → List UInt8
  | _, [] => []
  | i, arg :: argv => arg ++ (if i < count - 1 then [SPACE] else []) ++ traceText count (i + 1) argv

/-- The first loop computes the length of what the second one copies. -/
theorem length_traceText (count : Nat) (argv : List CStr) :
    ∀ i, (traceText count i argv).length = traceLength count i argv := by
  induction argv with
  | nil => intro i; rfl
  | cons arg argv ih =>
      intro i
      rw [traceText, traceLength, List.length_append, List.length_append, ih (i + 1)]
      split <;> rfl

/-- Only the last string has no space behind it. -/
theorem traceText_eq (argv : List CStr) :
    ∀ i count, i + argv.length = count → traceText count i argv = (argv.intersperse [SPACE]).flatten := by
  induction argv with
  | nil => intro i count _; rfl
  | cons arg argv ih =>
      intro i count hcount
      rw [List.length_cons] at hcount
      rw [traceText, ih (i + 1) count (by omega)]
      cases argv with
      | nil =>
          have hlast : ¬ i < count - 1 := by
            rw [List.length_nil] at hcount
            omega
          simp [hlast]
      | cons next argv =>
          have hmore : i < count - 1 := by
            rw [List.length_cons] at hcount
            omega
          simp [hmore]

/-- A buffer that holds `done` and `text` in front of what is left of its room. -/
def filledAt (block : Ptr) (done room text : List UInt8) : Assertion Cell :=
  pointsTo block (.bytes (done ++ text ++ room.drop text.length))

theorem filledAt_append (block : Ptr) (done room src text : List UInt8) :
    filledAt block (done ++ src) (room.drop src.length) text = filledAt block done room (src ++ text) := by
  simp [filledAt]

theorem filledAt_nil (block : Ptr) (done room : List UInt8) :
    filledAt block done room [] = pointsTo block (.bytes (done ++ room)) := by
  simp [filledAt]

/-- `memcpy` behind what is there, where there is room. -/
theorem implements_storeBytes (block : Ptr) (done : List UInt8) {room src : List UInt8}
    (hroom : src.length ≤ room.length) :
    Implements (filledAt block done room []) (storeBytes block done.length src) (.ok ())
      fun _ _ => filledAt block done room src := by
  rw [filledAt_nil]
  unfold storeBytes
  refine Implements.loadAs (holds_pointsTo _ _) rfl ?_
  rw [if_pos (by rw [List.length_append]; omega), ← add_zero (pointsTo block _)]
  refine Implements.store_last ?_
  have hdrop : (done ++ room).drop (done.length + src.length) = room.drop src.length := by
    rw [← List.drop_drop, List.drop_left]
  rw [List.take_left, hdrop, add_zero, ← List.append_assoc]
  rfl

/-- A `memcpy`, and what follows. -/
theorem implements_storeBytes_bind {block : Ptr} {done room src text : List UInt8} {f : Unit → M Nat}
    (hroom : src.length ≤ room.length)
    (h : Implements (filledAt block (done ++ src) (room.drop src.length) []) (f ()) (.ok ())
      fun _ p => withFact (p = (done ++ src ++ text).length)
        (filledAt block (done ++ src) (room.drop src.length) text)) :
    Implements (filledAt block done room []) (storeBytes block done.length src >>= f) (.ok ())
      fun _ p => withFact (p = (done ++ (src ++ text)).length)
        (filledAt block done room (src ++ text)) := by
  rw [← add_zero (filledAt _ _ _ _)]
  refine (implements_storeBytes block done hroom).callOk fun _ => ?_
  rw [filledAt_append, filledAt_append, List.append_nil, List.append_assoc] at h
  rw [add_zero]
  exact h

/-- The second loop fills the buffer with the text. Induction on the strings. -/
theorem implements_copyTrace (traceBuf : Ptr) (count : Nat) :
    ∀ (argv : List CStr) (i : Nat) (done room : List UInt8),
      (traceText count i argv).length ≤ room.length →
      Implements (filledAt traceBuf done room []) (copyTrace traceBuf count i done.length argv) (.ok ())
        fun _ p => withFact (p = (done ++ traceText count i argv).length)
          (filledAt traceBuf done room (traceText count i argv)) := by
  intro argv
  induction argv with
  | nil =>
      intro i done room _
      exact Implements.pure (subset_withFact (by simp [traceText]) _)
  | cons arg argv ih =>
      intro i done room hroom
      rw [traceText] at hroom ⊢
      rw [List.length_append, List.length_append] at hroom
      rw [copyTrace, List.append_assoc]
      have hstart : done.length + strlen arg = (done ++ arg).length := by simp [strlen]
      refine implements_storeBytes_bind (by omega) ?_
      by_cases hmore : i < count - 1
      · rw [if_pos hmore, List.length_singleton] at hroom
        rw [if_pos hmore, if_pos hmore, hstart]
        refine implements_storeBytes_bind (by rw [List.length_singleton, List.length_drop]; omega) ?_
        have hspace : (done ++ arg).length + 1 = (done ++ arg ++ [SPACE]).length := by
          rw [List.length_append, List.length_append, List.length_append]
          rfl
        rw [hspace]
        exact ih (i + 1) _ _ (by rw [List.length_drop, List.length_drop, List.length_singleton]; omega)
      · rw [if_neg hmore, List.length_nil] at hroom
        rw [if_neg hmore, if_neg hmore, hstart, List.nil_append]
        exact ih (i + 1) _ _ (by rw [List.length_drop]; omega)

/-- `write_trace` writes the trace, and its buffer has just the room for it. -/
theorem implements_writeTrace (fresh : Nat → UInt8) (execArgs : Ptr) {size : Nat} (argv : List CStr)
    (withNewline : Bool) :
    Implements (argvAt execArgs size argv) (writeTrace fresh execArgs argv.length withNewline)
      (.ok (Phxargs.writeTrace argv withNewline))
      fun text written => withFact (written = text) (argvAt execArgs size argv) := by
  unfold writeTrace
  rw [← add_zero (argvAt _ _ _)]
  refine (implements_loadArgv execArgs argv).callOk fun read => ?_
  refine Implements.withFact fun hread => ?_
  rw [hread]
  refine Implements.malloc fun traceBuf => ?_
  have htext : traceText argv.length 0 argv = (argv.intersperse [SPACE]).flatten :=
    traceText_eq argv 0 argv.length (Nat.zero_add _)
  have hlength := length_traceText argv.length argv 0
  rw [htext] at hlength
  generalize hroom : (List.range (traceLength argv.length 0 argv +
    (if withNewline = true then 1 else 0) + 1)).map fresh = room
  have hroomLength : room.length
      = (argv.intersperse [SPACE]).flatten.length + (if withNewline = true then 1 else 0) + 1 := by
    rw [← hroom, List.length_map, List.length_range, hlength]
  have hcopy := implements_copyTrace traceBuf argv.length argv 0 [] room (by rw [htext]; omega)
  rw [htext, filledAt_nil, List.nil_append, List.nil_append] at hcopy
  refine hcopy.callOk fun p => ?_
  refine Implements.withFact fun hp => ?_
  rw [hp, add_zero]
  -- The end: the text is read back, and the buffer freed.
  have hlast : ∀ text : List UInt8, text.length = traceLength argv.length 0 argv +
        (if withNewline = true then 1 else 0) →
      Implements (filledAt traceBuf [] room text + argvAt execArgs size argv)
        (do
          let written := (← loadAs Cell.asBytes traceBuf).take
            (traceLength argv.length 0 argv + if withNewline = true then 1 else 0)
          free traceBuf
          return written : M (List UInt8)) (.ok text)
        fun text written => withFact (written = text) (argvAt execArgs size argv) := by
    intro text htext
    refine Implements.loadAs ((holds_pointsTo _ _).add_right _) rfl ?_
    refine Implements.free (Implements.pure (subset_withFact ?_ _))
    rw [← htext, List.nil_append, List.take_left]
  cases withNewline with
  | false =>
      have hvalue : Phxargs.writeTrace argv false = (argv.intersperse [SPACE]).flatten := by
        simp [Phxargs.writeTrace]
      rw [hvalue]
      exact hlast _ (by simp [hlength])
  | true =>
      have hvalue : Phxargs.writeTrace argv true = (argv.intersperse [SPACE]).flatten ++ [NEWLINE] := by
        simp [Phxargs.writeTrace]
      rw [hvalue]
      have hleft : [NEWLINE].length ≤ (room.drop (argv.intersperse [SPACE]).flatten.length).length := by
        rw [if_pos rfl] at hroomLength
        rw [List.length_drop, List.length_singleton]
        omega
      have hstore := implements_storeBytes traceBuf (argv.intersperse [SPACE]).flatten hleft
      have hstart := filledAt_append traceBuf [] room (argv.intersperse [SPACE]).flatten []
      have hend := filledAt_append traceBuf [] room (argv.intersperse [SPACE]).flatten [NEWLINE]
      rw [List.nil_append, List.append_nil] at hstart
      rw [List.nil_append] at hend
      rw [hstart, hend] at hstore
      exact hstore.callOk fun _ => hlast _ (by simp [hlength])

/-! ### `exec_child` -/

/-- Freeing an argv. -/
theorem implements_freeArgv (execArgs : Ptr) {size : Nat} (argv : List CStr) {R : Assertion Cell}
    {f : Unit → M δ} {r : Except Exit γ} {Q : γ → δ → Assertion Cell}
    (h : Implements R (f ()) r Q) :
    Implements (argvAt execArgs size argv + R)
      (do
        foldSlots execArgs (fun _ _ p => free p) 0 argv.length ()
        free execArgs
        f ()) r Q := by
  refine Implements.iUnion_add fun l => ?_
  have hslots : InUse l.slots (argv.map Cell.string).length (l.strings.map some) := by
    rw [List.length_map]
    exact l.inUse
  have hfree := implements_freeSlots execArgs hslots
  rw [List.length_map] at hfree
  exact hfree.callOk fun _ => Implements.free h

/-- A child that is declined has built the argv and written the trace of its command, and it frees
what it has allocated. -/
theorem implements_execChildDeclined (fresh : Nat → UInt8) (p : Ptr) (cmd : Command) :
    Implements (commandAt p cmd) (execChildDeclined fresh p)
      (.ok (Phxargs.buildExecArgs cmd,
        if cmd.trace then some (Phxargs.writeTrace (Phxargs.buildExecArgs cmd) (!cmd.prompt)) else none))
      fun v b => withFact (b = v) (commandAt p cmd) := by
  unfold execChildDeclined
  rw [← add_zero (commandAt p cmd)]
  refine (implements_buildExecArgs p cmd).callOk fun result => ?_
  obtain ⟨execArgs, execArgsCount⟩ := result
  refine Implements.withFact fun hcount => ?_
  have hcount' : execArgsCount = (Phxargs.buildExecArgs cmd).length := hcount
  rw [hcount']
  refine Implements.rearrange (commandAt p cmd +
    argvAt execArgs ((Phxargs.buildExecArgs cmd).length + 1) (Phxargs.buildExecArgs cmd))
    (by rw [add_zero, add_comm]) ?_
  refine Implements.iUnion_add fun l => ?_
  refine Implements.loadAs (((holds_pointsTo _ _).add_right _).add_right _) rfl ?_
  -- What follows the trace.
  have hlast : ∀ traced : Option (List UInt8),
      Implements
        (argvAt execArgs ((Phxargs.buildExecArgs cmd).length + 1) (Phxargs.buildExecArgs cmd) +
          (pointsTo p (.command l.block) + l.owned))
        (do
          confirmExecution
          let argv ← loadArgv execArgs (Phxargs.buildExecArgs cmd).length
          foldSlots execArgs (fun _ _ p => free p) 0 (Phxargs.buildExecArgs cmd).length ()
          free execArgs
          return (argv, traced))
        (.ok (Phxargs.buildExecArgs cmd, traced)) fun v b => withFact (b = v) (commandAt p cmd) := by
    intro traced
    unfold confirmExecution
    simp only [bind_assoc]
    refine Implements.malloc fun tty => Implements.free ?_
    refine (implements_loadArgv execArgs (Phxargs.buildExecArgs cmd)).callOk fun argv => ?_
    refine Implements.withFact fun hargv => ?_
    refine implements_freeArgv (f := fun _ => pure (argv, traced)) execArgs _ (Implements.pure ?_)
    exact Set.Subset.trans (commandAt_of l) (subset_withFact (by rw [hargv]) _)
  rw [add_comm]
  have htrace : l.block.trace = cmd.trace := rfl
  rw [htrace, add_zero]
  cases cmd.trace with
  | false => exact hlast none
  | true =>
      refine (implements_writeTrace fresh execArgs (Phxargs.buildExecArgs cmd) (!cmd.prompt)).callOk
        fun written => ?_
      refine Implements.withFact fun hwritten => ?_
      rw [hwritten]
      exact hlast _

end Phxargs.OnHeap
