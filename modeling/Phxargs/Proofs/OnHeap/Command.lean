import Phxargs.Lib.Slots
import Phxargs.Model.OnHeap.Command

/-!
# `Phxargs.Proofs.OnHeap.Command`: who owns which block

For each object of the program, an assertion says which blocks it is made of and which value they
stand for, and each function has one specification: on these blocks it does what the function of the
same name does on the value. So no function reads a freed block, frees one twice or loses one.
-/

set_option autoImplicit false

namespace Phxargs.OnHeap

open Lib
open scoped Pointwise

variable {β γ δ σ : Type}

/-! ### Arrays -/

section Arrays

variable {P R : Assertion Cell} {array p : Ptr} {slots : List (Option Ptr)} {i n : Nat}
  {r : Except Exit γ} {Q : γ → δ → Assertion Cell}

theorem implements_loadSlot {f : Ptr → M δ} (harray : Holds P array (.pointers slots))
    (hi : slots[i]? = some (some p)) (h : Implements P (f p) r Q) :
    Implements P (loadSlot array i >>= f) r Q := by
  unfold loadSlot
  rw [bind_assoc]
  refine Implements.loadAs harray rfl ?_
  rw [hi]
  exact h

theorem implements_storeSlot (array p : Ptr) (hi : i < slots.length) :
    Implements (pointsTo array (.pointers slots)) (storeSlot array i p) (.ok ())
      fun _ _ => pointsTo array (.pointers (slots.set i (some p))) := by
  unfold storeSlot
  refine Implements.loadAs (holds_pointsTo _ _) rfl ?_
  rw [if_pos hi]
  exact Implements.store_spec _ _ _

theorem implements_reallocPointers (array : Ptr) (slots : List (Option Ptr)) (size : Nat) :
    Implements (pointsTo array (.pointers slots)) (reallocPointers array size) (.ok ())
      fun _ p => pointsTo p
        (.pointers (slots.take size ++ List.replicate (size - slots.length) none)) := by
  unfold reallocPointers
  refine Implements.loadAs (holds_pointsTo _ _) rfl ?_
  rw [← add_zero (pointsTo array _)]
  refine Implements.free (Implements.malloc_last fun p => ?_)
  rw [add_zero]

/-- The loop over an array. `step` is what a round does to the value `c`, and `I` is the invariant,
over the items that are done. Induction on the items to do. -/
theorem implements_foldSlots (body : Nat → β → Ptr → M β) (step : γ → σ → Except Exit γ)
    (I : List σ → γ → β → Assertion Cell) {items : List σ} {ps : List Ptr}
    (hslots : InUse slots items.length (ps.map some))
    (hholds : ∀ done c b, Holds (I done c b) array (.pointers slots))
    (hstep : ∀ done item later p c b, items = done ++ item :: later → ps[done.length]? = some p →
      Implements (I done c b) (body done.length b p) (step c item)
        fun c b => I (done ++ [item]) c b) :
    ∀ (todo done : List σ) (c : γ) (b : β), items = done ++ todo →
      Implements (I done c b) (foldSlots array body done.length todo.length b) (todo.foldlM step c)
        fun c b => I items c b := by
  intro todo
  induction todo with
  | nil =>
      intro done c b hitems
      rw [List.append_nil] at hitems
      rw [hitems]
      exact Implements.pure (Set.Subset.refl _)
  | cons item later ih =>
      intro done c b hitems
      have hlt : done.length < items.length := by
        rw [hitems]
        simp
      obtain ⟨p, hp⟩ : ∃ p, ps[done.length]? = some p := by
        have hlength := hslots.length
        rw [List.length_map] at hlength
        exact ⟨_, List.getElem?_eq_getElem (hlength ▸ hlt)⟩
      have hslot : slots[done.length]? = some (some p) := by
        rw [hslots.getElem? hlt, List.getElem?_map, hp]
        rfl
      rw [List.length_cons, foldSlots, List.foldlM_cons]
      refine implements_loadSlot (hholds done c b) hslot ?_
      refine (hstep done item later p c b hitems hp).seq (fun c' b' hc => ?_) (fun e he => ?_)
      · rw [hc]
        have hlater := ih (done ++ [item]) c' b' (by rw [hitems]; simp)
        rw [List.length_append, List.length_singleton] at hlater
        exact hlater
      · rw [he]
        rfl

/-- The same for a loop that cannot exit, from its start. -/
theorem implements_foldSlots_ok (body : Nat → β → Ptr → M β) (I : List σ → β → Assertion Cell)
    {items : List σ} {ps : List Ptr} (hslots : InUse slots items.length (ps.map some))
    (hholds : ∀ done b, Holds (I done b) array (.pointers slots))
    (hstep : ∀ done item later p b, items = done ++ item :: later → ps[done.length]? = some p →
      Implements (I done b) (body done.length b p) (.ok ()) fun _ b => I (done ++ [item]) b) (b : β) :
    Implements (I [] b) (foldSlots array body 0 items.length b) (.ok ()) fun _ b => I items b := by
  have hfold : ∀ items : List σ, items.foldlM (fun _ _ => (.ok () : Except Exit Unit)) () = .ok () := by
    intro items
    induction items with
    | nil => rfl
    | cons item items ih => exact ih
  rw [← hfold items]
  exact implements_foldSlots body (fun _ _ => .ok ()) (fun done _ b => I done b) hslots (fun done _ b => hholds done b)
    (fun done item later p _ b => hstep done item later p b) items [] () b rfl

/-- Freeing what the pointers of an array point to. -/
theorem implements_freeSlots (array : Ptr) {cells : List Cell} {ps : List Ptr}
    (hslots : InUse slots cells.length (ps.map some)) :
    Implements (pointsTo array (.pointers slots) + pointToAll ps cells)
      (foldSlots array (fun _ _ p => free p) 0 cells.length ()) (.ok ())
      fun _ _ => pointsTo array (.pointers slots) := by
  -- The loop has freed the blocks that it has passed.
  let left (done : List Cell) : Assertion Cell := pointsTo array (.pointers slots) +
    pointToAll (ps.drop done.length) (cells.drop done.length)
  have hloop : Implements (left []) (foldSlots array (fun _ _ p => free p) 0 cells.length ())
      (.ok ()) fun _ _ => left cells := by
    refine implements_foldSlots_ok _ (fun done _ => left done) hslots
      (fun _ _ => (holds_pointsTo _ _).add_right _) (fun done cell later q _ hcells hq => ?_) ()
    have hcell : cells[done.length]? = some cell := by
      rw [hcells]
      simp
    refine Implements.rearrange (pointsTo q cell + left (done ++ [cell])) ?_
      (Implements.free_last (Set.Subset.refl _))
    show _ + pointToAll _ _ = _ + (_ + pointToAll _ _)
    rw [pointToAll_drop hq hcell, List.length_append, List.length_singleton, add_left_comm]
  have hlength := hslots.length
  rw [List.length_map] at hlength
  have hnone : left cells = pointsTo array (.pointers slots) := by
    show _ + pointToAll _ _ = _
    rw [List.drop_of_length_le (Nat.le_of_eq hlength), List.drop_length]
    exact add_zero _
  rw [hnone] at hloop
  exact hloop

end Arrays

/-! ### `command_args.c` -/

/-- The pointers of an argument list. -/
structure ArgsLayout (a : CommandArgs) where
  array : Ptr
  slots : List (Option Ptr)
  strings : List Ptr
  length_slots : slots.length = a.capacity
  inUse : InUse slots a.args.length (strings.map some)

namespace ArgsLayout

variable {a : CommandArgs}

/-- `struct command_args_s`. -/
def block (l : ArgsLayout a) : ArgsBlock := ⟨a.count, a.capacity, l.array, a.length⟩

/-- The array and the strings. -/
def owned (l : ArgsLayout a) : Assertion Cell :=
  pointsTo l.array (.pointers l.slots) + pointToAll l.strings (a.args.map .string)

theorem holds_array (l : ArgsLayout a) : Holds l.owned l.array (.pointers l.slots) :=
  (holds_pointsTo _ _).add_right _

theorem length_strings (l : ArgsLayout a) : l.strings.length = a.args.length := by
  have hlength := l.inUse.length
  rwa [List.length_map] at hlength

/-- The slot of a string. -/
theorem exists_slot (l : ArgsLayout a) {i : Nat} {s : CStr} (hs : a.args[i]? = some s) :
    ∃ p, l.slots[i]? = some (some p) ∧ l.strings[i]? = some p := by
  have hlt : i < a.args.length := (List.getElem?_eq_some_iff.mp hs).1
  obtain ⟨p, hp⟩ : ∃ p, l.strings[i]? = some p :=
    ⟨_, List.getElem?_eq_getElem (l.length_strings ▸ hlt)⟩
  refine ⟨p, ?_, hp⟩
  rw [l.inUse.getElem? hlt, List.getElem?_map, hp]
  rfl

theorem holds_string (l : ArgsLayout a) {i : Nat} {p : Ptr} {s : CStr} (hp : l.strings[i]? = some p)
    (hs : a.args[i]? = some s) : Holds l.owned p (.string s) :=
  (holds_pointToAll hp (by rw [List.getElem?_map, hs]; rfl)).add_left _

end ArgsLayout

/-- An argument list: its structure, its array and its strings. -/
def argsAt (p : Ptr) (a : CommandArgs) : Assertion Cell :=
  ⋃ l : ArgsLayout a, pointsTo p (.commandArgs l.block) + l.owned

theorem argsAt_of {p : Ptr} {a : CommandArgs} (l : ArgsLayout a) :
    pointsTo p (.commandArgs l.block) + l.owned ⊆ argsAt p a :=
  Set.subset_iUnion (fun l : ArgsLayout a => pointsTo p (.commandArgs l.block) + l.owned) l

theorem implements_commandArgsCreateWithCapacity (capacity : Nat) :
    Implements 0 (commandArgsCreateWithCapacity capacity) (.ok ())
      fun _ p => argsAt p (Phxargs.commandArgsCreateWithCapacity capacity) := by
  unfold commandArgsCreateWithCapacity
  refine Implements.malloc fun p => ?_
  refine Implements.malloc fun array => ?_
  rw [add_left_comm]
  refine Implements.store (Implements.pure ?_)
  let l : ArgsLayout (Phxargs.commandArgsCreateWithCapacity capacity) :=
    { array := array
      slots := List.replicate capacity none
      strings := []
      length_slots := List.length_replicate
      inUse := InUse.empty _ }
  exact argsAt_of l

/-- Growing moves the array and keeps the strings where they are. -/
theorem implements_reallocateIfNeeded (p : Ptr) (a : CommandArgs) :
    Implements (argsAt p a) (reallocateIfNeeded p) (Phxargs.reallocateIfNeeded a)
      fun b _ => argsAt p b.val := by
  refine Implements.iUnion fun l => ?_
  unfold reallocateIfNeeded
  refine Implements.loadAs ((holds_pointsTo _ _).add_right _) rfl ?_
  by_cases hfull : a.count ≥ a.capacity
  · rw [if_pos (show l.block.count ≥ l.block.capacity from hfull), Phxargs.reallocateIfNeeded,
      dif_pos hfull]
    split
    · rename_i capacity hdouble
      have hlt := lt_of_phxargsDoubleCapacity hdouble
      have hkept : l.slots.take capacity = l.slots :=
        List.take_of_length_le (by rw [l.length_slots]; exact Nat.le_of_lt hlt)
      refine Implements.orExit_ok hdouble ?_
      rw [ArgsLayout.owned, add_left_comm]
      refine (implements_reallocPointers l.array l.slots capacity).callOk fun array => ?_
      rw [hkept, add_left_comm]
      refine Implements.store_last ?_
      let b : CommandArgs :=
        { a with
          capacity := capacity
          count_le := Nat.le_trans a.count_le (Nat.le_of_lt hlt) }
      let grown : ArgsLayout b :=
        { array := array
          slots := l.slots ++ List.replicate (capacity - l.slots.length) none
          strings := l.strings
          length_slots := by
            rw [List.length_append, List.length_replicate, l.length_slots]
            show a.capacity + (capacity - a.capacity) = capacity
            omega
          inUse := l.inUse.grow _ }
      exact argsAt_of grown
    · rename_i e hdouble
      exact Implements.orExit_error hdouble
  · rw [if_neg (show ¬ l.block.count ≥ l.block.capacity from hfull), Phxargs.reallocateIfNeeded,
      dif_neg hfull]
    exact Implements.pure (argsAt_of l)

/-- An add copies the string into a block of its own. -/
theorem implements_commandArgsAdd (p : Ptr) (a : CommandArgs) (newArg : CStr) :
    Implements (argsAt p a) (commandArgsAdd p newArg) (Phxargs.commandArgsAdd a newArg)
      fun b _ => argsAt p b := by
  unfold commandArgsAdd
  refine (implements_reallocateIfNeeded p a).seq (fun c _ hgrow => ?_) fun e hgrow => ?_
  · obtain ⟨b, hroom⟩ := c
    rw [Phxargs.commandArgsAdd, hgrow]
    refine Implements.iUnion fun l => ?_
    refine Implements.loadAs ((holds_pointsTo _ _).add_right _) rfl ?_
    refine Implements.malloc fun copy => ?_
    have hfree : b.count < l.slots.length := by
      rw [l.length_slots]
      exact hroom
    refine Implements.rearrange (pointsTo l.array (.pointers l.slots) +
      (pointsTo p (.commandArgs l.block) +
        (pointToAll l.strings (b.args.map .string) + pointsTo copy (.string newArg))))
      (by rw [ArgsLayout.owned]; ac_rfl) ?_
    refine (implements_storeSlot l.array copy hfree).callOk fun _ => ?_
    rw [add_left_comm]
    refine Implements.store_last ?_
    let a' : CommandArgs :=
      { count := b.count + 1
        capacity := b.capacity
        args := b.args ++ [newArg]
        length := b.length + (strlen newArg + 1)
        count_eq := by rw [b.count_eq, List.length_append]; rfl
        length_eq := by rw [b.length_eq, totalLength_append, totalLength_cons, totalLength_nil]
        count_le := hroom }
    have hused : InUse (l.slots.set b.count (some copy)) (b.count + 1)
        (l.strings.map some ++ [some copy]) := (b.count_eq ▸ l.inUse).store hfree _
    let l' : ArgsLayout a' :=
      { array := l.array
        slots := l.slots.set b.count (some copy)
        strings := l.strings ++ [copy]
        length_slots := by rw [List.length_set, l.length_slots]
        inUse := by
          show InUse _ (b.args ++ [newArg]).length _
          rw [List.length_append, List.length_singleton, ← b.count_eq, List.map_append]
          exact hused }
    have howned : l'.owned = pointsTo l.array (.pointers (l.slots.set b.count (some copy))) +
        (pointToAll l.strings (b.args.map .string) + pointsTo copy (.string newArg)) := by
      show pointsTo l.array _ + pointToAll (l.strings ++ [copy]) ((b.args ++ [newArg]).map Cell.string) = _
      rw [List.map_append, pointToAll_append (by rw [l.length_strings, List.length_map])]
      exact congrArg _ (congrArg _ (pointToAll_singleton _ _))
    rw [← howned]
    exact argsAt_of l'
  · rw [Phxargs.commandArgsAdd, hgrow]

/-- Destroying a list frees all of it. -/
theorem implements_commandArgsDestroy (p : Ptr) (a : CommandArgs) :
    Implements (argsAt p a) (commandArgsDestroy p) (.ok ()) fun _ _ => 0 := by
  unfold commandArgsDestroy
  refine Implements.iUnion fun l => ?_
  refine Implements.loadAs ((holds_pointsTo _ _).add_right _) rfl ?_
  have hcount : l.block.count = (a.args.map Cell.string).length := by
    rw [List.length_map]
    exact a.count_eq
  have hslots : InUse l.slots (a.args.map Cell.string).length (l.strings.map some) := by
    rw [List.length_map]
    exact l.inUse
  rw [hcount]
  refine Implements.rearrange (l.owned + pointsTo p (.commandArgs l.block)) (add_comm _ _) ?_
  refine (implements_freeSlots _ hslots).callOk fun _ => ?_
  refine Implements.free ?_
  rw [← add_zero (pointsTo p _)]
  exact Implements.free_last (Set.Subset.refl _)

/-- Reading the structure of a list, and nothing behind its pointers. -/
theorem implements_loadArgs {p : Ptr} {a : CommandArgs} {R : Assertion Cell} {f : ArgsBlock → M δ}
    {r : Except Exit γ} {Q : γ → δ → Assertion Cell}
    (h : ∀ block, block.count = a.count → block.length = a.length →
      Implements (argsAt p a + R) (f block) r Q) :
    Implements (argsAt p a + R) (loadAs Cell.asCommandArgs p >>= f) r Q := by
  refine Implements.iUnion_add fun l => ?_
  refine Implements.loadAs (((holds_pointsTo _ _).add_right _).add_right _) rfl ?_
  exact Implements.of_subset _ (Set.add_subset_add_right (argsAt_of l)) (h l.block rfl rfl)

/-! ### `command.c` -/

/-- The pointers of a command. -/
structure CommandLayout (cmd : Command) where
  argPlaceholder : Option Ptr
  fixedArgs : Ptr
  inputArgs : Ptr
  replacedFixedArgs : Ptr
  isSome_eq : argPlaceholder.isSome = cmd.argPlaceholder.isSome

namespace CommandLayout

variable {cmd : Command}

/-- `struct command_s`. -/
def block (l : CommandLayout cmd) : CommandBlock where
  maxLines := cmd.maxLines
  maxArgs := cmd.maxArgs
  maxLength := cmd.maxLength
  argPlaceholder := l.argPlaceholder
  openTty := cmd.openTty
  prompt := cmd.prompt
  trace := cmd.trace
  terminateOnTooLargeCommand := cmd.terminateOnTooLargeCommand
  lineMode := cmd.lineMode
  lineCount := cmd.lineCount
  envLength := cmd.envLength
  fixedArgs := l.fixedArgs
  inputArgs := l.inputArgs
  replacedFixedArgs := l.replacedFixedArgs

/-- The placeholder of a command. -/
def placeholder (l : CommandLayout cmd) : Assertion Cell :=
  pointsToOrNull l.argPlaceholder (cmd.argPlaceholder.map .string)

/-- The placeholder and the lists. -/
def owned (l : CommandLayout cmd) : Assertion Cell :=
  l.placeholder + (argsAt l.fixedArgs cmd.fixedArgs +
    (argsAt l.inputArgs cmd.inputArgs + argsAt l.replacedFixedArgs cmd.replacedFixedArgs))

end CommandLayout

/-- A command: its structure, the placeholder and the three lists. -/
def commandAt (p : Ptr) (cmd : Command) : Assertion Cell :=
  ⋃ l : CommandLayout cmd, pointsTo p (.command l.block) + l.owned

theorem commandAt_of {p : Ptr} {cmd : Command} (l : CommandLayout cmd) :
    pointsTo p (.command l.block) + l.owned ⊆ commandAt p cmd :=
  Set.subset_iUnion (fun l : CommandLayout cmd => pointsTo p (.command l.block) + l.owned) l

theorem implements_freshInputArgs (settings : CommandSettings) :
    Implements 0 (freshInputArgs settings.maxArgs) (.ok ())
      fun _ p => argsAt p (Phxargs.freshInputArgs settings) := by
  unfold freshInputArgs Phxargs.freshInputArgs
  split
  · exact implements_commandArgsCreateWithCapacity _
  · exact implements_commandArgsCreateWithCapacity 10

/-- The loop of `command_create`. Induction on the operands. -/
theorem implements_addFixedArguments (p : Ptr) :
    ∀ (operands : List CStr) (a : CommandArgs),
      Implements (argsAt p a) (addFixedArguments p operands) (Phxargs.addFixedArguments a operands)
        fun b _ => argsAt p b := by
  intro operands
  induction operands with
  | nil =>
      intro a
      exact Implements.pure (Set.Subset.refl _)
  | cons arg operands ih =>
      intro a
      rw [addFixedArguments, Phxargs.addFixedArguments]
      refine (implements_commandArgsAdd p a arg).seq (fun b _ hadd => ?_) fun e hadd => ?_
      · rw [hadd]
        exact ih b
      · rw [hadd]

/-- `command_length` reads the structures of two lists. -/
theorem implements_commandLength (p : Ptr) (c : CommandBlock) (fixed input : CommandArgs) :
    Implements (pointsTo p (.command c) + (argsAt c.fixedArgs fixed + argsAt c.inputArgs input))
      (commandLength p) (.ok (c.envLength + commandArgsLength fixed + commandArgsLength input))
      fun n b => withFact (b = n)
        (pointsTo p (.command c) + (argsAt c.fixedArgs fixed + argsAt c.inputArgs input)) := by
  unfold commandLength
  refine Implements.loadAs ((holds_pointsTo _ _).add_right _) rfl ?_
  refine Implements.rearrange (argsAt c.fixedArgs fixed +
    (pointsTo p (.command c) + argsAt c.inputArgs input)) (add_left_comm _ _ _) ?_
  refine implements_loadArgs fun fixedBlock _ hfixed => ?_
  refine Implements.rearrange (argsAt c.inputArgs input +
    (argsAt c.fixedArgs fixed + pointsTo p (.command c))) (by ac_rfl) ?_
  refine implements_loadArgs fun inputBlock _ hinput => ?_
  refine Implements.rearrange
    (pointsTo p (.command c) + (argsAt c.fixedArgs fixed + argsAt c.inputArgs input)) (by ac_rfl) ?_
  refine Implements.pure (subset_withFact ?_ _)
  rw [hfixed, hinput]
  rfl

/-- `decide_max_length` runs before the command is complete: it reads the environment and the two
lists. -/
theorem implements_decideMaxLength (argMax : Int) (p : Ptr) (c : CommandBlock) (cmd : Command)
    (opts : Options) (henv : c.envLength = cmd.envLength) :
    Implements
      (pointsTo p (.command c) + (argsAt c.fixedArgs cmd.fixedArgs + argsAt c.inputArgs cmd.inputArgs))
      (decideMaxLength argMax p opts) (Phxargs.decideMaxLength argMax cmd opts)
      fun n b => withFact (b = n) (pointsTo p (.command c) +
        (argsAt c.fixedArgs cmd.fixedArgs + argsAt c.inputArgs cmd.inputArgs)) := by
  unfold decideMaxLength Phxargs.decideMaxLength
  refine Implements.loadAs ((holds_pointsTo _ _).add_right _) rfl ?_
  rw [henv]
  dsimp only
  generalize (if argMax > 0 then
    if argMax.toNat > 2 * cmd.envLength + 2048 then argMax.toNat - (2 * cmd.envLength + 2048) else 0
    else 128 * 1024) = maxLength
  by_cases hspecified : opts.maxCommandLengthSpecified = true
  · simp only [hspecified, Bool.not_true, Bool.false_eq_true, if_false]
    rw [← add_zero (pointsTo p _ + _)]
    refine (implements_commandLength p c cmd.fixedArgs cmd.inputArgs).callOk fun n => ?_
    refine Implements.withFact fun hn => ?_
    have hlength : n = Phxargs.commandLength cmd := by rw [hn, henv]; rfl
    rw [hlength, add_zero]
    split
    · exact Implements.exit _ _ _
    · split
      · exact Implements.exit _ _ _
      · exact Implements.pure (subset_withFact rfl _)
  · simp only [hspecified, Bool.not_false, if_true]
    exact Implements.pure (subset_withFact rfl _)

/-- `phxargs_strdup` of what can be `NULL`. -/
theorem implements_phxargsStrdupOrNull {P : Assertion Cell} (s : Option CStr) {f : Option Ptr → M δ}
    {r : Except Exit γ} {Q : γ → δ → Assertion Cell}
    (h : ∀ p : Option Ptr, p.isSome = s.isSome →
      Implements (pointsToOrNull p (s.map .string) + P) (f p) r Q) :
    Implements P (phxargsStrdupOrNull s >>= f) r Q := by
  cases s with
  | none =>
      have hnone := h none rfl
      rw [pointsToOrNull.eq_def] at hnone
      rw [← zero_add P]
      exact hnone
  | some s =>
      show Implements P (malloc (.string s) >>= fun p => f (some p)) r Q
      exact Implements.malloc fun p => h (some p) rfl

/-- The command that `decide_max_length` finds in `command_create`. -/
def commandDraft (sys : System) (opts : Options) (fixedArgs : CommandArgs) : Command :=
  let settings : CommandSettings :=
    { maxLines := opts.maxLinesPerCommand
      maxArgs := opts.maxArgsPerCommand
      maxLength := 0
      argPlaceholder := opts.argPlaceholder
      openTty := opts.openTty
      prompt := opts.prompt
      trace := opts.trace
      terminateOnTooLargeCommand := opts.terminateOnTooLargeCommand
      lineMode := opts.lineModeSpecified
      envLength := calcEnvLength sys.environ
      fixedArgs := fixedArgs }
  { settings with
    lineCount := 0
    inputArgs := Phxargs.freshInputArgs settings
    replacedFixedArgs := Phxargs.commandArgsCreateWithCapacity (commandArgsCount fixedArgs) }

theorem commandCreate_eq (sys : System) (opts : Options) (argIndex : Nat) (argv : List CStr) :
    Phxargs.commandCreate sys opts argIndex argv =
      (Phxargs.addFixedArguments
        (Phxargs.commandArgsCreateWithCapacity
          (if argIndex = argv.length then 1 else argv.length - argIndex))
        (if argIndex = argv.length then [DEFAULT_CMD] else argv.drop argIndex)).bind fun fixed =>
          (Phxargs.decideMaxLength sys.argMax (commandDraft sys opts fixed) opts).map fun maxLength =>
            { commandDraft sys opts fixed with maxLength := maxLength } := by
  have hfixed : (if argIndex = argv.length then
        Phxargs.addFixedArguments (Phxargs.commandArgsCreateWithCapacity 1) [DEFAULT_CMD]
      else
        Phxargs.addFixedArguments (Phxargs.commandArgsCreateWithCapacity (argv.length - argIndex))
          (argv.drop argIndex))
      = Phxargs.addFixedArguments (Phxargs.commandArgsCreateWithCapacity
          (if argIndex = argv.length then 1 else argv.length - argIndex))
          (if argIndex = argv.length then [DEFAULT_CMD] else argv.drop argIndex) := by
    split <;> rfl
  unfold Phxargs.commandCreate
  dsimp only
  rw [hfixed]
  generalize Phxargs.addFixedArguments _ _ = added
  cases added with
  | error e => rfl
  | ok fixed =>
      dsimp only [Except.bind, commandDraft]
      generalize Phxargs.decideMaxLength _ _ _ = decided
      cases decided with
      | error e => rfl
      | ok maxLength => rfl

theorem implements_commandCreate (sys : System) (opts : Options) (argIndex : Nat) (argv : List CStr) :
    Implements 0 (commandCreate sys opts argIndex argv)
      (Phxargs.commandCreate sys opts argIndex argv) fun cmd p => commandAt p cmd := by
  rw [commandCreate_eq]
  unfold commandCreate
  generalize (if argIndex = argv.length then 1 else argv.length - argIndex) = capacity
  generalize (if argIndex = argv.length then [DEFAULT_CMD] else argv.drop argIndex) = operands
  refine Implements.malloc fun p => ?_
  refine implements_phxargsStrdupOrNull opts.argPlaceholder fun ph hph => ?_
  rw [← zero_add (pointsToOrNull ph _ + _)]
  refine (implements_commandArgsCreateWithCapacity capacity).callOk fun fixedArgs => ?_
  refine (implements_addFixedArguments fixedArgs operands _).call (fun fixed _ hadd => ?_)
    fun e hadd => by rw [hadd]; rfl
  rw [hadd]
  let draft : Command := commandDraft sys opts fixed
  show Implements _ _ ((Phxargs.decideMaxLength sys.argMax draft opts).map _) _
  rw [← zero_add (argsAt fixedArgs fixed + _)]
  refine (implements_freshInputArgs draft.toCommandSettings).callOk fun inputArgs => ?_
  refine Implements.rearrange (pointsTo p .raw + (argsAt fixedArgs fixed +
    (argsAt inputArgs draft.inputArgs + pointsToOrNull ph (opts.argPlaceholder.map .string))))
    (by rw [add_zero]; ac_rfl) ?_
  refine Implements.store ?_
  let l : CommandLayout draft := ⟨ph, fixedArgs, inputArgs, 0, hph⟩
  refine Implements.rearrange (pointsTo p (.command l.block) +
    (argsAt fixedArgs draft.fixedArgs + argsAt inputArgs draft.inputArgs) +
    pointsToOrNull ph (opts.argPlaceholder.map .string)) (by rw [add_assoc, add_assoc]; rfl) ?_
  refine (implements_decideMaxLength sys.argMax p l.block draft opts rfl).call
    (fun maxLength n hmax => ?_) fun e hmax => ?_
  · refine Implements.withFact fun hn => ?_
    rw [hmax, hn]
    refine Implements.rearrange (argsAt fixedArgs fixed + (pointsTo p (.command l.block) +
      (argsAt inputArgs draft.inputArgs + pointsToOrNull ph (opts.argPlaceholder.map .string))))
      (by ac_rfl) ?_
    refine implements_loadArgs fun block hcount _ => ?_
    rw [← zero_add (argsAt fixedArgs fixed + _), hcount]
    refine (implements_commandArgsCreateWithCapacity fixed.count).callOk fun replaced => ?_
    refine Implements.rearrange (pointsTo p (.command l.block) +
      (pointsToOrNull ph (opts.argPlaceholder.map .string) + (argsAt fixedArgs fixed +
        (argsAt inputArgs draft.inputArgs +
          argsAt replaced (Phxargs.commandArgsCreateWithCapacity fixed.count))))) (by ac_rfl) ?_
    refine Implements.store (Implements.pure ?_)
    let l' : CommandLayout { draft with maxLength := maxLength } :=
      ⟨ph, fixedArgs, inputArgs, replaced, hph⟩
    exact commandAt_of l'
  · rw [hmax]
    rfl

/-- `recycle_command` frees what it replaces. -/
theorem implements_recycleCommand (p : Ptr) (cmd : Command) :
    Implements (commandAt p cmd) (recycleCommand p) (.ok (Phxargs.recycleCommand cmd))
      fun cmd _ => commandAt p cmd := by
  refine Implements.iUnion fun l => ?_
  unfold recycleCommand
  refine Implements.loadAs ((holds_pointsTo _ _).add_right _) rfl ?_
  refine Implements.rearrange (argsAt l.inputArgs cmd.inputArgs + (pointsTo p (.command l.block) +
    (l.placeholder + (argsAt l.fixedArgs cmd.fixedArgs +
      argsAt l.replacedFixedArgs cmd.replacedFixedArgs)))) (by rw [CommandLayout.owned]; ac_rfl) ?_
  refine (implements_commandArgsDestroy _ _).callOk fun _ => ?_
  -- What follows, behind the choice of the list of replaced arguments.
  have hlast : ∀ (replaced : Ptr) (a : CommandArgs),
      a = (Phxargs.recycleCommand cmd).replacedFixedArgs →
      Implements (argsAt replaced a + (pointsTo p (.command l.block) +
          (l.placeholder + argsAt l.fixedArgs cmd.fixedArgs)))
        (do
          let inputArgs ← freshInputArgs l.block.maxArgs
          store p (.command
            { l.block with lineCount := 0, replacedFixedArgs := replaced, inputArgs := inputArgs }))
        (.ok (Phxargs.recycleCommand cmd)) fun cmd _ => commandAt p cmd := by
    intro replaced a ha
    rw [← zero_add (argsAt replaced a + _)]
    refine (implements_freshInputArgs cmd.toCommandSettings).callOk fun inputArgs => ?_
    refine Implements.rearrange (pointsTo p (.command l.block) +
      (l.placeholder + (argsAt l.fixedArgs cmd.fixedArgs +
        (argsAt inputArgs (Phxargs.freshInputArgs cmd.toCommandSettings) + argsAt replaced a))))
      (by ac_rfl) ?_
    refine Implements.store_last ?_
    let l' : CommandLayout (Phxargs.recycleCommand cmd) :=
      ⟨l.argPlaceholder, l.fixedArgs, inputArgs, replaced, l.isSome_eq⟩
    rw [ha]
    exact commandAt_of l'
  rw [zero_add]
  have hsome : l.block.argPlaceholder.isSome = cmd.argPlaceholder.isSome := l.isSome_eq
  cases hph : cmd.argPlaceholder.isSome with
  | true =>
      rw [hsome, hph, if_pos rfl]
      refine Implements.rearrange (argsAt l.replacedFixedArgs cmd.replacedFixedArgs +
        (argsAt l.fixedArgs cmd.fixedArgs + (pointsTo p (.command l.block) + l.placeholder)))
        (by ac_rfl) ?_
      refine (implements_commandArgsDestroy _ _).callOk fun _ => ?_
      rw [zero_add]
      refine implements_loadArgs fun block hcount _ => ?_
      rw [← zero_add (argsAt l.fixedArgs cmd.fixedArgs + _), hcount]
      refine (implements_commandArgsCreateWithCapacity _).callOk fun replaced => ?_
      refine Implements.rearrange _ (by ac_rfl) (hlast replaced _ ?_)
      rw [Phxargs.recycleCommand, if_pos hph]
      rfl
  | false =>
      rw [hsome, hph, if_neg Bool.false_ne_true]
      refine Implements.rearrange _ (by ac_rfl) (hlast l.replacedFixedArgs _ ?_)
      rw [Phxargs.recycleCommand, if_neg (by rw [hph]; exact Bool.false_ne_true)]

theorem implements_commandAddInputArgument (p : Ptr) (cmd : Command) (newArg : CStr) :
    Implements (commandAt p cmd) (commandAddInputArgument p newArg)
      (Phxargs.commandAddInputArgument cmd newArg) fun cmd _ => commandAt p cmd := by
  refine Implements.iUnion fun l => ?_
  unfold commandAddInputArgument Phxargs.commandAddInputArgument
  refine Implements.loadAs ((holds_pointsTo _ _).add_right _) rfl ?_
  refine Implements.rearrange (argsAt l.inputArgs cmd.inputArgs + (pointsTo p (.command l.block) +
    (l.placeholder + (argsAt l.fixedArgs cmd.fixedArgs +
      argsAt l.replacedFixedArgs cmd.replacedFixedArgs)))) (by rw [CommandLayout.owned]; ac_rfl) ?_
  rw [← bind_pure (commandArgsAdd _ _)]
  refine (implements_commandArgsAdd _ _ newArg).call (fun b _ hadd => ?_) fun e hadd => by rw [hadd]
  rw [hadd]
  refine Implements.pure ?_
  let l' : CommandLayout { cmd with inputArgs := b } :=
    ⟨l.argPlaceholder, l.fixedArgs, l.inputArgs, l.replacedFixedArgs, l.isSome_eq⟩
  refine Set.Subset.trans (Eq.subset ?_) (commandAt_of l')
  rw [CommandLayout.owned]
  show _ = pointsTo p (.command l.block) + (l.placeholder + (argsAt l.fixedArgs cmd.fixedArgs +
    (argsAt l.inputArgs b + argsAt l.replacedFixedArgs cmd.replacedFixedArgs)))
  ac_rfl

theorem implements_loadStringOrNull {p : Option Ptr} {s : Option CStr} {R : Assertion Cell}
    {f : Option CStr → M δ} {r : Except Exit γ} {Q : γ → δ → Assertion Cell}
    (h : Implements (pointsToOrNull p (s.map .string) + R) (f s) r Q) :
    Implements (pointsToOrNull p (s.map .string) + R) (loadStringOrNull p >>= f) r Q := by
  cases p with
  | none =>
      cases s with
      | none => exact h
      | some s => exact Implements.of_false fun F hF => by simp [pointsToOrNull] at hF
  | some p =>
      cases s with
      | none => exact Implements.of_false fun F hF => by simp [pointsToOrNull] at hF
      | some s =>
          unfold loadStringOrNull
          rw [bind_assoc]
          exact Implements.loadAs ((holds_pointsTo _ _).add_right _) rfl h

/-- A round of the loop of `command_replace_args`. -/
def replaceOne (placeholder : Option CStr) (newArg : CStr) (a : CommandArgs) (arg : CStr) :
    Except Exit CommandArgs :=
  match strReplace arg placeholder (some newArg) with
  | .error e => .error e
  | .ok replaced => Phxargs.commandArgsAdd a replaced

theorem addReplacedArguments_eq (placeholder : Option CStr) (newArg : CStr) :
    ∀ (args : List CStr) (a : CommandArgs),
      addReplacedArguments placeholder newArg a args = args.foldlM (replaceOne placeholder newArg) a := by
  intro args
  induction args with
  | nil => intro a; rfl
  | cons arg args ih =>
      intro a
      rw [addReplacedArguments, List.foldlM_cons, replaceOne]
      cases strReplace arg placeholder (some newArg) with
      | error e => rfl
      | ok replaced =>
          dsimp only
          cases Phxargs.commandArgsAdd a replaced with
          | error e => rfl
          | ok b => exact ih b

theorem commandReplaceArgs_eq {cmd : Command} {commandWord : CStr} {args : List CStr}
    (hargs : cmd.fixedArgs.args = commandWord :: args) (newArg : CStr) :
    Phxargs.commandReplaceArgs cmd newArg =
      (Phxargs.commandArgsAdd cmd.replacedFixedArgs commandWord).bind fun a =>
        (args.foldlM (replaceOne cmd.argPlaceholder newArg) a).map fun b =>
          { cmd with replacedFixedArgs := b } := by
  rw [Phxargs.commandReplaceArgs, hargs]
  dsimp only
  cases Phxargs.commandArgsAdd cmd.replacedFixedArgs commandWord with
  | error e => rfl
  | ok a =>
      dsimp only [Except.bind]
      rw [← addReplacedArguments_eq]
      cases addReplacedArguments cmd.argPlaceholder newArg a args with
      | error e => rfl
      | ok b => rfl

/-- `command_replace_args`. There is a command word, so slot 0 has a string. -/
theorem implements_commandReplaceArgs (p : Ptr) {cmd : Command} (newArg : CStr)
    (hne : cmd.fixedArgs.args ≠ []) :
    Implements (commandAt p cmd) (commandReplaceArgs p newArg)
      (Phxargs.commandReplaceArgs cmd newArg) fun cmd _ => commandAt p cmd := by
  obtain ⟨commandWord, args, hargs⟩ := List.exists_cons_of_ne_nil hne
  refine Implements.iUnion fun l => ?_
  unfold commandReplaceArgs
  refine Implements.loadAs ((holds_pointsTo _ _).add_right _) rfl ?_
  refine Implements.rearrange (argsAt l.fixedArgs cmd.fixedArgs + (pointsTo p (.command l.block) +
    (l.placeholder + (argsAt l.inputArgs cmd.inputArgs +
      argsAt l.replacedFixedArgs cmd.replacedFixedArgs)))) (by rw [CommandLayout.owned]; ac_rfl) ?_
  refine Implements.iUnion_add fun lf => ?_
  -- What the rest of the function only reads.
  obtain ⟨read, hread⟩ : ∃ read, read = pointsTo p (.command l.block) +
      (argsAt l.inputArgs cmd.inputArgs + (pointsTo l.fixedArgs (.commandArgs lf.block) + lf.owned)) :=
    ⟨_, rfl⟩
  have hfixed : Holds read l.fixedArgs (.commandArgs lf.block) :=
    hread ▸ (((holds_pointsTo _ _).add_right _).add_left _).add_left _
  have harray : Holds read lf.array (.pointers lf.slots) :=
    hread ▸ ((lf.holds_array.add_left _).add_left _).add_left _
  have hstring : ∀ {i q arg}, lf.strings[i]? = some q → cmd.fixedArgs.args[i]? = some arg →
      Holds read q (.string arg) :=
    fun hq harg => hread ▸ (((lf.holds_string hq harg).add_left _).add_left _).add_left _
  refine Implements.rearrange (argsAt l.replacedFixedArgs cmd.replacedFixedArgs +
    (l.placeholder + read)) (by rw [hread]; ac_rfl) ?_
  have hword : cmd.fixedArgs.args[0]? = some commandWord := by rw [hargs]; rfl
  obtain ⟨q, hslot, hq⟩ := lf.exists_slot hword
  unfold commandArgsAt
  rw [bind_assoc]
  refine Implements.loadAs ((hfixed.add_left _).add_left _) rfl ?_
  refine implements_loadSlot ((harray.add_left _).add_left _) hslot ?_
  refine Implements.loadAs (((hstring hq hword).add_left _).add_left _) rfl ?_
  rw [commandReplaceArgs_eq hargs]
  refine (implements_commandArgsAdd _ _ commandWord).call (fun a _ hadd => ?_) fun e hadd => by
    rw [hadd]
    rfl
  rw [hadd]
  show Implements _ _ ((args.foldlM (replaceOne cmd.argPlaceholder newArg) a).map _) _
  refine Implements.loadAs ((hfixed.add_left _).add_left _) rfl ?_
  -- The list grows by one string in each round.
  let grown (a : CommandArgs) : Assertion Cell :=
    argsAt l.replacedFixedArgs a + (l.placeholder + read)
  have hround : ∀ done arg later q a (_ : Unit), cmd.fixedArgs.args = done ++ arg :: later →
      lf.strings[done.length]? = some q →
      Implements (grown a) (replaceFixedArg l.block newArg q)
        (replaceOne cmd.argPlaceholder newArg a arg) fun a (_ : Unit) => grown a := by
    intro done arg later q a _ hdone hq
    unfold replaceFixedArg
    have harg : cmd.fixedArgs.args[done.length]? = some arg := by rw [hdone]; simp
    refine Implements.loadAs (((hstring hq harg).add_left _).add_left _) rfl ?_
    refine Implements.rearrange (l.placeholder + (argsAt l.replacedFixedArgs a + read))
      (add_left_comm _ _ _) ?_
    refine implements_loadStringOrNull ?_
    unfold replaceOne
    cases hreplace : strReplace arg cmd.argPlaceholder (some newArg) with
    | error e => exact Implements.orExit_error rfl
    | ok result =>
        show Implements _ _ (Phxargs.commandArgsAdd a result) _
        refine Implements.orExit_ok rfl ?_
        refine Implements.malloc fun replaced => ?_
        refine Implements.loadAs ((holds_pointsTo _ _).add_right _) rfl ?_
        refine Implements.rearrange (argsAt l.replacedFixedArgs a +
          (pointsTo replaced (.string result) + (l.placeholder + read)))
          (by rw [CommandLayout.placeholder]; ac_rfl) ?_
        refine (implements_commandArgsAdd _ a result).call (fun b _ hadd => ?_) fun e hadd => by
          rw [hadd]
        rw [hadd, add_left_comm]
        exact Implements.free_last (Set.Subset.refl _)
  have hloop := implements_foldSlots (fun _ _ p => replaceFixedArg l.block newArg p)
    (replaceOne cmd.argPlaceholder newArg) (fun _ a (_ : Unit) => grown a) lf.inUse
    (fun _ _ _ => (harray.add_left _).add_left _) hround args [commandWord] a () hargs
  have hrounds : lf.block.count - 1 = args.length := by
    show cmd.fixedArgs.count - 1 = _
    rw [cmd.fixedArgs.count_eq, hargs]
    rfl
  rw [hrounds]
  refine Implements.map (hloop.imp fun b _ _ => ?_)
  let l' : CommandLayout { cmd with replacedFixedArgs := b } :=
    ⟨l.argPlaceholder, l.fixedArgs, l.inputArgs, l.replacedFixedArgs, l.isSome_eq⟩
  refine Set.Subset.trans ?_ (commandAt_of l')
  have hclosed : grown b ⊆ pointsTo p (.command l.block) + (argsAt l.inputArgs cmd.inputArgs +
      (argsAt l.replacedFixedArgs b + l.placeholder)) + argsAt l.fixedArgs cmd.fixedArgs := by
    refine Set.Subset.trans (Eq.subset ?_) (Set.add_subset_add_left (argsAt_of lf))
    show argsAt l.replacedFixedArgs b + (l.placeholder + read) = _
    rw [hread]
    ac_rfl
  refine Set.Subset.trans hclosed (Eq.subset ?_)
  show _ = pointsTo p (.command l.block) + (l.placeholder + (argsAt l.fixedArgs cmd.fixedArgs +
    (argsAt l.inputArgs cmd.inputArgs + argsAt l.replacedFixedArgs b)))
  ac_rfl

theorem implements_commandIncrementLineCount (p : Ptr) (cmd : Command) :
    Implements (commandAt p cmd) (commandIncrementLineCount p)
      (.ok (Phxargs.commandIncrementLineCount cmd 1)) fun cmd _ => commandAt p cmd := by
  refine Implements.iUnion fun l => ?_
  unfold commandIncrementLineCount
  refine Implements.loadAs ((holds_pointsTo _ _).add_right _) rfl ?_
  refine Implements.store_last ?_
  let l' : CommandLayout (Phxargs.commandIncrementLineCount cmd 1) :=
    ⟨l.argPlaceholder, l.fixedArgs, l.inputArgs, l.replacedFixedArgs, l.isSome_eq⟩
  exact commandAt_of l'

/-- Destroying a command frees all of it. -/
theorem implements_commandDestroy (p : Ptr) (cmd : Command) :
    Implements (commandAt p cmd) (commandDestroy p) (.ok ()) fun _ _ => 0 := by
  refine Implements.iUnion fun l => ?_
  unfold commandDestroy
  refine Implements.loadAs ((holds_pointsTo _ _).add_right _) rfl ?_
  refine Implements.rearrange (argsAt l.inputArgs cmd.inputArgs + (argsAt l.fixedArgs cmd.fixedArgs +
    (argsAt l.replacedFixedArgs cmd.replacedFixedArgs + (l.placeholder +
      (pointsTo p (.command l.block) + 0))))) (by rw [CommandLayout.owned, add_zero]; ac_rfl) ?_
  refine (implements_commandArgsDestroy _ _).callOk fun _ => ?_
  rw [zero_add]
  refine (implements_commandArgsDestroy _ _).callOk fun _ => ?_
  rw [zero_add]
  refine (implements_commandArgsDestroy _ _).callOk fun _ => ?_
  rw [zero_add]
  refine (Implements.freeOrNull_spec _ _).callOk fun _ => ?_
  rw [zero_add]
  exact Implements.free_last (Set.Subset.refl _)

end Phxargs.OnHeap
