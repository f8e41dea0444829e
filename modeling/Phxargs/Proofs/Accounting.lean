import Phxargs.Lib.Override
import Phxargs.Lib.Slots
import Phxargs.Model.CommandSlots
import Phxargs.Proofs.Command

/-!
# `Phxargs.Proofs.Accounting`: the running length and the argv

`ArgSlots.Holds` is what the code has to keep between the count, the capacity, the slots and the
running length of a list. Creation establishes it, growth keeps it, and an add appends one
string. So `command_length`, which every limit check trusts, is the length of the argv that
`build_exec_args` returns at the same moment (`commandSlots_account`), and the lists of
`Command` are the same lists (`commandSlotsRun_represents`).
-/

set_option autoImplicit false

namespace Phxargs

open Lib

/-! ### One list -/

/-- The fields of the list agree: it holds these strings. -/
structure ArgSlots.Holds (a : ArgSlots) (args : List CStr) : Prop where
  count : a.count = args.length
  length : a.length = totalLength args
  count_le : a.count ≤ a.capacity
  slots : a.args.length = a.capacity
  stored : a.args.take a.count = args.map some

variable {fresh : Nat → Option CStr} {a b : ArgSlots} {args : List CStr}

theorem argSlotsCreate_holds (capacity : Nat) : (argSlotsCreateWithCapacity capacity).Holds [] := by
  constructor <;> simp [argSlotsCreateWithCapacity]

/-- Growth keeps the strings, and afterwards a slot is free. -/
theorem ArgSlots.Holds.reallocate (h : a.Holds args)
    (hgrow : argSlotsReallocateIfNeeded fresh a = .ok b) : b.Holds args ∧ b.count < b.capacity := by
  obtain ⟨hcount, hlength, hle, hslots, hstored⟩ := h
  unfold argSlotsReallocateIfNeeded at hgrow
  split at hgrow
  · cases hdouble : phxargsDoubleCapacity a.capacity with
    | error e => rw [hdouble] at hgrow; cases hgrow
    | ok capacity =>
        rw [hdouble] at hgrow
        cases hgrow
        have hlt := lt_of_phxargsDoubleCapacity hdouble
        refine ⟨⟨hcount, hlength, ?_, ?_, ?_⟩, ?_⟩
        · exact Nat.le_trans hle (Nat.le_of_lt hlt)
        · simp only [List.length_append, List.length_map, List.length_range]
          omega
        · have hused : InUse a.args a.count (args.map some) := ⟨hslots ▸ hle, hstored⟩
          exact (hused.grow _).take_eq
        · exact Nat.lt_of_le_of_lt hle hlt
  · rename_i hroom
    cases hgrow
    exact ⟨⟨hcount, hlength, hle, hslots, hstored⟩, Nat.lt_of_not_le hroom⟩

/-- An add writes the first free slot, and counts the string and its NUL. -/
theorem ArgSlots.Holds.add {newArg : CStr} (h : a.Holds args)
    (hadd : argSlotsAdd fresh a newArg = .ok b) : b.Holds (args ++ [newArg]) := by
  unfold argSlotsAdd at hadd
  cases hgrow : argSlotsReallocateIfNeeded fresh a with
  | error e => rw [hgrow] at hadd; cases hadd
  | ok c =>
      rw [hgrow] at hadd
      cases hadd
      obtain ⟨⟨hcount, hlength, hle, hslots, hstored⟩, hroom⟩ := h.reallocate hgrow
      have hin : c.count < c.args.length := hslots ▸ hroom
      constructor
      · simp [hcount]
      · simp [hlength]
      · exact hroom
      · simp [hslots]
      · have hused : InUse c.args c.count (args.map some) := ⟨Nat.le_of_lt hin, hstored⟩
        rw [List.map_append]
        exact (hused.store hin (some newArg)).take_eq

/-- Reading the slots in use gives the strings. -/
theorem ArgSlots.Holds.at (h : a.Holds args) :
    (List.range a.count).map (argSlotsAt a) = args.map some := by
  rw [← h.stored]
  have hin : a.count ≤ a.args.length := h.slots ▸ h.count_le
  apply List.ext_getElem
  · simp [hin]
  · intro i hi _
    have hlt : i < a.args.length := by
      simp only [List.length_map, List.length_range] at hi
      omega
    simp [argSlotsAt, hlt]

/-- The loop of `command_create` adds the operands. Induction on the operands. -/
theorem addFixedSlots_holds :
    ∀ (operands : List CStr) {a b : ArgSlots} {args : List CStr}, a.Holds args →
      addFixedSlots fresh a operands = .ok b → b.Holds (args ++ operands) := by
  intro operands
  induction operands with
  | nil =>
      intro a b args h hadd
      cases hadd
      simpa using h
  | cons arg operands ih =>
      intro a b args h hadd
      rw [addFixedSlots] at hadd
      cases hfirst : argSlotsAdd fresh a arg with
      | error e => rw [hfirst] at hadd; cases hadd
      | ok c =>
          rw [hfirst] at hadd
          simpa using ih (h.add hfirst) hadd

/-! ### Both lists -/

/-- The lists hold the operands and the pending arguments. -/
structure CommandSlots.Holds (cmd : CommandSlots) (operands pending : List CStr) : Prop where
  fixedArgs : cmd.fixedArgs.Holds operands
  inputArgs : cmd.inputArgs.Holds pending

/-- What `command_length`, `build_exec_args` and the capacities say of these strings. -/
structure CommandSlots.Accounts (cmd : CommandSlots) (envLength : Nat)
    (operands pending : List CStr) : Prop where
  argv : buildExecSlots cmd = (operands ++ pending).map some
  length : commandSlotsLength cmd = envLength + totalLength (operands ++ pending)
  fixedArgs : cmd.fixedArgs.count ≤ cmd.fixedArgs.capacity ∧
    cmd.fixedArgs.args.length = cmd.fixedArgs.capacity
  inputArgs : cmd.inputArgs.count ≤ cmd.inputArgs.capacity ∧
    cmd.inputArgs.args.length = cmd.inputArgs.capacity

theorem CommandSlots.Holds.accounts {cmd : CommandSlots} {operands pending : List CStr}
    (h : cmd.Holds operands pending) : cmd.Accounts cmd.envLength operands pending where
  argv := by rw [buildExecSlots, h.fixedArgs.at, h.inputArgs.at, List.map_append]
  length := by
    rw [commandSlotsLength, h.fixedArgs.length, h.inputArgs.length, totalLength_append,
      Nat.add_assoc]
  fixedArgs := ⟨h.fixedArgs.count_le, h.fixedArgs.slots⟩
  inputArgs := ⟨h.inputArgs.count_le, h.inputArgs.slots⟩

/-- The arguments that a call leaves pending. -/
def CommandCall.pending (args : List CStr) : CommandCall → List CStr
  | .addInputArgument newArg => args ++ [newArg]
  | .recycle => []

/-- The arguments added since the last recycle. -/
def pendingOf (calls : List CommandCall) : List CStr := calls.foldl CommandCall.pending []

theorem freshInputSlots_holds (maxArgs : Nat) : (freshInputSlots maxArgs).Holds [] := by
  unfold freshInputSlots
  split
  · exact argSlotsCreate_holds maxArgs
  · exact argSlotsCreate_holds 10

/-- **The step lemma.** -/
theorem CommandSlots.Holds.step {cmd cmd' : CommandSlots} {operands pending : List CStr}
    (h : cmd.Holds operands pending) {call : CommandCall}
    (hcall : commandSlotsCall fresh cmd call = .ok cmd') :
    cmd'.Holds operands (call.pending pending) ∧ cmd'.envLength = cmd.envLength := by
  cases call with
  | addInputArgument newArg =>
      rw [commandSlotsCall] at hcall
      cases hadd : argSlotsAdd fresh cmd.inputArgs newArg with
      | error e => rw [hadd] at hcall; cases hcall
      | ok b =>
          rw [hadd] at hcall
          cases hcall
          exact ⟨⟨h.fixedArgs, h.inputArgs.add hadd⟩, rfl⟩
  | recycle =>
      cases hcall
      exact ⟨⟨h.fixedArgs, freshInputSlots_holds cmd.maxArgs⟩, rfl⟩

/-- **The run lemma.** -/
theorem CommandSlots.Holds.run {operands : List CStr} :
    ∀ (calls : List CommandCall) {cmd cmd' : CommandSlots} {pending : List CStr},
      cmd.Holds operands pending → calls.foldlM (commandSlotsCall fresh) cmd = .ok cmd' →
      cmd'.Holds operands (calls.foldl CommandCall.pending pending) ∧
        cmd'.envLength = cmd.envLength := by
  intro calls
  induction calls with
  | nil =>
      intro cmd cmd' pending h hrun
      cases hrun
      exact ⟨h, rfl⟩
  | cons call calls ih =>
      intro cmd cmd' pending h hrun
      obtain ⟨next, hfirst, hlater⟩ := foldlM_cons_ok.mp hrun
      obtain ⟨hnext, henv⟩ := h.step hfirst
      obtain ⟨hlast, henv'⟩ := ih hnext hlater
      exact ⟨hlast, henv'.trans henv⟩

/-! ### The lists of the model -/

/-- The list is the one of `CommandArgs`, in its strings and in its capacity. -/
structure ArgSlots.Represents (a : ArgSlots) (list : CommandArgs) : Prop where
  holds : a.Holds list.args
  capacity : a.capacity = list.capacity

theorem argSlotsCreate_represents (capacity : Nat) :
    (argSlotsCreateWithCapacity capacity).Represents (commandArgsCreateWithCapacity capacity) :=
  ⟨argSlotsCreate_holds capacity, rfl⟩

/-- The capacity behind an add: the old one if a slot was free, and else the doubled one. -/
theorem commandArgsAdd_capacity {list list' : CommandArgs} {newArg : CStr}
    (h : commandArgsAdd list newArg = .ok list') :
    (¬ list.count ≥ list.capacity ∧ list'.capacity = list.capacity) ∨
      (list.count ≥ list.capacity ∧ phxargsDoubleCapacity list.capacity = .ok list'.capacity) := by
  unfold commandArgsAdd at h
  split at h
  · cases h
  · rename_i c hroom hgrow
    cases h
    unfold reallocateIfNeeded at hgrow
    split at hgrow
    · rename_i hfull
      split at hgrow
      · rename_i capacity hdouble
        cases hgrow
        exact Or.inr ⟨hfull, hdouble⟩
      · cases hgrow
    · rename_i hfree
      cases hgrow
      exact Or.inl ⟨hfree, rfl⟩

section Refinement

variable (fresh)

/-- An add to a `CommandArgs` is an add to the list that it stands for. -/
theorem ArgSlots.Represents.add {list list' : CommandArgs} {newArg : CStr}
    (h : a.Represents list) (hadd : commandArgsAdd list newArg = .ok list') :
    ∃ b, argSlotsAdd fresh a newArg = .ok b ∧ b.Represents list' := by
  have hcount : a.count = list.count := h.holds.count.trans list.count_eq.symm
  have hgrow : ∃ c, argSlotsReallocateIfNeeded fresh a = .ok c ∧ c.capacity = list'.capacity := by
    unfold argSlotsReallocateIfNeeded
    rw [hcount, h.capacity]
    rcases commandArgsAdd_capacity hadd with ⟨hfree, hcapacity⟩ | ⟨hfull, hdouble⟩
    · rw [if_neg hfree]
      exact ⟨a, rfl, h.capacity.trans hcapacity.symm⟩
    · rw [if_pos hfull, hdouble]
      exact ⟨_, rfl, rfl⟩
  obtain ⟨c, hc, hcapacity⟩ := hgrow
  have hslots : argSlotsAdd fresh a newArg = .ok
      { c with
        args := c.args.set c.count (some newArg)
        count := c.count + 1
        length := c.length + (strlen newArg + 1) } := by
    rw [argSlotsAdd, hc]
  refine ⟨_, hslots, ?_, hcapacity⟩
  rw [commandArgsAdd_args hadd]
  exact h.holds.add hslots

/-- The loop of `command_create`, on both. Induction on the operands. -/
theorem addFixedArguments_represents :
    ∀ (operands : List CStr) {a : ArgSlots} {list list' : CommandArgs}, a.Represents list →
      addFixedArguments list operands = .ok list' →
      ∃ b, addFixedSlots fresh a operands = .ok b ∧ b.Represents list' := by
  intro operands
  induction operands with
  | nil =>
      intro a list list' h hadd
      cases hadd
      exact ⟨a, rfl, h⟩
  | cons arg operands ih =>
      intro a list list' h hadd
      rw [addFixedArguments] at hadd
      cases hfirst : commandArgsAdd list arg with
      | error e => rw [hfirst] at hadd; cases hadd
      | ok next =>
          rw [hfirst] at hadd
          obtain ⟨c, hc, hnext⟩ := h.add fresh hfirst
          rw [addFixedSlots, hc]
          exact ih hnext hadd

/-- The lists and the fields that go with them are those of the command. -/
structure CommandSlots.Represents (slots : CommandSlots) (cmd : Command) : Prop where
  maxArgs : slots.maxArgs = cmd.maxArgs
  envLength : slots.envLength = cmd.envLength
  fixedArgs : slots.fixedArgs.Represents cmd.fixedArgs
  inputArgs : slots.inputArgs.Represents cmd.inputArgs
  appending : cmd.argPlaceholder = none

theorem CommandSlots.Represents.argv {slots : CommandSlots} {cmd : Command}
    (h : slots.Represents cmd) : buildExecSlots slots = (buildExecArgs cmd).map some := by
  rw [buildExecSlots, h.fixedArgs.holds.at, h.inputArgs.holds.at, buildExecArgs_eq h.appending,
    List.map_append]

theorem CommandSlots.Represents.length {slots : CommandSlots} {cmd : Command}
    (h : slots.Represents cmd) : commandSlotsLength slots = commandLength cmd := by
  rw [commandSlotsLength, commandLength, h.envLength, h.fixedArgs.holds.length,
    h.inputArgs.holds.length, commandArgsLength_eq, commandArgsLength_eq]

theorem freshInputSlots_represents {settings : CommandSettings} {maxArgs : Nat}
    (h : maxArgs = settings.maxArgs) :
    (freshInputSlots maxArgs).Represents (freshInputArgs settings) := by
  subst h
  unfold freshInputSlots freshInputArgs
  split
  · exact argSlotsCreate_represents settings.maxArgs
  · exact argSlotsCreate_represents 10

/-- `command_create` on both, without a placeholder. -/
theorem commandCreate_represents {sys : System} {opts : Options} {argIndex : Nat}
    {argv : List CStr} {cmd : Command} (h : commandCreate sys opts argIndex argv = .ok cmd)
    (hmode : opts.argPlaceholder = none) :
    ∃ slots, commandSlotsCreate fresh sys opts argIndex argv = .ok slots ∧
      slots.Represents cmd := by
  unfold commandCreate at h
  dsimp only at h
  split at h
  · cases h
  · rename_i list hfixed
    split at h
    · cases h
    · cases h
      have hslots : ∃ fixedArgs, (if argIndex = argv.length then
            addFixedSlots fresh (argSlotsCreateWithCapacity 1) [DEFAULT_CMD]
          else
            addFixedSlots fresh (argSlotsCreateWithCapacity (argv.length - argIndex))
              (argv.drop argIndex)) = .ok fixedArgs ∧ fixedArgs.Represents list := by
        split
        · rename_i hindex
          rw [if_pos hindex] at hfixed
          exact addFixedArguments_represents fresh _ (argSlotsCreate_represents 1) hfixed
        · rename_i hindex
          rw [if_neg hindex] at hfixed
          exact addFixedArguments_represents fresh _ (argSlotsCreate_represents _) hfixed
      obtain ⟨fixedArgs, hfixedArgs, hrepresents⟩ := hslots
      refine ⟨⟨opts.maxArgsPerCommand, calcEnvLength sys.environ, fixedArgs,
        freshInputSlots opts.maxArgsPerCommand⟩, ?_, rfl, rfl, hrepresents,
        freshInputSlots_represents rfl, hmode⟩
      simp only [commandSlotsCreate, hfixedArgs]

/-- A call on both. -/
theorem CommandSlots.Represents.step {slots : CommandSlots} {cmd cmd' : Command}
    (h : slots.Represents cmd) {call : CommandCall} (hcall : commandCall cmd call = .ok cmd') :
    ∃ slots', commandSlotsCall fresh slots call = .ok slots' ∧ slots'.Represents cmd' := by
  cases call with
  | addInputArgument newArg =>
      rw [commandCall, commandAddInputArgument] at hcall
      cases hadd : commandArgsAdd cmd.inputArgs newArg with
      | error e => rw [hadd] at hcall; cases hcall
      | ok list =>
          rw [hadd] at hcall
          cases hcall
          obtain ⟨b, hb, hrepresents⟩ := h.inputArgs.add fresh hadd
          rw [commandSlotsCall, hb]
          exact ⟨_, rfl, h.maxArgs, h.envLength, h.fixedArgs, hrepresents, h.appending⟩
  | recycle =>
      cases hcall
      exact ⟨_, rfl, h.maxArgs, h.envLength, h.fixedArgs, freshInputSlots_represents h.maxArgs,
        h.appending⟩

/-- **The refinement.** Every run of a command is a run of the lists as the code keeps them, with
the same argv and the same `command_length`. -/
theorem commandRun_represents (calls : List CommandCall) :
    ∀ {slots : CommandSlots} {cmd cmd' : Command}, slots.Represents cmd →
      calls.foldlM commandCall cmd = .ok cmd' →
      ∃ slots', calls.foldlM (commandSlotsCall fresh) slots = .ok slots' ∧
        slots'.Represents cmd' := by
  induction calls with
  | nil =>
      intro slots cmd cmd' h hrun
      cases hrun
      exact ⟨slots, rfl, h⟩
  | cons call calls ih =>
      intro slots cmd cmd' h hrun
      obtain ⟨next, hfirst, hlater⟩ := foldlM_cons_ok.mp hrun
      obtain ⟨slots₁, hslots₁, hnext⟩ := h.step fresh hfirst
      obtain ⟨slots', hslots', hlast⟩ := ih hnext hlater
      exact ⟨slots', foldlM_cons_ok.mpr ⟨slots₁, hslots₁, hslots'⟩, hlast⟩

end Refinement

/-! ### The accounting -/

/-- The operands of a command line, or `DEFAULT_CMD` without any. -/
def operandsOf (argIndex : Nat) (argv : List CStr) : List CStr :=
  if argIndex = argv.length then [DEFAULT_CMD] else argv.drop argIndex

theorem commandSlotsCreate_holds {sys : System} {opts : Options} {argIndex : Nat}
    {argv : List CStr} {slots : CommandSlots}
    (h : commandSlotsCreate fresh sys opts argIndex argv = .ok slots) :
    slots.Holds (operandsOf argIndex argv) [] ∧ slots.envLength = calcEnvLength sys.environ := by
  unfold commandSlotsCreate at h
  dsimp only at h
  split at h
  · cases h
  · rename_i fixedArgs hfixed
    cases h
    refine ⟨⟨?_, freshInputSlots_holds opts.maxArgsPerCommand⟩, rfl⟩
    unfold operandsOf
    split at hfixed
    · rename_i hindex
      rw [if_pos hindex]
      exact addFixedSlots_holds _ (argSlotsCreate_holds 1) hfixed
    · rename_i hindex
      rw [if_neg hindex]
      exact addFixedSlots_holds _ (argSlotsCreate_holds _) hfixed

/-- **The accounting.** Over every sequence of adds and recycles behind `command_create`, without a
placeholder: `command_length` is the length of the environment and of the argv that
`build_exec_args` returns, and this argv is the operands and then the arguments added since the
last recycle. The lists as the code keeps them go through the same calls, with the same argv and
length, and never with more strings than slots. Nor do they if their first capacities are others. -/
theorem command_accounts {sys : System} {opts : Options} {argIndex : Nat} {argv : List CStr}
    {cmd : Command} (hcreate : commandCreate sys opts argIndex argv = .ok cmd)
    (hmode : opts.argPlaceholder = none) (calls : List CommandCall) (fresh : Nat → Option CStr) :
    (∀ cmd', calls.foldlM commandCall cmd = .ok cmd' →
      commandLength cmd' = calcEnvLength sys.environ + totalLength (buildExecArgs cmd') ∧
      buildExecArgs cmd' = operandsOf argIndex argv ++ pendingOf calls ∧
      ∃ slots slots', commandSlotsCreate fresh sys opts argIndex argv = .ok slots ∧
        calls.foldlM (commandSlotsCall fresh) slots = .ok slots' ∧
        commandSlotsLength slots' = commandLength cmd' ∧
        buildExecSlots slots' = (buildExecArgs cmd').map some ∧
        slots'.Accounts (calcEnvLength sys.environ) (operandsOf argIndex argv)
          (pendingOf calls)) ∧
    ∀ capacity capacity' maxArgs fixedArgs slots,
      addFixedSlots fresh (argSlotsCreateWithCapacity capacity) (operandsOf argIndex argv)
        = .ok fixedArgs →
      calls.foldlM (commandSlotsCall fresh) ⟨maxArgs, calcEnvLength sys.environ, fixedArgs,
        argSlotsCreateWithCapacity capacity'⟩ = .ok slots →
      slots.Accounts (calcEnvLength sys.environ) (operandsOf argIndex argv) (pendingOf calls) := by
  constructor
  · intro cmd' hrun
    obtain ⟨slots, hslots, hrepresents⟩ := commandCreate_represents fresh hcreate hmode
    obtain ⟨slots', hrun', hrepresents'⟩ :=
      commandRun_represents fresh calls hrepresents hrun
    obtain ⟨hholds, henv⟩ := commandSlotsCreate_holds hslots
    obtain ⟨hlast, henv'⟩ := hholds.run calls hrun'
    have haccounts := hlast.accounts
    rw [henv', henv] at haccounts
    -- Both levels have the same argv, so the model has that of the slots.
    have hargv : buildExecArgs cmd' = operandsOf argIndex argv ++ pendingOf calls :=
      List.map_injective_iff.mpr (Option.some_injective CStr)
        (hrepresents'.argv.symm.trans haccounts.argv)
    refine ⟨?_, hargv, slots, slots', hslots, hrun', hrepresents'.length, hrepresents'.argv,
      haccounts⟩
    rw [hargv, ← hrepresents'.length]
    exact haccounts.length
  · intro capacity capacity' maxArgs fixedArgs slots hfixed hrun
    have hstart : CommandSlots.Holds ⟨maxArgs, calcEnvLength sys.environ, fixedArgs,
        argSlotsCreateWithCapacity capacity'⟩ (operandsOf argIndex argv) [] :=
      ⟨addFixedSlots_holds _ (argSlotsCreate_holds capacity) hfixed,
        argSlotsCreate_holds capacity'⟩
    obtain ⟨hlast, henv⟩ := hstart.run calls hrun
    have haccounts := hlast.accounts
    rw [henv] at haccounts
    exact haccounts

/-- `phxargs -n 2 c`, with three arguments and a recycle between the second and the third. -/
theorem command_accounts_counted :
    ∃ opts cmd cmd', optionsCreate 0 [.optn [50]] 3 = .ok opts ∧
      commandCreate System.bare opts 3 [[120], [45, 110], [50], [99]] = .ok cmd ∧
      [.addInputArgument [97], .addInputArgument [98], .recycle, .addInputArgument [100, 101]].foldlM
        commandCall cmd = .ok cmd' ∧
      buildExecArgs cmd' = [[99], [100, 101]] ∧ commandLength cmd' = 5 := by
  obtain ⟨opts, cmd, cmd', hopts, hcreate, hmode, hrun⟩ : ∃ opts cmd cmd',
      optionsCreate 0 [.optn [50]] 3 = .ok opts ∧
      commandCreate System.bare opts 3 [[120], [45, 110], [50], [99]] = .ok cmd ∧
      opts.argPlaceholder = none ∧
      [.addInputArgument [97], .addInputArgument [98], .recycle, .addInputArgument [100, 101]].foldlM
        commandCall cmd = .ok cmd' := ⟨_, _, _, rfl, rfl, rfl, rfl⟩
  obtain ⟨hlength, hargv, -⟩ := (command_accounts hcreate hmode _ fun _ => none).1 cmd' hrun
  refine ⟨opts, cmd, cmd', hopts, hcreate, hrun, hargv, ?_⟩
  rw [hlength, hargv]
  rfl

end Phxargs
