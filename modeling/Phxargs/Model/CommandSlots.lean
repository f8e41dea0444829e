import Phxargs.Model.Command

/-!
# `Phxargs.Model.CommandSlots`: the argument lists as the code keeps them

`struct command_args_s` field by field: the count, the capacity, the slots of `args` and the
running length, without a guarantee that they agree. `CommandSlots` is the part of the command
that has to do with them, without a placeholder. `CommandArgs` and `Command` are the same lists
with the agreement as a field; `Phxargs.Proofs.Accounting` shows that the two levels go together.

`fresh` is what `realloc` leaves in new slots.
-/

set_option autoImplicit false

namespace Phxargs

/-- `struct command_args_s`. A slot is a `char*`, `none` for `NULL`. -/
structure ArgSlots where
  count : Nat
  capacity : Nat
  args : List (Option CStr)
  length : Nat

/-- `command_args_create_with_capacity`. `calloc` clears the slots. -/
def argSlotsCreateWithCapacity (capacity : Nat) : ArgSlots where
  count := 0
  capacity := capacity
  args := List.replicate capacity none
  length := 0

/-- `reallocate_if_needed`. -/
def argSlotsReallocateIfNeeded (fresh : Nat → Option CStr) (a : ArgSlots) :
    Except Exit ArgSlots :=
  if a.count ≥ a.capacity then
    match phxargsDoubleCapacity a.capacity with
    | .ok capacity => .ok
        { a with
          capacity := capacity
          args := a.args ++ (List.range (capacity - a.args.length)).map fresh }
    | .error e => .error e
  else
    .ok a

/-- `command_args_add`. -/
def argSlotsAdd (fresh : Nat → Option CStr) (a : ArgSlots) (newArg : CStr) :
    Except Exit ArgSlots :=
  match argSlotsReallocateIfNeeded fresh a with
  | .error e => .error e
  | .ok b => .ok
      { b with
        args := b.args.set b.count (some newArg)
        count := b.count + 1
        length := b.length + (strlen newArg + 1) }

/-- `command_args_at`. -/
def argSlotsAt (a : ArgSlots) (i : Nat) : Option CStr := a.args.getD i none

/-- The argument lists of `struct command_s`, and the fields that go with them. -/
structure CommandSlots where
  maxArgs : Nat
  envLength : Nat
  fixedArgs : ArgSlots
  inputArgs : ArgSlots

/-- The list that `recycle_command` and `command_create` give `input_args`. -/
def freshInputSlots (maxArgs : Nat) : ArgSlots :=
  if maxArgs > 0 then argSlotsCreateWithCapacity maxArgs else argSlotsCreateWithCapacity 10

/-- The loop of `command_create`. -/
def addFixedSlots (fresh : Nat → Option CStr) : ArgSlots → List CStr → Except Exit ArgSlots
  | a, [] => .ok a
  | a, arg :: args =>
      match argSlotsAdd fresh a arg with
      | .ok b => addFixedSlots fresh b args
      | .error e => .error e

/-- `command_create`, up to the limit, which only reads the lists. -/
def commandSlotsCreate (fresh : Nat → Option CStr) (sys : System) (opts : Options) (argIndex : Nat)
    (argv : List CStr) : Except Exit CommandSlots :=
  let fixed :=
    if argIndex = argv.length then
      addFixedSlots fresh (argSlotsCreateWithCapacity 1) [DEFAULT_CMD]
    else
      addFixedSlots fresh (argSlotsCreateWithCapacity (argv.length - argIndex)) (argv.drop argIndex)
  match fixed with
  | .error e => .error e
  | .ok fixedArgs => .ok
      { maxArgs := opts.maxArgsPerCommand
        envLength := calcEnvLength sys.environ
        fixedArgs := fixedArgs
        inputArgs := freshInputSlots opts.maxArgsPerCommand }

/-- `command_length`. -/
def commandSlotsLength (cmd : CommandSlots) : Nat :=
  cmd.envLength + cmd.fixedArgs.length + cmd.inputArgs.length

/-- `build_exec_args`, without the final `NULL`. -/
def buildExecSlots (cmd : CommandSlots) : List (Option CStr) :=
  (List.range cmd.fixedArgs.count).map (argSlotsAt cmd.fixedArgs) ++
    (List.range cmd.inputArgs.count).map (argSlotsAt cmd.inputArgs)

/-- The calls that change the lists. -/
inductive CommandCall where
  | addInputArgument (newArg : CStr)
  /-- `command_execute_async`, with a successful `fork`. -/
  | recycle

/-- `command_add_input_argument` and `recycle_command`. -/
def commandCall (cmd : Command) : CommandCall → Except Exit Command
  | .addInputArgument newArg => commandAddInputArgument cmd newArg
  | .recycle => .ok (recycleCommand cmd)

/-- The same calls on the lists as the code keeps them. -/
def commandSlotsCall (fresh : Nat → Option CStr) (cmd : CommandSlots) :
    CommandCall → Except Exit CommandSlots
  | .addInputArgument newArg =>
      match argSlotsAdd fresh cmd.inputArgs newArg with
      | .error e => .error e
      | .ok b => .ok { cmd with inputArgs := b }
  | .recycle => .ok { cmd with inputArgs := freshInputSlots cmd.maxArgs }

end Phxargs
