import Phxargs.Model.Command

/-!
# `Phxargs.Proofs.Command`: the length and the settings of a command

The size checks compare one number, `commandLength`, with `max_length`. Here it is a
function of the settings and of the pending arguments alone, `CommandSettings.lengthWith`,
and the checks are statements about `CommandSettings.Fits`.

`commandCreate_spec` says what `command_create` establishes for the rest of the run.
-/

set_option autoImplicit false

namespace Phxargs

/-! ### Length -/

/-- The length of a command with these settings and these input arguments. -/
def CommandSettings.lengthWith (c : CommandSettings) (args : List CStr) : Nat :=
  c.envLength + totalLength c.fixedArgs.args + totalLength args

/-- A command with these input arguments is within the limit. -/
def CommandSettings.Fits (c : CommandSettings) (args : List CStr) : Prop :=
  c.lengthWith args ≤ c.maxLength

instance (c : CommandSettings) (args : List CStr) : Decidable (c.Fits args) :=
  inferInstanceAs (Decidable (c.lengthWith args ≤ c.maxLength))

theorem commandLength_eq (cmd : Command) :
    commandLength cmd = cmd.lengthWith cmd.inputArgs.args := by
  simp [commandLength, CommandSettings.lengthWith]

/-- The length that the checks compute before they add `arg`. -/
theorem commandLength_add (cmd : Command) (arg : CStr) :
    commandLength cmd + strlen arg + 1 = cmd.lengthWith (cmd.inputArgs.args ++ [arg]) := by
  rw [commandLength_eq]
  simp only [CommandSettings.lengthWith, totalLength_append, totalLength_cons, totalLength_nil]
  omega

theorem commandLength_gt_iff (cmd : Command) :
    commandLength cmd > cmd.maxLength ↔ ¬ cmd.Fits cmd.inputArgs.args := by
  rw [commandLength_eq]
  exact Nat.not_le.symm

theorem commandLength_add_gt_iff (cmd : Command) (arg : CStr) :
    commandLength cmd + strlen arg + 1 > cmd.maxLength
      ↔ ¬ cmd.Fits (cmd.inputArgs.args ++ [arg]) := by
  rw [commandLength_add]
  exact Nat.not_le.symm

/-- A part of what fits fits. -/
theorem CommandSettings.Fits.of_isPrefix {c : CommandSettings} {args args' : List CStr}
    (h : c.Fits args') (hpart : args <+: args') : c.Fits args := by
  obtain ⟨rest, rfl⟩ := hpart
  unfold Fits lengthWith at h ⊢
  rw [totalLength_append] at h
  omega

/-- A string that does not fit alone fits nowhere. -/
theorem CommandSettings.not_fits_append {c : CommandSettings} {arg : CStr}
    (h : ¬ c.Fits [arg]) (args : List CStr) : ¬ c.Fits (args ++ [arg]) := by
  unfold Fits lengthWith at h ⊢
  rw [totalLength_append]
  simp only [totalLength_cons, totalLength_nil] at h ⊢
  omega

/-- A command that fits has at most `max_length` arguments. -/
theorem CommandSettings.Fits.length_le {c : CommandSettings} {args : List CStr}
    (h : c.Fits args) : args.length ≤ c.maxLength := by
  have hle := length_le_totalLength args
  unfold Fits lengthWith at h
  omega

/-- The argv of a command without a placeholder. -/
theorem buildExecArgs_eq {cmd : Command} (h : cmd.argPlaceholder = none) :
    buildExecArgs cmd = cmd.fixedArgs.args ++ cmd.inputArgs.args := by
  unfold buildExecArgs
  rw [h]
  rfl

/-! ### Recycling and adding -/

@[simp] theorem freshInputArgs_args (c : CommandSettings) : (freshInputArgs c).args = [] := by
  unfold freshInputArgs
  split <;> rfl

@[simp] theorem recycleCommand_settings (cmd : Command) :
    (recycleCommand cmd).toCommandSettings = cmd.toCommandSettings := rfl

@[simp] theorem recycleCommand_inputArgs (cmd : Command) :
    (recycleCommand cmd).inputArgs.args = [] := freshInputArgs_args _

@[simp] theorem recycleCommand_lineCount (cmd : Command) :
    (recycleCommand cmd).lineCount = 0 := rfl

/-- `SIZE_MAX / 2` is the largest `long`: no accepted limit reaches the guard of the list
growth. -/
theorem LONG_MAX_eq : LONG_MAX = SIZE_MAX / 2 := by decide

/-- What `command_add_input_argument` does below the guard. -/
theorem commandAddInputArgument_ok {cmd : Command} (arg : CStr)
    (hroom : cmd.inputArgs.args.length ≤ LONG_MAX) :
    ∃ args', args'.args = cmd.inputArgs.args ++ [arg] ∧
      commandAddInputArgument cmd arg = .ok { cmd with inputArgs := args' } := by
  obtain ⟨args', hadd⟩ := commandArgsAdd_ok arg (LONG_MAX_eq ▸ hroom)
  refine ⟨args', commandArgsAdd_args hadd, ?_⟩
  rw [commandAddInputArgument, hadd]

/-! ### Exits -/

/-- A full list exits in the guard of its growth. -/
theorem commandArgsAdd_error {a : CommandArgs} {newArg : CStr} {e : Exit}
    (h : commandArgsAdd a newArg = .error e) : e = Exit.failure .internalLimitExceeded := by
  have hgrow : reallocateIfNeeded a = .error e := by
    unfold commandArgsAdd at h
    split at h
    · cases h
      assumption
    · cases h
  unfold reallocateIfNeeded at hgrow
  split at hgrow
  · split at hgrow
    · cases hgrow
    · rename_i e' hdouble
      cases hgrow
      exact (phxargsDoubleCapacity_error hdouble).1
  · cases hgrow

theorem commandEnsureLengthNotExceeded_error {cmd : Command} {arg : CStr} {e : Exit}
    (h : commandEnsureLengthNotExceeded cmd arg = .error e) : e = Exit.commandTooLong := by
  unfold commandEnsureLengthNotExceeded at h
  split at h
  · dsimp only at h
    split at h
    · cases h
      rfl
    · cases h
  · cases h

theorem commandArgWouldExceedLimits_error {cmd : Command} {arg : CStr} {e : Exit}
    (h : commandArgWouldExceedLimits cmd arg = .error e) : e = Exit.commandTooLong := by
  unfold commandArgWouldExceedLimits at h
  cases hlength : commandEnsureLengthNotExceeded cmd arg with
  | error e' =>
      rw [hlength] at h
      cases h
      exact commandEnsureLengthNotExceeded_error hlength
  | ok _ =>
      -- Behind the fatal check there is only an answer.
      rw [hlength] at h
      dsimp only at h
      split at h
      · split at h <;> cases h
      · cases h

theorem commandAddInputArgument_error {cmd : Command} {arg : CStr} {e : Exit}
    (h : commandAddInputArgument cmd arg = .error e) :
    e = Exit.failure .internalLimitExceeded := by
  unfold commandAddInputArgument at h
  split at h
  · rename_i e' hadd
    cases h
    exact commandArgsAdd_error hadd
  · cases h

/-- The size computation exits in one of its checks. -/
theorem strReplaceAlloc_error {sizeMax : Nat} {s placeholder repl : CStr} {e : Exit}
    (h : strReplaceAlloc sizeMax s placeholder repl = .error e) :
    e = Exit.failure .replacementTooLarge := by
  have hmul : ∀ {a b : Nat} {e : Exit}, checkedMul sizeMax a b = .error e →
      e = Exit.failure .replacementTooLarge := by
    intro a b e h
    unfold checkedMul at h
    split at h
    · cases h
      rfl
    · cases h
  have hadd : ∀ {a b : Nat} {e : Exit}, checkedAdd sizeMax a b = .error e →
      e = Exit.failure .replacementTooLarge := by
    intro a b e h
    unfold checkedAdd at h
    split at h
    · cases h
      rfl
    · cases h
  simp only [strReplaceAlloc, bind, Except.bind] at h
  split at h
  · rename_i e' hremoved
    cases h
    exact hmul hremoved
  · split at h
    · rename_i e' hadded
      cases h
      exact hmul hadded
    · split at h
      · rename_i e' hnewLen
        cases h
        exact hadd hnewLen
      · cases h

theorem strReplace_error {s : CStr} {placeholder replacement : Option CStr} {e : Exit}
    (h : strReplace s placeholder replacement = .error e) :
    e = Exit.failure .replacementTooLarge := by
  unfold strReplace at h
  split at h
  · cases h
  · split at h
    · cases h
    · dsimp only at h
      split at h
      · rename_i e' halloc
        cases h
        exact strReplaceAlloc_error halloc
      · cases h

/-- A replacement exits where a list or a string grows too large. -/
theorem addReplacedArguments_error {placeholder : Option CStr} {newArg : CStr} {e : Exit} :
    ∀ {args : List CStr} {a : CommandArgs}, addReplacedArguments placeholder newArg a args = .error e →
      e = Exit.failure .internalLimitExceeded ∨ e = Exit.failure .replacementTooLarge := by
  intro args
  induction args with
  | nil => intro a h; cases h
  | cons arg args ih =>
      intro a h
      rw [addReplacedArguments] at h
      cases hreplaced : strReplace arg placeholder (some newArg) with
      | error e' =>
          rw [hreplaced] at h
          cases h
          exact Or.inr (strReplace_error hreplaced)
      | ok replaced =>
          rw [hreplaced] at h
          dsimp only at h
          cases hadd : commandArgsAdd a replaced with
          | error e' =>
              rw [hadd] at h
              cases h
              exact Or.inl (commandArgsAdd_error hadd)
          | ok b =>
              rw [hadd] at h
              exact ih h

theorem commandReplaceArgs_error {cmd : Command} {newArg : CStr} {e : Exit}
    (h : commandReplaceArgs cmd newArg = .error e) :
    e = Exit.failure .internalLimitExceeded ∨ e = Exit.failure .replacementTooLarge := by
  unfold commandReplaceArgs at h
  split at h
  · cases h
  · split at h
    · rename_i e' hadd
      cases h
      exact Or.inl (commandArgsAdd_error hadd)
    · split at h
      · rename_i e' hrest
        cases h
        exact addReplacedArguments_error hrest
      · cases h

/-! ### Creation -/

/-- The loop of `command_create` adds the operands. -/
theorem addFixedArguments_args :
    ∀ (args : List CStr) {a b : CommandArgs},
      addFixedArguments a args = .ok b → b.args = a.args ++ args := by
  intro args
  induction args with
  | nil =>
      intro a b h
      cases h
      exact (List.append_nil _).symm
  | cons arg args ih =>
      intro a b h
      rw [addFixedArguments] at h
      cases hadd : commandArgsAdd a arg with
      | error e => rw [hadd] at h; cases h
      | ok a' =>
          rw [hadd] at h
          rw [ih h, commandArgsAdd_args hadd, List.append_assoc, List.singleton_append]

/-- Every accepted limit is a `long`. -/
theorem decideMaxLength_le {argMax : Int} {cmd : Command} {opts : Options} {n : Nat}
    (h : decideMaxLength argMax cmd opts = .ok n) (hlength : opts.maxCommandLength ≤ LONG_MAX) :
    n ≤ LONG_MAX := by
  unfold decideMaxLength at h
  dsimp only at h
  -- How the system limit is computed does not matter here.
  generalize (if argMax > 0 then _ else _ : Nat) = maxLength at h
  by_cases hspecified : opts.maxCommandLengthSpecified = true
  · rw [if_neg (by simp [hspecified])] at h
    split at h
    · cases h
    · split at h
      · cases h
      · cases h
        exact hlength
  · -- Without `-s` the limit is at most the default.
    rw [if_pos (by simp [hspecified])] at h
    cases h
    rw [phxargsMin_eq_min]
    have hdefault : 128 * 1024 ≤ LONG_MAX := by decide
    omega

/-- What `command_create` leaves behind. -/
structure Command.Created (sys : System) (opts : Options) (cmd : Command) : Prop where
  maxLines : cmd.maxLines = opts.maxLinesPerCommand
  maxArgs : cmd.maxArgs = opts.maxArgsPerCommand
  argPlaceholder : cmd.argPlaceholder = opts.argPlaceholder
  terminates : cmd.terminateOnTooLargeCommand = opts.terminateOnTooLargeCommand
  lineMode : cmd.lineMode = opts.lineModeSpecified
  envLength : cmd.envLength = calcEnvLength sys.environ
  maxLength : cmd.maxLength ≤ LONG_MAX
  lineCount : cmd.lineCount = 0
  inputArgs : cmd.inputArgs.args = []
  replacedFixedArgs : cmd.replacedFixedArgs.args = []

theorem commandCreate_spec {sys : System} {opts : Options} {argIndex : Nat}
    {argv : List CStr} {cmd : Command} (h : commandCreate sys opts argIndex argv = .ok cmd)
    (hlength : opts.maxCommandLength ≤ LONG_MAX) :
    cmd.Created sys opts ∧ cmd.fixedArgs.args =
      if argIndex = argv.length then [DEFAULT_CMD] else argv.drop argIndex := by
  unfold commandCreate at h
  dsimp only at h
  split at h
  · cases h
  · rename_i fixedArgs hfixed
    split at h
    · cases h
    · rename_i maxLength hmax
      cases h
      refine ⟨⟨rfl, rfl, rfl, rfl, rfl, rfl, decideMaxLength_le hmax hlength, rfl,
        freshInputArgs_args _, rfl⟩, ?_⟩
      show fixedArgs.args = _
      -- `DEFAULT_CMD` stands in for missing operands.
      split at hfixed
      · rename_i hindex
        rw [if_pos hindex]
        exact addFixedArguments_args _ hfixed
      · rename_i hindex
        rw [if_neg hindex]
        exact addFixedArguments_args _ hfixed

end Phxargs
