import Phxargs.Proofs.Command
import Phxargs.Proofs.Refinement

/-!
# `Phxargs.Proofs.Replacer`: the size limit in replacer mode

Before a token replaces the placeholder, its length is checked on the template: the fixed
arguments as they are, plus one copy of the token. What is executed has one copy for each
occurrence of the placeholder, and none of the placeholders. With `k` occurrences of a
placeholder `p`, a token `t` makes a command of the length of the fixed arguments, plus
`k * |t|`, less `k * |p|` (`replacedArgv_length`). So the check can let a too long command
pass when `k` is at least two, and it can reject a token that would fit.

`Replaced` is the invariant of the loop: one command for each token, with exactly the argv
that the token calls for.
-/

set_option autoImplicit false

namespace Phxargs

open Lib

/-! ### `str_replace` -/

/-- A match lies within the string. -/
theorem strstr_le {needle : CStr} : ∀ {s : CStr} {offset : Nat},
    strstr needle s = some offset → offset + strlen needle ≤ strlen s := by
  intro s
  induction s with
  | nil =>
      intro offset h
      rw [strstr] at h
      split at h
      · rename_i hneedle
        cases h
        simp [hneedle, strlen]
      · cases h
  | cons c s ih =>
      intro offset h
      rw [strstr] at h
      split at h
      · rename_i hpart
        cases h
        have hle := (List.isPrefixOf_iff_prefix.mp hpart).length_le
        simpa [strlen] using hle
      · -- The match starts behind `c`.
        obtain ⟨offset', hmatch, rfl⟩ := Option.map_eq_some_iff.mp h
        have hle := ih hmatch
        simp only [strlen, List.length_cons] at hle ⊢
        omega

/-- Both passes make the same searches. Each match trades a placeholder for a replacement. -/
theorem strlen_copyReplaced (placeholder repl : CStr) : ∀ (n : Nat) (s : CStr),
    strlen (copyReplaced placeholder repl n s) + countOccurrences placeholder n s * strlen placeholder
      = strlen s + countOccurrences placeholder n s * strlen repl := by
  intro n
  induction n with
  | zero =>
      intro s
      simp [copyReplaced, countOccurrences]
  | succ n ih =>
      intro s
      rw [copyReplaced, countOccurrences]
      cases hmatch : strstr placeholder s with
      | none => simp
      | some offset =>
          have hle := strstr_le hmatch
          have hrest := ih (s.drop (offset + strlen placeholder))
          simp only [strlen, List.length_append, List.length_take, List.length_drop,
            Nat.add_mul, Nat.one_mul] at hle hrest ⊢
          omega

/-- The matches do not overlap. -/
theorem countOccurrences_mul_le (placeholder : CStr) : ∀ (n : Nat) (s : CStr),
    countOccurrences placeholder n s * strlen placeholder ≤ strlen s := by
  intro n
  induction n with
  | zero =>
      intro s
      simp [countOccurrences]
  | succ n ih =>
      intro s
      rw [countOccurrences]
      cases hmatch : strstr placeholder s with
      | none => simp
      | some offset =>
          have hle := strstr_le hmatch
          have hrest := ih (s.drop (offset + strlen placeholder))
          simp only [strlen, List.length_drop, Nat.add_mul, Nat.one_mul] at hle hrest ⊢
          omega

/-- What `str_replace` makes of `s`. -/
def replaced (placeholder repl s : CStr) : CStr :=
  if strlen placeholder = 0 then s else copyReplaced placeholder repl (strlen s + 1) s

/-- The number of copies of the replacement in it. -/
def replacedCount (placeholder s : CStr) : Nat :=
  if strlen placeholder = 0 then 0 else occurrenceCount s placeholder

theorem strlen_replaced (placeholder repl s : CStr) :
    strlen (replaced placeholder repl s) + replacedCount placeholder s * strlen placeholder
      = strlen s + replacedCount placeholder s * strlen repl := by
  unfold replaced replacedCount
  split
  · simp
  · exact strlen_copyReplaced placeholder repl (strlen s + 1) s

/-- A size that is computed with a check: the mathematical one, or the exit. -/
def checkedSize (sizeMax n : Nat) : Except Exit Nat :=
  if n ≤ sizeMax then .ok n else .error (Exit.failure .replacementTooLarge)

theorem checkedMul_eq (sizeMax a b : Nat) : checkedMul sizeMax a b = checkedSize sizeMax (a * b) := by
  unfold checkedMul checkedSize
  have hdiv : a ≠ 0 ∧ b > sizeMax / a ↔ ¬ a * b ≤ sizeMax := by
    constructor
    · rintro ⟨ha, hb⟩
      have hlarge := (Nat.div_lt_iff_lt_mul (Nat.pos_of_ne_zero ha)).mp hb
      rw [Nat.mul_comm] at hlarge
      omega
    · intro hlarge
      have ha : a ≠ 0 := by
        rintro rfl
        simp at hlarge
      refine ⟨ha, (Nat.div_lt_iff_lt_mul (Nat.pos_of_ne_zero ha)).mpr ?_⟩
      rw [Nat.mul_comm]
      omega
  by_cases h : a * b ≤ sizeMax
  · rw [if_pos h, if_neg (fun hlarge => hdiv.mp hlarge h)]
  · rw [if_neg h, if_pos (hdiv.mpr h)]

/-- The second summand is a size. -/
theorem checkedAdd_eq {sizeMax a b : Nat} (hb : b ≤ sizeMax) :
    checkedAdd sizeMax a b = checkedSize sizeMax (a + b) := by
  unfold checkedAdd checkedSize
  by_cases h : a + b ≤ sizeMax
  · rw [if_pos h, if_neg (by omega)]
  · rw [if_neg h, if_pos (by omega)]

/-- The checks let through exactly the sizes that a `size_t` holds, and compute them. -/
theorem strReplaceNewLen_eq {sizeMax : Nat} {s : CStr} (placeholder repl : CStr)
    (hs : strlen s ≤ sizeMax) :
    strReplaceNewLen sizeMax s placeholder repl
      = checkedSize sizeMax (strlen (copyReplaced placeholder repl (strlen s + 1) s)) := by
  have hlength : strlen (copyReplaced placeholder repl (strlen s + 1) s)
      + occurrenceCount s placeholder * strlen placeholder
        = strlen s + occurrenceCount s placeholder * strlen repl :=
    strlen_copyReplaced placeholder repl (strlen s + 1) s
  have hle : occurrenceCount s placeholder * strlen placeholder ≤ strlen s :=
    countOccurrences_mul_le placeholder (strlen s + 1) s
  -- From here on, only these three sizes matter.
  unfold strReplaceNewLen
  simp only [checkedMul_eq]
  generalize strlen (copyReplaced placeholder repl (strlen s + 1) s) = newLen at hlength ⊢
  generalize occurrenceCount s placeholder * strlen placeholder = removed at hlength hle ⊢
  generalize occurrenceCount s placeholder * strlen repl = added at hlength ⊢
  have hremoved : checkedSize sizeMax removed = .ok removed := if_pos (by omega)
  -- The removed bytes are bytes of `s`, so the subtraction does not wrap.
  have hkept : (strlen s + (sizeMax + 1) - removed) % (sizeMax + 1) = strlen s - removed := by
    rw [show strlen s + (sizeMax + 1) - removed = strlen s - removed + (sizeMax + 1) by omega,
      Nat.add_mod_right, Nat.mod_eq_of_lt (by omega)]
  by_cases hadded : added ≤ sizeMax
  · have hok : checkedSize sizeMax added = .ok added := if_pos hadded
    simp only [hremoved, hok, bind, Except.bind, hkept]
    rw [checkedAdd_eq hadded, show strlen s - removed + added = newLen by omega]
  · have herror : checkedSize sizeMax added = .error (Exit.failure .replacementTooLarge) :=
      if_neg hadded
    simp only [hremoved, herror, bind, Except.bind]
    exact (if_neg (by omega)).symm

/-- The size that is passed to `calloc`: the NUL is added without a check. -/
theorem strReplaceAlloc_eq (sizeMax : Nat) (s placeholder repl : CStr) :
    strReplaceAlloc sizeMax s placeholder repl
      = (strReplaceNewLen sizeMax s placeholder repl).map fun newLen => (newLen + 1) % (sizeMax + 1) := by
  simp only [strReplaceAlloc, strReplaceNewLen, bind, Except.bind]
  cases checkedMul sizeMax (occurrenceCount s placeholder) (strlen placeholder) with
  | error e => rfl
  | ok removed =>
      cases checkedMul sizeMax (occurrenceCount s placeholder) (strlen repl) with
      | error e => rfl
      | ok added =>
          simp only
          cases checkedAdd sizeMax ((strlen s + (sizeMax + 1) - removed) % (sizeMax + 1)) added with
          | error e => rfl
          | ok newLen => rfl

/-- `str_replace` returns the replaced string, or exits because no memory can hold it. -/
theorem strReplace_cases (placeholder repl s : CStr) (hs : strlen s ≤ SIZE_MAX) :
    strReplace s (some placeholder) (some repl) = .ok (replaced placeholder repl s) ∨
      (strReplace s (some placeholder) (some repl) = .error (Exit.failure .replacementTooLarge) ∧
        SIZE_MAX < strlen (replaced placeholder repl s)) := by
  unfold strReplace replaced
  by_cases hempty : strlen placeholder = 0
  · simp only [hempty, if_true]
    exact Or.inl trivial
  · simp only [hempty, if_false, Option.getD_some]
    rw [strReplaceAlloc_eq, strReplaceNewLen_eq placeholder repl hs, checkedSize]
    by_cases hfits : strlen (copyReplaced placeholder repl (strlen s + 1) s) ≤ SIZE_MAX
    · rw [if_pos hfits]
      exact Or.inl rfl
    · rw [if_neg hfits]
      exact Or.inr ⟨rfl, Nat.not_le.mp hfits⟩

/-! ### The fixed arguments with the placeholder replaced -/

/-- The argv that `arg` calls for. The command word stays as it is. -/
def CommandSettings.replacedArgv (c : CommandSettings) (arg : CStr) : List CStr :=
  match c.fixedArgs.args with
  | [] => []
  | commandWord :: args =>
      commandWord :: args.map fun fixed => replaced (c.argPlaceholder.getD []) arg fixed

/-- The number of copies of a token in it. -/
def CommandSettings.copies (c : CommandSettings) : Nat :=
  (c.fixedArgs.args.tail.map fun fixed => replacedCount (c.argPlaceholder.getD []) fixed).sum

/-- The command of `arg` is within the limit. -/
def CommandSettings.FitsReplaced (c : CommandSettings) (arg : CStr) : Prop :=
  c.envLength + totalLength (c.replacedArgv arg) ≤ c.maxLength

/-- The length of some arguments with the placeholder replaced. -/
theorem totalLength_replaced (placeholder arg : CStr) (args : List CStr) :
    totalLength (args.map fun fixed => replaced placeholder arg fixed)
        + (args.map fun fixed => replacedCount placeholder fixed).sum * strlen placeholder
      = totalLength args
        + (args.map fun fixed => replacedCount placeholder fixed).sum * strlen arg := by
  induction args with
  | nil => simp
  | cons fixed args ih =>
      have hone := strlen_replaced placeholder arg fixed
      simp only [List.map_cons, totalLength_cons, List.sum_cons, Nat.add_mul]
      omega

/-- **The length of the command of a token.** Each copy of the token takes the place of a
placeholder. -/
theorem replacedArgv_length (c : CommandSettings) (arg : CStr) :
    totalLength (c.replacedArgv arg) + c.copies * strlen (c.argPlaceholder.getD [])
      = totalLength c.fixedArgs.args + c.copies * strlen arg := by
  unfold CommandSettings.replacedArgv CommandSettings.copies
  cases c.fixedArgs.args with
  | nil => simp
  | cons commandWord args =>
      have hargs := totalLength_replaced (c.argPlaceholder.getD []) arg args
      simp only [totalLength_cons, List.tail_cons]
      omega

/-- The limit in terms of the fixed arguments. -/
theorem fitsReplaced_iff (c : CommandSettings) (arg : CStr) :
    c.FitsReplaced arg ↔
      c.envLength + totalLength c.fixedArgs.args + c.copies * strlen arg
        ≤ c.maxLength + c.copies * strlen (c.argPlaceholder.getD []) := by
  have hlength := replacedArgv_length c arg
  unfold CommandSettings.FitsReplaced
  omega

/-- The loop of `command_replace_args`: the arguments are replaced in order, or one of them
would be larger than memory. -/
theorem addReplacedArguments_cases (placeholder arg : CStr) :
    ∀ (args : List CStr) (a : CommandArgs),
      (∀ fixed ∈ args, strlen fixed ≤ SIZE_MAX) →
      a.args.length + args.length ≤ SIZE_MAX / 2 →
      (∃ b, addReplacedArguments (some placeholder) arg a args = .ok b ∧
        b.args = a.args ++ args.map fun fixed => replaced placeholder arg fixed) ∨
      (addReplacedArguments (some placeholder) arg a args
          = .error (Exit.failure .replacementTooLarge) ∧
        SIZE_MAX < totalLength (args.map fun fixed => replaced placeholder arg fixed)) := by
  intro args
  induction args with
  | nil =>
      intro a _ _
      exact Or.inl ⟨a, rfl, (List.append_nil _).symm⟩
  | cons fixed args ih =>
      intro a hlen hroom
      rw [List.length_cons] at hroom
      rw [addReplacedArguments, List.map_cons, totalLength_cons]
      obtain hone | ⟨hone, hlarge⟩ := strReplace_cases placeholder arg fixed
        (hlen fixed List.mem_cons_self)
      · rw [hone]
        obtain ⟨b, hadd⟩ := commandArgsAdd_ok (replaced placeholder arg fixed)
          (show a.args.length ≤ SIZE_MAX / 2 by omega)
        have hb := commandArgsAdd_args hadd
        have hroom' : b.args.length + args.length ≤ SIZE_MAX / 2 := by
          rw [hb, List.length_append, List.length_singleton]
          omega
        simp only [hadd]
        obtain ⟨b', hrest, hb'⟩ | ⟨hrest, hlarge⟩ :=
          ih b (fun f hf => hlen f (List.mem_cons_of_mem _ hf)) hroom'
        · refine Or.inl ⟨b', hrest, ?_⟩
          rw [hb', hb, List.append_assoc, List.singleton_append]
        · exact Or.inr ⟨hrest, by omega⟩
      · rw [hone]
        exact Or.inr ⟨rfl, by omega⟩

/-! ### One token -/

/-- The settings of a command of the replacer mode. -/
structure CommandSettings.Replacing (c : CommandSettings) : Prop where
  placeholder : c.argPlaceholder.isSome
  maxLength : c.maxLength ≤ LONG_MAX

/-- `cmd` has these settings, and no argument has been replaced yet. -/
structure Command.Unreplaced (cmd : Command) (c : CommandSettings) : Prop where
  settings : cmd.toCommandSettings = c
  inputArgs : cmd.inputArgs.args = []
  replacedFixedArgs : cmd.replacedFixedArgs.args = []

/-- `cmd` is the command of `arg`. -/
structure Command.Replaces (cmd : Command) (c : CommandSettings) (arg : CStr) : Prop where
  settings : cmd.toCommandSettings = c
  argv : buildExecArgs cmd = c.replacedArgv arg

/-- What planning the token `arg` can do in replacer mode. -/
inductive ReplacerMove (c : CommandSettings) (arg : CStr) : Planned → Prop
  /-- The template and one copy of the token are too long. -/
  | rejected : ¬ c.Fits [arg] → ReplacerMove c arg ([], .error Exit.commandTooLong)
  /-- The token replaces the placeholders. -/
  | replaced (full cmd' : Command) : c.Fits [arg] → full.Replaces c arg → cmd'.Unreplaced c →
      ReplacerMove c arg ([full], .ok cmd')
  /-- A replaced argument is larger than memory. -/
  | overflowed : c.Fits [arg] → ¬ c.FitsReplaced arg →
      ReplacerMove c arg ([], .error (Exit.failure .replacementTooLarge))

theorem Command.Unreplaced.increment {cmd : Command} {c : CommandSettings}
    (h : cmd.Unreplaced c) (n : Nat) : (commandIncrementLineCount cmd n).Unreplaced c :=
  ⟨h.settings, h.inputArgs, h.replacedFixedArgs⟩

/-- Recycling drops the replaced arguments. -/
theorem recycleCommand_unreplaced {cmd : Command} {c : CommandSettings}
    (hsettings : cmd.toCommandSettings = c) (hc : c.Replacing) :
    (recycleCommand cmd).Unreplaced c := by
  subst hsettings
  have hfresh : (recycleCommand cmd).replacedFixedArgs.args = [] := by
    simp [recycleCommand, hc.placeholder]
  exact ⟨rfl, recycleCommand_inputArgs cmd, hfresh⟩

/-- With a placeholder, the length check always applies. -/
theorem commandEnsureLengthNotExceeded_placeholder {cmd : Command} {c : CommandSettings}
    (h : cmd.Unreplaced c) (hc : c.Replacing) (arg : CStr) :
    commandEnsureLengthNotExceeded cmd arg =
      if c.Fits [arg] then .ok () else .error Exit.commandTooLong := by
  obtain ⟨rfl, hargs, -⟩ := h
  have hcheck : cmd.argPlaceholder.isSome = true ∨ commandArgsCount cmd.inputArgs = 0 :=
    Or.inl hc.placeholder
  have hlength := commandLength_add_gt_iff cmd arg
  rw [hargs, List.nil_append] at hlength
  unfold commandEnsureLengthNotExceeded
  rw [if_pos hcheck]
  simp only [hlength]
  by_cases hfits : cmd.Fits [arg] <;> simp [hfits]

/-- Each argument of a command that fits is smaller than memory, and there are not too many
of them for the list growth. -/
theorem CommandSettings.Replacing.room {c : CommandSettings} (hc : c.Replacing) {arg : CStr}
    (hfits : c.Fits [arg]) :
    (∀ fixed ∈ c.fixedArgs.args, strlen fixed ≤ SIZE_MAX) ∧
      c.fixedArgs.args.length ≤ SIZE_MAX / 2 := by
  have hhalf := LONG_MAX_eq
  have hmax := hc.maxLength
  have htotal : totalLength c.fixedArgs.args ≤ c.maxLength := by
    unfold CommandSettings.Fits CommandSettings.lengthWith at hfits
    omega
  constructor
  · intro fixed hfixed
    have hone := strlen_lt_totalLength hfixed
    omega
  · have hcount := length_le_totalLength c.fixedArgs.args
    omega

/-- **The step lemma.** Planning a token is one of the moves. -/
theorem replacerStep_move {c : CommandSettings} (hc : c.Replacing) {cmd : Command}
    (h : cmd.Unreplaced c) (arg : CStr) : ReplacerMove c arg (replacerStep cmd arg) := by
  rw [replacerStep, commandEnsureLengthNotExceeded_placeholder h hc]
  by_cases hfits : c.Fits [arg]
  · rw [if_pos hfits]
    obtain ⟨placeholder, hplaceholder⟩ := Option.isSome_iff_exists.mp hc.placeholder
    obtain ⟨hlen, hcount⟩ := hc.room hfits
    obtain ⟨rfl, hargs, hfresh⟩ := h
    have hargv : ∀ full : Command, full.toCommandSettings = cmd.toCommandSettings →
        full.inputArgs.args = [] → buildExecArgs full = full.replacedFixedArgs.args := by
      intro full hsettings hinput
      have hsome : full.argPlaceholder.isSome = true := by
        rw [hsettings]
        exact hc.placeholder
      rw [buildExecArgs, if_pos hsome, hinput, List.append_nil]
    unfold commandReplaceArgs
    cases hfixed : cmd.fixedArgs.args with
    | nil =>
        -- `command_create` leaves at least the command word, but nothing here needs that.
        refine .replaced cmd _ hfits ⟨rfl, ?_⟩ (recycleCommand_unreplaced rfl hc)
        rw [hargv cmd rfl hargs, hfresh, CommandSettings.replacedArgv, hfixed]
    | cons commandWord args =>
        obtain ⟨a, hadd⟩ := commandArgsAdd_ok (a := cmd.replacedFixedArgs) commandWord (by simp [hfresh])
        have ha := commandArgsAdd_args hadd
        rw [hfresh, List.nil_append] at ha
        rw [hfixed] at hlen hcount
        rw [List.length_cons] at hcount
        simp only [hadd, hplaceholder]
        have hcases := addReplacedArguments_cases placeholder arg args a
          (fun f hf => hlen f (List.mem_cons_of_mem _ hf))
          (by rw [ha, List.length_singleton]; omega)
        have hword : cmd.replacedArgv arg
            = commandWord :: args.map fun fixed => replaced placeholder arg fixed := by
          rw [CommandSettings.replacedArgv, hfixed, hplaceholder]
          rfl
        obtain ⟨b, hb, hbargs⟩ | ⟨hb, hlarge⟩ := hcases
        · rw [hb]
          refine .replaced { cmd with replacedFixedArgs := b } _ hfits ⟨rfl, ?_⟩
            (recycleCommand_unreplaced rfl hc)
          have hfull := hargv { cmd with replacedFixedArgs := b } rfl hargs
          rw [hfull, hword]
          exact hbargs.trans (by rw [ha, List.singleton_append])
        · rw [hb]
          refine .overflowed hfits ?_
          intro hfitsReplaced
          have hmax := hc.maxLength
          have hsize : LONG_MAX ≤ SIZE_MAX := by decide
          unfold CommandSettings.FitsReplaced at hfitsReplaced
          rw [hword, totalLength_cons] at hfitsReplaced
          omega
  · rw [if_neg hfits]
    exact .rejected hfits

/-! ### The loop and the plan -/

/-- The completed commands are the commands of the tokens that have been read, one for each,
and all of these passed the check. -/
structure Replaced (c : CommandSettings) (done : List Token) (out : List Command) : Prop where
  commands : List.Forall₂ (fun token cmd => cmd.Replaces c token.arg) done out
  checked : ∀ token ∈ done, c.Fits [token.arg]

/-- What an exit leaves: the last token either failed the check, or passed it and makes an
argument that is larger than memory. -/
structure ReplacedAtExit (c : CommandSettings) (done : List Token) (out : List Command)
    (e : Exit) : Prop where
  split : ∃ before token, done = before ++ [token] ∧ Replaced c before out ∧
    ((¬ c.Fits [token.arg] ∧ e = Exit.commandTooLong) ∨
      (c.Fits [token.arg] ∧ ¬ c.FitsReplaced token.arg ∧
        e = Exit.failure .replacementTooLarge))

theorem replaced_nil (c : CommandSettings) : Replaced c [] [] := ⟨.nil, fun _ h => nomatch h⟩

/-- The next token and its command. -/
theorem Replaced.snoc {c : CommandSettings} {done : List Token} {out : List Command}
    (h : Replaced c done out) {token : Token} {cmd : Command} (hfits : c.Fits [token.arg])
    (hcmd : cmd.Replaces c token.arg) : Replaced c (done ++ [token]) (out ++ [cmd]) where
  commands := List.rel_append h.commands (.cons hcmd .nil)
  checked := by
    intro t ht
    rcases List.mem_append.mp ht with ht | ht
    · exact h.checked t ht
    · rw [List.mem_singleton.mp ht]
      exact hfits

/-- The loop makes one command for each token, up to the first one that fails. -/
theorem replacerBatches_rule {c : CommandSettings} (hc : c.Replacing) {cmd : Command}
    (h : cmd.Unreplaced c) (tokens : List Token) :
    (∃ cmd', (batches replacerStep cmd tokens).result = .ok cmd' ∧
      (batches replacerStep cmd tokens).rest = [] ∧
      Replaced c tokens (batches replacerStep cmd tokens).commands) ∨
    (∃ e read, (batches replacerStep cmd tokens).result = .error e ∧
      tokens = read ++ (batches replacerStep cmd tokens).rest ∧
      ReplacedAtExit c read (batches replacerStep cmd tokens).commands e) := by
  have hrule := batches_rule replacerStep
    (fun done out cmd' => cmd'.Unreplaced c ∧ Replaced c done out)
    (fun done out e => ReplacedAtExit c done out e) ?_ ?_ tokens [] [] cmd
    ⟨h, replaced_nil c⟩
  · obtain ⟨cmd', hresult, hrest, -, hreplaced⟩ | ⟨e, read, hresult, hread, hexit⟩ := hrule
    · exact Or.inl ⟨cmd', hresult, hrest, hreplaced⟩
    · exact Or.inr ⟨e, read, hresult, hread, hexit⟩
  · intro done out cmd' token out' cmd'' hI hstep
    have hmove := replacerStep_move hc (hI.1.increment token.boundaries) token.arg
    rw [hstep] at hmove
    cases hmove with
    | replaced full _ hfits hfull hnext => exact ⟨hnext, hI.2.snoc hfits hfull⟩
  · intro done out cmd' token out' e hI hstep
    have hmove := replacerStep_move hc (hI.1.increment token.boundaries) token.arg
    rw [hstep] at hmove
    cases hmove with
    | rejected hfits =>
        rw [List.append_nil]
        exact ⟨done, token, rfl, hI.2, Or.inl ⟨hfits, rfl⟩⟩
    | overflowed hfits hlarge =>
        rw [List.append_nil]
        exact ⟨done, token, rfl, hI.2, Or.inr ⟨hfits, hlarge, rfl⟩⟩

/-- Every token that passes the check makes a command within the limit, up to the first
token that does not pass it. -/
def CommandSettings.ChecksReplaced (c : CommandSettings) (tokens : List Token) : Prop :=
  ∀ token ∈ tokens.takeWhile fun token => c.Fits [token.arg], c.FitsReplaced token.arg

/-- The size limit as a property of a plan. -/
structure PlanReplaces (c : CommandSettings) (tokens : List Token) (p : Plan) : Prop where
  commands : ∀ cmd ∈ p.commands, c.envLength + totalLength (buildExecArgs cmd) ≤ c.maxLength
  rejected : ∀ before token after, tokens = before ++ token :: after →
    ¬ c.FitsReplaced token.arg → p.rest.length ≤ after.length →
    p.exit = some Exit.commandTooLong ∧ p.rest = after ∧ p.commands.length = before.length

/-- The commands of some tokens are within the limit if and only if their tokens say so. -/
theorem Replaced.fits_iff {c : CommandSettings} {done : List Token} {out : List Command}
    (h : Replaced c done out) :
    (∀ cmd ∈ out, c.envLength + totalLength (buildExecArgs cmd) ≤ c.maxLength) ↔
      ∀ token ∈ done, c.FitsReplaced token.arg := by
  have hcommands := h.commands
  clear h
  induction hcommands with
  | nil => simp
  | cons hone _ ih =>
      rw [List.forall_mem_cons, List.forall_mem_cons, hone.argv]
      exact and_congr Iff.rfl ih

/-- A token that has been requested, and does not stand among the first ones, is the last one
that has been. -/
theorem requested_eq {before rest before' after : List Token} {token token' : Token}
    (h : before ++ token :: rest = before' ++ token' :: after)
    (hle : rest.length ≤ after.length) (hnot : token' ∉ before) :
    before' = before ∧ token' = token ∧ rest = after := by
  rcases List.append_eq_append_iff.mp h with ⟨l, rfl, hl⟩ | ⟨l, rfl, hl⟩
  · cases l with
    | nil =>
        obtain ⟨rfl, rfl⟩ := List.cons.inj hl
        exact ⟨List.append_nil _, rfl, rfl⟩
    | cons t l =>
        -- The token would stand behind the last one.
        have hlen : rest.length = (l ++ token' :: after).length :=
          congrArg List.length (List.cons.inj hl).2
        rw [List.length_append, List.length_cons] at hlen
        omega
  · cases l with
    | nil =>
        obtain ⟨rfl, rfl⟩ := List.cons.inj hl
        exact ⟨(List.append_nil _).symm, rfl, rfl⟩
    | cons t l =>
        obtain ⟨rfl, -⟩ := List.cons.inj hl
        exact absurd (List.mem_append_right _ List.mem_cons_self) hnot

/-- **The plan keeps the size limit exactly if the check on the template is enough.** -/
theorem replacerPlan_replaces_iff {c : CommandSettings} (hc : c.Replacing) {cmd : Command}
    (h : cmd.Unreplaced c) (stream : TokenStream) :
    PlanReplaces c stream.tokens (replacerPlan cmd stream) ↔
      c.ChecksReplaced stream.tokens := by
  unfold CommandSettings.ChecksReplaced
  obtain ⟨cmd', hresult, hrest, hreplaced⟩ |
    ⟨e, read, hresult, hread, before, token, rfl, hreplaced, hcases⟩ :=
      replacerBatches_rule hc h stream.tokens
  · -- Every token passed the check and has its command.
    have hplan : (replacerPlan cmd stream).commands = (batches replacerStep cmd stream.tokens).commands
        ∧ (replacerPlan cmd stream).exit ≠ some Exit.commandTooLong := by
      unfold replacerPlan endPlan
      rw [hresult]
      by_cases hclean : stream.endError = .none
      · simp [hclean]
      · simp [hclean, Exit.commandTooLong, Exit.failure]
    have hall : (stream.tokens.takeWhile fun token => c.Fits [token.arg]) = stream.tokens :=
      List.takeWhile_eq_self_iff.mpr fun token htoken => decide_eq_true (hreplaced.checked token htoken)
    rw [hall]
    constructor
    · intro hp
      exact hreplaced.fits_iff.mp (hplan.1 ▸ hp.commands)
    · intro hfits
      refine ⟨hplan.1 ▸ hreplaced.fits_iff.mpr hfits, ?_⟩
      intro before token after hsplit hlarge
      exact absurd (hfits token (by rw [hsplit]; simp)) hlarge
  · have hplan : replacerPlan cmd stream = ⟨(batches replacerStep cmd stream.tokens).commands,
        (batches replacerStep cmd stream.tokens).rest, some e⟩ := by
      unfold replacerPlan endPlan
      rw [hresult]
    have hbefore : ∀ t ∈ before, decide (c.Fits [t.arg]) = true :=
      fun t ht => decide_eq_true (hreplaced.checked t ht)
    rw [List.append_assoc, List.singleton_append] at hread
    generalize (batches replacerStep cmd stream.tokens).rest = rest at hread hplan
    rw [hplan]
    obtain ⟨hlong, rfl⟩ | ⟨hfits, hlarge, rfl⟩ := hcases
    · -- The last token failed the check, so those before it decide.
      have htake : (stream.tokens.takeWhile fun token => c.Fits [token.arg]) = before := by
        rw [hread, List.takeWhile_append_of_pos hbefore,
          List.takeWhile_cons_of_neg (by simpa using hlong), List.append_nil]
      rw [htake]
      constructor
      · exact fun hp => hreplaced.fits_iff.mp hp.commands
      · intro hfits
        refine ⟨hreplaced.fits_iff.mpr hfits, ?_⟩
        intro before' token' after hsplit hlarge hle
        have hlast := requested_eq (hread.symm.trans hsplit) hle
          (fun hmem => hlarge (hfits token' hmem))
        obtain ⟨rfl, -, rfl⟩ := hlast
        exact ⟨rfl, rfl, hreplaced.commands.length_eq.symm⟩
    · -- The last token passed the check, but nothing is as large as its command.
      have hmem : token ∈ stream.tokens.takeWhile fun token => c.Fits [token.arg] := by
        rw [hread, List.takeWhile_append_of_pos hbefore,
          List.takeWhile_cons_of_pos (by simpa using hfits)]
        simp
      constructor
      · intro hp
        have hexit := (hp.rejected before token rest hread hlarge (Nat.le_refl _)).1
        simp [Exit.commandTooLong, Exit.failure] at hexit
      · exact fun hall => absurd (hall token hmem) hlarge

/-! ### The runs -/

/-- The size limit as a property of a run under `-I`. A token whose command is too long, once
it has been requested, ends the run, and its command is not executed. A run that halts, or
whose `fork` fails, may end before it looks at the token. -/
structure ReplacementLimited (s : XargsMode) (stream : TokenStream)
    (run : EStateM.Result Exit XargsMode Nat) : Prop where
  commands : ∀ cmd ∈ (finalState run).forked,
    s.cmd.envLength + totalLength (buildExecArgs cmd) ≤ s.cmd.maxLength
  rejected : (finalState run).halted = false → exitOf run ≠ some Exit.forkFailed →
    ∀ before token after, stream.tokens = before ++ token :: after →
      s.cmd.envLength + totalLength (s.cmd.replacedArgv token.arg) > s.cmd.maxLength →
      (finalState run).toker.tokens.length ≤ after.length →
      exitOf run = some Exit.commandTooLong ∧ (finalState run).toker.tokens = after ∧
        (finalState run).forked.length = before.length

/-- A plan within the limit, read off a run that follows it. -/
theorem Follows.replacementLimited {s s' : XargsMode} {p : Plan} {exit : Option Exit}
    {stream : TokenStream} {run : EStateM.Result Exit XargsMode Nat}
    (hs' : s' = finalState run) (hexit : exit = exitOf run) (h : Follows s p exit s')
    (hs : s.Starts) (hp : PlanReplaces s.cmd.toCommandSettings stream.tokens p) :
    ReplacementLimited s stream run := by
  subst hs' hexit
  constructor
  · exact fun cmd hcmd => hp.commands cmd ((h.forked_isPrefix hs).subset hcmd)
  · intro hrunning hfork before token after hsplit hlarge hle
    obtain ⟨hcommands, hplanned, hrest⟩ := h.completes hs hrunning hfork
    rw [hcommands, hplanned, hrest]
    exact hp.rejected before token after hsplit (Nat.not_le.mpr hlarge) (hrest ▸ hle)

/-- **The size limit under `-I`.** `copies` counts the occurrences of the placeholder in the
fixed arguments. If every token that passes the check on the template makes a command within
the limit, up to the first token that fails the check, then every run keeps the limit. In
every other case no run keeps it, unless it halts or fails to fork. -/
theorem replacerModeRun_sizeLimited_iff {sys : System} {scanned : List Getopt} {optind : Nat}
    {argv : List CStr} {stream : TokenStream} {opts : Options} {s : XargsMode}
    {placeholder : CStr} (hcreate : xargsCreate sys scanned optind argv stream = .ok (opts, s))
    (hmode : opts.argPlaceholder = some placeholder) (w : World) :
    let run := xargsRun w opts s
    let fixedLength := s.cmd.envLength + totalLength s.cmd.fixedArgs.args
    let condition :=
      ∀ arg ∈ stream.args.takeWhile fun arg => fixedLength + (strlen arg + 1) ≤ s.cmd.maxLength,
        fixedLength + s.cmd.copies * strlen arg
          ≤ s.cmd.maxLength + s.cmd.copies * strlen placeholder
    (condition → ReplacementLimited s stream run) ∧
    ((finalState run).halted = false → exitOf run ≠ some Exit.forkFailed →
      (ReplacementLimited s stream run ↔ condition)) := by
  intro run fixedLength condition
  obtain ⟨hvalid, hstarts, htoker, hcommand⟩ := xargsCreate_spec hcreate
  obtain ⟨hcreated, -⟩ := commandCreate_spec hcommand hvalid.length
  have hplaceholder : s.cmd.argPlaceholder = some placeholder := hcreated.argPlaceholder.trans hmode
  have hc : s.cmd.Replacing := ⟨by rw [hplaceholder]; rfl, hcreated.maxLength⟩
  have hcmd : s.cmd.Unreplaced s.cmd.toCommandSettings :=
    ⟨rfl, hcreated.inputArgs, hcreated.replacedFixedArgs⟩
  have hfollows : Follows s (replacerPlan s.cmd stream) (exitOf run) (finalState run) := by
    have h := xargsRun_follows w opts hstarts
    rw [planOf, hmode, htoker] at h
    exact h
  have hplan := replacerPlan_replaces_iff hc hcmd stream
  have hcondition : condition ↔ s.cmd.ChecksReplaced stream.tokens := by
    have hcheck : (fun token : Token => decide (s.cmd.Fits [token.arg]))
        = (fun arg => decide (fixedLength + (strlen arg + 1) ≤ s.cmd.maxLength)) ∘ Token.arg := by
      funext token
      simp [CommandSettings.Fits, CommandSettings.lengthWith, fixedLength]
    show (∀ arg ∈ (stream.tokens.map Token.arg).takeWhile _, _) ↔ ∀ token ∈ _, _
    rw [hcheck, List.takeWhile_map, List.forall_mem_map]
    apply forall₂_congr
    intro token _
    rw [fitsReplaced_iff, hplaceholder]
    rfl
  have henough : condition → ReplacementLimited s stream run := by
    intro hcond
    exact hfollows.replacementLimited rfl rfl hstarts (hplan.mpr (hcondition.mp hcond))
  refine ⟨henough, fun hrunning hfork => ⟨?_, henough⟩⟩
  -- Without a halt and a failed `fork`, the run is its plan.
  intro hlimited
  obtain ⟨hforked, hexit, hrest⟩ := hfollows.completes hstarts hrunning hfork
  rw [hcondition, ← hplan]
  constructor
  · rw [← hforked]
    exact hlimited.commands
  · intro before token after hsplit hlarge hle
    rw [← hexit, ← hrest, ← hforked]
    exact hlimited.rejected hrunning hfork before token after hsplit (Nat.not_le.mp hlarge)
      (hrest.symm ▸ hle)

/-- `printf 'abc\n' | phxargs -I % -s 15 e x%` keeps the limit. -/
theorem replacerModeRun_sizeLimited_single :
    ∃ opts s, xargsCreate System.bare [.optI [37], .opts [49, 53]] 4
        [[120], [45, 73], [37], [45, 115, 49, 53], [101], [120, 37]] (.ofLines [[97, 98, 99]])
          = .ok (opts, s) ∧
      ReplacementLimited s (.ofLines [[97, 98, 99]]) (xargsRun World.quiet opts s) := by
  obtain ⟨opts, s, hcreate, hmode, hcondition⟩ : ∃ opts s,
      xargsCreate System.bare [.optI [37], .opts [49, 53]] 4
        [[120], [45, 73], [37], [45, 115, 49, 53], [101], [120, 37]] (.ofLines [[97, 98, 99]])
          = .ok (opts, s) ∧
      opts.argPlaceholder = some [37] ∧
      ∀ arg ∈ (TokenStream.ofLines [[97, 98, 99]]).args.takeWhile fun arg =>
          s.cmd.envLength + totalLength s.cmd.fixedArgs.args + (strlen arg + 1) ≤ s.cmd.maxLength,
        s.cmd.envLength + totalLength s.cmd.fixedArgs.args + s.cmd.copies * strlen arg
          ≤ s.cmd.maxLength + s.cmd.copies * strlen [37] := by
    exact ⟨_, _, rfl, rfl, by decide +kernel⟩
  exact ⟨opts, s, hcreate, (replacerModeRun_sizeLimited_iff hcreate hmode World.quiet).1 hcondition⟩

/-- `printf 'aaaaaaaa\n' | phxargs -I % -s 15 e %%%`: the check computes 15 bytes, and a
command of 27 bytes is executed. -/
theorem threeCopies_executed :
    ∃ opts s, xargsCreate System.bare [.optI [37], .opts [49, 53]] 4
        [[120], [45, 73], [37], [45, 115, 49, 53], [101], [37, 37, 37]]
        (.ofLines [List.replicate 8 97]) = .ok (opts, s) ∧
      s.cmd.maxLength = 15 ∧ exitOf (xargsRun World.quiet opts s) = none ∧
      ((finalState (xargsRun World.quiet opts s)).forked.map fun cmd =>
        s.cmd.envLength + totalLength (buildExecArgs cmd)) = [27] ∧
      ¬ ReplacementLimited s (.ofLines [List.replicate 8 97]) (xargsRun World.quiet opts s) := by
  obtain ⟨opts, s, hcreate, hmax, hexit, hlengths⟩ : ∃ opts s,
      xargsCreate System.bare [.optI [37], .opts [49, 53]] 4
        [[120], [45, 73], [37], [45, 115, 49, 53], [101], [37, 37, 37]]
        (.ofLines [List.replicate 8 97]) = .ok (opts, s) ∧
      s.cmd.maxLength = 15 ∧ exitOf (xargsRun World.quiet opts s) = none ∧
      ((finalState (xargsRun World.quiet opts s)).forked.map fun cmd =>
        s.cmd.envLength + totalLength (buildExecArgs cmd)) = [27] := by
    exact ⟨_, _, rfl, rfl, by decide +kernel, by decide +kernel⟩
  refine ⟨opts, s, hcreate, hmax, hexit, hlengths, ?_⟩
  intro hlimited
  have hmem : 27 ∈ (finalState (xargsRun World.quiet opts s)).forked.map fun cmd =>
      s.cmd.envLength + totalLength (buildExecArgs cmd) := by
    rw [hlengths]
    exact List.mem_cons_self
  obtain ⟨cmd, hcmd, hlength⟩ := List.mem_map.mp hmem
  have hle := hlimited.commands cmd hcmd
  omega

end Phxargs
