import Phxargs.Model.Util

/-!
# `Phxargs.Model.Options`: the options

`options.c`. `getopt` turns the command line into the sequence of its answers. The scan
`parseOptions` consumes this sequence, and `configureOptions` applies the implications
between the options after it.

`Options.Valid` is what every accepted sequence guarantees. The setters keep the weaker
`Options.Scanned` through the scan; `optionsCreate_valid` adds the implications.
-/

set_option autoImplicit false

namespace Phxargs

/-- One answer of `getopt` over `":0a:d:E:I:L:n:opP:rs:tx"`: an option letter with its
`optarg`, or `:` or `?` with `optopt`. -/
inductive Getopt where
  | opt0
  | optA (optarg : CStr)
  | optD (optarg : CStr)
  | optE (optarg : CStr)
  | optI (optarg : CStr)
  | optL (optarg : CStr)
  | optn (optarg : CStr)
  | opto
  | optp
  | optP (optarg : CStr)
  | optr
  | opts (optarg : CStr)
  | optt
  | optx
  | missingArgument (optopt : Char)
  | unknown (optopt : Char)
  deriving DecidableEq, Repr

/-- `struct options_s`. -/
structure Options where
  optindVal : Nat
  useNulCharAsArgDelimiter : Bool
  argFilePath : Option CStr
  argDelimiter : UInt8
  logicalEndOfInputMarker : Option CStr
  argPlaceholder : Option CStr
  maxLinesPerCommand : Nat
  lineModeSpecified : Bool
  maxArgsPerCommand : Nat
  openTty : Bool
  prompt : Bool
  suppressExecutionOnEmptyInput : Bool
  maxCommandLength : Nat
  maxCommandLengthSpecified : Bool
  trace : Bool
  terminateOnTooLargeCommand : Bool
  maxProcs : Nat
  deriving DecidableEq, Repr

/-! ### Numbers -/

/-- `isspace` in the C locale. -/
def isSpace (b : UInt8) : Bool := b = 32 || (9 ≤ b && b ≤ 13)

def isDigit (b : UInt8) : Bool := 48 ≤ b && b ≤ 57

/-- What `strtol` leaves behind: the value, the rest of the string at `endptr`, and whether
`errno` is set. -/
structure Strtol where
  value : Int
  endptr : CStr
  erange : Bool

/-- The optional sign of a number: whether it is negative, and the rest. -/
def strtolSign : CStr → Bool × CStr
  | 45 :: rest => (true, rest)
  | 43 :: rest => (false, rest)
  | unsigned => (false, unsigned)

/-- A value outside `long` is clamped and sets `errno`. -/
def strtolClamp (value : Int) (endptr : CStr) : Strtol :=
  if value > LONG_MAX then
    ⟨LONG_MAX, endptr, true⟩
  else if value < -(LONG_MAX : Int) - 1 then
    ⟨-(LONG_MAX : Int) - 1, endptr, true⟩
  else
    ⟨value, endptr, false⟩

/-- `strtol(arg, &endptr, 10)`. Without digits `endptr` is `arg`. -/
def strtol (arg : CStr) : Strtol :=
  let (negative, unsigned) := strtolSign (arg.dropWhile isSpace)
  let digits := unsigned.takeWhile isDigit
  -- A sign alone is no number.
  if digits = [] then
    ⟨0, arg, false⟩
  else
    let magnitude : Int := digits.foldl (fun acc d => 10 * acc + (d.toNat - 48 : Nat)) 0
    strtolClamp (if negative then -magnitude else magnitude) (unsigned.dropWhile isDigit)

/-- `parse_number_arg_with_min`. -/
def parseNumberArgWithMin (opt : Char) (arg : CStr) (minVal : Int) : Except Exit Int :=
  let parsed := strtol arg
  -- No digits, a value outside `long`, or bytes behind the number.
  if arg = parsed.endptr ∨ parsed.erange ∨ parsed.endptr ≠ [] then
    .error (Exit.failure (.invalidNumber opt arg))
  else if parsed.value < minVal then
    .error (Exit.failure (.numberTooSmall opt arg))
  else
    .ok parsed.value

/-- `parse_number_arg`. -/
def parseNumberArg (opt : Char) (arg : CStr) : Except Exit Nat := do
  let parsed ← parseNumberArgWithMin opt arg 1
  return parsed.toNat

/-! ### The setters -/

def disableNulCharAsArgDelimiter (o : Options) : Options :=
  { o with useNulCharAsArgDelimiter := false }

def resetArgDelimiter (o : Options) : Options := { o with argDelimiter := 0 }

def enableNulCharAsArgDelimiter (o : Options) : Options :=
  resetArgDelimiter { o with useNulCharAsArgDelimiter := true }

def setArgDelimiter (o : Options) (ch : UInt8) : Options :=
  disableNulCharAsArgDelimiter { o with argDelimiter := ch }

def setArgFilePath (o : Options) (path : CStr) : Options :=
  { o with argFilePath := some path }

def setLogicalEndOfInputMarker (o : Options) (marker : CStr) : Options :=
  { o with logicalEndOfInputMarker := some marker }

def resetLogicalEndOfInputMarker (o : Options) : Options :=
  { o with logicalEndOfInputMarker := none }

def resetArgPlaceholder (o : Options) : Options := { o with argPlaceholder := none }

def resetMaxLinesPerCommand (o : Options) : Options :=
  { o with maxLinesPerCommand := 0, lineModeSpecified := false }

def resetMaxArgsPerCommand (o : Options) : Options := { o with maxArgsPerCommand := 0 }

def setMaxLinesPerCommand (o : Options) (opt : Char) (newVal : CStr) :
    Except Exit Options := do
  let lines ← parseNumberArg opt newVal
  return resetMaxArgsPerCommand
    (resetArgPlaceholder { o with maxLinesPerCommand := lines, lineModeSpecified := true })

def setMaxArgsPerCommand (o : Options) (opt : Char) (newVal : CStr) :
    Except Exit Options := do
  let args ← parseNumberArg opt newVal
  return resetMaxLinesPerCommand (resetArgPlaceholder { o with maxArgsPerCommand := args })

def setMaxCommandLength (o : Options) (opt : Char) (newVal : CStr) :
    Except Exit Options := do
  let chars ← parseNumberArg opt newVal
  return { o with maxCommandLength := chars, maxCommandLengthSpecified := true }

/-- `set_max_procs`. `childMax` is `sysconf(_SC_CHILD_MAX)`. -/
def setMaxProcs (childMax : Int) (o : Options) (opt : Char) (newVal : CStr) :
    Except Exit Options := do
  let parsed ← parseNumberArgWithMin opt newVal 0
  if parsed > 0 ∧ childMax > 0 ∧ parsed > childMax then
    .error (Exit.failure (.maxProcsTooLarge parsed childMax))
  else
    return { o with maxProcs := parsed.toNat }

def setArgPlaceholder (o : Options) (placeholder : CStr) : Options :=
  resetMaxArgsPerCommand
    (resetMaxLinesPerCommand { o with argPlaceholder := some placeholder })

def setOpenTty (o : Options) : Options := { o with openTty := true }

def enableTrace (o : Options) : Options := { o with trace := true }

def enablePrompt (o : Options) : Options := enableTrace { o with prompt := true }

def enableSuppressExecutionOnEmptyInput (o : Options) : Options :=
  { o with suppressExecutionOnEmptyInput := true }

def enableTerminateOnTooLargeCommand (o : Options) : Options :=
  { o with terminateOnTooLargeCommand := true }

/-! ### The scan and the implications -/

/-- `init_options`. -/
def initOptions : Options where
  optindVal := 0
  useNulCharAsArgDelimiter := false
  argFilePath := none
  argDelimiter := 0
  logicalEndOfInputMarker := none
  argPlaceholder := none
  maxLinesPerCommand := 0
  lineModeSpecified := false
  maxArgsPerCommand := 0
  openTty := false
  prompt := false
  suppressExecutionOnEmptyInput := false
  maxCommandLength := 0
  maxCommandLengthSpecified := false
  trace := false
  terminateOnTooLargeCommand := false
  maxProcs := 1

/-- One round of the `switch` of `parse_options`. -/
def parseOption (childMax : Int) (o : Options) : Getopt → Except Exit Options
  | .opt0 => .ok (enableNulCharAsArgDelimiter o)
  | .optA optarg => .ok (setArgFilePath o optarg)
  | .optD optarg =>
      match optarg with
      -- `-d` takes one byte.
      | [ch] => .ok (setArgDelimiter o ch)
      | _ => .error (Exit.failure .invalidDelimiter)
  | .optE optarg => .ok (setLogicalEndOfInputMarker o optarg)
  | .optI optarg => .ok (setArgPlaceholder o optarg)
  | .optL optarg => setMaxLinesPerCommand o 'L' optarg
  | .optn optarg => setMaxArgsPerCommand o 'n' optarg
  | .opto => .ok (setOpenTty o)
  | .optp => .ok (enablePrompt o)
  | .optP optarg => setMaxProcs childMax o 'P' optarg
  | .optr => .ok (enableSuppressExecutionOnEmptyInput o)
  | .opts optarg => setMaxCommandLength o 's' optarg
  | .optt => .ok (enableTrace o)
  | .optx => .ok (enableTerminateOnTooLargeCommand o)
  | .missingArgument optopt => .error (Exit.failure (.needsArgument optopt))
  | .unknown optopt => .error (Exit.failure (.unknownOption optopt))

/-- `parse_options`. -/
def parseOptions (childMax : Int) : Options → List Getopt → Except Exit Options
  | o, [] => .ok o
  | o, g :: gs =>
      match parseOption childMax o g with
      | .ok o' => parseOptions childMax o' gs
      | .error e => .error e

/-- The implications that `configure_options` applies after the scan: `-L` implies `-x`.
`-I` implies `-x` and `-L 1`, drops `-E`, and makes newline the delimiter if no other is in
force. -/
def applyImplications (o : Options) : Options :=
  let o := if o.lineModeSpecified then enableTerminateOnTooLargeCommand o else o
  if o.argPlaceholder.isSome then
    let o := resetLogicalEndOfInputMarker (enableTerminateOnTooLargeCommand o)
    -- Not `set_max_lines_per_command`: `lineModeSpecified` stays `false`, and `-I` in force.
    let o := { o with maxLinesPerCommand := 1 }
    if !o.useNulCharAsArgDelimiter && o.argDelimiter = 0 then setArgDelimiter o 10 else o
  else
    o

/-- `configure_options`. -/
def configureOptions (childMax : Int) (o : Options) (scanned : List Getopt) (optind : Nat) :
    Except Exit Options := do
  let o ← parseOptions childMax o scanned
  let o := applyImplications o
  -- `-P 0`, without a limit, passes.
  if o.prompt ∧ o.maxProcs > 1 then
    .error (Exit.failure .promptWithParallel)
  else
    return { o with optindVal := optind }

/-- `options_create`. `scanned` are the answers of `getopt` before `-1`, and `optind` is its
index after them. -/
def optionsCreate (childMax : Int) (scanned : List Getopt) (optind : Nat) :
    Except Exit Options :=
  configureOptions childMax initOptions scanned optind

/-! ### What acceptance guarantees -/

/-- The batching fields after any part of the scan: at most one of `-I`, `-L` and `-n` is in
force, and the counts of `-L` and `-n` are positive `long`s. -/
structure Options.Scanned (o : Options) : Prop where
  line : o.lineModeSpecified = true →
    o.argPlaceholder = none ∧ o.maxArgsPerCommand = 0 ∧ 0 < o.maxLinesPerCommand
  placeholder : o.argPlaceholder.isSome → o.maxArgsPerCommand = 0
  args : o.maxArgsPerCommand ≤ LONG_MAX
  length : o.maxCommandLength ≤ LONG_MAX

/-- The batching fields of an accepted option sequence. -/
structure Options.Valid (o : Options) : Prop extends Options.Scanned o where
  lineTerminates : o.lineModeSpecified = true → o.terminateOnTooLargeCommand = true
  placeholderTerminates : o.argPlaceholder.isSome → o.terminateOnTooLargeCommand = true

theorem Options.scanned_init : initOptions.Scanned := by
  constructor <;> decide

theorem strtolClamp_le (value : Int) (endptr : CStr) :
    (strtolClamp value endptr).value ≤ LONG_MAX := by
  unfold strtolClamp
  split
  · exact Int.le_refl _
  · split
    · show -(LONG_MAX : Int) - 1 ≤ LONG_MAX
      decide
    · exact Int.not_lt.mp ‹_›

/-- `strtol` returns a `long`. -/
theorem strtol_le (arg : CStr) : (strtol arg).value ≤ LONG_MAX := by
  unfold strtol
  dsimp only
  split
  · show (0 : Int) ≤ LONG_MAX
    decide
  · exact strtolClamp_le _ _

/-- An accepted number lies between its minimum and the largest `long`. -/
theorem parseNumberArgWithMin_bounds {opt : Char} {arg : CStr} {minVal v : Int}
    (h : parseNumberArgWithMin opt arg minVal = .ok v) : minVal ≤ v ∧ v ≤ LONG_MAX := by
  unfold parseNumberArgWithMin at h
  dsimp only at h
  split at h
  · cases h
  · split at h
    · cases h
    · cases h
      exact ⟨Int.not_lt.mp ‹_›, strtol_le arg⟩

theorem parseNumberArg_bounds {opt : Char} {arg : CStr} {n : Nat}
    (h : parseNumberArg opt arg = .ok n) : 0 < n ∧ n ≤ LONG_MAX := by
  unfold parseNumberArg at h
  cases hp : parseNumberArgWithMin opt arg 1 with
  | error e => rw [hp] at h; cases h
  | ok v =>
      rw [hp] at h
      cases h
      have := parseNumberArgWithMin_bounds hp
      constructor <;> omega

/-- The fields that decide about the batches and the processes are the same. -/
structure Options.SameBatching (o o' : Options) : Prop where
  argPlaceholder : o'.argPlaceholder = o.argPlaceholder
  maxLines : o'.maxLinesPerCommand = o.maxLinesPerCommand
  lineMode : o'.lineModeSpecified = o.lineModeSpecified
  maxArgs : o'.maxArgsPerCommand = o.maxArgsPerCommand
  maxLength : o'.maxCommandLength = o.maxCommandLength
  maxProcs : o'.maxProcs = o.maxProcs

/-- What an accepted option does to these fields. `-I`, `-L` and `-n` reset each other. -/
inductive ParsedOption (childMax : Int) (o : Options) : Options → Prop
  | placeholder (optarg : CStr) : ParsedOption childMax o (setArgPlaceholder o optarg)
  | lines (n : Nat) : 0 < n → ParsedOption childMax o (resetMaxArgsPerCommand
      (resetArgPlaceholder { o with maxLinesPerCommand := n, lineModeSpecified := true }))
  | args (n : Nat) : n ≤ LONG_MAX → ParsedOption childMax o (resetMaxLinesPerCommand
      (resetArgPlaceholder { o with maxArgsPerCommand := n }))
  | length (n : Nat) : n ≤ LONG_MAX → ParsedOption childMax o
      { o with maxCommandLength := n, maxCommandLengthSpecified := true }
  | procs (n : Nat) : (childMax > 0 → (n : Int) ≤ childMax) → ParsedOption childMax o
      { o with maxProcs := n }
  | other {o' : Options} : o.SameBatching o' → ParsedOption childMax o o'

/-- Every option is one of these. -/
theorem parseOption_cases {childMax : Int} {o o' : Options} {g : Getopt}
    (h : parseOption childMax o g = .ok o') : ParsedOption childMax o o' := by
  cases g with
  | opt0 => cases h; exact .other ⟨rfl, rfl, rfl, rfl, rfl, rfl⟩
  | optA path => cases h; exact .other ⟨rfl, rfl, rfl, rfl, rfl, rfl⟩
  | optD optarg =>
      match optarg, h with
      | [ch], h => cases h; exact .other ⟨rfl, rfl, rfl, rfl, rfl, rfl⟩
  | optE marker => cases h; exact .other ⟨rfl, rfl, rfl, rfl, rfl, rfl⟩
  | optI optarg => cases h; exact .placeholder optarg
  | optL optarg =>
      simp only [parseOption, setMaxLinesPerCommand] at h
      cases hn : parseNumberArg 'L' optarg with
      | error e => rw [hn] at h; cases h
      | ok n => rw [hn] at h; cases h; exact .lines n (parseNumberArg_bounds hn).1
  | optn optarg =>
      simp only [parseOption, setMaxArgsPerCommand] at h
      cases hn : parseNumberArg 'n' optarg with
      | error e => rw [hn] at h; cases h
      | ok n => rw [hn] at h; cases h; exact .args n (parseNumberArg_bounds hn).2
  | opto => cases h; exact .other ⟨rfl, rfl, rfl, rfl, rfl, rfl⟩
  | optp => cases h; exact .other ⟨rfl, rfl, rfl, rfl, rfl, rfl⟩
  | optP optarg =>
      simp only [parseOption, setMaxProcs] at h
      cases hn : parseNumberArgWithMin 'P' optarg 0 with
      | error e => rw [hn] at h; cases h
      | ok n =>
          rw [hn] at h
          simp only [Except.bind, bind] at h
          split at h
          · cases h
          · -- A limit that is not refused is 0, or the system allows it.
            rename_i hallowed
            cases h
            exact .procs n.toNat fun hpos => by omega
  | optr => cases h; exact .other ⟨rfl, rfl, rfl, rfl, rfl, rfl⟩
  | opts optarg =>
      simp only [parseOption, setMaxCommandLength] at h
      cases hn : parseNumberArg 's' optarg with
      | error e => rw [hn] at h; cases h
      | ok n => rw [hn] at h; cases h; exact .length n (parseNumberArg_bounds hn).2
  | optt => cases h; exact .other ⟨rfl, rfl, rfl, rfl, rfl, rfl⟩
  | optx => cases h; exact .other ⟨rfl, rfl, rfl, rfl, rfl, rfl⟩
  | missingArgument c => cases h
  | unknown c => cases h

/-- The invariant rule of the scan. -/
theorem parseOptions_invariant {childMax : Int} {I : Options → Prop}
    (hstep : ∀ {o o' : Options}, ParsedOption childMax o o' → I o → I o') :
    ∀ (gs : List Getopt) {o o' : Options}, parseOptions childMax o gs = .ok o' → I o → I o' := by
  intro gs
  induction gs with
  | nil => intro o o' h hI; cases h; exact hI
  | cons g gs ih =>
      intro o o' h hI
      rw [parseOptions] at h
      cases hg : parseOption childMax o g with
      | error e => rw [hg] at h; cases h
      | ok o'' =>
          rw [hg] at h
          exact ih h (hstep (parseOption_cases hg) hI)

/-- Each option keeps `Scanned`: `-I`, `-L` and `-n` reset each other, and the other options
leave the batching fields alone. -/
theorem Options.Scanned.step {childMax : Int} {o o' : Options} (h : ParsedOption childMax o o')
    (hs : o.Scanned) : o'.Scanned := by
  obtain ⟨hline, hplace, hargs, hlen⟩ := hs
  cases h with
  | placeholder optarg =>
      exact ⟨fun hl => (Bool.false_ne_true hl).elim, fun _ => rfl, Nat.zero_le _, hlen⟩
  | lines n hpos =>
      exact ⟨fun _ => ⟨rfl, rfl, hpos⟩, (fun hp => nomatch hp), Nat.zero_le _, hlen⟩
  | args n hle =>
      exact ⟨fun hl => (Bool.false_ne_true hl).elim, (fun hp => nomatch hp), hle, hlen⟩
  | length n hle => exact ⟨hline, hplace, hargs, hle⟩
  | procs n hle => exact ⟨hline, hplace, hargs, hlen⟩
  | other hsame =>
      obtain ⟨hplaceholder, hlines, hmode, hmaxArgs, hlength, -⟩ := hsame
      constructor
      · rw [hmode, hplaceholder, hmaxArgs, hlines]
        exact hline
      · rw [hplaceholder, hmaxArgs]
        exact hplace
      · rw [hmaxArgs]
        exact hargs
      · rw [hlength]
        exact hlen

/-- Without `-I` in force, the implications only add the `-x` of `-L`. -/
theorem applyImplications_of_none {o : Options} (h : o.argPlaceholder = none) :
    applyImplications o = { o with
      terminateOnTooLargeCommand := o.lineModeSpecified || o.terminateOnTooLargeCommand } := by
  obtain ⟨⟩ := o
  obtain rfl : _ = none := h
  simp only [applyImplications, enableTerminateOnTooLargeCommand]
  split <;> simp_all

/-- With `-I` in force, they add its `-x` and its `-L 1`, drop the marker, and make newline the
delimiter if there is no other. -/
theorem applyImplications_of_some {o : Options} (h : o.argPlaceholder ≠ none) :
    applyImplications o = { o with
      terminateOnTooLargeCommand := true
      logicalEndOfInputMarker := none
      maxLinesPerCommand := 1
      argDelimiter :=
        if o.useNulCharAsArgDelimiter = false ∧ o.argDelimiter = 0 then 10 else o.argDelimiter } := by
  have hsome : o.argPlaceholder.isSome = true := Option.isSome_iff_ne_none.mpr h
  cases hline : o.lineModeSpecified <;> cases hnul : o.useNulCharAsArgDelimiter <;>
    by_cases hdelim : o.argDelimiter = 0 <;>
    simp [applyImplications, setArgDelimiter, disableNulCharAsArgDelimiter,
      resetLogicalEndOfInputMarker, enableTerminateOnTooLargeCommand, hline, hnul, hdelim, hsome]

/-- The implications turn `Scanned` into `Valid`. -/
theorem applyImplications_valid {o : Options} (hs : o.Scanned) :
    (applyImplications o).Valid := by
  obtain ⟨hline, hplace, hargs, hlen⟩ := hs
  by_cases hp : o.argPlaceholder = none
  · rw [applyImplications_of_none hp]
    refine ⟨⟨hline, hplace, hargs, hlen⟩, fun hl => ?_, fun hsome => ?_⟩
    · show (o.lineModeSpecified || o.terminateOnTooLargeCommand) = true
      rw [show o.lineModeSpecified = true from hl, Bool.true_or]
    · exact absurd hp (Option.isSome_iff_ne_none.mp hsome)
  · -- `-I` resets `-L` and `-n`.
    have hsome : o.argPlaceholder.isSome = true := Option.isSome_iff_ne_none.mpr hp
    have hnl : o.lineModeSpecified = true → False := fun hl => hp (hline hl).1
    rw [applyImplications_of_some hp]
    exact ⟨⟨fun hl => (hnl hl).elim, fun _ => hplace hsome, hargs, hlen⟩, fun _ => rfl, fun _ => rfl⟩

/-- What `options_create` returns: the options of the scan with the implications, which `-p` and
`-P` have not excluded. -/
theorem optionsCreate_cases {childMax : Int} {scanned : List Getopt} {optind : Nat}
    {o : Options} (h : optionsCreate childMax scanned optind = .ok o) :
    ∃ o', parseOptions childMax initOptions scanned = .ok o' ∧
      ¬ ((applyImplications o').prompt ∧ (applyImplications o').maxProcs > 1) ∧
      o = { applyImplications o' with optindVal := optind } := by
  unfold optionsCreate configureOptions at h
  cases hp : parseOptions childMax initOptions scanned with
  | error e => rw [hp] at h; cases h
  | ok o' =>
      rw [hp] at h
      simp only [bind, Except.bind] at h
      split at h
      · cases h
      · rename_i hexclusive
        cases h
        exact ⟨o', rfl, hexclusive, rfl⟩

/-- Every accepted option sequence gives valid options. -/
theorem optionsCreate_valid {childMax : Int} {scanned : List Getopt} {optind : Nat}
    {o : Options} (h : optionsCreate childMax scanned optind = .ok o) : o.Valid := by
  obtain ⟨o', hp, -, rfl⟩ := optionsCreate_cases h
  have hv := applyImplications_valid
    (parseOptions_invariant Options.Scanned.step scanned hp Options.scanned_init)
  exact ⟨⟨hv.line, hv.placeholder, hv.args, hv.length⟩, hv.lineTerminates,
    hv.placeholderTerminates⟩

end Phxargs
