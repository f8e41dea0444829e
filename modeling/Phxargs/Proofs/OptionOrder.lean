import Phxargs.Lib.Override
import Phxargs.Model.Options

/-!
# `Phxargs.Proofs.OptionOrder`: the last mode option wins

`-I`, `-L` and `-n` choose the mode, and `-0` and `-d` the delimiter. In each of the two classes
an option overwrites all that the earlier ones of its class have set, and no other option touches
it. The implications of a mode are drawn after the scan, from what is in force then, so an
overridden option implies nothing.
-/

set_option autoImplicit false

namespace Phxargs

open Lib

/-- The options that choose the mode. -/
def Getopt.choosesMode : Getopt → Bool
  | .optI _ | .optL _ | .optn _ => true
  | _ => false

/-- The options that choose the delimiter. -/
def Getopt.choosesDelimiter : Getopt → Bool
  | .opt0 | .optD _ => true
  | _ => false

/-- The option that sets the marker. -/
def Getopt.setsMarker : Getopt → Bool
  | .optE _ => true
  | _ => false

/-- The scan is a fold. -/
theorem parseOptions_eq_foldlM (childMax : Int) :
    ∀ (gs : List Getopt) (o : Options),
      parseOptions childMax o gs = gs.foldlM (parseOption childMax) o := by
  intro gs
  induction gs with
  | nil => intro o; rfl
  | cons g gs ih =>
      intro o
      rw [parseOptions, List.foldlM_cons]
      cases parseOption childMax o g with
      | error e => rfl
      | ok o' => exact ih o'

/-! ### The options with a number -/

theorem setMaxLinesPerCommand_eq (o : Options) (opt : Char) (newVal : CStr) :
    setMaxLinesPerCommand o opt newVal = (parseNumberArg opt newVal).map fun lines =>
      resetMaxArgsPerCommand
        (resetArgPlaceholder { o with maxLinesPerCommand := lines, lineModeSpecified := true }) := by
  unfold setMaxLinesPerCommand
  cases parseNumberArg opt newVal <;> rfl

theorem setMaxArgsPerCommand_eq (o : Options) (opt : Char) (newVal : CStr) :
    setMaxArgsPerCommand o opt newVal = (parseNumberArg opt newVal).map fun args =>
      resetMaxLinesPerCommand (resetArgPlaceholder { o with maxArgsPerCommand := args }) := by
  unfold setMaxArgsPerCommand
  cases parseNumberArg opt newVal <;> rfl

theorem setMaxCommandLength_eq (o : Options) (opt : Char) (newVal : CStr) :
    setMaxCommandLength o opt newVal = (parseNumberArg opt newVal).map fun chars =>
      { o with maxCommandLength := chars, maxCommandLengthSpecified := true } := by
  unfold setMaxCommandLength
  cases parseNumberArg opt newVal <;> rfl

/-- `-P` only sets its own field, and whether it is accepted does not depend on the options. -/
theorem setMaxProcs_eq (childMax : Int) (o o₀ : Options) (opt : Char) (newVal : CStr) :
    setMaxProcs childMax o opt newVal = (setMaxProcs childMax o₀ opt newVal).map fun procs =>
      { o with maxProcs := procs.maxProcs } := by
  unfold setMaxProcs
  cases parseNumberArgWithMin opt newVal 0 with
  | error e => rfl
  | ok parsed =>
      simp only [bind, Except.bind]
      split <;> rfl

/-! ### Options that leave something alone -/

section Frame

variable (φ : Options → Options) {childMax : Int} {o : Options} {opt : Char} {newVal : CStr}

theorem setMaxLinesPerCommand_frame
    (h : ∀ (o : Options) (lines : Nat), resetMaxArgsPerCommand (resetArgPlaceholder
        { φ o with maxLinesPerCommand := lines, lineModeSpecified := true })
      = φ (resetMaxArgsPerCommand (resetArgPlaceholder
        { o with maxLinesPerCommand := lines, lineModeSpecified := true }))) :
    setMaxLinesPerCommand (φ o) opt newVal = (setMaxLinesPerCommand o opt newVal).map φ := by
  rw [setMaxLinesPerCommand_eq, setMaxLinesPerCommand_eq]
  cases parseNumberArg opt newVal with
  | error e => rfl
  | ok lines => exact congrArg Except.ok (h o lines)

theorem setMaxArgsPerCommand_frame
    (h : ∀ (o : Options) (args : Nat), resetMaxLinesPerCommand (resetArgPlaceholder
        { φ o with maxArgsPerCommand := args })
      = φ (resetMaxLinesPerCommand (resetArgPlaceholder { o with maxArgsPerCommand := args }))) :
    setMaxArgsPerCommand (φ o) opt newVal = (setMaxArgsPerCommand o opt newVal).map φ := by
  rw [setMaxArgsPerCommand_eq, setMaxArgsPerCommand_eq]
  cases parseNumberArg opt newVal with
  | error e => rfl
  | ok args => exact congrArg Except.ok (h o args)

theorem setMaxCommandLength_frame
    (h : ∀ (o : Options) (chars : Nat),
      { φ o with maxCommandLength := chars, maxCommandLengthSpecified := true }
        = φ { o with maxCommandLength := chars, maxCommandLengthSpecified := true }) :
    setMaxCommandLength (φ o) opt newVal = (setMaxCommandLength o opt newVal).map φ := by
  rw [setMaxCommandLength_eq, setMaxCommandLength_eq]
  cases parseNumberArg opt newVal with
  | error e => rfl
  | ok chars => exact congrArg Except.ok (h o chars)

theorem setMaxProcs_frame
    (h : ∀ (o : Options) (procs : Nat), { φ o with maxProcs := procs }
      = φ { o with maxProcs := procs }) :
    setMaxProcs childMax (φ o) opt newVal = (setMaxProcs childMax o opt newVal).map φ := by
  rw [setMaxProcs_eq childMax o initOptions, setMaxProcs_eq childMax (φ o) initOptions]
  cases setMaxProcs childMax initOptions opt newVal with
  | error e => rfl
  | ok procs => exact congrArg Except.ok (h o procs.maxProcs)

end Frame

/-! ### The classes -/

/-- The mode is forgotten. -/
def Options.eraseMode (o : Options) : Options :=
  { o with argPlaceholder := none
           maxLinesPerCommand := 0
           lineModeSpecified := false
           maxArgsPerCommand := 0 }

/-- The delimiter is forgotten. -/
def Options.eraseDelimiter (o : Options) : Options :=
  { o with useNulCharAsArgDelimiter := false, argDelimiter := 0 }

/-- `-I`, `-L` and `-n` override each other. -/
theorem mode_overrides (childMax : Int) :
    Overrides (parseOption childMax) (·.choosesMode) Options.eraseMode := by
  constructor
  · intro o g hg
    cases g <;> cases hg <;> rfl
  · intro o o' g hg h
    cases g with
    | optI optarg => cases h; rfl
    | optL optarg =>
        rw [parseOption, setMaxLinesPerCommand_eq, map_eq_ok] at h
        obtain ⟨lines, -, rfl⟩ := h
        rfl
    | optn optarg =>
        rw [parseOption, setMaxArgsPerCommand_eq, map_eq_ok] at h
        obtain ⟨args, -, rfl⟩ := h
        rfl
    | _ => cases hg
  · intro o g hg
    cases g with
    | optI optarg => exact absurd rfl hg
    | optL optarg => exact absurd rfl hg
    | optn optarg => exact absurd rfl hg
    | optD optarg =>
        simp only [parseOption]
        split <;> rfl
    | optP optarg => exact setMaxProcs_frame Options.eraseMode fun _ _ => rfl
    | opts optarg => exact setMaxCommandLength_frame Options.eraseMode fun _ _ => rfl
    | _ => rfl

/-- `-0` and `-d` override each other. -/
theorem delimiter_overrides (childMax : Int) :
    Overrides (parseOption childMax) (·.choosesDelimiter) Options.eraseDelimiter := by
  constructor
  · intro o g hg
    cases g <;> cases hg <;> rfl
  · intro o o' g hg h
    cases g with
    | opt0 => cases h; rfl
    | optD optarg =>
        match optarg, h with
        | [ch], h => cases h; rfl
    | _ => cases hg
  · intro o g hg
    cases g with
    | opt0 => exact absurd rfl hg
    | optD optarg => exact absurd rfl hg
    | optL optarg => exact setMaxLinesPerCommand_frame Options.eraseDelimiter fun _ _ => rfl
    | optn optarg => exact setMaxArgsPerCommand_frame Options.eraseDelimiter fun _ _ => rfl
    | optP optarg => exact setMaxProcs_frame Options.eraseDelimiter fun _ _ => rfl
    | opts optarg => exact setMaxCommandLength_frame Options.eraseDelimiter fun _ _ => rfl
    | _ => rfl

/-- The marker is replaced. -/
def Options.withMarker (marker : Option CStr) (o : Options) : Options :=
  { o with logicalEndOfInputMarker := marker }

/-- `-E` overrides itself, whatever marker is in front of it. -/
theorem marker_overrides (childMax : Int) (marker : Option CStr) :
    Overrides (parseOption childMax) (·.setsMarker) (Options.withMarker marker) := by
  constructor
  · intro o g hg
    cases g <;> cases hg
    rfl
  · intro o o' g hg h
    cases g with
    | optE optarg => cases h; rfl
    | _ => cases hg
  · intro o g hg
    cases g with
    | optE optarg => exact absurd rfl hg
    | optD optarg =>
        simp only [parseOption]
        split <;> rfl
    | optL optarg => exact setMaxLinesPerCommand_frame (Options.withMarker marker) fun _ _ => rfl
    | optn optarg => exact setMaxArgsPerCommand_frame (Options.withMarker marker) fun _ _ => rfl
    | optP optarg => exact setMaxProcs_frame (Options.withMarker marker) fun _ _ => rfl
    | opts optarg => exact setMaxCommandLength_frame (Options.withMarker marker) fun _ _ => rfl
    | _ => rfl

/-! ### What is given -/

/-- The fields that an implication can change, as the command line gives them. -/
structure Given where
  logicalEndOfInputMarker : Option CStr
  useNulCharAsArgDelimiter : Bool
  argDelimiter : UInt8
  terminateOnTooLargeCommand : Bool
  deriving DecidableEq

/-- One more option. Of `-E`, and of `-0` and `-d`, the last one counts. The options of the
mode give nothing. -/
def Given.add (given : Given) : Getopt → Given
  | .opt0 => { given with useNulCharAsArgDelimiter := true, argDelimiter := 0 }
  | .optD [ch] => { given with useNulCharAsArgDelimiter := false, argDelimiter := ch }
  | .optE marker => { given with logicalEndOfInputMarker := some marker }
  | .optx => { given with terminateOnTooLargeCommand := true }
  | _ => given

/-- What the options of a command line give. -/
def Given.of (scanned : List Getopt) : Given := scanned.foldl Given.add ⟨none, false, 0, false⟩

/-- What the options in force show of it. -/
def Options.given (o : Options) : Given :=
  ⟨o.logicalEndOfInputMarker, o.useNulCharAsArgDelimiter, o.argDelimiter,
    o.terminateOnTooLargeCommand⟩

theorem parseOption_given {childMax : Int} {o o' : Options} {g : Getopt}
    (h : parseOption childMax o g = .ok o') : o'.given = o.given.add g := by
  cases g with
  | optD optarg =>
      match optarg, h with
      | [ch], h => cases h; rfl
  | optL optarg =>
      rw [parseOption, setMaxLinesPerCommand_eq, map_eq_ok] at h
      obtain ⟨lines, -, rfl⟩ := h
      rfl
  | optn optarg =>
      rw [parseOption, setMaxArgsPerCommand_eq, map_eq_ok] at h
      obtain ⟨args, -, rfl⟩ := h
      rfl
  | optP optarg =>
      rw [parseOption, setMaxProcs_eq childMax o initOptions, map_eq_ok] at h
      obtain ⟨procs, -, rfl⟩ := h
      rfl
  | opts optarg =>
      rw [parseOption, setMaxCommandLength_eq, map_eq_ok] at h
      obtain ⟨chars, -, rfl⟩ := h
      rfl
  | missingArgument optopt => cases h
  | unknown optopt => cases h
  | _ => cases h; rfl

/-- The number of lines is a mark of the line mode. -/
theorem maxLines_of_not_line {childMax : Int} {o o' : Options} (h : ParsedOption childMax o o')
    (hlines : o.lineModeSpecified = false → o.maxLinesPerCommand = 0) :
    o'.lineModeSpecified = false → o'.maxLinesPerCommand = 0 := by
  cases h with
  | lines n hpos => intro hline; cases hline
  | other hsame => simpa only [hsame.lineMode, hsame.maxLines] using hlines
  | placeholder optarg => exact fun _ => rfl
  | args n hle => exact fun _ => rfl
  | length n hle => exact hlines
  | procs n hle => exact hlines

/-! ### The last mode wins -/

/-- At most one of `-I`, `-L` and `-n` is in force. -/
structure Options.OneMode (o : Options) : Prop where
  placeholder : o.argPlaceholder.isSome → o.lineModeSpecified = false ∧ o.maxArgsPerCommand = 0
  line : o.lineModeSpecified = true → o.argPlaceholder = none ∧ o.maxArgsPerCommand = 0
  args : o.maxArgsPerCommand ≠ 0 → o.argPlaceholder = none ∧ o.lineModeSpecified = false

/-- Nothing is implied but by the mode in force. -/
structure Options.NothingElseImplied (scanned : List Getopt) (o : Options) : Prop where
  marker : o.argPlaceholder = none →
    o.logicalEndOfInputMarker = (Given.of scanned).logicalEndOfInputMarker
  delimiter : o.argPlaceholder = none →
    o.useNulCharAsArgDelimiter = (Given.of scanned).useNulCharAsArgDelimiter ∧
      o.argDelimiter = (Given.of scanned).argDelimiter
  maxLines : o.argPlaceholder = none → o.lineModeSpecified = false → o.maxLinesPerCommand = 0
  terminate : o.argPlaceholder = none → o.lineModeSpecified = false →
    o.terminateOnTooLargeCommand = (Given.of scanned).terminateOnTooLargeCommand

theorem Options.Scanned.oneMode {o : Options} (h : o.Scanned) : o.OneMode := by
  obtain ⟨hline, hplaceholder, -, -⟩ := h
  constructor
  · intro hsome
    refine ⟨?_, hplaceholder hsome⟩
    cases hmode : o.lineModeSpecified with
    | false => rfl
    | true => simp [(hline hmode).1] at hsome
  · intro hmode
    exact ⟨(hline hmode).1, (hline hmode).2.1⟩
  · intro hargs
    constructor
    · by_contra hne
      exact hargs (hplaceholder (Option.isSome_iff_ne_none.mpr hne))
    · cases hmode : o.lineModeSpecified with
      | false => rfl
      | true => exact absurd (hline hmode).2.1 hargs

/-- No implication sets or resets `-I`. -/
theorem applyImplications_argPlaceholder (o : Options) :
    (applyImplications o).argPlaceholder = o.argPlaceholder := by
  by_cases h : o.argPlaceholder = none
  · rw [applyImplications_of_none h]
  · rw [applyImplications_of_some h]

/-- The implications of the mode in force are all that is not given. -/
theorem applyImplications_nothingElse {scanned : List Getopt} {o : Options} (optind : Nat)
    (hgiven : o.given = Given.of scanned)
    (hlines : o.lineModeSpecified = false → o.maxLinesPerCommand = 0) :
    Options.NothingElseImplied scanned { applyImplications o with optindVal := optind } := by
  have hnone : (applyImplications o).argPlaceholder = none → applyImplications o = { o with
      terminateOnTooLargeCommand := o.lineModeSpecified || o.terminateOnTooLargeCommand } := by
    intro hmode
    exact applyImplications_of_none ((applyImplications_argPlaceholder o).symm.trans hmode)
  constructor <;> intro hmode
  · rw [hnone hmode, ← hgiven]
    rfl
  · rw [hnone hmode, ← hgiven]
    exact ⟨rfl, rfl⟩
  · rw [hnone hmode]
    exact hlines
  · rw [hnone hmode, ← hgiven]
    intro hline
    have hline' : o.lineModeSpecified = false := hline
    simp [Options.given, hline']

/-- **The last mode option wins.** If a sequence of options is accepted, at most one of `-I`, `-L`
and `-n` is in force, and without those of them that a later one overrides, and without each `-0`
and `-d` that a later one overrides, it is accepted with the same options, up to the index of the
first operand. What is not given, and not implied by the mode in force, is not set. -/
theorem optionsCreate_lastMode {childMax : Int} {scanned : List Getopt} {optind : Nat}
    {o : Options} (h : optionsCreate childMax scanned optind = .ok o) (optind' : Nat) :
    o.OneMode ∧
      optionsCreate childMax
        (keepLast (·.choosesDelimiter) (keepLast (·.choosesMode) scanned)) optind'
          = .ok { o with optindVal := optind' } ∧
      o.NothingElseImplied scanned := by
  obtain ⟨o', hscan, hexclusive, rfl⟩ := optionsCreate_cases h
  have hvalid := optionsCreate_valid h
  refine ⟨hvalid.toScanned.oneMode, ?_, ?_⟩
  · rw [parseOptions_eq_foldlM] at hscan
    have hkept := (delimiter_overrides childMax).keepLast _
      ((mode_overrides childMax).keepLast scanned hscan)
    rw [optionsCreate, configureOptions, parseOptions_eq_foldlM, hkept]
    simp only [bind, Except.bind]
    rw [if_neg hexclusive]
    rfl
  · have hlines := parseOptions_invariant maxLines_of_not_line scanned hscan (fun _ => rfl)
    rw [parseOptions_eq_foldlM] at hscan
    have hgiven : o'.given = Given.of scanned :=
      foldlM_observe (f := parseOption childMax) parseOption_given scanned hscan
    exact applyImplications_nothingElse optind hgiven hlines

/-- `phxargs -I % -0 -L 3 -E x -n 2 -d ,` -/
theorem optionsCreate_lastMode_args :
    optionsCreate 100 [.optE [120], .optn [50], .optD [44]] 7
      = (optionsCreate 100
          [.optI [37], .opt0, .optL [51], .optE [120], .optn [50], .optD [44]] 7) := by
  have hok : optionsCreate 100 [.optI [37], .opt0, .optL [51], .optE [120], .optn [50], .optD [44]] 7
      = .ok { initOptions with
          optindVal := 7
          argDelimiter := 44
          logicalEndOfInputMarker := some [120]
          maxArgsPerCommand := 2 } := by
    decide
  exact ((optionsCreate_lastMode hok 7).2.1).trans hok.symm

end Phxargs
