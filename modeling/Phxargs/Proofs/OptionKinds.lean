import Phxargs.Lib.Commute
import Phxargs.Proofs.Parallelism
import Phxargs.Proofs.Programs

/-!
# `Phxargs.Proofs.OptionKinds`: the order of the options on a command line

An option is accepted or refused by itself, whatever comes before it, and it writes the fields of
its kind: `-I`, `-L` and `-n` those of the mode, `-0` and `-d` those of the delimiter, and every
other option fields of its own (`parseOption_writes`). So options of different kinds commute. The
exclusion of `-p` and `-P`, and what a mode implies, come after the scan.

Therefore a command line may list its options in any order, spread them over elements and join them
in one, as long as the order within each kind stays: the program does the same
(`phxargsMain_optionOrder`). Only which of several errors is reported may differ.
-/

set_option autoImplicit false

namespace Phxargs

open Lib

/-! ### The kinds -/

/-- What an option is about. -/
inductive OptionKind where
  | mode
  | delimiter
  | marker
  | argFile
  | tty
  | prompt
  | procs
  | emptyInput
  | length
  | trace
  | terminate
  /-- An error of the command line. -/
  | error
  deriving DecidableEq, Repr

def Getopt.kind : Getopt → OptionKind
  | .optI _ | .optL _ | .optn _ => .mode
  | .opt0 | .optD _ => .delimiter
  | .optE _ => .marker
  | .optA _ => .argFile
  | .opto => .tty
  | .optp => .prompt
  | .optP _ => .procs
  | .optr => .emptyInput
  | .opts _ => .length
  | .optt => .trace
  | .optx => .terminate
  | .missingArgument _ | .unknown _ => .error

/-- The changes that the options of a kind can make. -/
inductive OptionKind.Writes : OptionKind → (Options → Options) → Prop
  | mode (placeholder : Option CStr) (lines : Nat) (line : Bool) (args : Nat) :
      Writes .mode fun o => { o with argPlaceholder := placeholder
                                     maxLinesPerCommand := lines
                                     lineModeSpecified := line
                                     maxArgsPerCommand := args }
  | delimiter (nul : Bool) (d : UInt8) :
      Writes .delimiter fun o => { o with useNulCharAsArgDelimiter := nul, argDelimiter := d }
  | marker (m : Option CStr) : Writes .marker fun o => { o with logicalEndOfInputMarker := m }
  | argFile (path : Option CStr) : Writes .argFile fun o => { o with argFilePath := path }
  | tty : Writes .tty fun o => { o with openTty := true }
  -- `-p` implies `-t`, which is no conflict: both set the same flag.
  | prompt : Writes .prompt fun o => { o with prompt := true, trace := true }
  | procs (n : Nat) : Writes .procs fun o => { o with maxProcs := n }
  | emptyInput : Writes .emptyInput fun o => { o with suppressExecutionOnEmptyInput := true }
  | length (n : Nat) :
      Writes .length fun o => { o with maxCommandLength := n, maxCommandLengthSpecified := true }
  | trace : Writes .trace fun o => { o with trace := true }
  | terminate : Writes .terminate fun o => { o with terminateOnTooLargeCommand := true }

/-- Changes of different kinds commute. -/
theorem OptionKind.Writes.commute {k k' : OptionKind} {φ ψ : Options → Options} (h : k.Writes φ)
    (h' : k'.Writes ψ) (hne : k ≠ k') (o : Options) : φ (ψ o) = ψ (φ o) := by
  cases h <;> cases h' <;> first | rfl | exact absurd rfl hne

/-- An accepted option makes a change of its kind, and it is accepted everywhere. -/
theorem parseOption_writes {childMax : Int} {o o' : Options} {g : Getopt}
    (h : parseOption childMax o g = .ok o') :
    ∃ φ, g.kind.Writes φ ∧ ∀ o, parseOption childMax o g = .ok (φ o) := by
  cases g with
  | opt0 => exact ⟨_, .delimiter true 0, fun _ => rfl⟩
  | optA path => exact ⟨_, .argFile (some path), fun _ => rfl⟩
  | optD optarg =>
      match optarg, h with
      | [ch], _ => exact ⟨_, .delimiter false ch, fun _ => rfl⟩
  | optE marker => exact ⟨_, .marker (some marker), fun _ => rfl⟩
  | optI placeholder => exact ⟨_, .mode (some placeholder) 0 false 0, fun _ => rfl⟩
  | optL optarg =>
      rw [parseOption, setMaxLinesPerCommand_eq, map_eq_ok] at h
      obtain ⟨lines, hlines, -⟩ := h
      refine ⟨_, .mode none lines true 0, fun o => ?_⟩
      rw [parseOption, setMaxLinesPerCommand_eq, hlines]
      rfl
  | optn optarg =>
      rw [parseOption, setMaxArgsPerCommand_eq, map_eq_ok] at h
      obtain ⟨args, hargs, -⟩ := h
      refine ⟨_, .mode none 0 false args, fun o => ?_⟩
      rw [parseOption, setMaxArgsPerCommand_eq, hargs]
      rfl
  | opto => exact ⟨_, .tty, fun _ => rfl⟩
  | optp => exact ⟨_, .prompt, fun _ => rfl⟩
  | optP optarg =>
      rw [parseOption, setMaxProcs_eq childMax o initOptions, map_eq_ok] at h
      obtain ⟨procs, hprocs, -⟩ := h
      refine ⟨_, .procs procs.maxProcs, fun o => ?_⟩
      rw [parseOption, setMaxProcs_eq childMax o initOptions, hprocs]
      rfl
  | optr => exact ⟨_, .emptyInput, fun _ => rfl⟩
  | opts optarg =>
      rw [parseOption, setMaxCommandLength_eq, map_eq_ok] at h
      obtain ⟨chars, hchars, -⟩ := h
      refine ⟨_, .length chars, fun o => ?_⟩
      rw [parseOption, setMaxCommandLength_eq, hchars]
      rfl
  | optt => exact ⟨_, .trace, fun _ => rfl⟩
  | optx => exact ⟨_, .terminate, fun _ => rfl⟩
  | missingArgument c => cases h
  | unknown c => cases h

/-- Options of different kinds commute. -/
theorem parseOption_commuting (childMax : Int) : Commuting (parseOption childMax) Getopt.kind where
  swap := by
    intro o o' o'' a b hkind ha hb
    obtain ⟨φ, hφ, hfirst⟩ := parseOption_writes ha
    obtain ⟨ψ, hψ, hsecond⟩ := parseOption_writes hb
    refine ⟨ψ o, hsecond o, ?_⟩
    rw [hfirst o] at ha
    rw [hfirst, hφ.commute hψ hkind, Except.ok.inj ha, ← hsecond, hb]

/-- Options in another order are accepted alike, up to the index of the first operand. -/
theorem optionsCreate_sameByKind {childMax : Int} {gs gs' : List Getopt} {optind : Nat} {o : Options}
    (hsame : SameByKind Getopt.kind gs gs') (h : optionsCreate childMax gs optind = .ok o)
    (optind' : Nat) : optionsCreate childMax gs' optind' = .ok { o with optindVal := optind' } := by
  obtain ⟨o', hscan, hexclusive, rfl⟩ := optionsCreate_cases h
  rw [parseOptions_eq_foldlM, (parseOption_commuting childMax).foldlM_iff gs hsame,
    ← parseOptions_eq_foldlM] at hscan
  unfold optionsCreate configureOptions
  simp only [hscan, bind, Except.bind, pure, Except.pure]
  rw [if_neg hexclusive]

/-! ### The program -/

/-- Command lines with the same operands, and with the same options in another order. -/
structure SameCommandLine (p p' : OptParse phxargsOptString) : Prop where
  options : SameByKind Getopt.kind (p.answers.map Getopt.ofAnswer) (p'.answers.map Getopt.ofAnswer)
  operands : p.operands? = p'.operands?

theorem SameCommandLine.symm {p p' : OptParse phxargsOptString} (h : SameCommandLine p p') :
    SameCommandLine p' p := ⟨fun k => (h.options k).symm, h.operands.symm⟩

/-- The options are accepted alike. -/
theorem SameCommandLine.accepts {p p' : OptParse phxargsOptString} (h : SameCommandLine p p')
    {childMax : Int} (name name' : CStr) {opts : Options}
    (hopts : optionsCreateFrom childMax (name :: p.text) = .ok opts) :
    optionsCreateFrom childMax (name' :: p'.text)
      = .ok { opts with optindVal := (getoptAnswers (name' :: p'.text)).2 } := by
  unfold optionsCreateFrom at hopts ⊢
  rw [(getoptAnswers_parse p name).1] at hopts
  rw [(getoptAnswers_parse p' name').1]
  exact optionsCreate_sameByKind h.options hopts _

/-- The first operand is where `optind` says. -/
theorem optionsCreateFrom_optind {childMax : Int} {argv : List CStr} {opts : Options}
    (h : optionsCreateFrom childMax argv = .ok opts) : opts.optindVal = (getoptAnswers argv).2 := by
  obtain ⟨o, -, -, rfl⟩ := optionsCreate_cases h
  rfl

/-- Where the options are accepted, both command lines give the same mode. -/
theorem SameCommandLine.creates {p p' : OptParse phxargsOptString} (h : SameCommandLine p p')
    (m : Machine) (name name' : CStr) {opts : Options}
    (hopts : optionsCreateFrom m.sys.childMax (name :: p.text) = .ok opts) :
    xargsCreateFrom m (name' :: p'.text) = (xargsCreateFrom m (name :: p.text)).map fun created =>
      ({ created.1 with optindVal := (getoptAnswers (name' :: p'.text)).2 }, created.2) := by
  have hopts' := h.accepts name name' hopts
  have hoptind := optionsCreateFrom_optind hopts
  cases hoperands : p.operands? with
  | none =>
      -- An error of the command line is not accepted.
      obtain ⟨before, bad, e, -, herror, -⟩ := optionsCreateFrom_error m.sys.childMax name hoperands
      rw [hopts] at herror
      cases herror
  | some operands =>
      obtain ⟨read, htext, hread⟩ := (getoptAnswers_parse p name).2 operands hoperands
      obtain ⟨read', htext', hread'⟩ :=
        (getoptAnswers_parse p' name').2 operands (h.operands ▸ hoperands)
      unfold xargsCreateFrom
      simp only [hopts', hopts]
      cases argSourceOpen m opts.argFilePath with
      | error ended => rfl
      | ok source =>
          -- Both commands are made of the same operands.
          have hcreated : commandCreate m.sys
              { opts with optindVal := (getoptAnswers (name' :: p'.text)).2 }
              (getoptAnswers (name' :: p'.text)).2 (name' :: p'.text)
              = commandCreate m.sys opts opts.optindVal (name :: p.text) := by
            have hcommand : ∀ (o : Options) (read : List CStr), commandCreate m.sys o read.length
                (read ++ operands) = commandCreate m.sys o.batching 0 operands := by
              intro o read
              rw [commandCreate_operands m.sys o (by simp), List.drop_left]
            rw [hoptind, hread, hread', htext, htext', hcommand, hcommand]
            rfl
          have hcmd : commandCreateFrom m
              { opts with optindVal := (getoptAnswers (name' :: p'.text)).2 } (name' :: p'.text)
              = commandCreateFrom m opts (name :: p.text) := by
            rw [commandCreateFrom, commandCreateFrom, hcreated]
            rfl
          rw [hcmd]
          simp only [xargsModeCreate, hcreated]
          cases commandCreateFrom m opts (name :: p.text) with
          | error e => rfl
          | ok cmd =>
              dsimp only
              cases commandCreate m.sys opts opts.optindVal (name :: p.text) with
              | error e => rfl
              | ok cmd => rfl

/-- Where the options are accepted, both command lines are the same program. -/
theorem SameCommandLine.main_eq {p p' : OptParse phxargsOptString} (h : SameCommandLine p p')
    {m : Machine} (w : World) (name name' : CStr) {opts : Options}
    (hopts : optionsCreateFrom m.sys.childMax (name :: p.text) = .ok opts) :
    phxargsMain m w (name :: p.text) = phxargsMain m w (name' :: p'.text) := by
  unfold phxargsMain
  rw [h.creates m name name' hopts]
  cases xargsCreateFrom m (name :: p.text) with
  | error ended => rfl
  | ok created => rfl

/-- Refused options end the program before it forks. -/
theorem phxargsMain_of_refused {m : Machine} {w : World} {argv : List CStr} {e : Exit}
    (h : optionsCreateFrom m.sys.childMax argv = .error e) :
    (phxargsMain m w argv).status = EXIT_FAILURE ∧ (phxargsMain m w argv).os = Os.init := by
  have hcreate : xargsCreateFrom m argv = .error (.refused e) := by rw [xargsCreateFrom, h]
  have hmain : phxargsMain m w argv = .refused e := by rw [phxargsMain, hcreate]
  rw [hmain]
  exact ⟨(xargsCreateFrom_refused hcreate).status, rfl⟩

/-- **The order of the options.** Two command lines have the same operands, and within each kind the
same options in the same order. Then the program forks the same, and ends with the same status. If
the options are accepted, it also reports the same. -/
theorem phxargsMain_optionOrder {p p' : OptParse phxargsOptString} (h : SameCommandLine p p')
    (m : Machine) (w : World) (name name' : CStr) :
    (phxargsMain m w (name :: p.text)).status = (phxargsMain m w (name' :: p'.text)).status ∧
      (phxargsMain m w (name :: p.text)).os = (phxargsMain m w (name' :: p'.text)).os ∧
      ∀ opts, optionsCreateFrom m.sys.childMax (name :: p.text) = .ok opts →
        phxargsMain m w (name :: p.text) = phxargsMain m w (name' :: p'.text) := by
  refine ⟨?_, ?_, fun opts hopts => h.main_eq w name name' hopts⟩
  all_goals
    cases hopts : optionsCreateFrom m.sys.childMax (name :: p.text) with
    | ok opts => rw [h.main_eq w name name' hopts]
    | error e =>
        cases hopts' : optionsCreateFrom m.sys.childMax (name' :: p'.text) with
        | ok opts' => rw [h.symm.main_eq w name' name hopts']
        | error e' =>
            have hrefused := phxargsMain_of_refused (w := w) hopts
            have hrefused' := phxargsMain_of_refused (w := w) hopts'
            first
              | rw [hrefused.1, hrefused'.1]
              | rw [hrefused.2, hrefused'.2]

/-- `-n 1 -r c` -/
def optionsApart : OptParse phxargsOptString :=
  ⟨[.detached [] (List.forall_mem_nil _) (byte 'n') (by decide) [49],
      .cluster (byte 'r') [] (by simp [OptString.Flags]; decide)],
    .plain [[99]] (by simp [OptString.Marked])⟩

/-- `-rn1 c` -/
def optionsJoined : OptParse phxargsOptString :=
  ⟨[.attached [byte 'r'] (by simp [OptString.Flags]; decide) (byte 'n') (by decide) [49] (by decide)],
    .plain [[99]] (by simp [OptString.Marked])⟩

/-- `phxargs -n 1 -r c` is `phxargs -rn1 c`. -/
theorem phxargsMain_optionOrder_joined :
    phxargsMain (.ofLines [[97], [98]]) World.quiet ([120] :: optionsApart.text)
      = phxargsMain (.ofLines [[97], [98]]) World.quiet ([120] :: optionsJoined.text) := by
  have hsame : SameCommandLine optionsApart optionsJoined := by
    refine ⟨?_, rfl⟩
    intro k
    cases k <;> decide
  exact (phxargsMain_optionOrder hsame (.ofLines [[97], [98]]) World.quiet [120] [120]).2.2 _ rfl

end Phxargs
