import Phxargs.Model.Main
import Phxargs.Proofs.Command
import Phxargs.Proofs.OptionOrder
import Phxargs.Proofs.Refinement

/-!
# `Phxargs.Proofs.CommandLine`: what is read from the command line

Every command line has a parse in the grammar of `Phxargs.Lib.Getopt`, and phxargs reads the
options of this parse. What stands behind the options are the operands: they become the command
and its initial arguments as they are, whatever they look like (`optionsCreateFrom_accepts_grammar`).

In the other direction, every sequence of options with any operands is the parse of some command
line (`commandLine`). So a statement about every accepted sequence of answers is one about every
command line, and nothing less.
-/

set_option autoImplicit false

namespace Phxargs

open Lib

/-! ### What the creation establishes -/

theorem Machine.phxargsCalloc_ok {m : Machine} {count size : Nat} :
    m.phxargsCalloc count size = .ok () ↔ m.calloc count size = true := by
  unfold Machine.phxargsCalloc
  split
  · rename_i hmemory
    exact iff_of_true rfl hmemory
  · rename_i hnone
    exact iff_of_false (fun h => by cases h) hnone

/-- The command of a mode is created exactly where its options and operands are accepted and each of
the three requests is met. -/
theorem commandCreateFrom_ok {m : Machine} {opts : Options} {argv : List CStr} {cmd : Command} :
    commandCreateFrom m opts argv = .ok cmd ↔
      commandCreate m.sys opts opts.optindVal argv = .ok cmd ∧
        m.calloc opts.inputArgSlots SIZEOF_POINTER = true ∧
        m.calloc (processPoolCreate m.sys.childMax opts.maxProcs).capacity SIZEOF_PID = true ∧
        m.calloc (cmd.maxLength + 1) 1 = true := by
  simp only [← Machine.phxargsCalloc_ok, commandCreateFrom]
  cases m.phxargsCalloc opts.inputArgSlots SIZEOF_POINTER with
  | error e => simp
  | ok _ =>
      cases commandCreate m.sys opts opts.optindVal argv with
      | error e => simp
      | ok cmd' =>
          cases m.phxargsCalloc (processPoolCreate m.sys.childMax opts.maxProcs).capacity
              SIZEOF_PID with
          | error e => simp
          | ok _ =>
              cases hbuffer : m.phxargsCalloc (cmd'.maxLength + 1) 1 with
              | error e =>
                  simp only [hbuffer, reduceCtorEq, false_iff, true_and, Except.ok.injEq, not_and]
                  rintro rfl
                  rw [hbuffer]
                  simp
              | ok _ =>
                  simp only [hbuffer, true_and, Except.ok.injEq]
                  exact ⟨fun h => ⟨h, h ▸ hbuffer⟩, And.left⟩

/-- `xargs_create` succeeds exactly where the options and the input are accepted and the command can
be created. Then the mode has this command, a new pool, and the tokens of this input. -/
theorem xargsCreateFrom_ok {m : Machine} {argv : List CStr} {opts : Options} {mode : XargsMode} :
    xargsCreateFrom m argv = .ok (opts, mode) ↔
      ∃ source, optionsCreateFrom m.sys.childMax argv = .ok opts ∧
        argSourceOpen m opts.argFilePath = .ok source ∧
        commandCreateFrom m opts argv = .ok mode.cmd ∧
        mode = ⟨mode.cmd, xargsModeTokens m.fresh mode.cmd.maxLength opts source.bytes source.ferror,
          .none, Procs.start m.sys.childMax opts.maxProcs []⟩ := by
  unfold xargsCreateFrom
  cases hopts : optionsCreateFrom m.sys.childMax argv with
  | error e => simp
  | ok opts' =>
      cases hsource : argSourceOpen m opts'.argFilePath with
      | error ended =>
          simp only [hsource]
          constructor
          · intro h
            cases h
          · rintro ⟨source, hok, hopen, -⟩
            cases hok
            rw [hsource] at hopen
            cases hopen
      | ok source =>
          simp only [hsource]
          cases hcmd : commandCreateFrom m opts' argv with
          | error e =>
              constructor
              · intro h
                cases h
              · rintro ⟨source', hok, -, hcmd', -⟩
                cases hok
                rw [hcmd] at hcmd'
                cases hcmd'
          | ok cmd =>
              simp only [xargsModeCreate, (commandCreateFrom_ok.mp hcmd).1]
              constructor
              · intro h
                cases h
                exact ⟨source, rfl, hsource, hcmd, rfl⟩
              · rintro ⟨source', hok, hopen, hcmd', hmode⟩
                cases hok
                rw [hsource] at hopen
                cases hopen
                rw [hcmd] at hcmd'
                rw [hmode, ← Except.ok.inj hcmd']
                rfl

/-- The run from an `argv` is a run from the answers of `getopt`. -/
theorem xargsCreateFrom_xargsCreate {m : Machine} {argv : List CStr} {opts : Options}
    {mode : XargsMode} (h : xargsCreateFrom m argv = .ok (opts, mode)) :
    xargsCreate m.sys (getoptAnswers argv).1 (getoptAnswers argv).2 argv mode.toker
      = .ok (opts, mode) := by
  obtain ⟨source, hopts, -, hcmd, hmode⟩ := xargsCreateFrom_ok.mp h
  have hscanned : optionsCreate m.sys.childMax (getoptAnswers argv).1 (getoptAnswers argv).2
      = .ok opts := hopts
  have hcreated : xargsModeCreate m.sys opts opts.optindVal argv mode.toker = .ok mode := by
    simp only [xargsModeCreate, (commandCreateFrom_ok.mp hcmd).1]
    rw [hmode]
    rfl
  simp only [xargsCreate, hscanned, hcreated, bind, Except.bind, pure, Except.pure]

/-! ### Every sequence of options has a command line -/

/-- The answer is an error of the command line itself. -/
def Getopt.isError : Getopt → Bool
  | .missingArgument _ | .unknown _ => true
  | _ => false

/-- The answer of `getopt` behind an option. -/
def Getopt.answer : Getopt → OptAnswer UInt8
  | .opt0 => .flag (byte '0')
  | .optA optarg => .option (byte 'a') optarg
  | .optD optarg => .option (byte 'd') optarg
  | .optE optarg => .option (byte 'E') optarg
  | .optI optarg => .option (byte 'I') optarg
  | .optL optarg => .option (byte 'L') optarg
  | .optn optarg => .option (byte 'n') optarg
  | .opto => .flag (byte 'o')
  | .optp => .flag (byte 'p')
  | .optP optarg => .option (byte 'P') optarg
  | .optr => .flag (byte 'r')
  | .opts optarg => .option (byte 's') optarg
  | .optt => .flag (byte 't')
  | .optx => .flag (byte 'x')
  | .missingArgument optopt => .missingArgument (byte optopt)
  | .unknown optopt => .unknown (byte optopt)

/-- Every option of the `switch` is in `phxargs_opts`, as the `switch` takes it. -/
theorem Getopt.offers_answer {g : Getopt} (h : g.isError = false) :
    phxargsOptString.Offers g.answer := by
  cases g with
  | missingArgument optopt => cases h
  | unknown optopt => cases h
  | _ => rfl

/-- The `switch` takes the answer for an option back to this option. -/
theorem Getopt.ofAnswer_answer {g : Getopt} (h : g.isError = false) : Getopt.ofAnswer g.answer = g := by
  cases g with
  | missingArgument optopt => cases h
  | unknown optopt => cases h
  | _ => rfl

theorem exists_commandLine {gs : List Getopt} (h : ∀ g ∈ gs, g.isError = false)
    (operands : List CStr) :
    ∃ p : OptParse phxargsOptString, p.answers.map Getopt.ofAnswer = gs ∧
      p.operands? = some operands := by
  have hoffers : ∀ answer ∈ gs.map Getopt.answer, phxargsOptString.Offers answer := by
    intro answer hanswer
    obtain ⟨g, hg, rfl⟩ := List.mem_map.mp hanswer
    exact Getopt.offers_answer (h g hg)
  obtain ⟨p, hp, hoperands⟩ := exists_optParse_of_answers phxargsOptString operands _ hoffers
  refine ⟨p, ?_, hoperands⟩
  rw [hp, List.map_map]
  have hid : gs.map (Getopt.ofAnswer ∘ Getopt.answer) = gs.map id :=
    List.map_congr_left fun g hg => Getopt.ofAnswer_answer (h g hg)
  rw [hid, List.map_id]

/-! ### What is reported -/

/-- The line begins like every report of the program. -/
def Complains (report : String) : Prop := ∃ rest, report = "phxargs: " ++ rest

theorem Complains.append {report : String} (h : Complains report) (more : String) :
    Complains (report ++ more) := by
  obtain ⟨rest, rfl⟩ := h
  exact ⟨rest ++ more, String.append_assoc⟩

/-- Every diagnostic is one line that names the program, but for the tokenizer errors, which are
reported before, and for the assertion. -/
theorem Diagnostic.text_complains {d : Diagnostic} (hreported : d ≠ .alreadyReported)
    (hassert : d ≠ .assertionFailed) : Complains d.text := by
  -- The texts with an option letter begin alike.
  have hdash : Complains (toString "phxargs: -") := ⟨"-", by decide⟩
  have hprocs : Complains (toString "phxargs: -P ") := ⟨"-P ", by decide⟩
  have hlength : Complains (toString "phxargs: -s ") := ⟨"-s ", by decide⟩
  have hunknown : Complains (toString "phxargs: unknown option -") := ⟨"unknown option -", by decide⟩
  cases d with
  | alreadyReported => exact absurd rfl hreported
  | invalidNumber opt arg => exact (((hdash.append _).append _).append _).append _
  | numberTooSmall opt arg => exact (((hdash.append _).append _).append _).append _
  | maxProcsTooLarge parsed childMax => exact (((hprocs.append _).append _).append _).append _
  | invalidDelimiter => exact ⟨"invalid delimiter for -d", by decide⟩
  | needsArgument opt => exact (hdash.append _).append _
  | unknownOption opt => exact hunknown.append _
  | promptWithParallel => exact ⟨"-p and -P are mutually exclusive", by decide⟩
  | maxLengthTooSmall specified minLength =>
      exact (((hlength.append _).append _).append _).append _
  | maxLengthTooLarge specified maxLength =>
      exact (((hlength.append _).append _).append _).append _
  | commandTooLong => exact ⟨"command too long", by decide⟩
  | replacementTooLarge => exact ⟨"replacement too large", by decide⟩
  | internalLimitExceeded => exact ⟨"internal limit exceeded", by decide⟩
  | callocFailed => exact ⟨"calloc", by decide⟩
  | forkFailed => exact ⟨"fork", by decide⟩
  | waitpidFailed => exact ⟨"waitpid", by decide⟩
  | assertionFailed => exact absurd rfl hassert

/-- A failure with a report of its own. -/
def Exit.Reported (e : Exit) : Prop :=
  ∃ d : Diagnostic, e = Exit.failure d ∧ d ≠ .alreadyReported ∧ d ≠ .assertionFailed

theorem Exit.Reported.complains {e : Exit} (h : e.Reported) :
    e.status = EXIT_FAILURE ∧ Complains e.diagnostic.text := by
  obtain ⟨d, rfl, hreported, hassert⟩ := h
  exact ⟨rfl, d.text_complains hreported hassert⟩

/-- A failure in this diagnostic is reported. -/
theorem Exit.reported_failure {d : Diagnostic} (hreported : d ≠ .alreadyReported)
    (hassert : d ≠ .assertionFailed) : (Exit.failure d).Reported := ⟨d, rfl, hreported, hassert⟩

theorem parseNumberArgWithMin_reported {opt : Char} {arg : CStr} {minVal : Int} {e : Exit}
    (h : parseNumberArgWithMin opt arg minVal = .error e) : e.Reported := by
  unfold parseNumberArgWithMin at h
  dsimp only at h
  split at h
  · cases h
    exact Exit.reported_failure (by simp) (by simp)
  · split at h
    · cases h
      exact Exit.reported_failure (by simp) (by simp)
    · cases h

theorem parseNumberArg_reported {opt : Char} {arg : CStr} {e : Exit}
    (h : parseNumberArg opt arg = .error e) : e.Reported := by
  unfold parseNumberArg at h
  cases hp : parseNumberArgWithMin opt arg 1 with
  | error e' =>
      rw [hp] at h
      cases h
      exact parseNumberArgWithMin_reported hp
  | ok v => rw [hp] at h; cases h

/-- A number that is mapped into the options fails as the number does. -/
theorem mapped_reported {opt : Char} {arg : CStr} {f : Nat → Options} {e : Exit}
    (h : (parseNumberArg opt arg).map f = .error e) : e.Reported := by
  cases hn : parseNumberArg opt arg with
  | error e' =>
      rw [hn] at h
      cases h
      exact parseNumberArg_reported hn
  | ok n => rw [hn] at h; cases h

/-- Whatever an option is refused for is reported. -/
theorem parseOption_reported {childMax : Int} {o : Options} {g : Getopt} {e : Exit}
    (h : parseOption childMax o g = .error e) : e.Reported := by
  cases g with
  | optD optarg =>
      simp only [parseOption] at h
      split at h
      · cases h
      · cases h
        exact Exit.reported_failure (by simp) (by simp)
  | optL optarg => exact mapped_reported ((setMaxLinesPerCommand_eq o 'L' optarg).symm.trans h)
  | optn optarg => exact mapped_reported ((setMaxArgsPerCommand_eq o 'n' optarg).symm.trans h)
  | optP optarg =>
      simp only [parseOption, setMaxProcs] at h
      cases hn : parseNumberArgWithMin 'P' optarg 0 with
      | error e' =>
          rw [hn] at h
          cases h
          exact parseNumberArgWithMin_reported hn
      | ok n =>
          rw [hn] at h
          simp only [Except.bind, bind] at h
          split at h
          · cases h
            exact Exit.reported_failure (by simp) (by simp)
          · cases h
  | opts optarg => exact mapped_reported ((setMaxCommandLength_eq o 's' optarg).symm.trans h)
  | missingArgument optopt => cases h; exact Exit.reported_failure (by simp) (by simp)
  | unknown optopt => cases h; exact Exit.reported_failure (by simp) (by simp)
  | _ => cases h

theorem parseOptions_reported {childMax : Int} : ∀ (gs : List Getopt) {o : Options} {e : Exit},
    parseOptions childMax o gs = .error e → e.Reported := by
  intro gs
  induction gs with
  | nil => intro o e h; cases h
  | cons g gs ih =>
      intro o e h
      rw [parseOptions] at h
      cases hg : parseOption childMax o g with
      | error e' =>
          rw [hg] at h
          cases h
          exact parseOption_reported hg
      | ok o' => rw [hg] at h; exact ih h

/-- Options that are refused are reported. -/
theorem optionsCreate_reported {childMax : Int} {scanned : List Getopt} {optind : Nat} {e : Exit}
    (h : optionsCreate childMax scanned optind = .error e) : e.Reported := by
  unfold optionsCreate configureOptions at h
  cases hp : parseOptions childMax initOptions scanned with
  | error e' =>
      rw [hp] at h
      cases h
      exact parseOptions_reported scanned hp
  | ok o =>
      rw [hp] at h
      simp only [bind, Except.bind] at h
      split at h
      · cases h
        exact Exit.reported_failure (by simp) (by simp)
      · cases h

/-! ### The scan of a command line -/

/-- The answers of `getopt` are the options of the parse, and `optind` is the index of the first
operand. -/
theorem getoptAnswers_parse (p : OptParse phxargsOptString) (name : CStr) :
    (getoptAnswers (name :: p.text)).1 = p.answers.map Getopt.ofAnswer ∧
      ∀ operands, p.operands? = some operands → ∃ read : List CStr,
        name :: p.text = read ++ operands ∧ (getoptAnswers (name :: p.text)).2 = read.length := by
  obtain ⟨hanswers, hoperands⟩ := p.scanAll name
  exact ⟨congrArg (List.map Getopt.ofAnswer) hanswers, hoperands⟩

/-- The operands behind the options of the parse are the command and its initial arguments. -/
theorem xargsCreateFrom_operands {m : Machine} {name : CStr} {p : OptParse phxargsOptString}
    {operands : List CStr} (h : p.operands? = some operands) {opts : Options} {mode : XargsMode}
    (hcreate : xargsCreateFrom m (name :: p.text) = .ok (opts, mode)) :
    mode.cmd.fixedArgs.args = if operands = [] then [DEFAULT_CMD] else operands := by
  obtain ⟨source, hopts, -, hcmd, -⟩ := xargsCreateFrom_ok.mp hcreate
  obtain ⟨read, htext, hoptind⟩ := (getoptAnswers_parse p name).2 operands h
  have hindex : opts.optindVal = read.length := by
    obtain ⟨o', -, -, rfl⟩ := optionsCreate_cases hopts
    exact hoptind
  have hcmd' := (commandCreateFrom_ok.mp hcmd).1
  have hfixed := (commandCreate_spec hcmd' (optionsCreate_valid hopts).length).2
  rw [htext, hindex, List.drop_left, List.length_append] at hfixed
  rw [hfixed]
  by_cases hnone : operands = []
  · rw [if_pos hnone, if_pos (by simp [hnone])]
  · have hlength : operands.length ≠ 0 := fun hlen => hnone (List.length_eq_zero_iff.mp hlen)
    rw [if_neg hnone, if_neg (by omega)]

/-- What `parse_options` reports for an error of the command line. -/
theorem parseOption_error (childMax : Int) (o : Options) {bad : OptAnswer UInt8}
    (h : bad.isError = true) : ∃ c : UInt8,
      (bad = .missingArgument c ∧ parseOption childMax o (Getopt.ofAnswer bad)
          = .error (Exit.failure (.needsArgument (Char.ofNat c.toNat)))) ∨
        (bad = .unknown c ∧ parseOption childMax o (Getopt.ofAnswer bad)
          = .error (Exit.failure (.unknownOption (Char.ofNat c.toNat)))) := by
  cases bad with
  | flag opt => cases h
  | option opt optarg => cases h
  | missingArgument c => exact ⟨c, .inl ⟨rfl, rfl⟩⟩
  | unknown c => exact ⟨c, .inr ⟨rfl, rfl⟩⟩

/-- A command line with an error is refused, by its first option that is not accepted or, if all of
them are, by the error. -/
theorem optionsCreateFrom_error (childMax : Int) (name : CStr) {p : OptParse phxargsOptString}
    (h : p.operands? = none) :
    ∃ before bad e, p.answers = before ++ [bad] ∧
      optionsCreateFrom childMax (name :: p.text) = .error e ∧ e.Reported ∧
      ((∃ o, parseOptions childMax initOptions (before.map Getopt.ofAnswer) = .ok o) → ∃ c : UInt8,
        (bad = .missingArgument c ∧ e = Exit.failure (.needsArgument (Char.ofNat c.toNat))) ∨
          (bad = .unknown c ∧ e = Exit.failure (.unknownOption (Char.ofNat c.toNat)))) := by
  obtain ⟨before, bad, hsplit, hbad⟩ := OptParse.answers_of_error h
  have hanswers := (getoptAnswers_parse p name).1
  rw [hsplit, List.map_append] at hanswers
  -- The scan of the options in front of the error decides.
  have hscan : parseOptions childMax initOptions (getoptAnswers (name :: p.text)).1
      = (parseOptions childMax initOptions (before.map Getopt.ofAnswer)).bind
          (parseOption childMax · (Getopt.ofAnswer bad)) := by
    rw [hanswers, parseOptions_eq_foldlM, parseOptions_eq_foldlM, List.foldlM_append]
    cases (before.map Getopt.ofAnswer).foldlM (parseOption childMax) initOptions with
    | error e => rfl
    | ok o => exact bind_pure (parseOption childMax o (Getopt.ofAnswer bad))
  have hcreate : ∀ {e : Exit}, parseOptions childMax initOptions (getoptAnswers (name :: p.text)).1
      = .error e → optionsCreateFrom childMax (name :: p.text) = .error e := by
    intro e he
    unfold optionsCreateFrom optionsCreate configureOptions
    rw [he]
    rfl
  cases hbefore : parseOptions childMax initOptions (before.map Getopt.ofAnswer) with
  | error e =>
      rw [hbefore] at hscan
      refine ⟨before, bad, e, hsplit, hcreate hscan, parseOptions_reported _ hbefore, ?_⟩
      rintro ⟨o, ho⟩
      rw [hbefore] at ho
      cases ho
  | ok o =>
      rw [hbefore] at hscan
      obtain ⟨c, ⟨hkind, herror⟩ | ⟨hkind, herror⟩⟩ := parseOption_error childMax o hbad
      · exact ⟨before, bad, _, hsplit, hcreate (hscan.trans herror), parseOption_reported herror,
          fun _ => ⟨c, .inl ⟨hkind, rfl⟩⟩⟩
      · exact ⟨before, bad, _, hsplit, hcreate (hscan.trans herror), parseOption_reported herror,
          fun _ => ⟨c, .inr ⟨hkind, rfl⟩⟩⟩

/-- **The command line.** Every `argv` has a parse, and every sequence of options with any operands
is one. phxargs reads the options of the parse and nothing behind them: where the mode is created,
its command and initial arguments are the operands, or `/bin/echo` without any. A command line with
an error is refused with a report, and this report names the letter of the error if the options in
front of it are accepted. -/
theorem optionsCreateFrom_accepts_grammar (m : Machine) (name : CStr) :
    (∀ args : List CStr, ∃ p : OptParse phxargsOptString, p.text = args) ∧
    (∀ gs : List Getopt, (∀ g ∈ gs, g.isError = false) → ∀ operands : List CStr,
      ∃ p : OptParse phxargsOptString, p.answers.map Getopt.ofAnswer = gs ∧
        p.operands? = some operands) ∧
    ∀ p : OptParse phxargsOptString,
      (∀ operands, p.operands? = some operands →
        (∃ optind, optionsCreateFrom m.sys.childMax (name :: p.text)
          = optionsCreate m.sys.childMax (p.answers.map Getopt.ofAnswer) optind) ∧
        ∀ opts mode, xargsCreateFrom m (name :: p.text) = .ok (opts, mode) →
          mode.cmd.fixedArgs.args = if operands = [] then [DEFAULT_CMD] else operands) ∧
      (p.operands? = none → ∃ before bad e, p.answers = before ++ [bad] ∧
        xargsCreateFrom m (name :: p.text) = .error (.refused e) ∧ e.Reported ∧
        ((∃ o, parseOptions m.sys.childMax initOptions (before.map Getopt.ofAnswer) = .ok o) →
          ∃ c : UInt8,
            (bad = .missingArgument c ∧ e = Exit.failure (.needsArgument (Char.ofNat c.toNat))) ∨
              (bad = .unknown c ∧ e = Exit.failure (.unknownOption (Char.ofNat c.toNat))))) := by
  refine ⟨exists_optParse phxargsOptString, fun gs h operands => exists_commandLine h operands, ?_⟩
  intro p
  constructor
  · intro operands hoperands
    refine ⟨⟨(getoptAnswers (name :: p.text)).2, ?_⟩, ?_⟩
    · rw [optionsCreateFrom, (getoptAnswers_parse p name).1]
    · exact fun opts mode hcreate => xargsCreateFrom_operands hoperands hcreate
  · intro hnone
    obtain ⟨before, bad, e, hsplit, herror, hreported, hnamed⟩ :=
      optionsCreateFrom_error m.sys.childMax name hnone
    refine ⟨before, bad, e, hsplit, ?_, hreported, hnamed⟩
    rw [xargsCreateFrom, herror]

end Phxargs
