import Mathlib.Data.List.Basic

/-!
# `Phxargs.Lib.Getopt`: the scan of a command line

The `getopt` of POSIX, which stops at the first operand, over any alphabet. `getopt` is one
call, and `scan` collects the answers of the calls up to the end of the options or to the first
error, where its caller exits.

`OptParse` is the grammar of a command line: groups of options, each of them one element with
its flags and at most one option argument, and then the operands or an error. Every command
line has a parse (`exists_optParse`), and the scan gives the answers of the parse and stops in
front of its operands (`scan_parse`).
-/

set_option autoImplicit false

namespace Lib

variable {α : Type}

/-- What an option string says: whether a letter is an option, and whether this option takes an
argument. The dash itself is none. -/
structure OptString (α : Type) where
  dash : α
  takes : α → Option Bool
  dash_none : takes dash = none

/-- An answer of `getopt` other than `-1`. -/
inductive OptAnswer (α : Type) where
  | flag (opt : α)
  | option (opt : α) (optarg : List α)
  | missingArgument (optopt : α)
  | unknown (optopt : α)
  deriving DecidableEq, Repr

/-- The caller exits at this answer. -/
def OptAnswer.isError : OptAnswer α → Bool
  | .flag _ | .option _ _ => false
  | .missingArgument _ | .unknown _ => true

/-- Where a call starts: the index of the element, and what is left of an element that an earlier
call has begun. -/
structure OptState (α : Type) where
  optind : Nat
  nextchar : List α
  deriving DecidableEq, Repr

namespace OptString

variable [DecidableEq α] (o : OptString α)

/-- The answer for the letter `opt` in front of `rest`. -/
def letter (argv : List (List α)) (optind : Nat) (opt : α) (rest : List α) :
    OptAnswer α × OptState α :=
  -- Behind its last letter an element is done.
  let next := if rest = [] then ⟨optind + 1, []⟩ else ⟨optind, rest⟩
  match o.takes opt with
  | none => (.unknown opt, next)
  | some false => (.flag opt, next)
  | some true =>
      -- The argument is the rest of the element, or the whole next one.
      if rest ≠ [] then
        (.option opt rest, ⟨optind + 1, []⟩)
      else
        match argv[optind + 1]? with
        | none => (.missingArgument opt, ⟨optind + 1, []⟩)
        | some optarg => (.option opt optarg, ⟨optind + 2, []⟩)

/-- `getopt`, `none` for `-1`. -/
def getopt (argv : List (List α)) (s : OptState α) : Option (OptAnswer α) × OptState α :=
  match s.nextchar with
  | opt :: rest => ((o.letter argv s.optind opt rest).1, (o.letter argv s.optind opt rest).2)
  | [] =>
      match argv[s.optind]? with
      | some (first :: opt :: rest) =>
          if first ≠ o.dash then
            (none, s)
          -- `--` ends the options, and is no operand.
          else if opt = o.dash ∧ rest = [] then
            (none, ⟨s.optind + 1, []⟩)
          else
            ((o.letter argv s.optind opt rest).1, (o.letter argv s.optind opt rest).2)
      -- The end of `argv`, an empty element, or a single letter such as `-`.
      | _ => (none, s)

/-- The answers of at most `n` calls, and the `optind` behind them. The caller stops at an
error. -/
def scan (argv : List (List α)) : Nat → OptState α → List (OptAnswer α) × Nat
  | 0, s => ([], s.optind)
  | n + 1, s =>
      match o.getopt argv s with
      | (none, s') => ([], s'.optind)
      | (some answer, s') =>
          if answer.isError then
            ([answer], s'.optind)
          else
            (answer :: (scan argv n s').1, (scan argv n s').2)

end OptString

namespace OptString

variable (o : OptString α)

/-- The element is not an operand: a dash with something behind it. -/
def Marked (element : List α) : Prop := ∃ opt rest, element = o.dash :: opt :: rest

/-- A list of flags. -/
def Flags (flags : List α) : Prop := ∀ opt ∈ flags, o.takes opt = some false

end OptString

/-- A group of options: one element with flags, whose last option may take an argument, within the
element or as the next one. -/
inductive OptGroup (o : OptString α) where
  | cluster (first : α) (more : List α) (h : o.Flags (first :: more))
  | attached (flags : List α) (h : o.Flags flags) (opt : α) (hopt : o.takes opt = some true)
      (optarg : List α) (hne : optarg ≠ [])
  | detached (flags : List α) (h : o.Flags flags) (opt : α) (hopt : o.takes opt = some true)
      (optarg : List α)

/-- What ends the options: an operand, `--`, or an error. -/
inductive OptEnd (o : OptString α) where
  | plain (operands : List (List α)) (h : ∀ first ∈ operands.head?, ¬ o.Marked first)
  | dashes (operands : List (List α))
  | unknown (flags : List α) (h : o.Flags flags) (opt : α) (hopt : o.takes opt = none)
      (rest : List α) (hdashes : ¬ (flags = [] ∧ opt = o.dash ∧ rest = []))
      (later : List (List α))
  | missing (flags : List α) (h : o.Flags flags) (opt : α) (hopt : o.takes opt = some true)

namespace OptGroup

variable {o : OptString α}

/-- The elements of a group. -/
def text : OptGroup o → List (List α)
  | .cluster first more _ => [o.dash :: first :: more]
  | .attached flags _ opt _ optarg _ => [o.dash :: (flags ++ opt :: optarg)]
  | .detached flags _ opt _ optarg => [o.dash :: (flags ++ [opt]), optarg]

/-- The options of a group. -/
def answers : OptGroup o → List (OptAnswer α)
  | .cluster first more _ => (first :: more).map .flag
  | .attached flags _ opt _ optarg _ => flags.map .flag ++ [.option opt optarg]
  | .detached flags _ opt _ optarg => flags.map .flag ++ [.option opt optarg]

end OptGroup

namespace OptEnd

variable {o : OptString α}

/-- The elements of an end. -/
def text : OptEnd o → List (List α)
  | .plain operands _ => operands
  | .dashes operands => [o.dash, o.dash] :: operands
  | .unknown flags _ opt _ rest _ later => (o.dash :: (flags ++ opt :: rest)) :: later
  | .missing flags _ opt _ => [o.dash :: (flags ++ [opt])]

/-- The answers in front of an error, and the error. -/
def answers : OptEnd o → List (OptAnswer α)
  | .plain _ _ | .dashes _ => []
  | .unknown flags _ opt _ _ _ _ => flags.map .flag ++ [.unknown opt]
  | .missing flags _ opt _ => flags.map .flag ++ [.missingArgument opt]

/-- The operands, `none` behind an error. -/
def operands? : OptEnd o → Option (List (List α))
  | .plain operands _ | .dashes operands => some operands
  | .unknown _ _ _ _ _ _ _ | .missing _ _ _ _ => none

end OptEnd

/-- A parse of a command line, behind the name of the program. -/
structure OptParse (o : OptString α) where
  groups : List (OptGroup o)
  ending : OptEnd o

namespace OptParse

variable {o : OptString α}

def text (p : OptParse o) : List (List α) := p.groups.flatMap OptGroup.text ++ p.ending.text

def answers (p : OptParse o) : List (OptAnswer α) :=
  p.groups.flatMap OptGroup.answers ++ p.ending.answers

def operands? (p : OptParse o) : Option (List (List α)) := p.ending.operands?

end OptParse

/-! ### Every command line has a parse -/

section Exists

variable (o : OptString α)

/-- The flags at the start of an element. -/
theorem exists_flags : ∀ letters : List α, ∃ flags tail, letters = flags ++ tail ∧ o.Flags flags ∧
    ∀ opt ∈ tail.head?, o.takes opt ≠ some false := by
  intro letters
  induction letters with
  | nil => exact ⟨[], [], rfl, fun _ h => (List.not_mem_nil h).elim, fun _ h => nomatch h⟩
  | cons opt letters ih =>
      by_cases hflag : o.takes opt = some false
      · obtain ⟨flags, tail, hsplit, hflags, htail⟩ := ih
        refine ⟨opt :: flags, tail, by rw [hsplit, List.cons_append], ?_, htail⟩
        exact List.forall_mem_cons.mpr ⟨hflag, hflags⟩
      · refine ⟨[], opt :: letters, rfl, fun _ h => (List.not_mem_nil h).elim, ?_⟩
        intro opt' hopt'
        obtain rfl : opt' = opt := by simpa using hopt'.symm
        exact hflag

/-- **Every command line has a parse.** Induction on the number of its elements; each group takes
at least one. -/
theorem exists_optParse_of_length : ∀ (n : Nat) (args : List (List α)), args.length ≤ n →
    ∃ p : OptParse o, p.text = args := by
  intro n
  induction n with
  | zero =>
      intro args hlen
      have hnil : args = [] := List.length_eq_zero_iff.mp (Nat.le_zero.mp hlen)
      exact ⟨⟨[], .plain [] fun _ h => nomatch h⟩, hnil.symm⟩
  | succ n ih =>
      intro args hlen
      -- A parse of what follows a group, with the group in front.
      have hmore : ∀ (group : OptGroup o) (later : List (List α)), args = group.text ++ later →
          later.length ≤ n → ∃ p : OptParse o, p.text = args := by
        intro group later hargs hlater
        obtain ⟨p, hp⟩ := ih later hlater
        refine ⟨⟨group :: p.groups, p.ending⟩, ?_⟩
        rw [hargs, ← hp]
        simp [OptParse.text]
      by_cases hoperand : ∀ first ∈ args.head?, ¬ o.Marked first
      · exact ⟨⟨[], .plain args hoperand⟩, rfl⟩
      · push Not at hoperand
        obtain ⟨element, helement, opt, rest, rfl⟩ := hoperand
        obtain ⟨later, rfl⟩ : ∃ later, args = (o.dash :: opt :: rest) :: later := by
          cases args with
          | nil => cases helement
          | cons element' later =>
              obtain rfl : element' = o.dash :: opt :: rest := by simpa using helement
              exact ⟨later, rfl⟩
        rw [List.length_cons] at hlen
        by_cases hdashes : opt = o.dash ∧ rest = []
        · obtain ⟨rfl, rfl⟩ := hdashes
          exact ⟨⟨[], .dashes later⟩, rfl⟩
        · obtain ⟨flags, tail, hsplit, hflags, htail⟩ := exists_flags o (opt :: rest)
          cases tail with
          | nil =>
              rw [List.append_nil] at hsplit
              rw [← hsplit] at hflags
              exact hmore (.cluster opt rest hflags) later rfl (by omega)
          | cons last behind =>
              have hnot := htail last rfl
              cases htakes : o.takes last with
              | none =>
                  refine ⟨⟨[], .unknown flags hflags last htakes behind ?_ later⟩, ?_⟩
                  · rintro ⟨rfl, rfl, rfl⟩
                    simp at hsplit
                    exact hdashes hsplit
                  · simp [OptParse.text, OptEnd.text, hsplit]
              | some takes =>
                  cases takes with
                  | false => exact absurd htakes hnot
                  | true =>
                      by_cases hbehind : behind = []
                      · subst hbehind
                        cases later with
                        | nil =>
                            refine ⟨⟨[], .missing flags hflags last htakes⟩, ?_⟩
                            simp [OptParse.text, OptEnd.text, hsplit]
                        | cons optarg later =>
                            rw [List.length_cons] at hlen
                            refine hmore (.detached flags hflags last htakes optarg) later ?_ (by omega)
                            simp [OptGroup.text, hsplit]
                      · refine hmore (.attached flags hflags last htakes behind hbehind) later ?_ (by omega)
                        simp [OptGroup.text, hsplit]

theorem exists_optParse (args : List (List α)) : ∃ p : OptParse o, p.text = args :=
  exists_optParse_of_length o args.length args (Nat.le_refl _)

end Exists

/-! ### Every sequence of options has a command line -/

section Answers

variable (o : OptString α)

/-- The answer is an option of the option string, with an argument if it takes one. -/
def OptString.Offers : OptAnswer α → Prop
  | .flag opt => o.takes opt = some false
  | .option opt _ => o.takes opt = some true
  | .missingArgument _ | .unknown _ => False

/-- An option on its own is a group. -/
theorem exists_group {answer : OptAnswer α} (h : o.Offers answer) :
    ∃ group : OptGroup o, group.answers = [answer] := by
  cases answer with
  | flag opt => exact ⟨.cluster opt [] (List.forall_mem_singleton.mpr h), rfl⟩
  | option opt optarg => exact ⟨.detached [] (List.forall_mem_nil _) opt h optarg, rfl⟩
  | missingArgument optopt => exact h.elim
  | unknown optopt => exact h.elim

/-- Every sequence of options is the parse of a command line, with any operands behind it: `--`
separates them. -/
theorem exists_optParse_of_answers (operands : List (List α)) :
    ∀ answers : List (OptAnswer α), (∀ answer ∈ answers, o.Offers answer) →
      ∃ p : OptParse o, p.answers = answers ∧ p.operands? = some operands := by
  intro answers
  induction answers with
  | nil => intro _; exact ⟨⟨[], .dashes operands⟩, rfl, rfl⟩
  | cons answer answers ih =>
      intro h
      obtain ⟨hfirst, hrest⟩ := List.forall_mem_cons.mp h
      obtain ⟨group, hgroup⟩ := exists_group o hfirst
      obtain ⟨p, hp, hoperands⟩ := ih hrest
      refine ⟨⟨group :: p.groups, p.ending⟩, ?_, hoperands⟩
      rw [OptParse.answers, List.flatMap_cons, List.append_assoc, hgroup]
      exact congrArg (answer :: ·) hp

end Answers

/-- Without operands there is an error, and it is the last answer. -/
theorem OptParse.answers_of_error {o : OptString α} {p : OptParse o} (h : p.operands? = none) :
    ∃ before bad, p.answers = before ++ [bad] ∧ bad.isError = true := by
  obtain ⟨groups, ending⟩ := p
  cases ending with
  | plain operands hplain => cases h
  | dashes operands => cases h
  | unknown flags hflags opt hopt rest hdashes later =>
      refine ⟨groups.flatMap OptGroup.answers ++ flags.map .flag, .unknown opt, ?_, rfl⟩
      simp [answers, OptEnd.answers]
  | missing flags hflags opt hopt =>
      refine ⟨groups.flatMap OptGroup.answers ++ flags.map .flag, .missingArgument opt, ?_, rfl⟩
      simp [answers, OptEnd.answers]

/-! ### The scan of a parse -/

namespace OptString

variable {o : OptString α} {argv : List (List α)}

/-- An element that begins with these flags is none of `--`, where another letter follows. -/
theorem flags_not_dashes {flags tail : List α} (hflags : o.Flags flags)
    (htail : ¬ (flags = [] ∧ tail = [o.dash])) {opt : α} {rest : List α}
    (hsplit : flags ++ tail = opt :: rest) : ¬ (opt = o.dash ∧ rest = []) := by
  rintro ⟨rfl, rfl⟩
  cases flags with
  | nil => exact htail ⟨rfl, hsplit⟩
  | cons flag flags =>
      -- The dash is no flag.
      obtain rfl : flag = o.dash := by simpa using (List.cons.inj hsplit).1
      have := hflags _ List.mem_cons_self
      rw [o.dash_none] at this
      cases this

/-- An option that takes an argument is not the dash. -/
theorem takes_ne_dash {opt : α} (hopt : o.takes opt = some true) (flags rest : List α) :
    ¬ (flags = [] ∧ opt :: rest = [o.dash]) := by
  rintro ⟨-, hdash⟩
  obtain rfl : opt = o.dash := (List.cons.inj hdash).1
  rw [o.dash_none] at hopt
  cases hopt

variable [DecidableEq α]

/-- An element of options is scanned letter by letter, whether it has been begun or not. -/
theorem scan_element {i : Nat} {opt : α} {rest : List α}
    (helement : argv[i]? = some (o.dash :: opt :: rest)) (hdashes : ¬ (opt = o.dash ∧ rest = []))
    (n : Nat) : o.scan argv n ⟨i, []⟩ = o.scan argv n ⟨i, opt :: rest⟩ := by
  cases n with
  | zero => rfl
  | succ n =>
      have hcall : o.getopt argv ⟨i, []⟩ = o.getopt argv ⟨i, opt :: rest⟩ := by
        simp [getopt, helement, hdashes]
      rw [scan, scan, hcall]

/-- A flag in front of another letter of its element. -/
theorem scan_flag (i : Nat) {opt : α} (hopt : o.takes opt = some false) {rest : List α}
    (hrest : rest ≠ []) (n : Nat) :
    o.scan argv (n + 1) ⟨i, opt :: rest⟩
      = (.flag opt :: (o.scan argv n ⟨i, rest⟩).1, (o.scan argv n ⟨i, rest⟩).2) := by
  simp [scan, getopt, letter, hopt, hrest, OptAnswer.isError]

/-- The flags in front of another letter. -/
theorem scan_flags (i : Nat) {tail : List α} (htail : tail ≠ []) (n : Nat) :
    ∀ flags : List α, o.Flags flags →
      o.scan argv (n + flags.length) ⟨i, flags ++ tail⟩
        = (flags.map .flag ++ (o.scan argv n ⟨i, tail⟩).1, (o.scan argv n ⟨i, tail⟩).2) := by
  intro flags
  induction flags with
  | nil => intro _; rfl
  | cons opt flags ih =>
      intro hflags
      obtain ⟨hopt, hmore⟩ := List.forall_mem_cons.mp hflags
      have hne : flags ++ tail ≠ [] := fun h => htail (List.append_eq_nil_iff.mp h).2
      rw [List.length_cons, ← Nat.add_assoc, List.cons_append, scan_flag i hopt hne, ih hmore]
      rfl

/-- An element of flags alone. -/
theorem scan_cluster (i n : Nat) : ∀ (first : α) (more : List α), o.Flags (first :: more) →
    o.scan argv (n + (first :: more).length) ⟨i, first :: more⟩
      = ((first :: more).map .flag ++ (o.scan argv n ⟨i + 1, []⟩).1,
          (o.scan argv n ⟨i + 1, []⟩).2) := by
  intro first more
  induction more generalizing first with
  | nil =>
      intro hflags
      have hfirst := hflags first List.mem_cons_self
      simp [scan, getopt, letter, hfirst, OptAnswer.isError]
  | cons second more ih =>
      intro hflags
      obtain ⟨hfirst, hmore⟩ := List.forall_mem_cons.mp hflags
      rw [List.length_cons, ← Nat.add_assoc, scan_flag i hfirst (List.cons_ne_nil _ _),
        ih second hmore]
      rfl

/-- An element with flags in front of another letter. -/
theorem scan_flags_element {i : Nat} {flags tail : List α} (hflags : o.Flags flags)
    (htail : tail ≠ []) (hdashes : ¬ (flags = [] ∧ tail = [o.dash]))
    (helement : argv[i]? = some (o.dash :: (flags ++ tail))) (n : Nat) :
    o.scan argv (n + flags.length) ⟨i, []⟩
      = (flags.map .flag ++ (o.scan argv n ⟨i, tail⟩).1, (o.scan argv n ⟨i, tail⟩).2) := by
  cases hsplit : flags ++ tail with
  | nil => exact absurd (List.append_eq_nil_iff.mp hsplit).2 htail
  | cons opt rest =>
      rw [hsplit] at helement
      rw [scan_element helement (flags_not_dashes hflags hdashes hsplit), ← hsplit,
        scan_flags i htail n flags hflags]

end OptString

section Scan

variable [DecidableEq α] {o : OptString α}

/-- The calls for a group give its answers, and lead behind its elements. -/
theorem OptGroup.scan (group : OptGroup o) (before after : List (List α)) (n : Nat) :
    o.scan (before ++ (group.text ++ after)) (n + group.answers.length) ⟨before.length, []⟩
      = (group.answers
            ++ (o.scan (before ++ (group.text ++ after)) n ⟨before.length + group.text.length, []⟩).1,
          (o.scan (before ++ (group.text ++ after)) n
            ⟨before.length + group.text.length, []⟩).2) := by
  cases group with
  | cluster first more h =>
      have hdashes : ¬ (first = o.dash ∧ more = []) :=
        OptString.flags_not_dashes h (fun hnil => List.cons_ne_nil _ _ hnil.1) (List.append_nil _)
      rw [OptString.scan_element (by simp [text]) hdashes, answers, List.length_map,
        OptString.scan_cluster _ n first more h]
      rfl
  | attached flags h opt hopt optarg hne =>
      rw [answers, List.length_append, List.length_map, List.length_singleton, Nat.add_comm _ 1,
        ← Nat.add_assoc, OptString.scan_flags_element h (List.cons_ne_nil opt optarg)
          (OptString.takes_ne_dash hopt flags optarg) (by simp [text])]
      simp [OptString.scan, OptString.getopt, OptString.letter, hopt, hne, OptAnswer.isError, text]
  | detached flags h opt hopt optarg =>
      rw [answers, List.length_append, List.length_map, List.length_singleton, Nat.add_comm _ 1,
        ← Nat.add_assoc, OptString.scan_flags_element h (List.cons_ne_nil opt [])
          (OptString.takes_ne_dash hopt flags []) (by simp [text])]
      -- The next element is the argument.
      simp [OptString.scan, OptString.getopt, OptString.letter, hopt, OptAnswer.isError, text]

/-- The same for the groups of a parse, one behind the other. -/
theorem OptGroup.scan_all (after : List (List α)) (n : Nat) :
    ∀ (groups : List (OptGroup o)) (before : List (List α)),
      o.scan (before ++ (groups.flatMap text ++ after)) (n + (groups.flatMap answers).length)
          ⟨before.length, []⟩
        = (groups.flatMap answers
              ++ (o.scan (before ++ (groups.flatMap text ++ after)) n
                ⟨before.length + (groups.flatMap text).length, []⟩).1,
            (o.scan (before ++ (groups.flatMap text ++ after)) n
              ⟨before.length + (groups.flatMap text).length, []⟩).2) := by
  intro groups
  induction groups with
  | nil => intro before; rfl
  | cons group groups ih =>
      intro before
      have hfirst := group.scan before (groups.flatMap text ++ after)
        (n + (groups.flatMap answers).length)
      have hrest := ih (before ++ group.text)
      rw [List.append_assoc, List.length_append] at hrest
      rw [List.flatMap_cons, List.flatMap_cons, List.append_assoc, List.length_append,
        Nat.add_comm group.answers.length, ← Nat.add_assoc, hfirst, hrest, List.length_append,
        List.append_assoc, Nat.add_assoc]

/-- The end of a parse: the scan stops in front of the operands, or at the error. -/
theorem OptEnd.scan (ending : OptEnd o) (before : List (List α)) {n : Nat}
    (hn : ending.answers.length < n) :
    (o.scan (before ++ ending.text) n ⟨before.length, []⟩).1 = ending.answers ∧
      ∀ operands, ending.operands? = some operands → ∃ read : List (List α),
        before ++ ending.text = read ++ operands ∧
          (o.scan (before ++ ending.text) n ⟨before.length, []⟩).2 = read.length := by
  obtain ⟨m, rfl⟩ : ∃ m, n = m + 1 + ending.answers.length :=
    ⟨n - 1 - ending.answers.length, by omega⟩
  cases ending with
  | plain operands h =>
      have hstop : o.getopt (before ++ operands) ⟨before.length, []⟩
          = (none, ⟨before.length, []⟩) := by
        cases operands with
        | nil => simp [OptString.getopt]
        | cons first later =>
            have hplain := h first rfl
            match first with
            | [] => simp [OptString.getopt]
            | [c] => simp [OptString.getopt]
            | c :: opt :: rest =>
                have hc : c ≠ o.dash := fun hc => hplain ⟨opt, rest, by rw [hc]⟩
                simp [OptString.getopt, hc]
      refine ⟨by simp [OptString.scan, text, answers, hstop], ?_⟩
      intro operands' hoperands
      cases hoperands
      exact ⟨before, rfl, by simp [OptString.scan, text, answers, hstop]⟩
  | dashes operands =>
      refine ⟨by simp [OptString.scan, OptString.getopt, text, answers], ?_⟩
      intro operands' hoperands
      cases hoperands
      refine ⟨before ++ [[o.dash, o.dash]], by simp [text], ?_⟩
      simp [OptString.scan, OptString.getopt, text, answers]
  | unknown flags h opt hopt rest hdashes later =>
      have hnot : ¬ (flags = [] ∧ opt :: rest = [o.dash]) := by
        rintro ⟨hnil, hdash⟩
        exact hdashes ⟨hnil, (List.cons.inj hdash).1, (List.cons.inj hdash).2⟩
      have helement : (before ++ text (.unknown flags h opt hopt rest hdashes later))[before.length]?
          = some (o.dash :: (flags ++ opt :: rest)) := by simp [text]
      have hscan := OptString.scan_flags_element h (List.cons_ne_nil opt rest) hnot helement (m + 1 + 1)
      refine ⟨?_, fun operands hop => nomatch hop⟩
      have hfuel : m + 1 + (answers (.unknown flags h opt hopt rest hdashes later)).length
          = m + 1 + 1 + flags.length := by
        simp [answers]
        omega
      rw [hfuel, hscan]
      simp [OptString.scan, OptString.getopt, OptString.letter, hopt, OptAnswer.isError, answers]
  | missing flags h opt hopt =>
      have helement : (before ++ text (.missing flags h opt hopt))[before.length]?
          = some (o.dash :: (flags ++ [opt])) := by simp [text]
      have hscan := OptString.scan_flags_element h (List.cons_ne_nil opt [])
        (OptString.takes_ne_dash hopt flags []) helement (m + 1 + 1)
      refine ⟨?_, fun operands hop => nomatch hop⟩
      have hfuel : m + 1 + (answers (.missing flags h opt hopt)).length = m + 1 + 1 + flags.length := by
        simp [answers]
        omega
      rw [hfuel, hscan]
      simp [OptString.scan, OptString.getopt, OptString.letter, hopt, OptAnswer.isError, answers, text]

/-- **The scan of a parse.** Behind the elements `before`, it gives the answers of the parse and
stops in front of its operands. -/
theorem OptParse.scan (p : OptParse o) (before : List (List α)) {n : Nat}
    (hn : p.answers.length < n) :
    (o.scan (before ++ p.text) n ⟨before.length, []⟩).1 = p.answers ∧
      ∀ operands, p.operands? = some operands → ∃ read : List (List α),
        before ++ p.text = read ++ operands ∧
          (o.scan (before ++ p.text) n ⟨before.length, []⟩).2 = read.length := by
  obtain ⟨groups, ending⟩ := p
  have hlen : (groups.flatMap OptGroup.answers).length + ending.answers.length < n := by
    rw [← List.length_append]
    exact hn
  obtain ⟨m, rfl⟩ : ∃ m, n = m + (groups.flatMap OptGroup.answers).length :=
    ⟨n - (groups.flatMap OptGroup.answers).length, by omega⟩
  have hend := ending.scan (before ++ groups.flatMap OptGroup.text) (n := m) (by omega)
  rw [List.append_assoc, List.length_append] at hend
  rw [text, OptGroup.scan_all ending.text m groups before, answers, operands?, hend.1]
  exact ⟨rfl, hend.2⟩

end Scan

/-! ### The whole scan -/

/-- The letters of a command line, which bound the calls of `getopt`. -/
def letterCount (args : List (List α)) : Nat := args.flatten.length

theorem letterCount_append (args args' : List (List α)) :
    letterCount (args ++ args') = letterCount args + letterCount args' := by
  simp [letterCount]

/-- Each answer of a group takes a letter. -/
theorem OptGroup.length_answers_le {o : OptString α} (group : OptGroup o) :
    group.answers.length ≤ letterCount group.text := by
  cases group with
  | cluster first more h => simp [answers, text, letterCount]
  | attached flags h opt hopt optarg hne => simp [answers, text, letterCount]
  | detached flags h opt hopt optarg => simp [answers, text, letterCount]

theorem OptEnd.length_answers_le {o : OptString α} (ending : OptEnd o) :
    ending.answers.length ≤ letterCount ending.text := by
  cases ending with
  | plain operands h => exact Nat.zero_le _
  | dashes operands => exact Nat.zero_le _
  | unknown flags h opt hopt rest hdashes later => simp [answers, text, letterCount]
  | missing flags h opt hopt => simp [answers, text, letterCount]

theorem OptParse.length_answers_le {o : OptString α} (p : OptParse o) :
    p.answers.length ≤ letterCount p.text := by
  rw [answers, text, List.length_append, letterCount_append]
  refine Nat.add_le_add ?_ p.ending.length_answers_le
  induction p.groups with
  | nil => exact Nat.le_refl 0
  | cons group groups ih =>
      rw [List.flatMap_cons, List.flatMap_cons, List.length_append, letterCount_append]
      exact Nat.add_le_add group.length_answers_le ih

/-- The scan of a whole `argv`, from `optind = 1` on. -/
def OptString.scanAll [DecidableEq α] (o : OptString α) (argv : List (List α)) :
    List (OptAnswer α) × Nat :=
  o.scan argv (letterCount argv + 1) ⟨1, []⟩

/-- **The scan of a command line** gives the answers of its parse, and `optind` is the index of the
first operand. -/
theorem OptParse.scanAll [DecidableEq α] {o : OptString α} (p : OptParse o) (name : List α) :
    (o.scanAll (name :: p.text)).1 = p.answers ∧
      ∀ operands, p.operands? = some operands → ∃ read : List (List α),
        name :: p.text = read ++ operands ∧ (o.scanAll (name :: p.text)).2 = read.length := by
  have hcalls : p.answers.length < letterCount (name :: p.text) + 1 := by
    have hle := p.length_answers_le
    have hcons : letterCount (name :: p.text) = name.length + letterCount p.text := by
      simp [letterCount]
    omega
  exact p.scan [name] hcalls

end Lib
