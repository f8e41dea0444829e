import Phxargs.Model.TokenSource
import Phxargs.Proofs.OptionOrder
import Phxargs.Proofs.Parallelism
import Phxargs.Proofs.SpaceTokenizer

/-!
# `Phxargs.Proofs.EmptyMarker`: what `-E ''` does

For POSIX, `-E ''` disables the marker. Here the empty string is a marker like any other, and
equals a word that is complete with an empty value: `''`, `""`, or a word that starts with a NUL
byte. So the run with `-E ''` is the run without `-E` exactly on the inputs without such a word,
or where the delimiter tokenizer reads the input, which has no marker (`emptyMarker_iff`).
-/

set_option autoImplicit false

namespace Phxargs

open Lib

/-! ### The tokenizer with a marker -/

/-- The marker changes the stream of a parse exactly if it is one of the words. -/
theorem Parse.stream_some_eq_iff (p : Parse) (marker : CStr) :
    p.stream (some marker) = p.stream none ↔ marker ∉ p.values := by
  have hvalues : marker ∈ p.values ↔ ∃ token ∈ p.words.map ParsedWord.token, token.arg = marker := by
    simp [Parse.values, ParsedWord.token]
  rw [hvalues, p.stream_none]
  constructor
  · intro hstream
    rintro ⟨token, htoken, harg⟩
    have htokens := congrArg TokenStream.tokens hstream
    have hall := List.takeWhile_eq_self_iff.mp htokens token htoken
    simp [harg] at hall
  · intro hfree
    have hne : ∀ token ∈ p.words.map ParsedWord.token, some marker ≠ some token.arg :=
      fun token htoken heq => hfree ⟨token, htoken, (Option.some.inj heq).symm⟩
    have htake : (p.words.map ParsedWord.token).takeWhile
        (fun token => decide (some marker ≠ some token.arg)) = p.words.map ParsedWord.token :=
      List.takeWhile_eq_self_iff.mpr fun token htoken => decide_eq_true (hne token htoken)
    have hfind : (p.words.map ParsedWord.token).find?
        (fun token => decide (some marker = some token.arg)) = none :=
      List.find?_eq_none.mpr fun token htoken => by simpa using hne token htoken
    have hany : ¬ (p.words.map ParsedWord.token).any
        (fun token => decide (some marker = some token.arg)) = true := by
      rw [List.any_eq_true]
      rintro ⟨token, htoken, heq⟩
      exact hne token htoken (of_decide_eq_true heq)
    unfold Parse.stream
    rw [htake, hfind, if_neg hany]

/-- Some word of the input is complete with an empty value. -/
def CompletesEmpty (bytes : List UInt8) : Prop := ∃ p : Parse, p.text = bytes ∧ [] ∈ p.values

/-- The stream with the empty marker. -/
theorem spaceTokenStream_empty_iff (bytes : List UInt8) :
    spaceTokenStream (some []) bytes false = spaceTokenStream none bytes false ↔
      ¬ CompletesEmpty bytes := by
  have hparse (p : Parse) (hp : p.text = bytes) :
      spaceTokenStream (some []) bytes false = spaceTokenStream none bytes false ↔
        [] ∉ p.values := by
    rw [← hp, spaceTokenStream_eq, spaceTokenStream_eq]
    exact p.stream_some_eq_iff []
  constructor
  · rintro hstream ⟨p, hp, hmem⟩
    exact (hparse p hp).mp hstream hmem
  · intro hfree
    obtain ⟨p, hp⟩ := exists_parse bytes
    exact (hparse p hp).mpr fun hmem => hfree ⟨p, hp, hmem⟩

/-! ### The options with a marker -/

/-- `-I` drops the marker, and no other implication reads or writes it. -/
theorem applyImplications_withMarker (marker : Option CStr) (o : Options) :
    applyImplications (o.withMarker marker) = (applyImplications o).withMarker
      (if (applyImplications o).argPlaceholder = none then marker else none) := by
  rw [applyImplications_argPlaceholder]
  by_cases h : o.argPlaceholder = none
  · rw [applyImplications_of_none (show (o.withMarker marker).argPlaceholder = none from h),
      applyImplications_of_none h, if_pos h]
    rfl
  · rw [applyImplications_of_some (show (o.withMarker marker).argPlaceholder ≠ none from h),
      applyImplications_of_some h, if_neg h]
    rfl

/-- With `-I`, some delimiter is in force. -/
theorem applyImplications_delimited {o : Options} (h : o.argPlaceholder ≠ none) :
    (applyImplications o).delimited = true := by
  rw [applyImplications_of_some h]
  cases o.useNulCharAsArgDelimiter <;> by_cases hdelim : o.argDelimiter = 0 <;>
    simp [Options.delimited, hdelim]

/-- One `-E` more, anywhere in a scan without `-E`. -/
theorem foldlM_insert_optE {childMax : Int} {pre post : List Getopt} {o o' : Options}
    (hfree : ∀ g ∈ pre ++ post, ¬ g.setsMarker)
    (h : (pre ++ post).foldlM (parseOption childMax) o = .ok o') (marker : CStr) :
    (pre ++ .optE marker :: post).foldlM (parseOption childMax) o
      = .ok (o'.withMarker (some marker)) := by
  rw [List.foldlM_append] at h ⊢
  cases hpre : pre.foldlM (parseOption childMax) o with
  | error e => rw [hpre] at h; cases h
  | ok o₁ =>
      rw [hpre] at h
      have hpost : post.foldlM (parseOption childMax) o₁ = .ok o' := h
      have hframe := (marker_overrides childMax (some marker)).foldlM_frame (s := o₁)
        (fun g hg => hfree g (List.mem_append_right pre hg))
      rw [hpost] at hframe
      exact hframe

/-- Without `-E`, there is no marker. -/
theorem foldlM_no_optE {childMax : Int} {gs : List Getopt} {o : Options}
    (hfree : ∀ g ∈ gs, ¬ g.setsMarker)
    (h : gs.foldlM (parseOption childMax) initOptions = .ok o) :
    o.logicalEndOfInputMarker = none := by
  have hframe := (marker_overrides childMax none).foldlM_frame (s := initOptions) hfree
  rw [show initOptions.withMarker none = initOptions from rfl, h] at hframe
  exact congrArg Options.logicalEndOfInputMarker (Except.ok.inj hframe)

/-- One `-E` more in the command line. `-I` drops it. -/
theorem optionsCreate_insert_optE {childMax : Int} {pre post : List Getopt} {optind : Nat}
    {o : Options} (hfree : ∀ g ∈ pre ++ post, ¬ g.setsMarker)
    (h : optionsCreate childMax (pre ++ post) optind = .ok o) (marker : CStr) (optind' : Nat) :
    optionsCreate childMax (pre ++ .optE marker :: post) optind'
        = .ok { o.withMarker (if o.argPlaceholder = none then some marker else none) with
            optindVal := optind' } ∧
      o.logicalEndOfInputMarker = none ∧ (o.argPlaceholder ≠ none → o.delimited = true) := by
  obtain ⟨o', hscan, hexclusive, rfl⟩ := optionsCreate_cases h
  rw [parseOptions_eq_foldlM] at hscan
  refine ⟨?_, ?_, ?_⟩
  · rw [optionsCreate, configureOptions, parseOptions_eq_foldlM,
      foldlM_insert_optE hfree hscan marker]
    simp only [bind, Except.bind, applyImplications_withMarker]
    -- The check of `-p` does not look at the marker.
    rw [if_neg]
    · rfl
    · exact hexclusive
  · have hnone := foldlM_no_optE hfree hscan
    show (applyImplications o').logicalEndOfInputMarker = none
    by_cases hmode : o'.argPlaceholder = none
    · rw [applyImplications_of_none hmode]
      exact hnone
    · rw [applyImplications_of_some hmode]
  · intro hmode
    rw [applyImplications_argPlaceholder] at hmode
    exact applyImplications_delimited hmode

/-! ### The two runs -/

/-- The tokenizer of the options with another marker. -/
theorem xargsModeTokens_withMarker (fresh : Nat → UInt8) (maxLength : Nat) (marker : Option CStr)
    (o : Options) (bytes : List UInt8) (ferror : Bool) :
    xargsModeTokens fresh maxLength (o.withMarker marker) bytes ferror
      = if o.delimited then xargsModeTokens fresh maxLength o bytes ferror
        else spaceTokenStream marker bytes ferror := by
  have hdelimited : (o.withMarker marker).delimited = o.delimited := rfl
  unfold xargsModeTokens
  rw [hdelimited]
  split <;> rfl

/-- What `xargs_create` accepts, and the mode that it creates. -/
theorem xargsCreateOver_ok_iff {sys : System} {fresh : Nat → UInt8} {scanned : List Getopt}
    {optind : Nat} {argv : List CStr} {bytes : List UInt8} {ferror : Bool} {opts : Options}
    {mode : XargsMode} :
    xargsCreateOver sys fresh scanned optind argv bytes ferror = .ok (opts, mode) ↔
      optionsCreate sys.childMax scanned optind = .ok opts ∧
        ∃ cmd, commandCreate sys opts opts.optindVal argv = .ok cmd ∧
          mode = ⟨cmd, xargsModeTokens fresh cmd.maxLength opts bytes ferror, .none,
            Procs.start sys.childMax opts.maxProcs []⟩ := by
  unfold xargsCreateOver
  cases hopts : optionsCreate sys.childMax scanned optind with
  | error e => simp [bind, Except.bind]
  | ok opts' =>
      simp only [bind, Except.bind]
      cases hcmd : commandCreate sys opts' opts'.optindVal argv with
      | error e =>
          constructor
          · intro h
            cases h
          · rintro ⟨hok, cmd, hcmd', -⟩
            cases hok
            rw [hcmd] at hcmd'
            cases hcmd'
      | ok cmd =>
          simp only [xargsModeCreate, hcmd]
          constructor
          · intro h
            cases h
            exact ⟨rfl, cmd, hcmd, rfl⟩
          · rintro ⟨hok, cmd', hcmd', rfl⟩
            cases hok
            rw [hcmd] at hcmd'
            cases hcmd'
            rfl

/-- The command of the options with another marker, in front of the same operands. -/
theorem commandCreate_withMarker (sys : System) (marker : Option CStr) (opts : Options)
    (words words' operands : List CStr) :
    commandCreate sys (opts.withMarker marker) words'.length (words' ++ operands)
      = commandCreate sys opts words.length (words ++ operands) := by
  have hinside (words : List CStr) : words.length ≤ (words ++ operands).length := by simp
  rw [commandCreate_operands sys opts (hinside words),
    commandCreate_operands sys (opts.withMarker marker) (hinside words'), List.drop_left,
    List.drop_left]
  rfl

/-- **The empty marker.** Take an accepted sequence of options without `-E`, and an input. With
`-E ''` anywhere among them, and the same operands, the options are accepted too. The tokenizer
returns the same stream if and only if the delimiter tokenizer reads the input, or no word of it is
complete with an empty value. Then the runs are the same in every world. -/
theorem emptyMarker_iff {sys : System} {fresh : Nat → UInt8} {pre post : List Getopt}
    (hfree : ∀ g ∈ pre ++ post, ¬ g.setsMarker) {words operands : List CStr} {bytes : List UInt8}
    {opts : Options} {mode : XargsMode}
    (h : xargsCreateOver sys fresh (pre ++ post) words.length (words ++ operands) bytes false
      = .ok (opts, mode)) (words' : List CStr) :
    ∃ opts' mode', xargsCreateOver sys fresh (pre ++ .optE [] :: post) words'.length
        (words' ++ operands) bytes false = .ok (opts', mode') ∧
      (mode'.toker = mode.toker ↔ opts.delimited ∨ ¬ CompletesEmpty bytes) ∧
      (mode'.toker = mode.toker → ∀ w, xargsRun w opts' mode' = xargsRun w opts mode) := by
  obtain ⟨hopts, cmd, hcmd, rfl⟩ := xargsCreateOver_ok_iff.mp h
  obtain ⟨hinsert, hnone, hmode⟩ := optionsCreate_insert_optE hfree hopts [] words'.length
  have hoptind : opts.optindVal = words.length := by
    obtain ⟨o', -, -, rfl⟩ := optionsCreate_cases hopts
    rfl
  generalize hmarker : (if opts.argPlaceholder = none then some [] else none : Option CStr) = marker
    at hinsert
  have hcmd' : commandCreate sys (opts.withMarker marker) words'.length (words' ++ operands)
      = .ok cmd := by
    rw [commandCreate_withMarker sys marker opts words words' operands, ← hoptind]
    exact hcmd
  refine ⟨_, _, xargsCreateOver_ok_iff.mpr ⟨hinsert, cmd, hcmd', rfl⟩, ?_, ?_⟩
  · show xargsModeTokens fresh cmd.maxLength (opts.withMarker marker) bytes false
      = xargsModeTokens fresh cmd.maxLength opts bytes false ↔ _
    rw [xargsModeTokens_withMarker]
    cases hdelimited : opts.delimited with
    | true => simp
    | false =>
        have hplaceholder : opts.argPlaceholder = none := by
          by_contra hne
          simp [hmode hne] at hdelimited
        rw [if_pos hplaceholder] at hmarker
        rw [← hmarker]
        simp [xargsModeTokens, hdelimited, hnone, spaceTokenStream_empty_iff]
  · intro htoker w
    -- Apart from the stream, the two modes are the same, and the run does not see the marker.
    have hstream : xargsModeTokens fresh cmd.maxLength { opts.withMarker marker with
        optindVal := words'.length } bytes false
        = xargsModeTokens fresh cmd.maxLength opts bytes false := htoker
    rw [hstream]
    rfl

/-- `printf "a b" | phxargs -n 1 -E '' c` and the same without `-E ''`. -/
theorem emptyMarker_iff_words :
    ∃ opts mode opts' mode', xargsCreateOver System.bare (fun _ => 1) [.optn [49]] 2
        [[120], [45, 110, 49], [99]] [97, 32, 98] false = .ok (opts, mode) ∧
      xargsCreateOver System.bare (fun _ => 1) [.optn [49], .optE []] 4
        [[120], [45, 110, 49], [45, 69], [], [99]] [97, 32, 98] false = .ok (opts', mode') ∧
      mode'.toker = mode.toker ∧
      ∀ w, xargsRun w opts' mode' = xargsRun w opts mode := by
  obtain ⟨opts, mode, h⟩ : ∃ opts mode, xargsCreateOver System.bare (fun _ => 1)
      ([.optn [49]] ++ []) ([[120], [45, 110, 49]] : List CStr).length
      ([[120], [45, 110, 49]] ++ [[99]]) [97, 32, 98] false = .ok (opts, mode) := ⟨_, _, rfl⟩
  obtain ⟨opts', mode', h', hiff, hrun⟩ := emptyMarker_iff
    (show ∀ g ∈ [Getopt.optn [49]] ++ [], ¬ g.setsMarker by decide) h
    [[120], [45, 110, 49], [45, 69], []]
  have hfree : ¬ CompletesEmpty [97, 32, 98] :=
    (spaceTokenStream_empty_iff [97, 32, 98]).mp (by decide)
  have htoker := hiff.mpr (Or.inr hfree)
  exact ⟨opts, mode, opts', mode', h, h', htoker, hrun htoker⟩

/-- `printf 'a "" b' | phxargs -E '' c`: the quoted empty word ends the input. Without `-E ''` it is
an argument like the others. -/
theorem emptyMarker_stops :
    ∃ opts mode opts' mode', xargsCreateOver System.bare (fun _ => 1) [] 1 [[120], [99]]
        [97, 32, 34, 34, 32, 98] false = .ok (opts, mode) ∧
      xargsCreateOver System.bare (fun _ => 1) [.optE []] 3 [[120], [45, 69], [], [99]]
        [97, 32, 34, 34, 32, 98] false = .ok (opts', mode') ∧
      mode.toker.args = [[97], [], [98]] ∧ mode'.toker.args = [[97]] ∧
      (finalState (xargsRun World.quiet opts mode)).argvs = [[[99], [97], [], [98]]] ∧
      (finalState (xargsRun World.quiet opts' mode')).argvs = [[[99], [97]]] := by
  exact ⟨_, _, _, _, rfl, rfl, by decide +kernel, by decide +kernel, by decide +kernel,
    by decide +kernel⟩

end Phxargs
