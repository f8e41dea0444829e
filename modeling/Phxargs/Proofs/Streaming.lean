import Phxargs.Proofs.DelimTokenizer
import Phxargs.Proofs.JoinedInput
import Phxargs.Proofs.Programs

/-!
# `Phxargs.Proofs.Streaming`: commands do not wait for the rest of the input

Between a pipe and phxargs stands an input of which only a part has been written. Where this part
ends behind an item, its tokens are the first ones of every input that continues it, also of one
that breaks off with a read error (`xargsModeTokens_complete`). The loop of a mode decides about a
token by what came before it. So a run on the part starts the commands that a run on the whole
starts, but for the last one, which the end of the input has flushed (`phxargsMain_streams`).

Behind the marker of `-E` the rest of the input has no influence at all
(`phxargsMain_stops_at_marker`).
-/

set_option autoImplicit false

namespace Phxargs

open Lib

/-! ### The space tokenizer -/

section Space

open SpaceTokenizer

variable {marker : Option CStr}

/-- Words other than the marker, in front of any input. Induction on the words. -/
theorem spaceTokensFrom_words (ferror : Bool) (rest : List UInt8) (n : Nat) :
    ∀ items : List Terminated, (∀ item ∈ items, marker ≠ some item.word.value) →
      spaceTokensFrom ferror (items.length + n) (create marker)
          (items.flatMap Terminated.text ++ rest)
        = { spaceTokensFrom ferror n (create marker) rest with
            tokens := (items.map fun item => item.parsed.token) ++
              (spaceTokensFrom ferror n (create marker) rest).tokens } := by
  intro items
  induction items with
  | nil => simp
  | cons item items ih =>
      intro h
      rw [List.forall_mem_cons] at h
      have hcall := nextSpaceToken_terminated ferror marker item
        (items.flatMap Terminated.text ++ rest)
      rw [markedToken_eq_some h.1] at hcall
      rw [List.flatMap_cons, List.append_assoc, List.length_cons,
        show items.length + 1 + n = items.length + n + 1 by omega,
        spaceTokensFrom_token item.parsed.token hcall, ih h.2]
      rfl

/-- The marker ends the stream, whatever is behind it. -/
theorem spaceTokensFrom_marked (ferror : Bool) {item : Terminated}
    (h : marker = some item.word.value) (rest : List UInt8) (n : Nat) :
    spaceTokensFrom ferror (n + 1) (create marker) (item.text ++ rest)
      = ⟨[], item.parsed.token.boundaries, .none⟩ := by
  have hcall := nextSpaceToken_terminated ferror marker item rest
  rw [show markedToken marker item.word.value = none from if_pos h] at hcall
  exact spaceTokensFrom_null hcall

/-- Words other than the marker are the first tokens of every input that continues them. -/
theorem spaceTokenStream_words (ferror : Bool) (rest : List UInt8) {items : List Terminated}
    (h : ∀ item ∈ items, marker ≠ some item.word.value) :
    (items.map fun item => item.parsed.token)
      <+: (spaceTokenStream marker (items.flatMap Terminated.text ++ rest) ferror).tokens := by
  have hcalls := spaceTokensFrom_words ferror rest
    ((items.flatMap Terminated.text ++ rest).length + 1) items h
  rw [spaceTokenStream, spaceTokensFrom_enough ferror (create marker) (Nat.lt_succ_self _)
    (show _ < items.length + ((items.flatMap Terminated.text ++ rest).length + 1) by omega), hcalls]
  exact List.prefix_append _ _

/-- Words of which one is the marker: what is behind them is not read. -/
theorem spaceTokenStream_marked {items : List Terminated}
    (h : ∃ item ∈ items, marker = some item.word.value) :
    ∃ stream : TokenStream, stream.tokens <+: (items.map fun item => item.parsed.token) ∧
      ∀ (rest : List UInt8) (ferror : Bool),
        spaceTokenStream marker (items.flatMap Terminated.text ++ rest) ferror = stream := by
  -- The first one of them counts.
  obtain ⟨before, item, later, rfl, hitem, hbefore⟩ : ∃ before item later,
      items = before ++ item :: later ∧ marker = some item.word.value ∧
        ∀ item ∈ before, marker ≠ some item.word.value := by
    have hsome : (items.find? fun item => decide (marker = some item.word.value)).isSome := by
      rw [List.find?_isSome]
      obtain ⟨item, hmem, hitem⟩ := h
      exact ⟨item, hmem, decide_eq_true hitem⟩
    obtain ⟨item, hfind⟩ := Option.isSome_iff_exists.mp hsome
    obtain ⟨hitem, before, later, hitems, hbefore⟩ := List.find?_eq_some_iff_append.mp hfind
    exact ⟨before, item, later, hitems, of_decide_eq_true hitem, fun item hmem => by
      simpa using hbefore item hmem⟩
  refine ⟨⟨before.map fun item => item.parsed.token, item.parsed.token.boundaries, .none⟩, ?_, ?_⟩
  · rw [List.map_append]
    exact List.prefix_append _ _
  · intro rest ferror
    have hbytes : (before ++ item :: later).flatMap Terminated.text ++ rest
        = before.flatMap Terminated.text
          ++ (item.text ++ (later.flatMap Terminated.text ++ rest)) := by simp
    rw [hbytes, spaceTokenStream]
    generalize hlast : item.text ++ (later.flatMap Terminated.text ++ rest) = last
    have hcalls := spaceTokensFrom_words ferror last
      ((before.flatMap Terminated.text ++ last).length + 1) before hbefore
    rw [spaceTokensFrom_enough ferror (create marker) (Nat.lt_succ_self _)
      (show _ < before.length + ((before.flatMap Terminated.text ++ last).length + 1) by omega),
      hcalls, ← hlast, spaceTokensFrom_marked ferror hitem]
    simp

/-- Whole lines are words that a blank ends, and perhaps more blanks. -/
theorem exists_words {lines : List UInt8} (h : (spaceTokenStream none lines false).Clean) :
    ∃ (items : List Terminated) (gap : Gap),
      lines ++ [NEWLINE] = items.flatMap Terminated.text ++ gap.bytes ∧
      (spaceTokenStream none lines false).tokens = items.map fun item => item.parsed.token := by
  obtain ⟨p, rfl⟩ := exists_parse lines
  rw [spaceTokenStream_eq, Parse.stream_none] at h ⊢
  obtain ⟨items, gap, htext, hwords⟩ := (p.wellFormed_iff.mpr h).newline
  exact ⟨items, gap, htext, hwords.symm⟩

/-- The tokens of whole lines are the first ones of every input that continues them. -/
theorem spaceTokenStream_lines {lines : List UInt8} (h : (spaceTokenStream none lines false).Clean)
    (more : List UInt8) (ferror : Bool) :
    (spaceTokenStream marker (lines ++ [NEWLINE]) false).tokens
      <+: (spaceTokenStream marker (lines ++ [NEWLINE] ++ more) ferror).tokens := by
  obtain ⟨items, gap, htext, -⟩ := exists_words h
  rw [htext, List.append_assoc]
  by_cases hmarked : ∃ item ∈ items, marker = some item.word.value
  · obtain ⟨stream, -, hstream⟩ := spaceTokenStream_marked hmarked
    rw [hstream, hstream]
  · push Not at hmarked
    -- Behind the last word there are only blanks.
    have hdone : (spaceTokenStream marker (items.flatMap Terminated.text ++ gap.bytes) false).tokens
        = items.map fun item => item.parsed.token := by
      have hparse : items.flatMap Terminated.text ++ gap.bytes = Parse.text ⟨items, .blanks gap⟩ := rfl
      rw [hparse, spaceTokenStream_eq]
      simp only [Parse.stream, Parse.words, Ending.words, List.append_nil, List.map_map]
      apply List.takeWhile_eq_self_iff.mpr
      intro token htoken
      obtain ⟨item, hitem, rfl⟩ := List.mem_map.mp htoken
      exact decide_eq_true (hmarked item hitem)
    rw [hdone]
    exact spaceTokenStream_words ferror _ hmarked

end Space

/-! ### The delimiter tokenizer -/

section Delim

open DelimTokenizer

variable (fresh : Nat → UInt8) {d : UInt8}

/-- A call that comes to a delimiter does not see how the input ends. -/
theorem next_before_end (hd : d < 128) (ferror : Bool) :
    ∀ (bytes : List UInt8) {t : DelimTokenizer}, t.delim = d → d ∈ bytes →
      next fresh ferror t bytes = next fresh false t bytes := by
  intro bytes
  induction bytes with
  | nil => exact fun _ hmem => absurd hmem List.not_mem_nil
  | cons ch rest ih =>
      intro t ht hmem
      rw [next, next]
      split
      · rename_i hother
        have hne : d ≠ ch := by
          rintro rfl
          rw [ht, Ne, charToInt_eq_iff hd] at hother
          exact hother rfl
        exact ih (t := t.appendToToken fresh ch) ht ((List.mem_cons.mp hmem).resolve_left hne)
      · rfl

/-- Items that a delimiter ends, in front of any input. Induction on the items. -/
theorem delimTokensFrom_terminated (hd : d < 128) (ferror : Bool) (rest : List UInt8) (n : Nat) :
    ∀ (runs : List (List UInt8)) {t : DelimTokenizer}, (∀ run ∈ runs, d ∉ run) → Ready d t →
      ∃ later : TokenStream,
        (delimTokensFrom fresh ferror (runs.length + n) t ((runs.map (· ++ [d])).flatten ++ rest)).tokens
          = runs.map (fun run => ⟨cstr run, 1, one_boundary⟩) ++ later.tokens := by
  intro runs
  induction runs with
  | nil =>
      intro t _ _
      exact ⟨delimTokensFrom fresh ferror n t rest, by simp⟩
  | cons run runs ih =>
      intro t hfree ht
      rw [List.forall_mem_cons] at hfree
      obtain ⟨t', hnext, hready⟩ := next_run fresh hd ((runs.map (· ++ [d])).flatten ++ rest) run
        hfree.1 ht.start
      rw [← next_before_end fresh hd ferror _ ht.start.ready.delim (by simp)] at hnext
      have hcall : nextDelimToken fresh ferror t _ = _ := hnext
      obtain ⟨later, hlater⟩ := ih hfree.2 hready
      refine ⟨later, ?_⟩
      rw [List.map_cons, List.flatten_cons, List.append_assoc, List.append_assoc,
        List.singleton_append, List.length_cons,
        show runs.length + 1 + n = runs.length + n + 1 by omega,
        delimTokensFrom_token fresh (Nat.le_refl 1) hcall, hlater]
      rfl

/-- The tokens of an input that ends behind a delimiter are the first ones of every input that
continues it. -/
theorem delimTokensFrom_continues (hd : d < 128) (bufferSize : Nat) {done : List UInt8}
    (hdone : done = [] ∨ done.getLast? = some d) (more : List UInt8) (ferror : Bool) :
    (delimTokensFrom fresh false (done.length + 1) (DelimTokenizer.create bufferSize d) done).tokens
      <+: (delimTokensFrom fresh ferror ((done ++ more).length + 1)
        (DelimTokenizer.create bufferSize d) (done ++ more)).tokens := by
  obtain s := Split.of d done
  have hlast : s.last = [] := s.last_eq_nil_iff.mpr hdone
  have htext : (s.runs.map (· ++ [d])).flatten = done := by
    have h := s.text_eq
    rwa [hlast, List.append_nil] at h
  have hlength := s.length_le
  obtain ⟨n, hn⟩ : ∃ n, (done ++ more).length + 1 = s.runs.length + n :=
    ⟨(done ++ more).length + 1 - s.runs.length, by rw [List.length_append]; omega⟩
  have hready : Ready d (DelimTokenizer.create bufferSize d) := ⟨rfl, rfl⟩
  obtain ⟨later, hlater⟩ := delimTokensFrom_terminated fresh hd ferror more n s.runs s.runs_free hready
  rw [htext, ← hn] at hlater
  rw [delimTokensFrom_split fresh hd bufferSize s (Nat.lt_succ_self _), hlater]
  show s.runs.map _ ++ lastItem d s.last <+: _
  rw [hlast, lastItem, if_pos rfl, List.append_nil]
  exact List.prefix_append _ _

end Delim

/-! ### Inputs that continue -/

/-- This part of an input ends behind an item: behind a delimiter, or behind whole lines. -/
structure Options.Complete (opts : Options) (done : List UInt8) : Prop where
  delimiter : opts.delimited = true →
    opts.argDelimiter < 128 ∧ (done = [] ∨ done.getLast? = some opts.argDelimiter)
  lines : opts.delimited = false →
    ∃ lines, done = lines ++ [NEWLINE] ∧ (spaceTokenStream none lines false).Clean

/-- Its tokens are the first ones of every input that continues it. -/
theorem xargsModeTokens_complete (fresh : Nat → UInt8) (maxLength : Nat) {opts : Options}
    {done : List UInt8} (h : opts.Complete done) (more : List UInt8) (ferror : Bool) :
    (xargsModeTokens fresh maxLength opts done false).tokens
      <+: (xargsModeTokens fresh maxLength opts (done ++ more) ferror).tokens := by
  unfold xargsModeTokens
  cases hdelimited : opts.delimited with
  | true =>
      obtain ⟨hd, hdone⟩ := h.delimiter hdelimited
      exact delimTokensFrom_continues fresh hd maxLength hdone more ferror
  | false =>
      obtain ⟨lines, rfl, hclean⟩ := h.lines hdelimited
      exact spaceTokenStream_lines hclean more ferror

/-! ### Plans of inputs that continue -/

/-- The loop decides about a token by what came before it. Induction on the tokens. -/
theorem batches_isPrefix (step : Command → CStr → Planned) (more : List Token) :
    ∀ (tokens : List Token) (cmd : Command),
      (batches step cmd tokens).commands <+: (batches step cmd (tokens ++ more)).commands := by
  intro tokens
  induction tokens with
  | nil => exact fun cmd => List.nil_prefix
  | cons token tokens ih =>
      intro cmd
      rw [List.cons_append]
      rcases hstep : step (commandIncrementLineCount cmd token.boundaries) token.arg
        with ⟨out, result⟩
      cases result with
      | error e => rw [batches_cons_error hstep, batches_cons_error hstep]
      | ok cmd' =>
          rw [batches_cons_ok hstep, batches_cons_ok hstep, List.prefix_append_right_inj]
          exact ih cmd'

/-- The end of a mode adds commands behind those of its loop. -/
theorem endPlan_commands (b : Batches) (stream : TokenStream) (last : Command → List Command) :
    (endPlan b stream last).commands = b.commands ∨
      ∃ cmd, (endPlan b stream last).commands = b.commands ++ last cmd := by
  unfold endPlan
  cases b.result with
  | error e => exact .inl rfl
  | ok cmd =>
      dsimp only
      split
      · exact .inr ⟨_, rfl⟩
      · exact .inl rfl

/-- The appender mode adds one command at most. -/
theorem appenderLast_length_le (suppress present : Bool) (cmd : Command) :
    (appenderLast suppress present cmd).length ≤ 1 := by
  unfold appenderLast
  split
  · split <;> simp
  · split <;> simp

/-- What a list has in front of its last element is a prefix, if the rest is one element. -/
theorem dropLast_isPrefix {α : Type} {l before rest : List α} (h : l <+: before ++ rest)
    (hrest : rest.length ≤ 1) : l.dropLast <+: before := by
  obtain ⟨more, hmore⟩ := h
  apply List.prefix_of_prefix_length_le
    ((List.dropLast_prefix l).trans (hmore ▸ List.prefix_append l more)) (List.prefix_append before rest)
  have hlength := congrArg List.length hmore
  rw [List.length_append, List.length_append] at hlength
  rw [List.length_dropLast]
  omega

/-- The commands of a plan, but for the last one, come from the loop. With a placeholder, all. -/
theorem planOf_loop (opts : Options) (cmd : Command) (stream : TokenStream) {l : List Command}
    (h : l <+: (planOf opts cmd stream).commands) {later : TokenStream}
    (htokens : stream.tokens <+: later.tokens) :
    l.dropLast <+: (planOf opts cmd later).commands ∧
      (opts.argPlaceholder.isSome = true → l <+: (planOf opts cmd later).commands) := by
  obtain ⟨more, hmore⟩ := htokens
  unfold planOf at h ⊢
  cases hmode : opts.argPlaceholder with
  | none =>
      rw [hmode] at h
      simp only [Option.isNone_none, if_true] at h ⊢
      -- The loop over the tokens so far, and the flush behind it.
      have hloop : (batches appenderStep cmd stream.tokens).commands
          <+: (appenderPlan opts.suppressExecutionOnEmptyInput cmd later).commands := by
        have hbatches := batches_isPrefix appenderStep more stream.tokens cmd
        rw [hmore] at hbatches
        rcases endPlan_commands (batches appenderStep cmd later.tokens) later
            (appenderLast opts.suppressExecutionOnEmptyInput (!later.tokens.isEmpty)) with
          hplan | ⟨last, hplan⟩
        · exact hbatches.trans (hplan ▸ List.prefix_rfl)
        · exact hbatches.trans (hplan ▸ List.prefix_append _ _)
      refine ⟨List.IsPrefix.trans ?_ hloop, fun hsome => absurd hsome (by simp)⟩
      rcases endPlan_commands (batches appenderStep cmd stream.tokens) stream
          (appenderLast opts.suppressExecutionOnEmptyInput (!stream.tokens.isEmpty)) with
        hplan | ⟨last, hplan⟩
      · exact (List.dropLast_prefix l).trans (hplan ▸ h)
      · exact dropLast_isPrefix (hplan ▸ h) (appenderLast_length_le _ _ last)
  | some placeholder =>
      rw [hmode] at h
      simp only [Option.isNone_some, Bool.false_eq_true, if_false] at h ⊢
      rw [replacerPlan_commands] at h ⊢
      have hbatches := batches_isPrefix replacerStep more stream.tokens cmd
      rw [hmore] at hbatches
      exact ⟨(List.dropLast_prefix l).trans (h.trans hbatches), fun _ => h.trans hbatches⟩

/-! ### The program -/

/-- The machine with other bytes on its input, standard input or the file of `-a`. -/
def Machine.reads (m : Machine) (bytes : List UInt8) (ferror : Bool) : Machine :=
  { m with stdin := ⟨bytes, ferror⟩, fopen := fun _ => .ok ⟨bytes, ferror⟩ }

theorem argSourceOpen_reads (m : Machine) (bytes : List UInt8) (ferror : Bool) (path : Option CStr) :
    argSourceOpen (m.reads bytes ferror) path = .ok ⟨bytes, ferror⟩ := by
  cases path with
  | none => rfl
  | some path => rfl

theorem commandCreateFrom_reads (m : Machine) (bytes : List UInt8) (ferror : Bool) (opts : Options)
    (argv : List CStr) :
    commandCreateFrom (m.reads bytes ferror) opts argv = commandCreateFrom m opts argv := rfl

/-- Creation on one input and on another one. -/
theorem xargsCreateFrom_reads {m : Machine} {argv : List CStr} {opts : Options} {mode : XargsMode}
    {bytes : List UInt8} {ferror : Bool}
    (h : xargsCreateFrom (m.reads bytes ferror) argv = .ok (opts, mode)) (bytes' : List UInt8)
    (ferror' : Bool) :
    mode.toker = xargsModeTokens m.fresh mode.cmd.maxLength opts bytes ferror ∧
      xargsCreateFrom (m.reads bytes' ferror') argv = .ok (opts, { mode with
        toker := xargsModeTokens m.fresh mode.cmd.maxLength opts bytes' ferror' }) := by
  obtain ⟨source, hopts, hopen, hcmd, hmode⟩ := xargsCreateFrom_ok.mp h
  rw [argSourceOpen_reads] at hopen
  cases hopen
  refine ⟨congrArg XargsMode.toker hmode, xargsCreateFrom_ok.mpr ⟨⟨bytes', ferror'⟩, hopts,
    argSourceOpen_reads m bytes' ferror' _, hcmd, ?_⟩⟩
  rw [hmode]
  rfl

/-- **Streaming.** A part of the input, as `getc` returns it from standard input or from the file of
`-a`, ends behind an item. The run on this part is compared with a run on any input that continues
it, which may end in a read error. The runs have worlds of their own, and the second one is neither
halted nor stopped by a failed `fork`. Then it starts every command that the first one starts, but
for the last one of these. With a placeholder it starts all of them. -/
theorem phxargsMain_streams {m : Machine} {argv : List CStr} {opts : Options} {mode : XargsMode}
    {done : List UInt8} (hcreate : xargsCreateFrom (m.reads done false) argv = .ok (opts, mode))
    (hdone : opts.Complete done) (more : List UInt8) (ferror : Bool) (w w' : World)
    (h : (phxargsMain (m.reads (done ++ more) ferror) w' argv).Unstopped) :
    (phxargsMain (m.reads done false) w argv).os.forked.dropLast
        <+: (phxargsMain (m.reads (done ++ more) ferror) w' argv).os.forked ∧
      (opts.argPlaceholder.isSome = true → (phxargsMain (m.reads done false) w argv).os.forked
        <+: (phxargsMain (m.reads (done ++ more) ferror) w' argv).os.forked) := by
  obtain ⟨htoker, hcreate'⟩ := xargsCreateFrom_reads hcreate (done ++ more) ferror
  rw [(phxargsMain_carries_out hcreate' h).1]
  apply planOf_loop opts mode.cmd mode.toker (phxargsMain_forked_isPrefix hcreate)
  rw [htoker]
  exact xargsModeTokens_complete m.fresh mode.cmd.maxLength hdone more ferror

/-- `(printf 'a\nb\n'; ...; printf '"c') | phxargs -n 1 c`: an open quote at the end does not keep
`c a` from running. -/
theorem phxargsMain_streams_openQuote :
    (phxargsMain ((Machine.ofLines []).reads [97, 10, 98, 10] false) World.quiet
        [[120], [45, 110, 49], [99]]).os.forked.dropLast
      <+: (phxargsMain ((Machine.ofLines []).reads [97, 10, 98, 10, 34, 99] false) World.quiet
        [[120], [45, 110, 49], [99]]).os.forked := by
  obtain ⟨opts, mode, hcreate, hspace⟩ : ∃ opts mode,
      xargsCreateFrom ((Machine.ofLines []).reads [97, 10, 98, 10] false) [[120], [45, 110, 49], [99]]
        = .ok (opts, mode) ∧ opts.delimited = false := ⟨_, _, rfl, rfl⟩
  have hdone : opts.Complete [97, 10, 98, 10] := by
    refine ⟨by simp [hspace], fun _ => ⟨[97, 10, 98], rfl, by decide⟩⟩
  exact (phxargsMain_streams hcreate hdone [34, 99] false World.quiet World.quiet
    ⟨by decide +kernel, by decide +kernel⟩).1

/-- **The marker.** Where one of the whole lines of an input, as `getc` returns them from standard
input or from the file of `-a`, has the marker of `-E` as a word, the program ends as it does on
these lines alone: an open quote, a read error or any other input behind them has no influence. -/
theorem phxargsMain_stops_at_marker {m : Machine} {argv : List CStr} {opts : Options}
    {lines : List UInt8} {marker : CStr}
    (hopts : optionsCreateFrom m.sys.childMax argv = .ok opts) (hspace : opts.delimited = false)
    (hmarker : opts.logicalEndOfInputMarker = some marker)
    (hlines : (spaceTokenStream none lines false).Clean)
    (hmem : marker ∈ (spaceTokenStream none lines false).args) (more : List UInt8) (ferror : Bool)
    (w : World) :
    phxargsMain (m.reads (lines ++ [NEWLINE] ++ more) ferror) w argv
      = phxargsMain (m.reads (lines ++ [NEWLINE]) false) w argv := by
  obtain ⟨items, gap, htext, htokens⟩ := exists_words hlines
  have hmarked : ∃ item ∈ items, some marker = some item.word.value := by
    rw [TokenStream.args, htokens, List.map_map] at hmem
    obtain ⟨item, hitem, hvalue⟩ := List.mem_map.mp hmem
    exact ⟨item, hitem, congrArg some hvalue.symm⟩
  obtain ⟨stream, -, hstream⟩ := spaceTokenStream_marked hmarked
  -- Both runs have the same tokens, so they are the same run.
  have hcreate : xargsCreateFrom (m.reads (lines ++ [NEWLINE] ++ more) ferror) argv
      = xargsCreateFrom (m.reads (lines ++ [NEWLINE]) false) argv := by
    have hsame : ∀ fresh maxLength,
        xargsModeTokens fresh maxLength opts (lines ++ [NEWLINE] ++ more) ferror
          = xargsModeTokens fresh maxLength opts (lines ++ [NEWLINE]) false := by
      intro fresh maxLength
      simp only [xargsModeTokens, hspace, hmarker, Bool.false_eq_true, if_false]
      rw [htext, List.append_assoc, hstream, hstream]
    unfold xargsCreateFrom
    simp only [argSourceOpen_reads, commandCreateFrom_reads]
    simp only [Machine.reads, hopts, hsame]
  unfold phxargsMain
  rw [hcreate]

/-- `printf 'a\nz\n"' | phxargs -E z c`, with a read error behind it: the same as without the last
line. -/
theorem phxargsMain_stops_at_marker_line :
    (phxargsMain ((Machine.ofLines []).reads [97, 10, 122, 10, 34] true) World.quiet
        [[120], [45, 69], [122], [99]]).status
      = (phxargsMain ((Machine.ofLines []).reads [97, 10, 122, 10] false) World.quiet
        [[120], [45, 69], [122], [99]]).status := by
  obtain ⟨opts, hopts, hspace, hmarker⟩ : ∃ opts,
      optionsCreateFrom (Machine.ofLines []).sys.childMax [[120], [45, 69], [122], [99]] = .ok opts ∧
      opts.delimited = false ∧ opts.logicalEndOfInputMarker = some [122] := ⟨_, rfl, rfl, rfl⟩
  have hlines : (spaceTokenStream none [97, 10, 122] false).Clean := by decide
  have hstops := phxargsMain_stops_at_marker hopts hspace hmarker hlines (by decide) [34] true
    World.quiet
  exact congrArg ProcessEnd.status hstops

end Phxargs
