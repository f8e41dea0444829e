import Phxargs.Abstract.SpaceGrammar
import Phxargs.Model.SpaceTokenizer

/-!
# `Phxargs.Proofs.SpaceTokenizer`: the space tokenizer accepts its grammar

On the text of a parse, repeated calls of `next_space_token` give the stream of the parse.
The proof follows the input: blanks leave the tokenizer where it is, each segment appends its
value to the buffer and comes back to `IN_TOKEN`, and the byte after a word gives the token
and resets the tokenizer. `InWord` is what the tokenizer keeps between two segments. The
quote character is not part of it, because `IN_TOKEN` does not look at it.
-/

set_option autoImplicit false

namespace Phxargs

open SpaceTokenizer

/-- Inside of a word, behind segments with this value. -/
structure InWord (t : SpaceTokenizer) (marker : Option CStr) (value : List UInt8) : Prop where
  buf : t.buf = value
  err : t.err = .none
  state : t.state = .inToken
  tokenStart : t.tokenStart = 0
  marker : t.logicalEndOfInputMarker = marker

/-- The answer for a complete word. -/
def markedToken (marker : Option CStr) (value : CStr) : Option CStr :=
  if marker = some value then none else some value

/-! ### Blanks -/

/-- Between words, a blank does nothing. -/
theorem next_blank (ferror : Bool) (marker : Option CStr) (lineHasToken : Bool) {b : UInt8}
    (h : IsBlank b) (rest : List UInt8) :
    next ferror (create marker) lineHasToken (b :: rest)
      = next ferror (create marker) lineHasToken rest := by
  have hhandle : (create marker).handleNoTokenChar b lineHasToken = (create marker, lineHasToken) := by
    unfold handleNoTokenChar
    -- Also a newline: it does not count a line here.
    rcases h with rfl | rfl | rfl <;> rfl
  show next ferror ((create marker).handleNoTokenChar b lineHasToken).1
    ((create marker).handleNoTokenChar b lineHasToken).2 rest = _
  rw [hhandle]

theorem next_gap (ferror : Bool) (marker : Option CStr) (lineHasToken : Bool) (rest : List UInt8) :
    ∀ gap : List UInt8, (∀ b ∈ gap, IsBlank b) →
      next ferror (create marker) lineHasToken (gap ++ rest)
        = next ferror (create marker) lineHasToken rest := by
  intro gap
  induction gap with
  | nil => exact fun _ => rfl
  | cons b gap ih =>
      intro h
      rw [List.cons_append, next_blank ferror marker lineHasToken (h b (List.mem_cons_self ..))]
      exact ih fun b' hb' => h b' (List.mem_cons_of_mem _ hb')

/-! ### Segments -/

/-- Between quotes, in either of the two states. -/
def InQuotes (t : SpaceTokenizer) (q : Quote) : Prop :=
  (t.state = .inQuotedToken ∨ t.state = .inTokenQuoted) ∧ t.quoteChar = q.byte

/-- A byte between quotes that does not end the call. -/
theorem next_inQuotes {t t' : SpaceTokenizer} {q : Quote} {ch : UInt8} (h : InQuotes t q)
    (hhandle : t.handleQuotedChar ch = ⟨t', 0, none⟩) (ferror lineHasToken : Bool)
    (rest : List UInt8) :
    next ferror t lineHasToken (ch :: rest) = next ferror t' lineHasToken rest := by
  rcases h.1 with hstate | hstate
  · rw [next, hstate]
    simp only [hhandle]
  · rw [next, hstate]
    simp only [hhandle]

/-- A byte between quotes that ends the call. -/
theorem next_inQuotes_answer {t t' : SpaceTokenizer} {q : Quote} {ch : UInt8}
    {boundaries : Nat} {out : Option CStr} (h : InQuotes t q)
    (hhandle : t.handleQuotedChar ch = ⟨t', boundaries, some out⟩) (ferror lineHasToken : Bool)
    (rest : List UInt8) :
    next ferror t lineHasToken (ch :: rest) = ⟨out, boundaries, t', rest⟩ := by
  rcases h.1 with hstate | hstate
  · rw [next, hstate]
    simp only [hhandle]
  · rw [next, hstate]
    simp only [hhandle]

/-- The content of a quoted segment is appended as it is. -/
theorem next_enclosed (ferror lineHasToken : Bool) {q : Quote} (rest : List UInt8) :
    ∀ (content : List UInt8) {t : SpaceTokenizer}, InQuotes t q →
      (∀ b ∈ content, q.Encloses b) →
      next ferror t lineHasToken (content ++ rest)
        = next ferror { t with buf := t.buf ++ content } lineHasToken rest := by
  intro content
  induction content with
  | nil =>
      intro t _ _
      rw [List.append_nil]
      rfl
  | cons b content ih =>
      intro t ht h
      obtain ⟨hquote, hnewline⟩ := h b (List.mem_cons_self ..)
      have hhandle : t.handleQuotedChar b = ⟨t.appendToToken b, 0, none⟩ := by
        unfold handleQuotedChar
        -- Neither the closing quote nor a newline, so the byte is appended, a backslash too.
        rw [if_neg (by rw [ht.2]; exact hquote), if_neg hnewline]
      have hnext : InQuotes (t.appendToToken b) q := ht
      rw [List.cons_append, next_inQuotes ht hhandle, ih hnext fun b' hb' => h b' (List.mem_cons_of_mem _ hb')]
      show next ferror { t with buf := t.buf ++ [b] ++ content } lineHasToken rest = _
      rw [List.append_assoc, List.singleton_append]

/-- The closing quote leads back into the word. -/
theorem next_closing {t : SpaceTokenizer} {q : Quote} (h : InQuotes t q)
    (ferror lineHasToken : Bool) (rest : List UInt8) :
    next ferror t lineHasToken (q.byte :: rest)
      = next ferror { t with state := .inToken } lineHasToken rest := by
  have hhandle : t.handleQuotedChar q.byte = ⟨{ t with state := .inToken }, 0, none⟩ := by
    unfold handleQuotedChar
    rw [if_pos h.2.symm]
  exact next_inQuotes h hhandle ferror lineHasToken rest

/-- A quoted segment behind its opening quote. -/
theorem next_quoted {t : SpaceTokenizer} {q : Quote} (h : InQuotes t q)
    (ferror lineHasToken : Bool) {content : List UInt8} (hcontent : ∀ b ∈ content, q.Encloses b)
    (rest : List UInt8) :
    next ferror t lineHasToken (content ++ ([q.byte] ++ rest))
      = next ferror { t with buf := t.buf ++ content, state := .inToken } lineHasToken rest := by
  rw [next_enclosed ferror lineHasToken _ content h hcontent]
  have hnext : InQuotes { t with buf := t.buf ++ content } q := h
  exact next_closing hnext ferror lineHasToken rest

theorem Quote.byte_cases (q : Quote) : q.byte = SINGLE_QUOTE ∨ q.byte = DOUBLE_QUOTE := by
  cases q with
  | single => exact Or.inl rfl
  | double => exact Or.inr rfl

theorem Quote.byte_not_blank (q : Quote) :
    ¬ (q.byte = SPACE ∨ q.byte = TAB) ∧ q.byte ≠ NEWLINE := by
  cases q <;> decide

theorem IsBare.not_blank {b : UInt8} (h : IsBare b) :
    ¬ (b = SPACE ∨ b = TAB) ∧ b ≠ NEWLINE ∧ ¬ (b = SINGLE_QUOTE ∨ b = DOUBLE_QUOTE) ∧
      b ≠ BACKSLASH := by
  obtain ⟨hblank, hsingle, hdouble, hbackslash⟩ := h
  refine ⟨fun hb => hblank ?_, fun hb => hblank (Or.inr (Or.inr hb)), ?_, hbackslash⟩
  · rcases hb with hb | hb
    · exact Or.inl hb
    · exact Or.inr (Or.inl hb)
  · rintro (hb | hb)
    · exact hsingle hb
    · exact hdouble hb

/-- A byte inside of a word that does not end the call. -/
theorem next_inToken {t t' : SpaceTokenizer} {ch : UInt8} {lineHasToken : Bool}
    (h : t.state = .inToken) (hhandle : t.handleInTokenChar ch lineHasToken = ⟨t', 0, none⟩)
    (ferror : Bool) (rest : List UInt8) :
    next ferror t lineHasToken (ch :: rest) = next ferror t' lineHasToken rest := by
  rw [next, h]
  simp only [hhandle]

/-- A byte inside of a word that ends the call. -/
theorem next_inToken_answer {t t' : SpaceTokenizer} {ch : UInt8} {lineHasToken : Bool}
    {boundaries : Nat} {out : Option CStr} (h : t.state = .inToken)
    (hhandle : t.handleInTokenChar ch lineHasToken = ⟨t', boundaries, some out⟩)
    (ferror : Bool) (rest : List UInt8) :
    next ferror t lineHasToken (ch :: rest) = ⟨out, boundaries, t', rest⟩ := by
  rw [next, h]
  simp only [hhandle]

/-- An opening quote between words starts a token. -/
theorem next_opening (ferror : Bool) (marker : Option CStr) (lineHasToken : Bool) (q : Quote)
    (rest : List UInt8) :
    next ferror (create marker) lineHasToken (q.byte :: rest)
      = next ferror ((create marker).startQuotedToken q.byte) true rest := by
  have hhandle : (create marker).handleNoTokenChar q.byte lineHasToken
      = ((create marker).startQuotedToken q.byte, true) := by
    unfold handleNoTokenChar
    rw [if_neg q.byte_not_blank.1, if_neg q.byte_not_blank.2, if_pos q.byte_cases]
  show next ferror ((create marker).handleNoTokenChar q.byte lineHasToken).1
    ((create marker).handleNoTokenChar q.byte lineHasToken).2 rest = _
  rw [hhandle]

/-- An opening quote inside of a word goes on with its token. -/
theorem next_opening_inToken {t : SpaceTokenizer} (h : t.state = .inToken)
    (ferror lineHasToken : Bool) (q : Quote) (rest : List UInt8) :
    next ferror t lineHasToken (q.byte :: rest)
      = next ferror { t with state := .inTokenQuoted, quoteChar := q.byte } lineHasToken rest := by
  have hhandle : t.handleInTokenChar q.byte lineHasToken
      = ⟨{ t with state := .inTokenQuoted, quoteChar := q.byte }, 0, none⟩ := by
    unfold handleInTokenChar
    rw [if_neg q.byte_not_blank.1, if_neg q.byte_not_blank.2, if_pos q.byte_cases]
  exact next_inToken h hhandle ferror rest

/-- A segment inside of a word. -/
theorem next_segment {t : SpaceTokenizer} {marker : Option CStr} {value : List UInt8}
    (h : InWord t marker value) (ferror lineHasToken : Bool) (segment : Segment) :
    ∃ t', InWord t' marker (value ++ segment.value) ∧ ∀ rest,
      next ferror t lineHasToken (segment.text ++ rest) = next ferror t' lineHasToken rest := by
  obtain ⟨rfl, herr, hstate, hstart, hmarker⟩ := h
  cases segment with
  | bare b hb =>
      obtain ⟨hspace, hnewline, hquote, hbackslash⟩ := hb.not_blank
      have hhandle : t.handleInTokenChar b lineHasToken = ⟨t.appendToToken b, 0, none⟩ := by
        unfold handleInTokenChar
        rw [if_neg hspace, if_neg hnewline, if_neg hquote, if_neg hbackslash]
      refine ⟨t.appendToToken b, ⟨rfl, herr, hstate, hstart, hmarker⟩, fun rest => ?_⟩
      show next ferror t lineHasToken (b :: rest) = _
      exact next_inToken hstate hhandle ferror rest
  -- The escaped byte is not looked at, so a newline joins the word as well.
  | escaped b =>
      have hhandle : t.handleInTokenChar BACKSLASH lineHasToken = ⟨t.startInTokenEscape, 0, none⟩ := rfl
      refine ⟨t.startInTokenEscape.endEscape b, ⟨rfl, herr, rfl, hstart, hmarker⟩, fun rest => ?_⟩
      show next ferror t lineHasToken (BACKSLASH :: b :: rest) = _
      rw [next_inToken hstate hhandle]
      rfl
  | quoted q content hcontent =>
      have hquotes : InQuotes { t with state := .inTokenQuoted, quoteChar := q.byte } q :=
        ⟨Or.inr rfl, rfl⟩
      refine ⟨{ t with buf := t.buf ++ content, state := .inToken, quoteChar := q.byte },
        ⟨rfl, herr, rfl, hstart, hmarker⟩, fun rest => ?_⟩
      show next ferror t lineHasToken (q.byte :: content ++ [q.byte] ++ rest) = _
      rw [List.append_assoc, List.cons_append, next_opening_inToken hstate]
      exact next_quoted hquotes ferror lineHasToken hcontent rest

/-- The first segment of a word. -/
theorem next_first_segment (ferror : Bool) (marker : Option CStr) (segment : Segment) :
    ∃ t', InWord t' marker segment.value ∧ ∀ rest,
      next ferror (create marker) false (segment.text ++ rest) = next ferror t' true rest := by
  cases segment with
  | bare b hb =>
      obtain ⟨hspace, hnewline, hquote, hbackslash⟩ := hb.not_blank
      have hhandle : (create marker).handleNoTokenChar b false
          = ((create marker).startToken b, true) := by
        unfold handleNoTokenChar
        rw [if_neg hspace, if_neg hnewline, if_neg hquote, if_neg hbackslash]
      refine ⟨(create marker).startToken b, ⟨rfl, rfl, rfl, rfl, rfl⟩, fun rest => ?_⟩
      show next ferror ((create marker).handleNoTokenChar b false).1
        ((create marker).handleNoTokenChar b false).2 rest = _
      rw [hhandle]
  | escaped b =>
      -- `*line_has_token` is set by the backslash already.
      exact ⟨(create marker).startNoTokenEscape.endEscape b, ⟨rfl, rfl, rfl, rfl, rfl⟩,
        fun rest => rfl⟩
  | quoted q content hcontent =>
      have hquotes : InQuotes ((create marker).startQuotedToken q.byte) q := ⟨Or.inl rfl, rfl⟩
      refine ⟨{ (create marker).startQuotedToken q.byte with buf := [] ++ content, state := .inToken },
        ⟨rfl, rfl, rfl, rfl, rfl⟩, fun rest => ?_⟩
      show next ferror (create marker) false (q.byte :: content ++ [q.byte] ++ rest) = _
      rw [List.append_assoc, List.cons_append, next_opening]
      exact next_quoted hquotes ferror true hcontent rest

/-- The segments inside of a word. -/
theorem next_segments (ferror lineHasToken : Bool) (marker : Option CStr) :
    ∀ (segments : List Segment) {t : SpaceTokenizer} {value : List UInt8},
      InWord t marker value →
      ∃ t', InWord t' marker (value ++ segmentsValue segments) ∧ ∀ rest,
        next ferror t lineHasToken (segmentsText segments ++ rest)
          = next ferror t' lineHasToken rest := by
  intro segments
  induction segments with
  | nil =>
      intro t value h
      refine ⟨t, ?_, fun rest => rfl⟩
      rw [show segmentsValue [] = [] from rfl, List.append_nil]
      exact h
  | cons segment segments ih =>
      intro t value h
      obtain ⟨t₁, h₁, hstep⟩ := next_segment h ferror lineHasToken segment
      obtain ⟨t₂, h₂, hsteps⟩ := ih h₁
      refine ⟨t₂, ?_, fun rest => ?_⟩
      · rw [show segmentsValue (segment :: segments) = segment.value ++ segmentsValue segments
          from List.flatMap_cons, ← List.append_assoc]
        exact h₂
      · rw [show segmentsText (segment :: segments) = segment.text ++ segmentsText segments
          from List.flatMap_cons, List.append_assoc, hstep, hsteps]

/-- The segments at the start of a word. -/
theorem next_word_segments (ferror : Bool) (marker : Option CStr) {segments : List Segment}
    (hne : segments ≠ []) :
    ∃ t', InWord t' marker (segmentsValue segments) ∧ ∀ rest,
      next ferror (create marker) false (segmentsText segments ++ rest)
        = next ferror t' true rest := by
  cases segments with
  | nil => exact absurd rfl hne
  | cons segment segments =>
      obtain ⟨t₁, h₁, hstep⟩ := next_first_segment ferror marker segment
      obtain ⟨t₂, h₂, hsteps⟩ := next_segments ferror true marker segments h₁
      refine ⟨t₂, h₂, fun rest => ?_⟩
      rw [show segmentsText (segment :: segments) = segment.text ++ segmentsText segments
        from List.flatMap_cons, List.append_assoc, hstep, hsteps]

/-! ### The answers -/

/-- `space_tokenizer_end_token` returns the value of the word and resets the tokenizer. -/
theorem InWord.endToken {t : SpaceTokenizer} {marker : Option CStr} {value : List UInt8}
    (h : InWord t marker value) : t.endToken = (create marker, markedToken marker (cstr value)) := by
  obtain ⟨rfl, herr, -, hstart, rfl⟩ := h
  have hcstr : cstr ((t.buf ++ [0]).drop t.tokenStart) = cstr t.buf := by
    rw [hstart, List.drop_zero]
    -- The NUL that `end_token` adds is behind the value, and changes nothing if a NUL is inside.
    unfold cstr
    induction t.buf with
    | nil => rfl
    | cons b buf ih =>
        rw [List.cons_append, List.takeWhile_cons, List.takeWhile_cons, ih]
  show (_, if t.logicalEndOfInputMarker = some (cstr ((t.buf ++ [0]).drop t.tokenStart)) then none
    else some (cstr ((t.buf ++ [0]).drop t.tokenStart))) = _
  rw [hcstr]
  refine Prod.ext ?_ rfl
  show ({ t.add 0 with buf := [], state := _, quoteChar := _, tokenStart := _ } : SpaceTokenizer)
    = create _
  unfold create add
  rw [herr]

/-- A word that a blank ends. -/
theorem nextSpaceToken_terminated (ferror : Bool) (marker : Option CStr) (item : Terminated) (rest : List UInt8) :
    nextSpaceToken ferror (create marker) (item.text ++ rest)
      = ⟨markedToken marker item.word.value, item.parsed.token.boundaries, create marker, rest⟩ := by
  obtain ⟨t, ht, hsteps⟩ := next_word_segments ferror marker item.word.nonempty
  have hbytes : item.text ++ rest
      = item.gap.bytes ++ (segmentsText item.word.segments ++ (item.terminator :: rest)) := by
    simp [Terminated.text, Word.text]
  have hstart : nextSpaceToken ferror (create marker) (item.text ++ rest)
      = next ferror t true (item.terminator :: rest) := by
    rw [hbytes]
    show next ferror (create marker) false _ = _
    rw [next_gap ferror marker false _ _ item.gap.blank, hsteps]
  have hend := ht.endToken
  -- The terminator decides whether the boundary fires.
  by_cases hnewline : item.terminator = NEWLINE
  · have hhandle : t.handleInTokenChar item.terminator true
        = ⟨t.endToken.1, 1, some t.endToken.2⟩ := by
      rw [hnewline]
      rfl
    have hboundary : item.parsed.token.boundaries = 1 := if_pos (decide_eq_true hnewline)
    rw [hstart, next_inToken_answer ht.state hhandle, hend, hboundary]
    rfl
  · have hspace : item.terminator = SPACE ∨ item.terminator = TAB := by
      rcases item.blank with h | h | h
      · exact Or.inl h
      · exact Or.inr h
      · exact absurd h hnewline
    have hhandle : t.handleInTokenChar item.terminator true
        = ⟨t.endToken.1, 0, some t.endToken.2⟩ := by
      unfold handleInTokenChar
      rw [if_pos hspace]
    have hboundary : item.parsed.token.boundaries = 0 :=
      if_neg (by rw [show item.parsed.lineFinal = false from decide_eq_false hnewline]; decide)
    rw [hstart, next_inToken_answer ht.state hhandle, hend, hboundary]
    rfl

/-- A word that the end of the input ends. -/
theorem nextSpaceToken_lastWord (marker : Option CStr) (gap : Gap) (word : Word) :
    nextSpaceToken false (create marker) (Ending.lastWord gap word).text
      = ⟨markedToken marker word.value, 1, create marker, []⟩ := by
  obtain ⟨t, ht, hsteps⟩ := next_word_segments false marker word.nonempty
  show next false (create marker) false (gap.bytes ++ segmentsText word.segments) = _
  rw [next_gap false marker false _ _ gap.blank, ← List.append_nil (segmentsText word.segments),
    hsteps]
  show t.handleEof false true = _
  unfold handleEof
  rw [ht.state, ht.endToken]
  rfl

/-- Nothing but blanks. -/
theorem nextSpaceToken_blanks (marker : Option CStr) (gap : Gap) :
    nextSpaceToken false (create marker) gap.bytes = ⟨none, 0, create marker, []⟩ := by
  show next false (create marker) false gap.bytes = _
  rw [← List.append_nil gap.bytes, next_gap false marker false _ _ gap.blank]
  rfl

/-- The state in which the byte behind some segments is read: at the start, or in a word. -/
theorem next_after_segments (marker : Option CStr) (gap : Gap) (segments : List Segment) :
    ∃ t lineHasToken, (t = create marker ∨ ∃ value, InWord t marker value) ∧ ∀ rest,
      nextSpaceToken false (create marker) (gap.bytes ++ (segmentsText segments ++ rest))
        = next false t lineHasToken rest := by
  by_cases hne : segments = []
  · refine ⟨create marker, false, Or.inl rfl, fun rest => ?_⟩
    rw [hne]
    exact next_gap false marker false rest gap.bytes gap.blank
  · obtain ⟨t, ht, hsteps⟩ := next_word_segments false marker hne
    refine ⟨t, true, Or.inr ⟨_, ht⟩, fun rest => ?_⟩
    show next false (create marker) false _ = _
    rw [next_gap false marker false _ _ gap.blank, hsteps]

/-- A quote that is not closed. -/
theorem nextSpaceToken_openQuote (marker : Option CStr) (gap : Gap) (segments : List Segment)
    (q : Quote) (content : List UInt8) (hcontent : ∀ b ∈ content, q.Encloses b)
    (rest : List UInt8) (hrest : ∀ b ∈ rest.head?, b = NEWLINE) :
    ∃ t rest', t.err = .unterminatedQuote ∧
      nextSpaceToken false (create marker)
          (Ending.openQuote gap segments q content hcontent rest hrest).text
        = ⟨none, 0, t, rest'⟩ := by
  obtain ⟨t, lineHasToken, ht, hsteps⟩ := next_after_segments marker gap segments
  -- Both states read the opening quote and then the content.
  have hopen : ∃ t' lineHasToken', InQuotes t' q ∧
      next false t lineHasToken (q.byte :: content ++ rest)
        = next false t' lineHasToken' (content ++ rest) := by
    rcases ht with rfl | ⟨value, ht⟩
    · refine ⟨(create marker).startQuotedToken q.byte, true, ⟨Or.inl rfl, rfl⟩, ?_⟩
      rw [List.cons_append, next_opening]
    · refine ⟨{ t with state := .inTokenQuoted, quoteChar := q.byte }, lineHasToken,
        ⟨Or.inr rfl, rfl⟩, ?_⟩
      rw [List.cons_append, next_opening_inToken ht.state]
  obtain ⟨t', lineHasToken', hquotes, hfirst⟩ := hopen
  have hbytes : (Ending.openQuote gap segments q content hcontent rest hrest).text
      = gap.bytes ++ (segmentsText segments ++ (q.byte :: content ++ rest)) := rfl
  rw [hbytes, hsteps, hfirst, next_enclosed false lineHasToken' rest content hquotes hcontent]
  have hquotes' : InQuotes { t' with buf := t'.buf ++ content } q := hquotes
  cases rest with
  | nil =>
      refine ⟨{ t' with buf := t'.buf ++ content }.setError .unterminatedQuote, [], rfl, ?_⟩
      show ({ t' with buf := t'.buf ++ content } : SpaceTokenizer).handleEof false lineHasToken' = _
      unfold handleEof
      have hstate : t'.state = .inQuotedToken ∨ t'.state = .inTokenQuoted := hquotes'.1
      have hescape : ¬ (t'.state = .inTokenEscape ∨ t'.state = .noTokenEscape) := by
        rcases hstate with h | h <;> simp [h]
      rw [if_neg Bool.false_ne_true, if_neg hescape, if_pos hstate]
  | cons b rest =>
      have hb : b = NEWLINE := hrest b rfl
      refine ⟨{ t' with buf := t'.buf ++ content }.setError .unterminatedQuote, rest, rfl, ?_⟩
      have hhandle : ({ t' with buf := t'.buf ++ content } : SpaceTokenizer).handleQuotedChar b
          = ⟨{ t' with buf := t'.buf ++ content }.setError .unterminatedQuote, 0, some none⟩ := by
        unfold handleQuotedChar
        rw [if_neg (by rw [hquotes'.2, hb]; exact (q.byte_not_blank.2).symm), if_pos hb]
      exact next_inQuotes_answer hquotes' hhandle false lineHasToken' rest

/-- A backslash at the end of the input. -/
theorem nextSpaceToken_backslash (marker : Option CStr) (gap : Gap) (segments : List Segment) :
    ∃ t, t.err = .backslashAtEof ∧
      nextSpaceToken false (create marker) (Ending.backslash gap segments).text
        = ⟨none, 0, t, []⟩ := by
  obtain ⟨t, lineHasToken, ht, hsteps⟩ := next_after_segments marker gap segments
  have hbytes : (Ending.backslash gap segments).text
      = gap.bytes ++ (segmentsText segments ++ [BACKSLASH]) := rfl
  rw [hbytes, hsteps]
  rcases ht with rfl | ⟨value, ht⟩
  · exact ⟨(create marker).startNoTokenEscape.setError .backslashAtEof, rfl, rfl⟩
  · refine ⟨t.startInTokenEscape.setError .backslashAtEof, rfl, ?_⟩
    have hhandle : t.handleInTokenChar BACKSLASH lineHasToken = ⟨t.startInTokenEscape, 0, none⟩ :=
      rfl
    rw [next_inToken ht.state hhandle]
    rfl

/-! ### The stream -/

theorem markedToken_eq_none {marker : Option CStr} {value : CStr} (h : marker = some value) :
    markedToken marker value = none := if_pos h

theorem markedToken_eq_some {marker : Option CStr} {value : CStr} (h : marker ≠ some value) :
    markedToken marker value = some value := if_neg h

/-- A call that answers `NULL` ends the stream. -/
theorem spaceTokensFrom_null {ferror : Bool} {n : Nat} {t t' : SpaceTokenizer} {bytes rest : List UInt8}
    {boundaries : Nat} (h : nextSpaceToken ferror t bytes = ⟨none, boundaries, t', rest⟩) :
    spaceTokensFrom ferror (n + 1) t bytes = ⟨[], boundaries, t'.err⟩ := by
  rw [spaceTokensFrom]
  simp only [h]

/-- A call that answers a token continues with the rest of the input. -/
theorem spaceTokensFrom_token {ferror : Bool} {n : Nat} {t t' : SpaceTokenizer} {bytes rest : List UInt8}
    (token : Token) (h : nextSpaceToken ferror t bytes = ⟨some token.arg, token.boundaries, t', rest⟩) :
    spaceTokensFrom ferror (n + 1) t bytes =
      { spaceTokensFrom ferror n t' rest with
        tokens := token :: (spaceTokensFrom ferror n t' rest).tokens } := by
  rw [spaceTokensFrom]
  simp only [h]

/-- The stream of an ending. -/
theorem spaceTokensFrom_ending (marker : Option CStr) (ending : Ending) {n : Nat}
    (hn : ending.words.length < n) :
    spaceTokensFrom false n (create marker) ending.text = Parse.stream ⟨[], ending⟩ marker := by
  obtain ⟨n, rfl⟩ : ∃ m, n = m + 1 := ⟨n - 1, by omega⟩
  cases ending with
  | blanks gap => exact spaceTokensFrom_null (nextSpaceToken_blanks marker gap)
  | lastWord gap word =>
      have hanswer := nextSpaceToken_lastWord marker gap word
      -- The last word can be the marker. Its boundary then comes with the `NULL`.
      by_cases hmarker : marker = some word.value
      · rw [markedToken_eq_none hmarker] at hanswer
        rw [spaceTokensFrom_null hanswer]
        simp [Parse.stream, Parse.words, Ending.words, ParsedWord.token, hmarker, create]
      · rw [markedToken_eq_some hmarker] at hanswer
        have hlast : ((⟨word, true⟩ : ParsedWord).token).boundaries = 1 := rfl
        obtain ⟨n, rfl⟩ : ∃ m, n = m + 1 := by
          have hlen : (Ending.words (.lastWord gap word)).length = 1 := rfl
          exact ⟨n - 1, by omega⟩
        have hend : spaceTokensFrom false (n + 1) (create marker) [] = ⟨[], 0, .none⟩ :=
          spaceTokensFrom_null (nextSpaceToken_blanks marker ⟨[], List.forall_mem_nil _⟩)
        rw [spaceTokensFrom_token (⟨word, true⟩ : ParsedWord).token hanswer, hend]
        simp [Parse.stream, Parse.words, Ending.words, Parse.error, Ending.error,
          ParsedWord.token, hmarker]
  | openQuote gap segments q content hcontent rest hrest =>
      obtain ⟨t, rest', herr, hanswer⟩ :=
        nextSpaceToken_openQuote marker gap segments q content hcontent rest hrest
      rw [spaceTokensFrom_null hanswer, herr]
      rfl
  | backslash gap segments =>
      obtain ⟨t, herr, hanswer⟩ := nextSpaceToken_backslash marker gap segments
      rw [spaceTokensFrom_null hanswer, herr]
      rfl

/-- **The tokenizer on the text of a parse.** Induction on the words that a blank ends. -/
theorem spaceTokensFrom_text (marker : Option CStr) (ending : Ending) :
    ∀ (items : List Terminated) {n : Nat}, (Parse.words ⟨items, ending⟩).length < n →
      spaceTokensFrom false n (create marker) (Parse.text ⟨items, ending⟩)
        = Parse.stream ⟨items, ending⟩ marker := by
  intro items
  induction items with
  | nil =>
      intro n hn
      exact spaceTokensFrom_ending marker ending hn
  | cons item items ih =>
      intro n hn
      obtain ⟨n, rfl⟩ : ∃ m, n = m + 1 := ⟨n - 1, by omega⟩
      have htext : Parse.text ⟨item :: items, ending⟩
          = item.text ++ Parse.text ⟨items, ending⟩ := by
        simp [Parse.text]
      have hwords : Parse.words ⟨item :: items, ending⟩
          = item.parsed :: Parse.words ⟨items, ending⟩ := rfl
      have hanswer := nextSpaceToken_terminated false marker item (Parse.text ⟨items, ending⟩)
      rw [htext]
      -- At the marker the stream stops, whatever follows it in the input.
      by_cases hmarker : marker = some item.word.value
      · rw [markedToken_eq_none hmarker] at hanswer
        rw [spaceTokensFrom_null hanswer]
        have harg : marker = some item.parsed.token.arg := hmarker
        simp [Parse.stream, hwords, harg, create]
      · rw [markedToken_eq_some hmarker] at hanswer
        rw [hwords, List.length_cons] at hn
        rw [spaceTokensFrom_token item.parsed.token hanswer, ih (by omega)]
        have harg : ¬ marker = some item.parsed.token.arg := hmarker
        simp [Parse.stream, hwords, harg, Parse.error]

/-- Every word takes at least one byte. -/
theorem Word.text_ne_nil (word : Word) : word.text ≠ [] := by
  obtain ⟨segments, hne⟩ := word
  cases segments with
  | nil => exact absurd rfl hne
  | cons segment segments =>
      show segment.text ++ segmentsText segments ≠ []
      cases segment <;> simp [Segment.text]

/-- So there are at most as many words as bytes. -/
theorem Parse.words_length_le (p : Parse) : p.words.length ≤ p.text.length := by
  obtain ⟨items, ending⟩ := p
  -- Only the ending with a last word has one.
  -- Of the four endings, only a last word is a word.
  have hending : ending.words.length ≤ ending.text.length := by
    cases ending with
    | lastWord gap word =>
        have hpos := List.length_pos_iff.mpr word.text_ne_nil
        show 1 ≤ (gap.bytes ++ word.text).length
        rw [List.length_append]
        omega
    | blanks gap => exact Nat.zero_le _
    | openQuote gap segments q content hcontent rest hrest => exact Nat.zero_le _
    | backslash gap segments => exact Nat.zero_le _
  show (items.map Terminated.parsed ++ ending.words).length
    ≤ (items.flatMap Terminated.text ++ ending.text).length
  induction items with
  | nil => exact hending
  | cons item items ih =>
      have hitem : 1 ≤ item.text.length := by
        show 1 ≤ (item.gap.bytes ++ (item.word.text ++ [item.terminator])).length
        simp only [List.length_append, List.length_singleton]
        omega
      simp only [List.map_cons, List.cons_append, List.length_cons, List.flatMap_cons,
        List.append_assoc, List.length_append] at ih ⊢
      omega

/-- The stream of the tokenizer is the stream of every parse of the input. -/
theorem spaceTokenStream_eq (marker : Option CStr) (p : Parse) :
    spaceTokenStream marker p.text false = p.stream marker :=
  spaceTokensFrom_text marker p.ending p.items (Nat.lt_succ_of_le p.words_length_le)

/-- Without a marker, the stream has all words, and the error of the parse. -/
theorem Parse.stream_none (p : Parse) :
    p.stream none = ⟨p.words.map ParsedWord.token, 0, p.error⟩ := by
  have htake : ∀ tokens : List Token,
      tokens.takeWhile (fun token => decide ((none : Option CStr) ≠ some token.arg)) = tokens :=
    fun tokens => List.takeWhile_eq_self_iff.mpr fun token _ => by simp
  have hfind : ∀ tokens : List Token,
      tokens.find? (fun token => decide ((none : Option CStr) = some token.arg)) = none :=
    fun tokens => List.find?_eq_none.mpr fun token _ => by simp
  have hany : ∀ tokens : List Token,
      ¬ tokens.any (fun token => decide ((none : Option CStr) = some token.arg)) = true :=
    fun tokens => by simp
  unfold Parse.stream
  rw [htake, hfind, if_neg (hany _)]

/-- The values of the words, in order. -/
def Parse.values (p : Parse) : List CStr := p.words.map fun w => w.word.value

/-- **The space tokenizer accepts exactly its grammar.** Every input has a parse, and every
parse of it says what the calls of `next_space_token` answer, however many calls are made:
without a marker, the values of the words that are complete, then `NULL`. No error is set if
and only if the whole input is a sequence of words and blanks. Otherwise the error is
`UNTERMINATED_QUOTE` for a quote that is open at a newline or at the end, and
`BACKSLASH_AT_EOF` for an unquoted backslash at the end. With a marker the answers are the
words before the first one that equals it, and then no error. -/
theorem spaceTokenizer_accepts_grammar (bytes : List UInt8) :
    (∃ p : Parse, p.text = bytes) ∧
    ((spaceTokenStream none bytes false).Clean ↔ ∃ p : Parse, p.text = bytes ∧ p.WellFormed) ∧
    (∀ p : Parse, p.text = bytes →
      (∀ n, bytes.length < n →
        spaceTokensFrom false n (SpaceTokenizer.create none) bytes
          = spaceTokenStream none bytes false) ∧
      (spaceTokenStream none bytes false).args = p.values ∧
      (spaceTokenStream none bytes false).endError =
        (match p.ending with
          | .blanks _ | .lastWord _ _ => .none
          | .openQuote _ _ _ _ _ _ _ => .unterminatedQuote
          | .backslash _ _ => .backslashAtEof) ∧
      ∀ marker,
        (spaceTokenStream (some marker) bytes false).args = p.values.takeWhile (· ≠ marker) ∧
        (spaceTokenStream (some marker) bytes false).endError =
          if marker ∈ p.values then .none else (spaceTokenStream none bytes false).endError) := by
  refine ⟨exists_parse bytes, ?_, ?_⟩
  · constructor
    · intro hclean
      obtain ⟨p, rfl⟩ := exists_parse bytes
      refine ⟨p, rfl, p.wellFormed_iff.mpr ?_⟩
      rw [spaceTokenStream_eq, Parse.stream_none] at hclean
      exact hclean
    · rintro ⟨p, rfl, hp⟩
      rw [spaceTokenStream_eq, Parse.stream_none]
      exact p.wellFormed_iff.mp hp
  · rintro p rfl
    have herror : p.error = (match p.ending with
        | .blanks _ | .lastWord _ _ => .none
        | .openQuote _ _ _ _ _ _ _ => .unterminatedQuote
        | .backslash _ _ => .backslashAtEof) := by
      show p.ending.error = _
      cases p.ending <;> rfl
    have hargs : (p.words.map ParsedWord.token).map Token.arg = p.values := by
      rw [List.map_map]
      rfl
    refine ⟨?_, ?_, ?_, ?_⟩
    · intro n hn
      rw [spaceTokenStream_eq]
      exact spaceTokensFrom_text none p.ending p.items
        (Nat.lt_of_le_of_lt p.words_length_le hn)
    · rw [spaceTokenStream_eq, Parse.stream_none]
      exact hargs
    · rw [spaceTokenStream_eq, Parse.stream_none]
      exact herror
    · intro marker
      rw [spaceTokenStream_eq, spaceTokenStream_eq, Parse.stream_none]
      constructor
      · show ((p.words.map ParsedWord.token).takeWhile _).map Token.arg = _
        have hkeep : (fun token : Token => decide (some marker ≠ some token.arg))
            = (fun arg => decide (arg ≠ marker)) ∘ Token.arg := by
          funext token
          exact decide_eq_decide.mpr ⟨fun h e => h (congrArg some e.symm),
            fun h e => h (Option.some.inj e).symm⟩
        rw [← hargs, hkeep]
        exact List.takeWhile_map.symm
      · show (if (p.words.map ParsedWord.token).any _ = true then _ else p.error) = _
        have hmember : (p.words.map ParsedWord.token).any
            (fun token => decide (some marker = some token.arg)) = true ↔ marker ∈ p.values := by
          rw [← hargs, List.any_eq_true, List.mem_map]
          constructor
          · rintro ⟨token, htoken, hmarker⟩
            exact ⟨token, htoken, (Option.some.inj (of_decide_eq_true hmarker)).symm⟩
          · rintro ⟨token, htoken, rfl⟩
            exact ⟨token, htoken, decide_eq_true rfl⟩
        simp only [hmember]

/-- The input `a "b "\c` and an open quote behind a newline. -/
theorem spaceTokenizer_accepts_quoted :
    (spaceTokenStream none [97, 32, 34, 98, 32, 34, 92, 99, 10, 39, 100] false).args
        = [[97], [98, 32, 99]] ∧
      (spaceTokenStream none [97, 32, 34, 98, 32, 34, 92, 99, 10, 39, 100] false).endError
        = .unterminatedQuote := by
  have hgrammar := (spaceTokenizer_accepts_grammar
    [97, 32, 34, 98, 32, 34, 92, 99, 10, 39, 100]).2.2
    { items :=
        [⟨⟨[], by simp⟩, ⟨[.bare 97 (by decide)], by simp⟩, 32, by decide⟩,
          ⟨⟨[], by simp⟩, ⟨[.quoted .double [98, 32] (by simp; decide), .escaped 99], by simp⟩, 10,
            by decide⟩]
      ending := .openQuote ⟨[], by simp⟩ [] .single [100] (by simp; decide) [] (by simp) } rfl
  exact ⟨hgrammar.2.1, hgrammar.2.2.1⟩

end Phxargs
