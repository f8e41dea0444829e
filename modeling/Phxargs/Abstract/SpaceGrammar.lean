import Phxargs.Model.Tokenizer

/-!
# `Phxargs.Abstract.SpaceGrammar`: the input language of the space tokenizer

What the space tokenizer is for, without its automaton. A `Word` is a non-empty sequence of
segments, and a `Segment` carries the conditions on its bytes. A `Parse` is a sequence of
words, each ended by a blank, and what follows the last blank: nothing, a word that the end
of the input ends, or a malformed word.

`Parse.text` is the input of a parse, and `Parse.stream` is what the tokenizer must answer on
it. `exists_parse` shows that every input has a parse, so together they say what every input
means. An input is well-formed if its parse does not end in a malformed word.
-/

set_option autoImplicit false

namespace Phxargs

/-- A byte that separates words. -/
def IsBlank (b : UInt8) : Prop := b = SPACE ∨ b = TAB ∨ b = NEWLINE

instance (b : UInt8) : Decidable (IsBlank b) :=
  inferInstanceAs (Decidable (b = SPACE ∨ b = TAB ∨ b = NEWLINE))

/-- A quote character. -/
inductive Quote where
  | single
  | double
  deriving DecidableEq, Repr

def Quote.byte : Quote → UInt8
  | .single => SINGLE_QUOTE
  | .double => DOUBLE_QUOTE

/-- A byte that may stand for itself outside of quotes. -/
def IsBare (b : UInt8) : Prop :=
  ¬ IsBlank b ∧ b ≠ SINGLE_QUOTE ∧ b ≠ DOUBLE_QUOTE ∧ b ≠ BACKSLASH

instance (b : UInt8) : Decidable (IsBare b) :=
  inferInstanceAs (Decidable (¬ IsBlank b ∧ b ≠ SINGLE_QUOTE ∧ b ≠ DOUBLE_QUOTE ∧ b ≠ BACKSLASH))

/-- A byte that may stand between these quotes. -/
def Quote.Encloses (q : Quote) (b : UInt8) : Prop := b ≠ q.byte ∧ b ≠ NEWLINE

instance (q : Quote) (b : UInt8) : Decidable (q.Encloses b) :=
  inferInstanceAs (Decidable (b ≠ q.byte ∧ b ≠ NEWLINE))

/-- A part of a word. -/
inductive Segment where
  | bare (b : UInt8) (bare : IsBare b)
  | escaped (b : UInt8)
  | quoted (q : Quote) (content : List UInt8) (enclosed : ∀ b ∈ content, q.Encloses b)

/-- The bytes of a segment in the input. -/
def Segment.text : Segment → List UInt8
  | .bare b _ => [b]
  | .escaped b => [BACKSLASH, b]
  | .quoted q content _ => q.byte :: content ++ [q.byte]

/-- The bytes that a segment stands for. -/
def Segment.value : Segment → List UInt8
  | .bare b _ => [b]
  | .escaped b => [b]
  | .quoted _ content _ => content

/-- The bytes of a sequence of segments in the input. -/
def segmentsText (segments : List Segment) : List UInt8 := segments.flatMap Segment.text

/-- The bytes that a sequence of segments stands for. -/
def segmentsValue (segments : List Segment) : List UInt8 := segments.flatMap Segment.value

/-- A word: a non-empty sequence of segments. -/
structure Word where
  segments : List Segment
  nonempty : segments ≠ []

def Word.text (word : Word) : List UInt8 := segmentsText word.segments

/-- The value of a word is a C string: it ends before the first NUL byte. -/
def Word.value (word : Word) : CStr := cstr (segmentsValue word.segments)

/-- A run of blanks. -/
structure Gap where
  bytes : List UInt8
  blank : ∀ b ∈ bytes, IsBlank b

/-- A word with the blanks before it and the blank that ends it. -/
structure Terminated where
  gap : Gap
  word : Word
  terminator : UInt8
  blank : IsBlank terminator

def Terminated.text (item : Terminated) : List UInt8 :=
  item.gap.bytes ++ (item.word.text ++ [item.terminator])

/-- What follows the last word that a blank ends. -/
inductive Ending where
  /-- Nothing but blanks. -/
  | blanks (gap : Gap)
  /-- A word that the end of the input ends. -/
  | lastWord (gap : Gap) (word : Word)
  /-- A quote that is still open where a newline or the end of the input comes. -/
  | openQuote (gap : Gap) (segments : List Segment) (q : Quote) (content : List UInt8)
      (enclosed : ∀ b ∈ content, q.Encloses b) (rest : List UInt8)
      (unclosed : ∀ b ∈ rest.head?, b = NEWLINE)
  /-- An unquoted backslash, and the end of the input right after it. -/
  | backslash (gap : Gap) (segments : List Segment)

def Ending.text : Ending → List UInt8
  | .blanks gap => gap.bytes
  | .lastWord gap word => gap.bytes ++ word.text
  | .openQuote gap segments q content _ rest _ =>
      gap.bytes ++ (segmentsText segments ++ (q.byte :: content ++ rest))
  | .backslash gap segments => gap.bytes ++ (segmentsText segments ++ [BACKSLASH])

/-- The error of the ending. -/
def Ending.error : Ending → TokenizerError
  | .blanks _ => .none
  | .lastWord _ _ => .none
  | .openQuote _ _ _ _ _ _ _ => .unterminatedQuote
  | .backslash _ _ => .backslashAtEof

/-- The words of an input, read from the left. -/
structure Parse where
  items : List Terminated
  ending : Ending

/-- The input. -/
def Parse.text (p : Parse) : List UInt8 := p.items.flatMap Terminated.text ++ p.ending.text

/-- The error at the end of the input. -/
def Parse.error (p : Parse) : TokenizerError := p.ending.error

/-- The whole input is a sequence of words separated by blanks. -/
def Parse.WellFormed (p : Parse) : Prop :=
  match p.ending with
  | .blanks _ => True
  | .lastWord _ _ => True
  | .openQuote _ _ _ _ _ _ _ => False
  | .backslash _ _ => False

/-- A word of the input, and whether it is line-final: the byte that ends it is a newline, or
the end of the input ends it. -/
structure ParsedWord where
  word : Word
  lineFinal : Bool

def Terminated.parsed (item : Terminated) : ParsedWord :=
  ⟨item.word, item.terminator = NEWLINE⟩

def Ending.words : Ending → List ParsedWord
  | .blanks _ => []
  | .lastWord _ word => [⟨word, true⟩]
  | .openQuote _ _ _ _ _ _ _ => []
  | .backslash _ _ => []

/-- The words that are completed before the end of the input or the malformed word. -/
def Parse.words (p : Parse) : List ParsedWord := p.items.map Terminated.parsed ++ p.ending.words

/-- The token of a word. A line-final word carries a boundary. -/
def ParsedWord.token (w : ParsedWord) : Token where
  arg := w.word.value
  boundaries := if w.lineFinal then 1 else 0
  boundaries_le := by split <;> omega

/-- What the tokenizer must answer: the words up to the one that equals the marker, and
after that word no error. -/
def Parse.stream (p : Parse) (marker : Option CStr) : TokenStream where
  tokens := (p.words.map ParsedWord.token).takeWhile fun token => marker ≠ some token.arg
  endBoundaries :=
    match (p.words.map ParsedWord.token).find? fun token => marker = some token.arg with
    | some token => token.boundaries
    | none => 0
  endError :=
    if (p.words.map ParsedWord.token).any fun token => marker = some token.arg then
      .none
    else
      p.error

theorem Parse.wellFormed_iff (p : Parse) : p.WellFormed ↔ p.error = .none := by
  obtain ⟨items, ending⟩ := p
  cases ending <;> simp [Parse.WellFormed, Parse.error, Ending.error]

/-! ### Every input has a parse -/

/-- What can stand behind the segments at the start of a word. -/
inductive Stop : List UInt8 → Prop where
  | endOfInput : Stop []
  | blank (b : UInt8) (rest : List UInt8) : IsBlank b → Stop (b :: rest)
  | openQuote (q : Quote) (content rest : List UInt8) : (∀ b ∈ content, q.Encloses b) →
      (∀ b ∈ rest.head?, b = NEWLINE) → Stop (q.byte :: content ++ rest)
  | backslash : Stop [BACKSLASH]

/-- The bytes that the quotes enclose, up to the first one that they do not. -/
theorem exists_enclosed (q : Quote) : ∀ bytes : List UInt8,
    ∃ content rest, bytes = content ++ rest ∧ (∀ b ∈ content, q.Encloses b) ∧
      ∀ b ∈ rest.head?, b = q.byte ∨ b = NEWLINE := by
  intro bytes
  induction bytes with
  | nil => exact ⟨[], [], rfl, fun _ h => (List.not_mem_nil h).elim, fun _ h => nomatch h⟩
  | cons b bytes ih =>
      by_cases hb : b = q.byte ∨ b = NEWLINE
      · refine ⟨[], b :: bytes, rfl, fun _ h => (List.not_mem_nil h).elim, ?_⟩
        intro b' hb'
        obtain rfl : b' = b := by simpa using hb'.symm
        exact hb
      · obtain ⟨content, rest, hbytes, hcontent, hrest⟩ := ih
        refine ⟨b :: content, rest, by rw [hbytes, List.cons_append], ?_, hrest⟩
        intro b' hb'
        rcases List.mem_cons.mp hb' with rfl | hb'
        · exact ⟨fun h => hb (Or.inl h), fun h => hb (Or.inr h)⟩
        · exact hcontent b' hb'

/-- Segments are read as far as they go. Induction on the length of the input; each segment
takes at least one byte. -/
theorem exists_segments : ∀ (n : Nat) (bytes : List UInt8), bytes.length ≤ n →
    ∃ segments rest, bytes = segmentsText segments ++ rest ∧ Stop rest := by
  intro n
  induction n with
  | zero =>
      intro bytes hlen
      have hnil : bytes = [] := List.length_eq_zero_iff.mp (Nat.le_zero.mp hlen)
      exact ⟨[], [], hnil, .endOfInput⟩
  | succ n ih =>
      intro bytes hlen
      cases bytes with
      | nil => exact ⟨[], [], rfl, .endOfInput⟩
      | cons b tail =>
          rw [List.length_cons] at hlen
          -- One more segment in front of what the induction gives.
          have hmore : ∀ (segment : Segment) (rest : List UInt8),
              b :: tail = segment.text ++ rest → rest.length ≤ n →
              ∃ segments rest, b :: tail = segmentsText segments ++ rest ∧ Stop rest := by
            intro segment rest hsplit hrest
            obtain ⟨segments, rest', hrest', hstop⟩ := ih rest hrest
            refine ⟨segment :: segments, rest', ?_, hstop⟩
            rw [hsplit, hrest', segmentsText, segmentsText, List.flatMap_cons, List.append_assoc]
          have hquote : ∀ q : Quote, b = q.byte →
              ∃ segments rest, b :: tail = segmentsText segments ++ rest ∧ Stop rest := by
            intro q hq
            obtain ⟨content, rest, htail, hcontent, hrest⟩ := exists_enclosed q tail
            cases rest with
            | nil =>
                refine ⟨[], b :: tail, rfl, ?_⟩
                rw [hq, htail]
                exact .openQuote q content [] hcontent fun _ h => nomatch h
            | cons c rest =>
                rcases hrest c rfl with hc | hc
                · refine hmore (.quoted q content hcontent) rest ?_ ?_
                  · rw [hq, htail, hc]
                    simp [Segment.text]
                  · rw [htail, List.length_append, List.length_cons] at hlen
                    omega
                · refine ⟨[], b :: tail, rfl, ?_⟩
                  rw [hq, htail]
                  refine .openQuote q content (c :: rest) hcontent ?_
                  intro b' hb'
                  obtain rfl : b' = c := by simpa using hb'.symm
                  exact hc
          by_cases hblank : IsBlank b
          · exact ⟨[], b :: tail, rfl, .blank b tail hblank⟩
          · by_cases hsingle : b = SINGLE_QUOTE
            · exact hquote .single hsingle
            · by_cases hdouble : b = DOUBLE_QUOTE
              · exact hquote .double hdouble
              · by_cases hbackslash : b = BACKSLASH
                · cases tail with
                  | nil =>
                      refine ⟨[], [b], rfl, ?_⟩
                      rw [hbackslash]
                      exact .backslash
                  | cons c tail =>
                      refine hmore (.escaped c) tail ?_ ?_
                      · rw [hbackslash]
                        rfl
                      · rw [List.length_cons] at hlen
                        omega
                · exact hmore (.bare b ⟨hblank, hsingle, hdouble, hbackslash⟩) tail rfl (by omega)

/-- The blanks at the start of an input. -/
theorem exists_gap : ∀ bytes : List UInt8, ∃ (gap : Gap) (rest : List UInt8),
    bytes = gap.bytes ++ rest ∧ ∀ b ∈ rest.head?, ¬ IsBlank b := by
  intro bytes
  induction bytes with
  | nil => exact ⟨⟨[], fun _ h => (List.not_mem_nil h).elim⟩, [], rfl, fun _ h => nomatch h⟩
  | cons b bytes ih =>
      by_cases hb : IsBlank b
      · obtain ⟨gap, rest, hbytes, hrest⟩ := ih
        refine ⟨⟨b :: gap.bytes, ?_⟩, rest, by rw [hbytes, List.cons_append], hrest⟩
        intro b' hb'
        rcases List.mem_cons.mp hb' with rfl | hb'
        · exact hb
        · exact gap.blank b' hb'
      · refine ⟨⟨[], fun _ h => (List.not_mem_nil h).elim⟩, b :: bytes, rfl, ?_⟩
        intro b' hb'
        obtain rfl : b' = b := by simpa using hb'.symm
        exact hb

/-- **Every input has a parse.** Induction on its length; each round reads the blanks, the
segments and the byte behind them. -/
theorem exists_parse_of_length : ∀ (n : Nat) (bytes : List UInt8), bytes.length ≤ n →
    ∃ p : Parse, p.text = bytes := by
  intro n
  induction n with
  | zero =>
      intro bytes hlen
      have hnil : bytes = [] := List.length_eq_zero_iff.mp (Nat.le_zero.mp hlen)
      exact ⟨⟨[], .blanks ⟨[], fun _ h => (List.not_mem_nil h).elim⟩⟩, by rw [hnil]; rfl⟩
  | succ n ih =>
      intro bytes hlen
      obtain ⟨gap, tail, hbytes, hhead⟩ := exists_gap bytes
      obtain ⟨segments, rest, htail, hstop⟩ := exists_segments tail.length tail (Nat.le_refl _)
      cases hstop with
      | endOfInput =>
          by_cases hsegments : segments = []
          · refine ⟨⟨[], .blanks gap⟩, ?_⟩
            rw [hbytes, htail, hsegments]
            simp [Parse.text, Ending.text, segmentsText]
          · refine ⟨⟨[], .lastWord gap ⟨segments, hsegments⟩⟩, ?_⟩
            rw [hbytes, htail]
            simp [Parse.text, Ending.text, Word.text]
      | blank b rest hblank =>
          have hsegments : segments ≠ [] := by
            intro hnil
            rw [htail, hnil] at hhead
            exact hhead b rfl hblank
          obtain ⟨p, hp⟩ := ih rest (by
            rw [hbytes, htail] at hlen
            simp only [List.length_append, List.length_cons] at hlen
            omega)
          refine ⟨⟨⟨gap, ⟨segments, hsegments⟩, b, hblank⟩ :: p.items, p.ending⟩, ?_⟩
          rw [hbytes, htail, ← hp]
          simp [Parse.text, Terminated.text, Word.text]
      | openQuote q content rest hcontent hrest =>
          refine ⟨⟨[], .openQuote gap segments q content hcontent rest hrest⟩, ?_⟩
          rw [hbytes, htail]
          simp [Parse.text, Ending.text]
      | backslash =>
          refine ⟨⟨[], .backslash gap segments⟩, ?_⟩
          rw [hbytes, htail]
          simp [Parse.text, Ending.text]

theorem exists_parse (bytes : List UInt8) : ∃ p : Parse, p.text = bytes :=
  exists_parse_of_length bytes.length bytes (Nat.le_refl _)

end Phxargs
