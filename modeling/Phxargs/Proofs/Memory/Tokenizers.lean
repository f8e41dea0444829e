import Phxargs.Model.Memory.DelimTokenizer
import Phxargs.Model.Memory.SpaceTokenizer
import Phxargs.Model.TokenSource
import Phxargs.Proofs.Command
import Phxargs.Proofs.Memory.Buffer

/-!
# `Phxargs.Proofs.Memory.Tokenizers`: the size of the buffer does not show

Over memory, each tokenizer is compared with its own model over the bytes that the buffer holds,
where no size occurs. `Tracks` relates the two tokenizers between any two bytes of the input. Both
runs then give the same answers, unless the one over memory is stopped by the guard of the
doubling. This needs an input of more than `SIZE_MAX / 2` bytes, because the buffer never holds
more bytes than have been read.
-/

set_option autoImplicit false

namespace Phxargs.Memory

open Lib

variable (fresh fresh' : Nat → UInt8)

/-! ### The delimiter tokenizer -/

namespace DelimTokenizer

/-- The tokenizer over memory agrees with the one whose buffer has its invariant by type. What
stands behind `pos` is not compared. -/
structure Tracks (m : DelimTokenizer) (t : Phxargs.DelimTokenizer) : Prop where
  buf : m.buf.Holds t.buf.contents
  err : m.err = t.err
  delim : m.delim = t.delim
  tokenStart : m.tokenStart = 0
  tokenStart_eq : t.tokenStart = 0

/-- The same answer of a call, and the tokenizers still agree. -/
structure Agrees (held : Nat) (a : Next DelimTokenizer) (a' : Phxargs.DelimTokenizer.Next) :
    Prop where
  token : a.token = a'.token
  boundaries : a.boundaries = a'.boundaries
  toker : a.toker.Tracks a'.toker
  rest : a.rest = a'.rest
  room : a'.rest.length ≤ held

namespace Tracks

variable {m : DelimTokenizer} {t : Phxargs.DelimTokenizer}

theorem pos_eq (h : m.Tracks t) : m.buf.pos = t.buf.pos := by
  rw [← h.buf.length, t.buf.length_contents]

theorem create {bufferSize bufferSize' : Nat} (hsz : bufferSize < SIZE_MAX) (d : UInt8) :
    (create bufferSize d).Tracks (Phxargs.DelimTokenizer.create bufferSize' d) where
  buf := Buffer.Holds.create hsz
  err := rfl
  delim := rfl
  tokenStart := rfl
  tokenStart_eq := rfl

theorem start (h : m.Tracks t) :
    ({ m with buf := bufferReset m.buf } : DelimTokenizer).startToken.Tracks
      ({ t with buf := Phxargs.bufferReset t.buf } : Phxargs.DelimTokenizer).startToken where
  buf := h.buf.reset
  err := h.err
  delim := h.delim
  tokenStart := rfl
  tokenStart_eq := rfl

theorem append (h : m.Tracks t) (ch : UInt8) :
    Simulates (StoppedByGuard t.buf.pos) Tracks (m.appendToToken fresh ch)
      (t.appendToToken fresh' ch) := by
  have hput : Simulates (StoppedByGuard t.buf.contents.length) Buffer.Holds
      (bufferPut fresh m.buf ch) (t.buf.contents ++ [ch]) := h.buf.put ch
  rw [t.buf.length_contents] at hput
  refine hput.bind fun buf hbuf => ?_
  exact ⟨(bufferPut_contents fresh' t.buf ch).symm ▸ hbuf, h.err, h.delim, h.tokenStart,
    h.tokenStart_eq⟩

theorem endToken (h : m.Tracks t) :
    Simulates (StoppedByGuard t.buf.pos) (fun p p' => p.1.Tracks p'.1 ∧ p.2 = p'.2)
      (m.endToken fresh) (t.endToken fresh') := by
  refine (h.append fresh fresh' 0).bind fun m' hm' => ?_
  have hcontents : (t.appendToToken fresh' 0).buf.contents = t.buf.contents ++ [0] :=
    bufferPut_contents fresh' t.buf 0
  have hmemory : m'.buf.Holds (t.buf.contents ++ [0]) := hcontents ▸ hm'.buf
  -- Both read the bytes from the start of the buffer to the NUL.
  rw [hm'.tokenStart, hmemory.token (Nat.zero_le _)]
  refine ⟨hm', ?_⟩
  show cstr ((t.buf.contents ++ [0]).drop 0)
    = cstr ((t.appendToToken fresh' 0).buf.buf.drop (t.appendToToken fresh' 0).tokenStart)
  rw [hm'.tokenStart_eq, List.drop_zero, List.drop_zero, cstr_append_nul,
    Phxargs.Buffer.cstr_start hcontents]

/-- `tokenizer_drop_last`, where there is a byte to drop. -/
theorem dropLast {item : List UInt8} {ch : UInt8} (h : m.Tracks t)
    (hitem : t.buf.contents = item ++ [ch]) : m.dropLast.Tracks t.dropLast where
  buf := by
    have hdrop := h.buf.dropLast
    rw [hitem, List.dropLast_concat] at hdrop
    show (bufferDropLast m.buf).Holds (Phxargs.bufferDropLast t.buf).contents
    rw [bufferDropLast_contents hitem]
    exact hdrop
  err := h.err
  delim := h.delim
  tokenStart := h.tokenStart
  tokenStart_eq := h.tokenStart_eq

/-- Both read the byte in front of `pos`, and drop it if it is a newline. -/
theorem stripNewline {item : List UInt8} {ch : UInt8} (h : m.Tracks t)
    (hitem : t.buf.contents = item ++ [ch]) (held : Nat) :
    Simulates (StoppedByGuard held) (fun m' t' => m'.Tracks t' ∧ t'.buf.pos ≤ t.buf.pos)
      m.stripNewline
      (if t.delim ≠ NEWLINE ∧ t.buf.buf.getD (t.buf.pos - 1) 0 = NEWLINE then t.dropLast
        else t) := by
  have hbyte : m.buf.tokenByte (m.buf.pos - 1) = .ok ch := (hitem ▸ h.buf).tokenByte
  rw [Phxargs.Buffer.getD_last hitem, DelimTokenizer.stripNewline, h.delim, hbyte]
  by_cases hdelim : t.delim = NEWLINE
  · simp [hdelim, h]
  · by_cases hnewline : ch = NEWLINE
    · have hpos : t.dropLast.buf.pos ≤ t.buf.pos := by
        show (Phxargs.bufferDropLast t.buf).pos ≤ t.buf.pos
        unfold Phxargs.bufferDropLast
        split
        · exact Nat.sub_le _ _
        · exact Nat.le_refl _
      simp only [hdelim, hnewline, ne_eq, not_false_eq_true, and_self, if_true]
      exact ⟨h.dropLast hitem, hpos⟩
    · simp [hdelim, hnewline, Bind.bind, Except.bind, Pure.pure, Except.pure, h]

theorem handleEof (h : m.Tracks t) (ferror : Bool) {held : Nat} (hheld : t.buf.pos ≤ held) :
    Simulates (StoppedByGuard held) (Agrees held) (m.handleEof fresh ferror)
      (t.handleEof fresh' ferror) := by
  rw [DelimTokenizer.handleEof, Phxargs.DelimTokenizer.handleEof, h.tokenStart, h.tokenStart_eq,
    h.pos_eq]
  split
  · exact ⟨rfl, rfl, ⟨h.buf, rfl, h.delim, rfl, rfl⟩, rfl, Nat.zero_le _⟩
  · split
    · exact ⟨rfl, rfl, h, rfl, Nat.zero_le _⟩
    · rename_i hpos
      -- A byte has been put since the start of the call.
      have hne : t.buf.contents ≠ [] := by
        intro hempty
        rw [← t.buf.length_contents, hempty] at hpos
        exact hpos rfl
      refine (h.stripNewline (List.dropLast_append_getLast hne).symm held).bind fun m' hm' => ?_
      have hend := simulates_held_le (hm'.1.endToken fresh fresh') (Nat.le_trans hm'.2 hheld)
      exact hend.bind fun p hp => ⟨congrArg some hp.2, rfl, hp.1, rfl, Nat.zero_le _⟩

/-- The loop. What is held and what is still to read stay below `held`. Induction on the input. -/
theorem next (ferror : Bool) {held : Nat} :
    ∀ (bytes : List UInt8) {m : DelimTokenizer} {t : Phxargs.DelimTokenizer}, m.Tracks t →
      t.buf.pos + bytes.length ≤ held →
      Simulates (StoppedByGuard held) (Agrees held) (DelimTokenizer.next fresh ferror m bytes)
        (Phxargs.DelimTokenizer.next fresh' ferror t bytes) := by
  intro bytes
  induction bytes with
  | nil => intro m t h hheld; exact h.handleEof fresh fresh' ferror hheld
  | cons ch rest ih =>
      intro m t h hheld
      rw [List.length_cons] at hheld
      rw [DelimTokenizer.next, Phxargs.DelimTokenizer.next, h.delim]
      split
      · have hput := simulates_held_le (h.append fresh fresh' ch) (show t.buf.pos ≤ held by omega)
        refine hput.bind fun m' hm' => ih hm' ?_
        show (Phxargs.bufferPut fresh' t.buf ch).pos + rest.length ≤ held
        rw [← Phxargs.Buffer.length_contents, bufferPut_contents, List.length_append,
          t.buf.length_contents, List.length_singleton]
        omega
      · have hend := simulates_held_le (h.endToken fresh fresh') (show t.buf.pos ≤ held by omega)
        have hrest : rest.length ≤ held := by omega
        exact hend.bind fun p hp => ⟨congrArg some hp.2, rfl, hp.1, rfl, hrest⟩

end Tracks

end DelimTokenizer

/-- A call of `next_delim_token`. -/
theorem nextDelimToken_simulates (ferror : Bool) {held : Nat} {m : DelimTokenizer}
    {t : Phxargs.DelimTokenizer} (h : m.Tracks t) {bytes : List UInt8}
    (hheld : bytes.length ≤ held) :
    Simulates (StoppedByGuard held) (DelimTokenizer.Agrees held)
      (nextDelimToken fresh ferror m bytes) (Phxargs.nextDelimToken fresh' ferror t bytes) := by
  refine h.start.next fresh fresh' ferror bytes ?_
  show 0 + bytes.length ≤ held
  omega

/-! ### The space tokenizer -/

namespace SpaceTokenizer

/-- The tokenizer over memory agrees with the one that has a list in place of the buffer, and no
more than `held` bytes are in the buffer. -/
structure Tracks (held : Nat) (m : SpaceTokenizer) (t : Phxargs.SpaceTokenizer) : Prop where
  buf : m.buf.Holds t.buf
  err : m.err = t.err
  state : m.state = t.state
  quoteChar : m.quoteChar = t.quoteChar
  tokenStart : m.tokenStart = t.tokenStart
  marker : m.logicalEndOfInputMarker = t.logicalEndOfInputMarker
  tokenStart_le : t.tokenStart ≤ t.buf.length
  length_le : t.buf.length ≤ held

/-- A byte did the same, and the tokenizers still agree. -/
structure HandledAlike (held : Nat) (a : Handled) (a' : Phxargs.SpaceTokenizer.Handled) : Prop where
  toker : a.toker.Tracks held a'.toker
  boundaries : a.boundaries = a'.boundaries
  out : a.out = a'.out

/-- The same answer of a call, and the tokenizers still agree. What is held and what is still to
read stay below `held`. -/
structure Agrees (held : Nat) (a : Next SpaceTokenizer) (a' : Phxargs.SpaceTokenizer.Next) :
    Prop where
  token : a.token = a'.token
  boundaries : a.boundaries = a'.boundaries
  toker : ∃ k, a.toker.Tracks k a'.toker ∧ k + a'.rest.length ≤ held
  rest : a.rest = a'.rest

namespace Tracks

variable {held : Nat} {m : SpaceTokenizer} {t : Phxargs.SpaceTokenizer}

theorem mono {held' : Nat} (h : m.Tracks held t) (hle : held ≤ held') : m.Tracks held' t :=
  { h with length_le := Nat.le_trans h.length_le hle }

theorem create {bufferSize : Nat} (hsz : bufferSize < SIZE_MAX) (marker : Option CStr) :
    (create bufferSize marker).Tracks 0 (Phxargs.SpaceTokenizer.create marker) where
  buf := (Buffer.Holds.create hsz).reset
  err := rfl
  state := rfl
  quoteChar := rfl
  tokenStart := rfl
  marker := rfl
  tokenStart_le := Nat.le_refl 0
  length_le := Nat.le_refl 0

theorem noToken (h : m.Tracks held t) : m.noToken.Tracks 0 t.noToken :=
  { h with
    buf := h.buf.reset
    state := rfl
    quoteChar := rfl
    tokenStart := rfl
    tokenStart_le := Nat.le_refl 0
    length_le := Nat.le_refl 0 }

theorem withState (h : m.Tracks held t) (state : SpaceTokenizerState) :
    Tracks held { m with state := state } { t with state := state } :=
  { h with state := rfl }

/-- A token starts at the end of the buffer. -/
theorem startAtPos (h : m.Tracks held t) :
    Tracks held { m with tokenStart := m.buf.pos } { t with tokenStart := t.buf.length } :=
  { h with tokenStart := h.buf.length.symm, tokenStart_le := Nat.le_refl _ }

theorem setError (h : m.Tracks held t) (err : TokenizerError) :
    (m.setError err).Tracks held (t.setError err) :=
  { h with err := rfl }

theorem add (h : m.Tracks held t) (ch : UInt8) :
    Simulates (StoppedByGuard held) (Tracks (held + 1)) (m.add fresh ch) (t.add ch) := by
  have hput : Simulates (StoppedByGuard held) Buffer.Holds (bufferPut fresh m.buf ch)
      (t.buf ++ [ch]) := simulates_held_le (h.buf.put ch) h.length_le
  refine hput.bind fun buf hbuf => ?_
  have hlength : (t.buf ++ [ch]).length = t.buf.length + 1 := by simp
  exact { h with
    buf := hbuf
    tokenStart_le := hlength ▸ Nat.le_succ_of_le h.tokenStart_le
    length_le := hlength ▸ Nat.succ_le_succ h.length_le }

/-- The terminated token is read from the bytes that the buffer holds. -/
theorem endToken (h : m.Tracks held t) :
    Simulates (StoppedByGuard held) (fun p p' => p.1.Tracks 0 p'.1 ∧ p.2 = p'.2)
      (m.endToken fresh) t.endToken := by
  refine (h.add fresh 0).bind fun m' hm' => ?_
  have hmemory : m'.buf.Holds (t.buf ++ [0]) := hm'.buf
  have hstart : m'.tokenStart ≤ t.buf.length := by
    rw [hm'.tokenStart]
    exact h.tokenStart_le
  rw [hmemory.token hstart, hm'.tokenStart, hm'.marker]
  exact ⟨hm'.noToken, rfl⟩

theorem handleNoTokenChar (h : m.Tracks held t) (ch : UInt8) (lineHasToken : Bool) :
    Simulates (StoppedByGuard held) (fun p p' => p.1.Tracks (held + 1) p'.1 ∧ p.2 = p'.2)
      (m.handleNoTokenChar fresh ch lineHasToken) (t.handleNoTokenChar ch lineHasToken) := by
  have hkept := h.mono (Nat.le_succ held)
  unfold SpaceTokenizer.handleNoTokenChar Phxargs.SpaceTokenizer.handleNoTokenChar
  split
  · exact ⟨hkept, rfl⟩
  · split
    · exact ⟨hkept, rfl⟩
    · split
      · exact ⟨{ hkept.startAtPos.withState .inQuotedToken with quoteChar := rfl }, rfl⟩
      · split
        · exact ⟨hkept.startAtPos.withState .noTokenEscape, rfl⟩
        · have hadd := (h.startAtPos.withState .inToken).add fresh ch
          exact hadd.bind fun m' hm' => ⟨hm', rfl⟩

theorem handleInTokenChar (h : m.Tracks held t) (ch : UInt8) (lineHasToken : Bool) :
    Simulates (StoppedByGuard held) (HandledAlike (held + 1))
      (m.handleInTokenChar fresh ch lineHasToken) (t.handleInTokenChar ch lineHasToken) := by
  have hkept := h.mono (Nat.le_succ held)
  unfold SpaceTokenizer.handleInTokenChar Phxargs.SpaceTokenizer.handleInTokenChar
  split
  · exact (h.endToken fresh).bind fun p hp =>
      ⟨hp.1.mono (Nat.zero_le _), rfl, congrArg some hp.2⟩
  · split
    · exact (h.endToken fresh).bind fun p hp =>
        ⟨hp.1.mono (Nat.zero_le _), rfl, congrArg some hp.2⟩
    · split
      · exact ⟨{ hkept.withState .inTokenQuoted with quoteChar := rfl }, rfl, rfl⟩
      · split
        · exact ⟨hkept.withState .inTokenEscape, rfl, rfl⟩
        · exact (h.add fresh ch).bind fun m' hm' => ⟨hm', rfl, rfl⟩

theorem handleQuotedChar (h : m.Tracks held t) (ch : UInt8) :
    Simulates (StoppedByGuard held) (HandledAlike (held + 1)) (m.handleQuotedChar fresh ch)
      (t.handleQuotedChar ch) := by
  have hkept := h.mono (Nat.le_succ held)
  unfold SpaceTokenizer.handleQuotedChar Phxargs.SpaceTokenizer.handleQuotedChar
  by_cases hclosing : ch = m.quoteChar
  · rw [if_pos hclosing, if_pos (hclosing.trans h.quoteChar)]
    exact ⟨hkept.withState .inToken, rfl, rfl⟩
  · have hinside : ¬ ch = t.quoteChar := by
      rw [← h.quoteChar]
      exact hclosing
    rw [if_neg hclosing, if_neg hinside]
    split
    · exact ⟨hkept.setError .unterminatedQuote, rfl, rfl⟩
    · exact (h.add fresh ch).bind fun m' hm' => ⟨hm', rfl, rfl⟩

theorem handleEof (h : m.Tracks held t) (ferror lineHasToken : Bool) :
    Simulates (StoppedByGuard held) (Agrees held) (m.handleEof fresh ferror lineHasToken)
      (t.handleEof ferror lineHasToken) := by
  rw [SpaceTokenizer.handleEof, Phxargs.SpaceTokenizer.handleEof, h.state]
  split
  · exact ⟨rfl, rfl, ⟨held, h.setError .io, Nat.le_refl held⟩, rfl⟩
  · split
    · exact ⟨rfl, rfl, ⟨held, h.setError .backslashAtEof, Nat.le_refl held⟩, rfl⟩
    · split
      · exact ⟨rfl, rfl, ⟨held, h.setError .unterminatedQuote, Nat.le_refl held⟩, rfl⟩
      · split
        · exact (h.endToken fresh).bind fun p hp =>
            ⟨hp.2, rfl, ⟨0, hp.1, Nat.zero_le held⟩, rfl⟩
        · exact ⟨rfl, rfl, ⟨held, h, Nat.le_refl held⟩, rfl⟩

end Tracks

/-- Behind a byte that both handled alike, the call ends alike, or it goes on alike. -/
theorem HandledAlike.continue (ferror lineHasToken : Bool) {held total : Nat} {a : Handled}
    {a' : Phxargs.SpaceTokenizer.Handled} (h : HandledAlike held a a') {rest : List UInt8}
    (htotal : held + rest.length ≤ total)
    (hlater : Simulates (StoppedByGuard total) (Agrees total)
      (SpaceTokenizer.next fresh ferror a.toker lineHasToken rest)
      (Phxargs.SpaceTokenizer.next ferror a'.toker lineHasToken rest)) :
    Simulates (StoppedByGuard total) (Agrees total)
      (match a.out with
        | some out => pure ⟨out, a.boundaries, a.toker, rest⟩
        | none => SpaceTokenizer.next fresh ferror a.toker lineHasToken rest)
      (match a'.out with
        | some out => ⟨out, a'.boundaries, a'.toker, rest⟩
        | none => Phxargs.SpaceTokenizer.next ferror a'.toker lineHasToken rest) := by
  rw [h.out]
  cases a'.out with
  | some out => exact ⟨rfl, h.boundaries, ⟨held, h.toker, htotal⟩, rfl⟩
  | none => exact hlater

/-- The loop. Induction on the input. -/
theorem Tracks.next (ferror : Bool) {total : Nat} :
    ∀ (bytes : List UInt8) {held : Nat} {m : SpaceTokenizer} {t : Phxargs.SpaceTokenizer}
      (lineHasToken : Bool), m.Tracks held t → held + bytes.length ≤ total →
      Simulates (StoppedByGuard total) (Agrees total)
        (SpaceTokenizer.next fresh ferror m lineHasToken bytes)
        (Phxargs.SpaceTokenizer.next ferror t lineHasToken bytes) := by
  intro bytes
  induction bytes with
  | nil =>
      intro held m t lineHasToken h htotal
      have hle : held ≤ total := htotal
      refine (h.handleEof fresh ferror lineHasToken).imp (fun _ hstop => hstop.mono hle) ?_
      intro a ha
      obtain ⟨k, htoker, hk⟩ := ha.toker
      exact ⟨ha.token, ha.boundaries, ⟨k, htoker, Nat.le_trans hk hle⟩, ha.rest⟩
  | cons ch rest ih =>
      intro held m t lineHasToken h htotal
      rw [List.length_cons] at htotal
      have hle : held ≤ total := by omega
      have hlater : held + 1 + rest.length ≤ total := by omega
      rw [SpaceTokenizer.next, Phxargs.SpaceTokenizer.next, h.state]
      cases t.state with
      | noToken =>
          have hbyte := simulates_held_le (h.handleNoTokenChar fresh ch lineHasToken) hle
          refine hbyte.bind fun p hp => ?_
          rw [hp.2]
          exact ih _ hp.1 hlater
      | inToken =>
          have hbyte := simulates_held_le (h.handleInTokenChar fresh ch lineHasToken) hle
          exact hbyte.bind fun p hp =>
            hp.continue fresh ferror lineHasToken hlater (ih _ hp.toker hlater)
      | inQuotedToken | inTokenQuoted =>
          have hbyte := simulates_held_le (h.handleQuotedChar fresh ch) hle
          exact hbyte.bind fun p hp =>
            hp.continue fresh ferror lineHasToken hlater (ih _ hp.toker hlater)
      | noTokenEscape | inTokenEscape =>
          have hbyte := simulates_held_le ((h.withState .inToken).add fresh ch) hle
          exact hbyte.bind fun m' hm' => ih _ hm' hlater

end SpaceTokenizer

/-- A call of `next_space_token`. -/
theorem nextSpaceToken_simulates (ferror : Bool) {held total : Nat} {m : SpaceTokenizer}
    {t : Phxargs.SpaceTokenizer} (h : m.Tracks held t) {bytes : List UInt8}
    (htotal : held + bytes.length ≤ total) :
    Simulates (StoppedByGuard total) (SpaceTokenizer.Agrees total)
      (nextSpaceToken fresh ferror m bytes) (Phxargs.nextSpaceToken ferror t bytes) :=
  SpaceTokenizer.Tracks.next fresh ferror bytes false h htotal

/-! ### All answers -/

/-- The answers of a stream, with an end that no fault has cut off. -/
def answersOf (stream : TokenStream) : Answers where
  tokens := stream.tokens.map fun token => (token.arg, token.boundaries)
  last := .ok (stream.endBoundaries, stream.endError)

/-- The same answers, or the guard of the doubling has stopped the run behind the first ones. That
needs an input of more than `SIZE_MAX / 2` bytes. -/
def Answers.CutOf (inputLength : Nat) (whole a : Answers) : Prop :=
  a = whole ∨
    ∃ fault, a.last = .error fault ∧ StoppedByGuard inputLength fault ∧ a.tokens <+: whole.tokens

namespace Answers.CutOf

variable {inputLength : Nat} {whole whole' a a' : Answers}

theorem stopped {fault : Fault} (h : StoppedByGuard inputLength fault) :
    CutOf inputLength whole ⟨[], .error fault⟩ :=
  .inr ⟨fault, rfl, h, List.nil_prefix⟩

theorem cons (h : CutOf inputLength whole a) (token : CStr × Nat) :
    CutOf inputLength { whole with tokens := token :: whole.tokens }
      { a with tokens := token :: a.tokens } := by
  rcases h with rfl | ⟨fault, hlast, hstop, htokens⟩
  · exact .inl rfl
  · exact .inr ⟨fault, hlast, hstop, List.cons_prefix_cons.mpr ⟨rfl, htokens⟩⟩

/-- Two runs with the same whole: the one that is cut off later is the whole of the other. -/
theorem comparable (h : CutOf inputLength whole a) (h' : CutOf inputLength whole a') :
    CutOf inputLength a' a ∨ CutOf inputLength a a' := by
  rcases h with rfl | ⟨fault, hlast, hstop, htokens⟩
  · exact .inr h'
  · rcases h' with rfl | ⟨fault', hlast', hstop', htokens'⟩
    · exact .inl (.inr ⟨fault, hlast, hstop, htokens⟩)
    · rcases List.prefix_or_prefix_of_prefix htokens htokens' with hle | hle
      · exact .inl (.inr ⟨fault, hlast, hstop, hle⟩)
      · exact .inr (.inr ⟨fault', hlast', hstop', hle⟩)

end Answers.CutOf

/-- Successive calls of `next_delim_token`. Induction on the number of calls. -/
theorem delimTokensFrom_cut (ferror : Bool) {inputLength : Nat} :
    ∀ (n : Nat) {m : DelimTokenizer} {t : Phxargs.DelimTokenizer} {bytes : List UInt8},
      m.Tracks t → bytes.length ≤ inputLength →
      Answers.CutOf inputLength (answersOf (delimTokensFrom fresh' ferror n t bytes))
        (tokensFrom (nextDelimToken fresh ferror) DelimTokenizer.err n m bytes) := by
  intro n
  induction n with
  | zero => intro m t bytes _ _; exact .inl rfl
  | succ n ih =>
      intro m t bytes h hlength
      have hcall := nextDelimToken_simulates fresh fresh' ferror h hlength
      rw [tokensFrom, delimTokensFrom]
      cases hanswer : nextDelimToken fresh ferror m bytes with
      | error fault =>
          rw [hanswer] at hcall
          exact .stopped hcall
      | ok a =>
          rw [hanswer] at hcall
          obtain ⟨htoken, hboundaries, htoker, hrest, hroom⟩ := hcall
          simp only [htoken, hboundaries, hrest, htoker.err]
          cases (Phxargs.nextDelimToken fresh' ferror t bytes).token with
          | none => exact .inl rfl
          | some arg => exact (ih htoker hroom).cons _

/-- Successive calls of `next_space_token`. Induction on the number of calls. -/
theorem spaceTokensFrom_cut (ferror : Bool) {inputLength : Nat} :
    ∀ (n : Nat) {held : Nat} {m : SpaceTokenizer} {t : Phxargs.SpaceTokenizer}
      {bytes : List UInt8}, m.Tracks held t → held + bytes.length ≤ inputLength →
      Answers.CutOf inputLength (answersOf (spaceTokensFrom ferror n t bytes))
        (tokensFrom (nextSpaceToken fresh ferror) SpaceTokenizer.err n m bytes) := by
  intro n
  induction n with
  | zero => intro held m t bytes _ _; exact .inl rfl
  | succ n ih =>
      intro held m t bytes h hlength
      have hcall := nextSpaceToken_simulates fresh ferror h hlength
      rw [tokensFrom, spaceTokensFrom]
      cases hanswer : nextSpaceToken fresh ferror m bytes with
      | error fault =>
          rw [hanswer] at hcall
          exact .stopped hcall
      | ok a =>
          rw [hanswer] at hcall
          obtain ⟨htoken, hboundaries, ⟨k, htoker, hroom⟩, hrest⟩ := hcall
          simp only [htoken, hboundaries, hrest, htoker.err]
          cases (Phxargs.nextSpaceToken ferror t bytes).token with
          | none => exact .inl rfl
          | some arg => exact (ih htoker hroom).cons _

/-- A new delimiter tokenizer over memory. The initial size and the new memory of the other one do
not matter. -/
theorem delimTokens_cut (bufferSize' : Nat) {bufferSize : Nat} (hsz : bufferSize < SIZE_MAX)
    (d : UInt8) (ferror : Bool) (n : Nat) (bytes : List UInt8) :
    Answers.CutOf bytes.length
      (answersOf (delimTokensFrom fresh' ferror n
        (Phxargs.DelimTokenizer.create bufferSize' d) bytes))
      (delimTokens fresh bufferSize d ferror n bytes) :=
  delimTokensFrom_cut fresh fresh' ferror n (DelimTokenizer.Tracks.create hsz d) (Nat.le_refl _)

/-- A new space tokenizer over memory. -/
theorem spaceTokens_cut {bufferSize : Nat} (hsz : bufferSize < SIZE_MAX) (marker : Option CStr)
    (ferror : Bool) (n : Nat) (bytes : List UInt8) :
    Answers.CutOf bytes.length
      (answersOf (spaceTokensFrom ferror n (Phxargs.SpaceTokenizer.create marker) bytes))
      (spaceTokens fresh bufferSize marker ferror n bytes) := by
  refine spaceTokensFrom_cut fresh ferror n (SpaceTokenizer.Tracks.create hsz marker) ?_
  rw [Nat.zero_add]

/-- The stream that the modes are given is what the chosen tokenizer answers over memory. -/
theorem xargsModeTokens_cut {maxLength : Nat} (hsz : maxLength < SIZE_MAX) (opts : Options)
    (bytes : List UInt8) (ferror : Bool) :
    Answers.CutOf bytes.length (answersOf (xargsModeTokens fresh' maxLength opts bytes ferror))
      (if opts.delimited then
        delimTokens fresh maxLength opts.argDelimiter ferror (bytes.length + 1) bytes
      else
        spaceTokens fresh maxLength opts.logicalEndOfInputMarker ferror (bytes.length + 1)
          bytes) := by
  rw [xargsModeTokens]
  split
  · exact delimTokens_cut fresh fresh' maxLength hsz _ ferror _ bytes
  · exact spaceTokens_cut fresh hsz _ ferror _ bytes

/-! ### Any initial size -/

/-- Two runs over an input of this length answer alike: the guard can cut off one of them. -/
def Answers.Alike (inputLength : Nat) (a a' : Answers) : Prop :=
  Answers.CutOf inputLength a' a ∨ Answers.CutOf inputLength a a'

/-- Inputs up to `SIZE_MAX / 2` bytes never reach the guard. -/
theorem Answers.Alike.eq {inputLength : Nat} {a a' : Answers} (h : Alike inputLength a a')
    (hlength : inputLength ≤ SIZE_MAX / 2) : a = a' := by
  rcases h with (heq | ⟨fault, -, hstop, -⟩) | (heq | ⟨fault, -, hstop, -⟩)
  · exact heq
  · exact absurd hstop.2 (Nat.not_lt.mpr hlength)
  · exact heq.symm
  · exact absurd hstop.2 (Nat.not_lt.mpr hlength)

/-- The initial size that `xargs_mode_create` passes on is a `long`. -/
theorem commandMaxLength_lt {sys : System} {scanned : List Getopt} {optind : Nat}
    {argv : List CStr} {opts : Options} {cmd : Command}
    (hopts : optionsCreate sys.childMax scanned optind = .ok opts)
    (hcmd : commandCreate sys opts opts.optindVal argv = .ok cmd) : cmd.maxLength < SIZE_MAX := by
  have hle := (commandCreate_spec hcmd (optionsCreate_valid hopts).length).1.maxLength
  have hmax : LONG_MAX < SIZE_MAX := by decide
  omega

/-- **The growable buffer refines a byte list.** `buffer_create` adds one to its argument, so the
largest `size_t` is no initial size, and the program never passes it. From any other one, and
whatever `realloc` leaves in new memory:

- After any sequence of `buffer_put`, `buffer_drop_last` and `buffer_reset`, the bytes before
  `pos` are those of the byte list after the same calls, `pos` is at most `sz`, and `sz + 1` bytes
  are allocated. No write leaves them. Only a put into a full buffer of more than `SIZE_MAX / 2`
  bytes ends the program, in the guard of the doubling.
- Both tokenizers return the same tokens with the same boundaries and the same end as from every
  other initial size, unless this guard stops one of them. -/
theorem growableBuffer_refines :
    (∀ {sys : System} {scanned : List Getopt} {optind : Nat} {argv : List CStr} {opts : Options}
        {cmd : Command}, optionsCreate sys.childMax scanned optind = .ok opts →
      commandCreate sys opts opts.optindVal argv = .ok cmd → cmd.maxLength < SIZE_MAX) ∧
    ∀ {bufferSize : Nat}, bufferSize < SIZE_MAX → ∀ fresh : Nat → UInt8,
      (∀ calls : List BufferCall,
        (∃ b, (bufferCreate bufferSize).run fresh calls = .ok b ∧ b.Holds (bytesOf calls)) ∨
        ∃ before ch after fault, calls = before ++ .put ch :: after ∧
          (bufferCreate bufferSize).run fresh calls = .error fault ∧
          StoppedByGuard (bytesOf before).length fault) ∧
      ∀ {bufferSize' : Nat}, bufferSize' < SIZE_MAX →
        ∀ (fresh' : Nat → UInt8) (ferror : Bool) (n : Nat) (bytes : List UInt8),
          (∀ marker, Answers.Alike bytes.length
            (spaceTokens fresh bufferSize marker ferror n bytes)
            (spaceTokens fresh' bufferSize' marker ferror n bytes)) ∧
          ∀ d, Answers.Alike bytes.length
            (delimTokens fresh bufferSize d ferror n bytes)
            (delimTokens fresh' bufferSize' d ferror n bytes) := by
  refine ⟨commandMaxLength_lt, ?_⟩
  intro bufferSize hsz fresh
  constructor
  · intro calls
    have hrun := Buffer.run_holds fresh hsz calls
    cases hresult : (bufferCreate bufferSize).run fresh calls with
    | ok b =>
        rw [hresult] at hrun
        exact .inl ⟨b, rfl, hrun⟩
    | error fault =>
        rw [hresult] at hrun
        obtain ⟨before, ch, after, hcalls, hstop⟩ := hrun
        exact .inr ⟨before, ch, after, fault, hcalls, rfl, hstop⟩
  · intro bufferSize' hsz' fresh' ferror n bytes
    constructor
    · intro marker
      exact (spaceTokens_cut fresh hsz marker ferror n bytes).comparable
        (spaceTokens_cut fresh' hsz' marker ferror n bytes)
    · intro d
      -- One tokenizer without memory stands between the two runs.
      exact (delimTokens_cut fresh fresh 0 hsz d ferror n bytes).comparable
        (delimTokens_cut fresh' fresh 0 hsz' d ferror n bytes)

/-- Where `ARG_MAX` is no larger than the margin, the buffer starts with size 0. `ab`, then `b`
replaced by `c`, makes it grow twice. The other size is the one of the fuzzers. -/
theorem growableBuffer_refines_zero :
    ∃ opts cmd, optionsCreate 0 [] 1 = .ok opts ∧
      commandCreate ⟨[], 2048, 0, by decide⟩ opts opts.optindVal [[120]] = .ok cmd ∧
      cmd.maxLength = 0 ∧
      (∃ b, (bufferCreate cmd.maxLength).run (fun _ => 1) [.put 97, .put 98, .dropLast, .put 99]
        = .ok b ∧ b.Holds [97, 99]) ∧
      spaceTokens (fun _ => 1) cmd.maxLength none false 3 [97, 98, 32, 39, 99, 39]
        = spaceTokens (fun _ => 2) 16 none false 3 [97, 98, 32, 39, 99, 39] ∧
      delimTokens (fun _ => 1) cmd.maxLength 44 false 3 [97, 98, 44, 99, 10]
        = delimTokens (fun _ => 2) 16 44 false 3 [97, 98, 44, 99, 10] := by
  obtain ⟨opts, cmd, hopts, hcmd, hzero⟩ : ∃ opts cmd, optionsCreate 0 [] 1 = .ok opts ∧
      commandCreate ⟨[], 2048, 0, by decide⟩ opts opts.optindVal [[120]] = .ok cmd ∧
      cmd.maxLength = 0 := ⟨_, _, rfl, rfl, rfl⟩
  obtain ⟨hpassed, hrefines⟩ := growableBuffer_refines
  obtain ⟨hcalls, htokens⟩ := hrefines (hpassed hopts hcmd) fun _ => 1
  refine ⟨opts, cmd, hopts, hcmd, hzero, ?_, ?_, ?_⟩
  · rcases hcalls [.put 97, .put 98, .dropLast, .put 99] with hheld | ⟨_, _, _, _, _, hrun, _⟩
    · exact hheld
    · rw [hzero] at hrun
      cases hrun
  · exact (htokens (by decide) _ false 3 _).1 none |>.eq (by decide)
  · exact (htokens (by decide) _ false 3 _).2 44 |>.eq (by decide)

end Phxargs.Memory
