import Phxargs.Proofs.SpaceTokenizer

/-!
# `Phxargs.Proofs.JoinedInput`: two inputs with a newline between them

The space tokenizer leaves nothing behind at the end of a line: a call that returns a token ends
in the state of a new tokenizer. So the answers for two inputs that a newline joins are the answers
for the first one and then those for the second one, provided that the first one is well formed
(`spaceTokenStream_join`). The newline takes the place of the end of the input: it ends the last
word, with one boundary, or it is one more blank behind it.
-/

set_option autoImplicit false

namespace Phxargs

open SpaceTokenizer

/-! ### Enough calls -/

/-- A call consumes a byte, if there is one. Induction on the bytes. -/
theorem next_rest_length (ferror : Bool) :
    ∀ (bytes : List UInt8) (t : SpaceTokenizer) (lineHasToken : Bool),
      (next ferror t lineHasToken bytes).rest.length ≤ bytes.length - 1 := by
  intro bytes
  induction bytes with
  | nil =>
      intro t lineHasToken
      show (t.handleEof ferror lineHasToken).rest.length ≤ 0
      unfold handleEof
      repeat' split
      all_goals exact Nat.le_refl 0
  | cons ch rest ih =>
      intro t lineHasToken
      have hlater : ∀ (t' : SpaceTokenizer) (lineHasToken' : Bool),
          (next ferror t' lineHasToken' rest).rest.length ≤ rest.length :=
        fun t' lineHasToken' => Nat.le_trans (ih t' lineHasToken') (Nat.sub_le _ _)
      show (next ferror t lineHasToken (ch :: rest)).rest.length ≤ rest.length
      rw [next]
      -- A byte ends the call, or the loop goes on with the rest.
      split
      · exact hlater _ _
      · exact hlater _ _
      · dsimp only
        split
        · exact Nat.le_refl _
        · exact hlater _ _
      · dsimp only
        split
        · exact Nat.le_refl _
        · exact hlater _ _
      · dsimp only
        split
        · exact Nat.le_refl _
        · exact hlater _ _
      · exact hlater _ _

/-- At the end of the input there is no token. -/
theorem nextSpaceToken_nil (ferror : Bool) (t : SpaceTokenizer) :
    (nextSpaceToken ferror t []).token = none := by
  show (t.handleEof ferror false).token = none
  unfold handleEof
  repeat' split
  all_goals first | rfl | contradiction

/-- More calls than bytes give no more answers. Induction on the calls. -/
theorem spaceTokensFrom_enough (ferror : Bool) :
    ∀ {n m : Nat} {bytes : List UInt8} (t : SpaceTokenizer), bytes.length < n →
      bytes.length < m → spaceTokensFrom ferror n t bytes = spaceTokensFrom ferror m t bytes := by
  intro n
  induction n with
  | zero => intro m bytes t hn; exact absurd hn (Nat.not_lt_zero _)
  | succ n ih =>
      intro m bytes t hn hm
      obtain ⟨m, rfl⟩ : ∃ k, m = k + 1 := ⟨m - 1, by omega⟩
      rw [spaceTokensFrom, spaceTokensFrom]
      cases htoken : (nextSpaceToken ferror t bytes).token with
      | none => simp only
      | some arg =>
          have hne : bytes ≠ [] := by
            intro h
            rw [h, nextSpaceToken_nil] at htoken
            cases htoken
          have hpos := List.length_pos_iff.mpr hne
          have hrest : (nextSpaceToken ferror t bytes).rest.length ≤ bytes.length - 1 :=
            next_rest_length ferror bytes t false
          have hlater : spaceTokensFrom ferror n (nextSpaceToken ferror t bytes).toker
              (nextSpaceToken ferror t bytes).rest
              = spaceTokensFrom ferror m (nextSpaceToken ferror t bytes).toker
                (nextSpaceToken ferror t bytes).rest := ih _ (by omega) (by omega)
          simp only [hlater]

/-! ### The first input -/

/-- The blanks in front of an input. -/
theorem spaceTokensFrom_gap (ferror : Bool) (marker : Option CStr) (gap : Gap)
    (rest : List UInt8) {n : Nat} (hn : 0 < n) :
    spaceTokensFrom ferror n (create marker) (gap.bytes ++ rest)
      = spaceTokensFrom ferror n (create marker) rest := by
  obtain ⟨n, rfl⟩ : ∃ m, n = m + 1 := ⟨n - 1, by omega⟩
  have hcall : nextSpaceToken ferror (create marker) (gap.bytes ++ rest)
      = nextSpaceToken ferror (create marker) rest :=
    next_gap ferror marker false rest gap.bytes gap.blank
  rw [spaceTokensFrom, spaceTokensFrom]
  simp only [hcall]

/-- The words that a blank ends, in front of an input. Induction on the words. -/
theorem spaceTokensFrom_items (ferror : Bool) (rest : List UInt8) (n : Nat) :
    ∀ items : List Terminated,
      spaceTokensFrom ferror (items.length + n) (create none)
          (items.flatMap Terminated.text ++ rest)
        = { spaceTokensFrom ferror n (create none) rest with
            tokens := (items.map fun item => item.parsed.token) ++
              (spaceTokensFrom ferror n (create none) rest).tokens } := by
  intro items
  induction items with
  | nil => simp
  | cons item items ih =>
      have hcall := nextSpaceToken_terminated ferror none item
        (items.flatMap Terminated.text ++ rest)
      rw [markedToken_eq_some (Option.some_ne_none _).symm] at hcall
      rw [List.flatMap_cons, List.append_assoc, List.length_cons,
        show items.length + 1 + n = items.length + n + 1 by omega,
        spaceTokensFrom_token item.parsed.token hcall, ih]
      rfl

/-- A well-formed input and a newline: all words are ended by a blank now, and have the tokens
that they had. -/
theorem Parse.WellFormed.newline {p : Parse} (hp : p.WellFormed) :
    ∃ (items : List Terminated) (gap : Gap),
      p.text ++ [NEWLINE] = items.flatMap Terminated.text ++ gap.bytes ∧
      (items.map fun item => item.parsed.token) = p.words.map ParsedWord.token := by
  obtain ⟨items, ending⟩ := p
  cases ending with
  | blanks gap =>
      refine ⟨items, ⟨gap.bytes ++ [NEWLINE], ?_⟩, ?_, ?_⟩
      · intro b hb
        rcases List.mem_append.mp hb with hb | hb
        · exact gap.blank b hb
        · exact Or.inr (Or.inr (List.mem_singleton.mp hb))
      · simp [Parse.text, Ending.text]
      · simp [Parse.words, Ending.words]
  | lastWord gap word =>
      -- The end of the input makes a word line-final, as the newline does.
      refine ⟨items ++ [⟨gap, word, NEWLINE, Or.inr (Or.inr rfl)⟩], ⟨[], by simp⟩, ?_, ?_⟩
      · simp [Parse.text, Ending.text, Terminated.text]
      · simp [Parse.words, Ending.words, Terminated.parsed]
  | openQuote gap segments q content hcontent rest hrest => exact hp.elim
  | backslash gap segments => exact hp.elim

/-! ### Both inputs -/

/-- **Joined inputs.** If an input is tokenized without an error and without a marker, then with a
newline and any second input behind it, with or without a read error at its end, the tokenizer
returns the tokens of the first one, each with its boundaries, and then answers as it does for the
second one. A newline at the end of the first input alone changes nothing. -/
theorem spaceTokenStream_join {a : List UInt8} (ha : (spaceTokenStream none a false).Clean)
    (b : List UInt8) (ferror : Bool) :
    spaceTokenStream none (a ++ NEWLINE :: b) ferror
        = { spaceTokenStream none b ferror with
            tokens := (spaceTokenStream none a false).tokens ++
              (spaceTokenStream none b ferror).tokens } ∧
      (spaceTokenStream none a false).endBoundaries = 0 ∧
      spaceTokenStream none (a ++ [NEWLINE]) false = spaceTokenStream none a false := by
  obtain ⟨p, rfl⟩ := exists_parse a
  rw [spaceTokenStream_eq, Parse.stream_none] at ha ⊢
  obtain ⟨items, gap, htext, hwords⟩ := (p.wellFormed_iff.mpr ha).newline
  have hjoin (b : List UInt8) (ferror : Bool) : spaceTokenStream none (p.text ++ NEWLINE :: b) ferror
      = { spaceTokenStream none b ferror with
          tokens := p.words.map ParsedWord.token ++ (spaceTokenStream none b ferror).tokens } := by
    have hbytes : p.text ++ NEWLINE :: b = items.flatMap Terminated.text ++ (gap.bytes ++ b) := by
      rw [← List.append_assoc, ← htext, List.append_assoc, List.singleton_append]
    rw [hbytes]
    generalize hn : (items.flatMap Terminated.text ++ (gap.bytes ++ b)).length + 1 = n
    have hlength : b.length < n := by
      rw [← hn]
      simp only [List.length_append]
      omega
    -- Enough calls for the words of the first input, and then for the second one.
    calc
      spaceTokenStream none (items.flatMap Terminated.text ++ (gap.bytes ++ b)) ferror
        = spaceTokensFrom ferror (items.length + n) (create none)
            (items.flatMap Terminated.text ++ (gap.bytes ++ b)) :=
          spaceTokensFrom_enough ferror _ (Nat.lt_succ_self _) (by omega)
      _ = { spaceTokensFrom ferror n (create none) b with
            tokens := (items.map fun item => item.parsed.token) ++
              (spaceTokensFrom ferror n (create none) b).tokens } := by
          rw [spaceTokensFrom_items, spaceTokensFrom_gap ferror none gap b (by omega)]
      _ = _ := by
          rw [hwords, spaceTokensFrom_enough ferror (create none) hlength (Nat.lt_succ_self _)]
          rfl
  refine ⟨hjoin b ferror, rfl, ?_⟩
  rw [hjoin [] false]
  have hnil : spaceTokenStream none [] false = ⟨[], 0, .none⟩ := rfl
  have herror : p.error = .none := ha
  simp [hnil, herror]

/-- `printf 'a\nb "c'`: the words of both lines, and the error of the second one. -/
theorem spaceTokenStream_join_lines :
    (spaceTokenStream none [97, 10, 98, 32, 34, 99] false).args = [[97], [98]] ∧
      (spaceTokenStream none [97, 10, 98, 32, 34, 99] false).endError = .unterminatedQuote := by
  have h := (spaceTokenStream_join (show (spaceTokenStream none [97] false).Clean by decide)
    [98, 32, 34, 99] false).1
  rw [show [97] ++ NEWLINE :: [98, 32, 34, 99] = [97, 10, 98, 32, 34, 99] from rfl] at h
  rw [h]
  decide

end Phxargs
