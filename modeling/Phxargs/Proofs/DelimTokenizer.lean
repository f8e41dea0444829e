import Phxargs.Lib.Split
import Phxargs.Model.DelimTokenizer

/-!
# `Phxargs.Proofs.DelimTokenizer`: the delimiter tokenizer splits its input

Repeated calls of `next_delim_token` give the runs of the split of the input at the delimiter,
and then the item behind the last delimiter, if there is one. `InItem` is what the tokenizer
keeps between two bytes of an item. It does not speak about the memory behind `pos`, which
holds the bytes of earlier items.
-/

set_option autoImplicit false

namespace Phxargs

open Lib DelimTokenizer

/-! ### The answers of a split -/

/-- The item behind the last delimiter. There is none if no byte is there. The final newline
is not part of it, unless newline is the delimiter. -/
def lastItem (d : UInt8) (last : List UInt8) : List Token :=
  if last = [] then
    []
  else
    let item := if d ≠ NEWLINE ∧ last.getLast? = some NEWLINE then last.dropLast else last
    [⟨cstr item, 0, Nat.zero_le _⟩]

/-- An item is the one boundary of its call. -/
theorem one_boundary : 1 ≤ 1 := Nat.le_refl 1

/-- The answers for a split: each run is ended by a delimiter, which is an input boundary. -/
def delimStream (d : UInt8) {bytes : List UInt8} (s : Split d bytes) : TokenStream where
  tokens := s.runs.map (fun run => ⟨cstr run, 1, one_boundary⟩) ++ lastItem d s.last
  endBoundaries := 0
  endError := .none

/-! ### One call -/

/-- Between two calls. -/
structure Ready (d : UInt8) (t : DelimTokenizer) : Prop where
  err : t.err = .none
  delim : t.delim = d

/-- In a call, behind these bytes of the item. -/
structure InItem (d : UInt8) (item : List UInt8) (t : DelimTokenizer) : Prop where
  ready : Ready d t
  contents : t.buf.contents = item
  tokenStart : t.tokenStart = 0

/-- Below 128, the comparison with a `char` is the comparison of the bytes. -/
theorem charToInt_eq_iff {d : UInt8} (hd : d < 128) (ch : UInt8) :
    (ch.toNat : Int) = charToInt d ↔ ch = d := by
  rw [charToInt, if_pos hd, Int.natCast_inj, UInt8.toNat_inj]

variable (fresh : Nat → UInt8) {d : UInt8} {item : List UInt8} {t : DelimTokenizer}

theorem InItem.append (h : InItem d item t) (ch : UInt8) :
    InItem d (item ++ [ch]) (t.appendToToken fresh ch) where
  ready := ⟨h.ready.err, h.ready.delim⟩
  contents := by
    show (bufferPut fresh t.buf ch).contents = _
    rw [bufferPut_contents, h.contents]
  tokenStart := h.tokenStart

/-- The token that ends here is the item, cut at its first NUL. -/
theorem InItem.endToken (h : InItem d item t) :
    (t.endToken fresh).2 = cstr item ∧ Ready d (t.endToken fresh).1 := by
  have hnul := h.append fresh 0
  refine ⟨?_, hnul.ready⟩
  show cstr ((t.appendToToken fresh 0).buf.buf.drop (t.appendToToken fresh 0).tokenStart) = _
  rw [hnul.tokenStart, List.drop_zero, Buffer.cstr_start hnul.contents]

theorem InItem.dropLast {ch : UInt8} (h : InItem d (item ++ [ch]) t) : InItem d item t.dropLast where
  ready := ⟨h.ready.err, h.ready.delim⟩
  contents := bufferDropLast_contents h.contents
  tokenStart := h.tokenStart

/-- The rest of a run and its delimiter. Induction on the rest of the run. -/
theorem next_run (hd : d < 128) (rest : List UInt8) :
    ∀ (run : List UInt8) {item : List UInt8} {t : DelimTokenizer}, d ∉ run → InItem d item t →
      ∃ t', next fresh false t (run ++ d :: rest) = ⟨some (cstr (item ++ run)), 1, t', rest⟩ ∧
        Ready d t' := by
  intro run
  induction run with
  | nil =>
      intro item t _ ht
      obtain ⟨htoken, hready⟩ := ht.endToken fresh
      refine ⟨(t.endToken fresh).1, ?_, hready⟩
      -- The delimiter itself: the boundary fires and the item ends.
      rw [List.nil_append, next, if_neg, htoken, List.append_nil]
      rw [ht.ready.delim, not_not]
      exact (charToInt_eq_iff hd d).mpr rfl
  | cons ch run ih =>
      intro item t hfree ht
      rw [List.mem_cons, not_or] at hfree
      obtain ⟨t', hnext, hready⟩ := ih hfree.2 (ht.append fresh ch)
      refine ⟨t', ?_, hready⟩
      rw [List.cons_append, next, if_pos, hnext, List.append_assoc, List.singleton_append]
      rw [ht.ready.delim, Ne, charToInt_eq_iff hd]
      exact fun h => hfree.1 h.symm

/-- The bytes behind the last delimiter are collected up to the end of the input. -/
theorem next_last (hd : d < 128) :
    ∀ (last : List UInt8) {item : List UInt8} {t : DelimTokenizer}, d ∉ last → InItem d item t →
      ∃ t', InItem d (item ++ last) t' ∧ next fresh false t last = t'.handleEof fresh false := by
  intro last
  induction last with
  | nil =>
      intro item t _ ht
      exact ⟨t, (List.append_nil item).symm ▸ ht, rfl⟩
  | cons ch last ih =>
      intro item t hfree ht
      rw [List.mem_cons, not_or] at hfree
      obtain ⟨t', ht', hnext⟩ := ih hfree.2 (ht.append fresh ch)
      rw [List.append_assoc, List.singleton_append] at ht'
      refine ⟨t', ht', ?_⟩
      rw [next, if_pos, hnext]
      rw [ht.ready.delim, Ne, charToInt_eq_iff hd]
      exact fun h => hfree.1 h.symm

/-- The end of the input without an item. -/
theorem handleEof_nil (ht : InItem d [] t) : t.handleEof fresh false = ⟨none, 0, t, []⟩ := by
  have hpos : t.tokenStart = t.buf.pos := by
    rw [ht.tokenStart, ← t.buf.length_contents, ht.contents, List.length_nil]
  unfold handleEof
  rw [if_neg Bool.false_ne_true, if_pos hpos]

/-- The end of the input behind an item. -/
theorem handleEof_item (hne : item ≠ []) (ht : InItem d item t) :
    ∃ t', t.handleEof fresh false = ⟨some (cstr
        (if d ≠ NEWLINE ∧ item.getLast? = some NEWLINE then item.dropLast else item)), 0, t', []⟩ ∧
      Ready d t' := by
  obtain ⟨init, ch, rfl⟩ : ∃ init ch, item = init ++ [ch] :=
    ⟨item.dropLast, item.getLast hne, (List.dropLast_append_getLast hne).symm⟩
  -- A byte has been put, so this is not the end without an item.
  have hpos : t.tokenStart ≠ t.buf.pos := by
    rw [ht.tokenStart, ← t.buf.length_contents, ht.contents, List.length_append,
      List.length_singleton]
    exact Nat.zero_ne_add_one _
  unfold handleEof
  rw [if_neg Bool.false_ne_true, if_neg hpos, ht.ready.delim, Buffer.getD_last ht.contents,
    List.dropLast_concat]
  simp only [List.getLast?_concat, Option.some_inj]
  -- What is dropped from the buffer is the last byte of the item.
  by_cases hstrip : d ≠ NEWLINE ∧ ch = NEWLINE
  · simp only [if_pos hstrip]
    obtain ⟨htoken, hready⟩ := ht.dropLast.endToken fresh
    exact ⟨_, by rw [htoken], hready⟩
  · simp only [if_neg hstrip]
    obtain ⟨htoken, hready⟩ := ht.endToken fresh
    exact ⟨_, by rw [htoken], hready⟩

/-- A call starts with an empty item, whatever the buffer holds from the calls before. -/
theorem Ready.start (h : Ready d t) :
    InItem d [] (({ t with buf := bufferReset t.buf } : DelimTokenizer).startToken) :=
  ⟨⟨h.err, h.delim⟩, rfl, rfl⟩

/-! ### Successive calls -/

/-- A call that returns a token. -/
theorem delimTokensFrom_token {ferror : Bool} {n : Nat} {bytes rest : List UInt8} {arg : CStr}
    {boundaries : Nat} (hle : boundaries ≤ 1) {t' : DelimTokenizer}
    (h : nextDelimToken fresh ferror t bytes = ⟨some arg, boundaries, t', rest⟩) :
    delimTokensFrom fresh ferror (n + 1) t bytes
      = { delimTokensFrom fresh ferror n t' rest with
          tokens := ⟨arg, boundaries, hle⟩ :: (delimTokensFrom fresh ferror n t' rest).tokens } := by
  rw [delimTokensFrom]
  simp only [h]

/-- A call that returns `NULL`. -/
theorem delimTokensFrom_null {ferror : Bool} {n : Nat} {bytes rest : List UInt8}
    {boundaries : Nat} {t' : DelimTokenizer}
    (h : nextDelimToken fresh ferror t bytes = ⟨none, boundaries, t', rest⟩) :
    delimTokensFrom fresh ferror (n + 1) t bytes = ⟨[], boundaries, t'.err⟩ := by
  rw [delimTokensFrom]
  simp only [h]

/-- At the end of the input, every call returns `NULL`. -/
theorem delimTokensFrom_nil (n : Nat) (ht : Ready d t) :
    delimTokensFrom fresh false n t [] = ⟨[], 0, .none⟩ := by
  cases n with
  | zero => rfl
  | succ n =>
      have hcall : nextDelimToken fresh false t []
          = ⟨none, 0, ({ t with buf := bufferReset t.buf } : DelimTokenizer).startToken, []⟩ :=
        handleEof_nil fresh ht.start
      rw [delimTokensFrom_null fresh hcall]
      show (⟨[], 0, t.err⟩ : TokenStream) = _
      rw [ht.err]

/-- The calls behind the last delimiter. -/
theorem delimTokensFrom_last (hd : d < 128) {last : List UInt8} (hfree : d ∉ last) {n : Nat}
    (hn : last.length < n) (ht : Ready d t) :
    delimTokensFrom fresh false n t last = ⟨lastItem d last, 0, .none⟩ := by
  -- The source finds the empty rest by `token_start == pos`.
  by_cases hempty : last = []
  · rw [hempty, delimTokensFrom_nil fresh n ht]
    rfl
  · obtain ⟨n, rfl⟩ : ∃ m, n = m + 1 := ⟨n - 1, by omega⟩
    obtain ⟨t', ht', hnext⟩ := next_last fresh hd last hfree ht.start
    obtain ⟨t'', heof, hready⟩ := handleEof_item fresh hempty ht'
    have hcall : nextDelimToken fresh false t last = _ := hnext.trans heof
    rw [delimTokensFrom_token fresh (Nat.zero_le 1) hcall, delimTokensFrom_nil fresh n hready,
      lastItem, if_neg hempty]

/-- The calls on a text that is split. Induction on the runs. -/
theorem delimTokensFrom_runs (hd : d < 128) {last : List UInt8} (hlast : d ∉ last) :
    ∀ (runs : List (List UInt8)) {n : Nat} {t : DelimTokenizer}, (∀ run ∈ runs, d ∉ run) →
      runs.length + last.length < n → Ready d t →
      delimTokensFrom fresh false n t ((runs.map (· ++ [d])).flatten ++ last)
        = ⟨runs.map (fun run => ⟨cstr run, 1, one_boundary⟩) ++ lastItem d last, 0, .none⟩ := by
  intro runs
  induction runs with
  | nil =>
      intro n t _ hn ht
      rw [List.length_nil, Nat.zero_add] at hn
      exact delimTokensFrom_last fresh hd hlast hn ht
  | cons run runs ih =>
      intro n t hfree hn ht
      rw [List.forall_mem_cons] at hfree
      rw [List.length_cons] at hn
      obtain ⟨n, rfl⟩ : ∃ m, n = m + 1 := ⟨n - 1, by omega⟩
      rw [List.map_cons, List.flatten_cons, List.append_assoc, List.append_assoc,
        List.singleton_append]
      -- One call for the first run. It leaves the tokenizer ready for the calls on the rest.
      obtain ⟨t', hnext, hready⟩ := next_run fresh hd ((runs.map (· ++ [d])).flatten ++ last) run
        hfree.1 ht.start
      have hcall : nextDelimToken fresh false t _ = _ := hnext
      rw [delimTokensFrom_token fresh (Nat.le_refl 1) hcall, ih hfree.2 (by omega) hready]
      rfl

/-- The calls on a new tokenizer, as many as the input can need. -/
theorem delimTokensFrom_split (hd : d < 128) (bufferSize : Nat) {bytes : List UInt8}
    (s : Split d bytes) {n : Nat} (hn : bytes.length < n) :
    delimTokensFrom fresh false n (DelimTokenizer.create bufferSize d) bytes = delimStream d s := by
  have hready : Ready d (DelimTokenizer.create bufferSize d) := ⟨rfl, rfl⟩
  have hlength := s.length_le
  have hcalls := delimTokensFrom_runs fresh hd s.last_free s.runs (n := n) s.runs_free (by omega) hready
  rw [s.text_eq] at hcalls
  exact hcalls

/-- **The delimiter tokenizer splits its input.** For a delimiter below 128, an initial size of
the buffer, and an input without a read error, the input has exactly one split, and
successive calls of `next_delim_token` answer with it: each run that a delimiter ends, with
one input boundary, then the bytes behind the last delimiter without their final newline, if
there are any, without an input boundary, and then `NULL` without an error. -/
theorem delimTokenizer_splits (fresh : Nat → UInt8) (bufferSize : Nat) {d : UInt8} (hd : d < 128)
    (bytes : List UInt8) :
    ∃ s : Split d bytes, (∀ s' : Split d bytes, s' = s) ∧
      ∀ n, bytes.length < n →
        delimTokensFrom fresh false n (DelimTokenizer.create bufferSize d) bytes
          = delimStream d s := by
  refine ⟨Split.of d bytes, fun s' => s'.eq _, ?_⟩
  intro n hn
  exact delimTokensFrom_split fresh hd bufferSize (Split.of d bytes) hn

/-- `printf ',a\0x,,b\n' | phxargs -d ,` -/
theorem delimTokenizer_splits_comma :
    ∃ s : Split 44 [44, 97, 0, 120, 44, 44, 98, 10],
      delimTokensFrom (fun _ => 1) false 9 (DelimTokenizer.create 2 44)
        [44, 97, 0, 120, 44, 44, 98, 10] = delimStream 44 s ∧
      (delimStream 44 s).args = [[], [97], [], [98]] := by
  obtain ⟨s, hs, hcalls⟩ := delimTokenizer_splits (fun _ => 1) 2 (d := 44) (by decide)
    [44, 97, 0, 120, 44, 44, 98, 10]
  refine ⟨s, hcalls 9 (by decide), ?_⟩
  rw [← hs (Split.of 44 _)]
  decide

end Phxargs
