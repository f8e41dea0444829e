import Mathlib.Logic.Equiv.Basic
import Phxargs.Proofs.DelimTokenizer

/-!
# `Phxargs.Proofs.Delimiters`: the delimiter, the newline at the end, and bytes from 128 on

Two laws of the delimiter tokenizer that compare two runs.

A newline at the end of the input goes unnoticed where it ends an item. Behind a delimiter, or
in an empty input, it is an item of its own before it is stripped, so one empty item appears
(`delimTokenizer_newline`).

Which byte is the delimiter does not matter, as long as it can be recognised. The delimiter is
a `char`, and `getc` returns an `int` from 0 to 255: where `char` is signed, no byte is equal to
a delimiter from 128 on. `delimTokensFrom_rename` is the simulation between a run and the run
on renamed bytes.
-/

set_option autoImplicit false

namespace Phxargs

open Lib DelimTokenizer

/-! ### A newline at the end -/

/-- The item behind the last delimiter, with a newline behind it: the newline is stripped, and
an item remains in any case. -/
theorem lastItem_snoc_newline {d : UInt8} (hd : d ≠ NEWLINE) (last : List UInt8) :
    lastItem d (last ++ [NEWLINE]) = [⟨cstr last, 0, Nat.zero_le _⟩] := by
  simp [lastItem, hd]

/-- Without the newline, the item is the same, but there is none if it is empty. -/
theorem lastItem_of_not_newline {d : UInt8} {last : List UInt8}
    (hlast : last.getLast? ≠ some NEWLINE) :
    lastItem d last = if last = [] then [] else [⟨cstr last, 0, Nat.zero_le _⟩] := by
  simp [lastItem, hlast]

/-- **A newline at the end.** For a delimiter below 128 other than newline and an input that does
not end in a newline, one more newline behind the input changes no item. If the input is empty
or ends in a delimiter, one empty item is added at the end; otherwise none is. Neither the
boundaries nor the error change. -/
theorem delimTokenizer_newline (fresh fresh' : Nat → UInt8) (bufferSize bufferSize' : Nat)
    {d : UInt8} (hd : d < 128) (hnewline : d ≠ NEWLINE) {bytes : List UInt8}
    (hbytes : bytes.getLast? ≠ some NEWLINE) {n : Nat} (hn : bytes.length + 1 < n) :
    let stream := delimTokensFrom fresh false n (DelimTokenizer.create bufferSize d) bytes
    delimTokensFrom fresh' false n (DelimTokenizer.create bufferSize' d) (bytes ++ [NEWLINE])
      = { stream with
          tokens := stream.tokens ++
            if bytes = [] ∨ bytes.getLast? = some d then [⟨[], 0, Nat.zero_le _⟩] else [] } := by
  intro stream
  have hstream : stream = delimStream d (Split.of d bytes) :=
    delimTokensFrom_split fresh hd bufferSize _ (by omega)
  rw [hstream, delimTokensFrom_split fresh' hd bufferSize' ((Split.of d bytes).snocOther hnewline)
    (by simpa using hn)]
  generalize Split.of d bytes = s
  have hlast : s.last.getLast? ≠ some NEWLINE := by
    by_cases hempty : s.last = []
    · simp [hempty]
    · rw [← s.getLast?_text hempty]
      exact hbytes
  have hitem : lastItem d (s.last ++ [NEWLINE]) = lastItem d s.last ++
      if s.last = [] then [⟨[], 0, Nat.zero_le _⟩] else [] := by
    rw [lastItem_snoc_newline hnewline, lastItem_of_not_newline hlast]
    by_cases hempty : s.last = []
    · simp [hempty, cstr]
    · simp [hempty]
  simp only [← s.last_eq_nil_iff]
  simp [delimStream, Split.snocOther, hitem]

/-- `printf 'a,b\n' | phxargs -d ,` -/
theorem delimTokenizer_newline_comma :
    (delimTokensFrom (fun _ => 1) false 5 (DelimTokenizer.create 2 44) [97, 44, 98, 10]).args
      = [[97], [98]] := by
  have h := delimTokenizer_newline (fun _ => 1) (fun _ => 1) 2 2 (show (44 : UInt8) < 128 by decide)
    (by decide) (show [97, 44, 98].getLast? ≠ some NEWLINE by decide) (show 4 < 5 by decide)
  rw [show [97, 44, 98] ++ [NEWLINE] = [97, 44, 98, 10] from rfl] at h
  rw [h]
  decide

/-- `printf 'a,' | phxargs -d ,` has one item, `printf 'a,\n' | phxargs -d ,` has two. The second
one is empty. An input of one newline has an item, so `-r` does not suppress the command. -/
theorem trailingNewline_adds_item :
    (delimTokensFrom (fun _ => 1) false 4 (DelimTokenizer.create 2 44) [97, 44]).args = [[97]] ∧
      (delimTokensFrom (fun _ => 1) false 4 (DelimTokenizer.create 2 44) [97, 44, 10]).args
        = [[97], []] ∧
      (delimTokensFrom (fun _ => 1) false 2 (DelimTokenizer.create 2 44) []).args = [] ∧
      (delimTokensFrom (fun _ => 1) false 2 (DelimTokenizer.create 2 44) [10]).args = [[]] := by
  decide

/-! ### Renamed bytes -/

/-- The byte ends an item: it is equal to the delimiter, as an `int`. -/
def Delimits (d ch : UInt8) : Prop := (ch.toNat : Int) = charToInt d

instance (d ch : UInt8) : Decidable (Delimits d ch) :=
  inferInstanceAs (Decidable ((ch.toNat : Int) = charToInt d))

/-- A delimiter from 128 on is negative as an `int`, and ends no item. -/
theorem delimits_iff (d ch : UInt8) : Delimits d ch ↔ d < 128 ∧ ch = d := by
  by_cases hd : d < 128
  · simp [Delimits, charToInt_eq_iff hd, hd]
  · have hge : 128 ≤ d.toNat := UInt8.le_iff_toNat_le.mp (UInt8.not_lt.mp hd)
    have hlt := d.toNat_lt
    simp only [Delimits, charToInt, if_neg hd]
    constructor
    · intro h
      omega
    · exact fun h => absurd h.1 hd

/-- The two bytes with special meaning stay what they are. -/
structure Renames (σ : UInt8 → UInt8) : Prop where
  nul : ∀ ch, σ ch = 0 ↔ ch = 0
  newline : ∀ ch, σ ch = NEWLINE ↔ ch = NEWLINE

/-- The stream with renamed bytes in the items. -/
def TokenStream.rename (σ : UInt8 → UInt8) (stream : TokenStream) : TokenStream :=
  { stream with tokens := stream.tokens.map fun token => { token with arg := token.arg.map σ } }

/-- A renaming keeps where a C string ends. -/
theorem Renames.cstr_map {σ : UInt8 → UInt8} (hσ : Renames σ) (bytes : List UInt8) :
    cstr (bytes.map σ) = (cstr bytes).map σ := by
  induction bytes with
  | nil => rfl
  | cons ch bytes ih =>
      by_cases hch : ch = 0
      · simp [cstr, hch, (hσ.nul 0).mpr rfl]
      · have hne : σ ch ≠ 0 := fun h => hch ((hσ.nul ch).mp h)
        simpa [cstr, hch, hne] using ih

section Rename

variable {fresh fresh' : Nat → UInt8} {d d' : UInt8} {σ : UInt8 → UInt8}

/-- The answers of two calls agree up to the renaming, and leave both tokenizers ready for the
next call, or both with the same error. -/
structure Answers (d d' : UInt8) (σ : UInt8 → UInt8) (a a' : Next) : Prop where
  token : a'.token = a.token.map (List.map σ)
  boundaries : a'.boundaries = a.boundaries
  rest : a'.rest = a.rest.map σ
  err : a'.toker.err = a.toker.err
  ready : a.token ≠ none → Ready d a.toker ∧ Ready d' a'.toker

/-- The end of the input, behind the same bytes of an item. -/
theorem handleEof_rename (hσ : Renames σ) (hdelim : d = NEWLINE ↔ d' = NEWLINE) (ferror : Bool)
    {item : List UInt8} {t t' : DelimTokenizer} (ht : InItem d item t)
    (ht' : InItem d' (item.map σ) t') :
    Answers d d' σ (t.handleEof fresh ferror) (t'.handleEof fresh' ferror) := by
  cases ferror with
  | true => exact ⟨rfl, rfl, rfl, rfl, fun h => absurd rfl h⟩
  | false =>
      by_cases hitem : item = []
      · subst hitem
        rw [handleEof_nil fresh ht, handleEof_nil fresh' ht']
        exact ⟨rfl, rfl, rfl, by rw [ht.ready.err, ht'.ready.err], fun h => absurd rfl h⟩
      · obtain ⟨u, hu, hready⟩ := handleEof_item fresh hitem ht
        obtain ⟨u', hu', hready'⟩ := handleEof_item fresh' (by simpa using hitem) ht'
        have hstrip : (d' ≠ NEWLINE ∧ (item.map σ).getLast? = some NEWLINE)
            ↔ (d ≠ NEWLINE ∧ item.getLast? = some NEWLINE) := by
          rw [Ne, ← hdelim, List.getLast?_map, Option.map_eq_some_iff]
          simp [hσ.newline]
        rw [hu, hu']
        refine ⟨?_, rfl, rfl, by rw [hready.err, hready'.err], fun _ => ⟨hready, hready'⟩⟩
        simp only [hstrip, Option.map_some, ← hσ.cstr_map]
        split
        · rw [List.map_dropLast]
        · rfl

/-- A byte that ends the item. -/
theorem next_of_delimits {ferror : Bool} {t : DelimTokenizer} {ch : UInt8} {bytes : List UInt8}
    (h : Delimits t.delim ch) :
    next fresh ferror t (ch :: bytes)
      = ⟨some (t.endToken fresh).2, 1, (t.endToken fresh).1, bytes⟩ := by
  rw [next]
  exact if_neg (not_not.mpr h)

/-- A byte of the item. -/
theorem next_of_not_delimits {ferror : Bool} {t : DelimTokenizer} {ch : UInt8}
    {bytes : List UInt8} (h : ¬ Delimits t.delim ch) :
    next fresh ferror t (ch :: bytes) = next fresh ferror (t.appendToToken fresh ch) bytes := by
  rw [next]
  exact if_pos h

/-- **The simulation.** On bytes of which the renaming keeps whether they end an item, a call and
the call on the renamed bytes agree. Induction on the bytes. -/
theorem next_rename (hσ : Renames σ) (hdelim : d = NEWLINE ↔ d' = NEWLINE) (ferror : Bool) :
    ∀ (bytes : List UInt8) {item : List UInt8} {t t' : DelimTokenizer},
      (∀ ch ∈ bytes, Delimits d' (σ ch) ↔ Delimits d ch) → InItem d item t →
      InItem d' (item.map σ) t' →
      Answers d d' σ (next fresh ferror t bytes) (next fresh' ferror t' (bytes.map σ)) := by
  intro bytes
  induction bytes with
  | nil =>
      intro item t t' _ ht ht'
      exact handleEof_rename hσ hdelim ferror ht ht'
  | cons ch bytes ih =>
      intro item t t' hmatch ht ht'
      rw [List.forall_mem_cons] at hmatch
      have hends : Delimits t'.delim (σ ch) ↔ Delimits t.delim ch := by
        rw [ht.ready.delim, ht'.ready.delim]
        exact hmatch.1
      rw [List.map_cons]
      by_cases hch : Delimits t.delim ch
      · obtain ⟨htoken, hready⟩ := ht.endToken fresh
        obtain ⟨htoken', hready'⟩ := ht'.endToken fresh'
        rw [next_of_delimits hch, next_of_delimits (hends.mpr hch)]
        exact ⟨by simp [htoken, htoken', hσ.cstr_map], rfl, rfl, by rw [hready.err, hready'.err],
          fun _ => ⟨hready, hready'⟩⟩
      · rw [next_of_not_delimits hch, next_of_not_delimits (mt hends.mp hch)]
        have happend := ht'.append fresh' (σ ch)
        rw [← List.map_singleton, ← List.map_append] at happend
        exact ih hmatch.2 (ht.append fresh ch) happend

/-! ### What a call consumes -/

/-- The calls of `on_input_boundary` of all the calls of `next_token`. -/
def TokenStream.boundaryCount (stream : TokenStream) : Nat :=
  (stream.tokens.map Token.boundaries).sum + stream.endBoundaries

/-- A call leaves a rest of its input. Each delimiter that it consumes is an input boundary. -/
structure Consumes (d : UInt8) (bytes : List UInt8) (a : Next) : Prop where
  rest : a.rest <:+ bytes
  shorter : bytes ≠ [] → a.rest.length < bytes.length
  count : a.boundaries + a.rest.countP (Delimits d) = bytes.countP (Delimits d)
  ends : a.token = none → a.rest = []
  delim : a.toker.delim = d

theorem handleEof_consumes (ferror : Bool) {t : DelimTokenizer} (ht : t.delim = d) :
    Consumes d [] (t.handleEof fresh ferror) := by
  subst ht
  unfold handleEof
  split
  · constructor <;> simp
  · split
    · constructor <;> simp
    · constructor <;> simp [endToken, appendToToken, dropLast]
      split <;> rfl

/-- Induction on the bytes. -/
theorem next_consumes (ferror : Bool) :
    ∀ (bytes : List UInt8) {t : DelimTokenizer}, t.delim = d →
      Consumes d bytes (next fresh ferror t bytes) := by
  intro bytes
  induction bytes with
  | nil =>
      intro t ht
      exact handleEof_consumes ferror ht
  | cons ch bytes ih =>
      intro t ht
      by_cases hch : Delimits d ch
      · rw [next_of_delimits (ht ▸ hch)]
        constructor <;> simp [hch, Nat.add_comm]
        exact ht
      · rw [next_of_not_delimits (ht ▸ hch)]
        obtain ⟨hrest, -, hcount, hends, hdelim⟩ := ih (t := t.appendToToken fresh ch) ht
        have hle := hrest.length_le
        exact ⟨hrest.trans (List.suffix_cons ch bytes), fun _ => by simpa using by omega,
          by simpa [hch] using hcount, hends, hdelim⟩

/-- At the end of the input there is no token. -/
theorem nextDelimToken_nil (ferror : Bool) (t : DelimTokenizer) :
    (nextDelimToken fresh ferror t []).token = none := by
  cases ferror <;> rfl

/-- All the calls: as many input boundaries as bytes that end an item. Induction on the calls. -/
theorem delimTokensFrom_boundaryCount (ferror : Bool) :
    ∀ {n : Nat} {bytes : List UInt8} {t : DelimTokenizer}, bytes.length < n → t.delim = d →
      (delimTokensFrom fresh ferror n t bytes).boundaryCount = bytes.countP (Delimits d) := by
  intro n
  induction n with
  | zero => intro bytes t hn; exact absurd hn (Nat.not_lt_zero _)
  | succ n ih =>
      intro bytes t hn ht
      obtain ⟨-, hshorter, hcount, hends, hdelim⟩ : Consumes d bytes
          (nextDelimToken fresh ferror t bytes) := next_consumes ferror bytes ht
      cases htoken : (nextDelimToken fresh ferror t bytes).token with
      | none =>
          rw [hends htoken] at hcount
          simpa [delimTokensFrom, htoken, TokenStream.boundaryCount] using hcount
      | some arg =>
          have hne : bytes ≠ [] := by
            intro h
            rw [h, nextDelimToken_nil] at htoken
            cases htoken
          have hlt := hshorter hne
          have hlater := ih (Nat.lt_of_lt_of_le hlt (Nat.le_of_lt_succ hn)) hdelim
          rw [← hcount, ← hlater]
          simp [delimTokensFrom, htoken, TokenStream.boundaryCount, Nat.add_assoc]

/-! ### Another delimiter -/

/-- The calls on renamed bytes. Induction on the calls. -/
theorem delimTokensFrom_rename (hσ : Renames σ) (hdelim : d = NEWLINE ↔ d' = NEWLINE)
    (ferror : Bool) :
    ∀ (n : Nat) {bytes : List UInt8} {t t' : DelimTokenizer},
      (∀ ch ∈ bytes, Delimits d' (σ ch) ↔ Delimits d ch) → Ready d t → Ready d' t' →
      delimTokensFrom fresh' ferror n t' (bytes.map σ)
        = (delimTokensFrom fresh ferror n t bytes).rename σ := by
  intro n
  induction n with
  | zero => intros; rfl
  | succ n ih =>
      intro bytes t t' hmatch ht ht'
      obtain ⟨htoken, hboundaries, hrest, herr, hready⟩ : Answers d d' σ
          (nextDelimToken fresh ferror t bytes) (nextDelimToken fresh' ferror t' (bytes.map σ)) :=
        next_rename hσ hdelim ferror bytes hmatch ht.start ht'.start
      have hconsumes : Consumes d bytes (nextDelimToken fresh ferror t bytes) :=
        next_consumes ferror bytes ht.delim
      cases hcall : (nextDelimToken fresh ferror t bytes).token with
      | none =>
          rw [hcall] at htoken
          simp [delimTokensFrom, hcall, htoken, hboundaries, herr, TokenStream.rename]
      | some arg =>
          obtain ⟨hready, hready'⟩ := hready (by simp [hcall])
          have hlater := ih (fun ch hch => hmatch ch (hconsumes.rest.subset hch)) hready hready'
          rw [← hrest] at hlater
          rw [hcall] at htoken
          simp [delimTokensFrom, hcall, htoken, hboundaries, hlater, TokenStream.rename]

end Rename

/-- Two delimiters that options accept, swapped. -/
theorem renames_swap {d₁ d₂ : UInt8} (hnul₁ : d₁ ≠ 0) (hnul₂ : d₂ ≠ 0) (hnewline₁ : d₁ ≠ NEWLINE)
    (hnewline₂ : d₂ ≠ NEWLINE) : Renames (Equiv.swap d₁ d₂) where
  nul ch := by
    rw [Equiv.swap_apply_eq_iff, Equiv.swap_apply_of_ne_of_ne hnul₁.symm hnul₂.symm]
  newline ch := by
    rw [Equiv.swap_apply_eq_iff, Equiv.swap_apply_of_ne_of_ne hnewline₁.symm hnewline₂.symm]

/-- A swapped byte is the second delimiter where the byte is the first one. -/
theorem delimits_swap_iff (d₁ d₂ ch : UInt8) :
    Delimits d₂ (Equiv.swap d₁ d₂ ch) ↔ d₂ < 128 ∧ ch = d₁ := by
  rw [delimits_iff, Equiv.swap_apply_eq_iff, Equiv.swap_apply_right]

/-- A delimiter from 128 on is never seen. -/
theorem countP_delimits (d : UInt8) (bytes : List UInt8) :
    bytes.countP (Delimits d) = if d < 128 then bytes.count d else 0 := by
  by_cases hd : d < 128
  · simp only [delimits_iff, hd, true_and, if_true]
    rfl
  · simp [delimits_iff, hd]

/-- The second delimiter occurs in the swapped bytes as often as the first one in the bytes. -/
theorem count_map_swap (d₁ d₂ : UInt8) (bytes : List UInt8) :
    (bytes.map (Equiv.swap d₁ d₂)).count d₂ = bytes.count d₁ := by
  have hcount := List.count_map_of_injective bytes _ (Equiv.swap d₁ d₂).injective d₁
  rwa [Equiv.swap_apply_left] at hcount

/-- **Another delimiter.** Two delimiters other than newline, swapped in the input and in place of
each other on the command line, give the swapped items and as many input boundaries, exactly if
both are below 128, neither is, or the input does not contain the first one. -/
theorem delimTokenizer_swap_iff (fresh fresh' : Nat → UInt8) (ferror : Bool)
    (bufferSize bufferSize' : Nat) {d₁ d₂ : UInt8} (hnul₁ : d₁ ≠ 0) (hnul₂ : d₂ ≠ 0)
    (hnewline₁ : d₁ ≠ NEWLINE) (hnewline₂ : d₂ ≠ NEWLINE) (bytes : List UInt8) {n : Nat}
    (hn : bytes.length < n) :
    let stream := delimTokensFrom fresh ferror n (DelimTokenizer.create bufferSize d₁) bytes
    let swapped := delimTokensFrom fresh' ferror n (DelimTokenizer.create bufferSize' d₂)
      (bytes.map (Equiv.swap d₁ d₂))
    (swapped.args = stream.args.map (List.map (Equiv.swap d₁ d₂)) ∧
        swapped.boundaryCount = stream.boundaryCount) ↔
      (d₁ < 128 ↔ d₂ < 128) ∨ d₁ ∉ bytes := by
  intro stream swapped
  have hmatch (ch : UInt8) : Delimits d₂ (Equiv.swap d₁ d₂ ch) ↔ d₂ < 128 ∧ ch = d₁ :=
    delimits_swap_iff d₁ d₂ ch
  have hcount : stream.boundaryCount = if d₁ < 128 then bytes.count d₁ else 0 := by
    rw [← countP_delimits]
    exact delimTokensFrom_boundaryCount ferror hn rfl
  have hcount' : swapped.boundaryCount = if d₂ < 128 then bytes.count d₁ else 0 := by
    rw [← count_map_swap d₁ d₂, ← countP_delimits]
    exact delimTokensFrom_boundaryCount ferror (by simpa using hn) rfl
  constructor
  · -- The runs report the occurrences of the first delimiter, or none.
    rintro ⟨-, hequal⟩
    rw [hcount, hcount'] at hequal
    rw [← List.count_eq_zero]
    by_cases hd₁ : d₁ < 128
    · by_cases hd₂ : d₂ < 128
      · simp [hd₁, hd₂]
      · simpa [hd₁, hd₂] using hequal.symm
    · by_cases hd₂ : d₂ < 128
      · simpa [hd₁, hd₂] using hequal
      · simp [hd₁, hd₂]
  · intro hcond
    have hsame : ∀ ch ∈ bytes, Delimits d₂ (Equiv.swap d₁ d₂ ch) ↔ Delimits d₁ ch := by
      intro ch hch
      rw [hmatch, delimits_iff]
      rcases hcond with hcond | hcond
      · rw [hcond]
      · have hne : ch ≠ d₁ := fun h => hcond (h ▸ hch)
        simp [hne]
    have hrename : swapped = stream.rename (Equiv.swap d₁ d₂) :=
      delimTokensFrom_rename (renames_swap hnul₁ hnul₂ hnewline₁ hnewline₂)
        (by simp [hnewline₁, hnewline₂]) ferror n hsame ⟨rfl, rfl⟩ ⟨rfl, rfl⟩
    rw [hrename]
    constructor
    · simp [TokenStream.args, TokenStream.rename, Function.comp_def]
    · simp [TokenStream.boundaryCount, TokenStream.rename, Function.comp_def]

/-- `printf 'a,b' | phxargs -d ,` and `printf 'a;b' | phxargs -d ';'` -/
theorem delimTokenizer_swap_semicolon :
    (delimTokensFrom (fun _ => 1) false 4 (DelimTokenizer.create 2 59) [97, 59, 98]).args
      = (delimTokensFrom (fun _ => 1) false 4 (DelimTokenizer.create 2 44) [97, 44, 98]).args := by
  have h := (delimTokenizer_swap_iff (fun _ => 1) (fun _ => 1) false 2 2
    (show (44 : UInt8) ≠ 0 by decide) (show (59 : UInt8) ≠ 0 by decide) (by decide) (by decide)
    [97, 44, 98] (show 3 < 4 by decide)).mpr (Or.inl (by decide))
  exact h.1.trans (by decide)

/-- `printf 'a,b' | phxargs -d ,` has two items. `printf 'a\200b' | phxargs -d $'\200'` has one,
with the delimiter in it, and no input boundary. -/
theorem highDelimiter_not_seen :
    (delimTokensFrom (fun _ => 1) false 4 (DelimTokenizer.create 2 44) [97, 44, 98]).args
        = [[97], [98]] ∧
      (delimTokensFrom (fun _ => 1) false 4 (DelimTokenizer.create 2 128)
        ([97, 44, 98].map (Equiv.swap 44 128))).args = [[97, 128, 98]] ∧
      (delimTokensFrom (fun _ => 1) false 4 (DelimTokenizer.create 2 128)
        ([97, 44, 98].map (Equiv.swap 44 128))).boundaryCount = 0 := by
  decide

end Phxargs
