import Phxargs.Model.Buffer
import Phxargs.Proofs.Substitution

/-!
# `Phxargs.Proofs.StrReplace`: `str_replace` and its memory

The counting pass and the copying pass of `str_replace` search with `strstr` in the same way, so
they find the same matches. From the counts of the first pass the source computes the size of
the result, and the second pass writes into that memory without a check of its own.
`copyPass_eq` says that it fills memory of the computed size, byte for byte.

The size itself is computed modulo the word size. The products and the sum are checked; the last
addition, of the NUL, is not. `strReplaceNewLen_eq` of `Phxargs.Proofs.Replacer` says what the
checks let through.
-/

set_option autoImplicit false

namespace Phxargs

open Lib

/-! ### The copying pass in its memory -/

/-- A `memcpy` behind the bytes that have been written, into memory that has room for it. -/
theorem Copy.memcpy_append (done free src : List UInt8) (found : Nat)
    (hroom : src.length ≤ free.length) :
    Copy.memcpy ⟨done ++ free, done.length, found⟩ src
      = some ⟨done ++ src ++ free.drop src.length, (done ++ src).length, found⟩ := by
  have hfits : done.length + src.length ≤ (done ++ free).length := by
    simp only [List.length_append]
    omega
  rw [memcpy, if_pos hfits]
  simp [List.drop_append]

/-- The copying pass fills memory of the size of its result and the NUL. Induction on the
matches; `done` is what has been written before this search. -/
theorem copyPass_eq (placeholder repl : CStr) :
    ∀ (n : Nat) (pos : CStr) (done free : List UInt8) (found : Nat),
      free.length = strlen (copyReplaced placeholder repl n pos) + 1 →
      copyPass placeholder repl n pos ⟨done ++ free, done.length, found⟩
        = some ⟨done ++ (copyReplaced placeholder repl n pos ++ [0]),
            done.length + strlen (copyReplaced placeholder repl n pos) + 1,
            found + countOccurrences placeholder n pos⟩ := by
  -- Behind the last match, the rest is copied with its NUL, and no byte stays free.
  have hlast : ∀ (pos : CStr) (done free : List UInt8) (found : Nat),
      free.length = strlen pos + 1 →
      Copy.memcpy ⟨done ++ free, done.length, found⟩ (pos ++ [0])
        = some ⟨done ++ (pos ++ [0]), done.length + strlen pos + 1, found⟩ := by
    intro pos done free found hfree
    have hlen : (pos ++ [0]).length = free.length := by
      simp [hfree, strlen]
    rw [Copy.memcpy_append done free (pos ++ [0]) found (by omega), hlen, List.drop_length]
    simp [strlen, Nat.add_assoc]
  intro n
  induction n with
  | zero =>
      intro pos done free found hfree
      exact hlast pos done free found hfree
  | succ n ih =>
      intro pos done free found hfree
      rw [copyPass, copyReplaced, countOccurrences]
      rw [copyReplaced] at hfree
      cases hmatch : strstr placeholder pos with
      | none =>
          simp only [hmatch] at hfree ⊢
          exact hlast pos done free found hfree
      | some offset =>
          simp only [hmatch, strlen, List.length_append] at hfree ⊢
          -- Room for the bytes in front of the match, for the replacement, and for the rest.
          rw [Copy.memcpy_append done free _ found (by omega)]
          simp only
          rw [Copy.memcpy_append _ _ repl found (by rw [List.length_drop]; omega)]
          simp only
          rw [ih _ _ _ _ (by simp only [List.length_drop, strlen]; omega)]
          simp [strlen, Nat.add_assoc, Nat.add_comm 1]

/-- More rounds than bytes find no more matches: each match takes a byte at least. -/
theorem countOccurrences_rounds {placeholder : CStr} (hne : placeholder ≠ []) :
    ∀ (n : Nat) (s : CStr), strlen s < n →
      countOccurrences placeholder n s = occurrenceCount s placeholder := by
  have hpos : 0 < strlen placeholder := List.length_pos_iff.mpr hne
  -- Two numbers of rounds that are both large enough give the same count.
  have hsame : ∀ (n m : Nat) (s : CStr), strlen s < n → strlen s < m →
      countOccurrences placeholder n s = countOccurrences placeholder m s := by
    intro n
    induction n with
    | zero => intro m s hn _; omega
    | succ n ih =>
        intro m s hn hm
        obtain ⟨m, rfl⟩ : ∃ k, m = k + 1 := ⟨m - 1, by omega⟩
        rw [countOccurrences, countOccurrences]
        cases hmatch : strstr placeholder s with
        | none => rfl
        | some offset =>
            have hle := strstr_le hmatch
            simp only [strlen] at hn hm hle hpos ⊢
            rw [ih m _ (by simp only [strlen, List.length_drop]; omega)
              (by simp only [strlen, List.length_drop]; omega)]
  intro n s hn
  exact hsame n (strlen s + 1) s hn (Nat.lt_succ_self _)

/-- **`str_replace` replaces from the left.** For a string `s`, a non-empty placeholder, a
replacement, and sizes that pass the checks, the result is `s` with the first occurrence
replaced, the first one behind it, and so on. No other string is. The placeholders that are
removed are bytes of `s`, and `new_len` is the size of the result. However many rounds the loops
are given, as long as there are more than bytes in `s`, both passes find the same number of
matches, and the copying pass writes all bytes of memory of size `new_len + 1` and no other one:
the result, and its NUL. -/
theorem strReplace_replaces {s placeholder repl : CStr} (hs : 0 ∉ s) (hrepl : 0 ∉ repl)
    (hne : placeholder ≠ []) (hsize : strlen s ≤ SIZE_MAX) {newLen : Nat}
    (hchecks : strReplaceNewLen SIZE_MAX s placeholder repl = .ok newLen) :
    ∃ out, strReplace s (some placeholder) (some repl) = .ok out ∧
      Substitutes placeholder repl s out ∧
      (∀ out', Substitutes placeholder repl s out' → out' = out) ∧
      occurrenceCount s placeholder * strlen placeholder ≤ strlen s ∧
      newLen = strlen out ∧
      cstr (out ++ [0]) = out ∧
      ∀ n, strlen s < n →
        countOccurrences placeholder n s = occurrenceCount s placeholder ∧
        copyPass placeholder repl n s ⟨List.replicate (newLen + 1) 0, 0, 0⟩
          = some ⟨out ++ [0], newLen + 1, occurrenceCount s placeholder⟩ := by
  have hrounds : strlen s < strlen s + 1 := Nat.lt_succ_self _
  have hsub : ∀ n, strlen s < n →
      Substitutes placeholder repl s (copyReplaced placeholder repl n s) :=
    fun n hn => copyReplaced_substitutes hne repl n s hn
  have hnewLen : newLen = strlen (copyReplaced placeholder repl (strlen s + 1) s) := by
    rw [strReplaceNewLen_eq placeholder repl hsize, checkedSize] at hchecks
    split at hchecks
    · cases hchecks
      rfl
    · cases hchecks
  have halloc : strReplaceAlloc SIZE_MAX s placeholder repl = .ok ((newLen + 1) % (SIZE_MAX + 1)) := by
    rw [strReplaceAlloc_eq, hchecks]
    rfl
  refine ⟨copyReplaced placeholder repl (strlen s + 1) s, ?_, hsub _ hrounds,
    fun out' hout' => hout'.unique (hsub _ hrounds), countOccurrences_mul_le _ _ _, hnewLen, ?_, ?_⟩
  · have hlen : strlen placeholder ≠ 0 := fun h => hne (List.length_eq_zero_iff.mp h)
    simp [strReplace, hlen, halloc]
  · rw [cstr_append_nul _ [], cstr, List.takeWhile_eq_self_iff]
    intro b hb
    have hb0 : b ≠ 0 := by
      rintro rfl
      exact (hsub _ hrounds).not_mem hs hrepl hb
    simpa using hb0
  · intro n hn
    have hcount := countOccurrences_rounds hne n s hn
    have hout : copyReplaced placeholder repl n s = copyReplaced placeholder repl (strlen s + 1) s :=
      (hsub n hn).unique (hsub _ hrounds)
    have hpass := copyPass_eq placeholder repl n s [] (List.replicate (newLen + 1) 0) 0
      (by rw [hout, ← hnewLen, List.length_replicate])
    rw [hout, ← hnewLen, hcount] at hpass
    simp only [List.nil_append, List.length_nil, Nat.zero_add] at hpass
    exact ⟨hcount, hpass⟩

/-- In `xaaa`, `aa` becomes `aab`: the text that is inserted is not searched, and one `a` is left. -/
theorem strReplace_replaces_twice :
    strReplace [120, 97, 97, 97] (some [97, 97]) (some [97, 97, 98]) = .ok [120, 97, 97, 98, 97] ∧
      Substitutes ([97, 97] : CStr) [97, 97, 98] [120, 97, 97, 97] [120, 97, 97, 98, 97] := by
  obtain ⟨out, hout, hsub, -⟩ := @strReplace_replaces [120, 97, 97, 97] [97, 97] [97, 97, 98]
    (by decide) (by decide) (by decide) (by decide) 5 (by decide)
  have hresult : strReplace [120, 97, 97, 97] (some [97, 97]) (some [97, 97, 98])
      = .ok [120, 97, 97, 98, 97] := by decide
  rw [hresult] at hout
  cases hout
  exact ⟨hresult, hsub⟩

/-! ### The allocation -/

/-- `str_replace` exits in a check, or allocates the size of this result and one byte for the
NUL. -/
def AllocatesExactly (sizeMax : Nat) (s placeholder repl out : CStr) : Prop :=
  strReplaceAlloc sizeMax s placeholder repl = .error (Exit.failure .replacementTooLarge) ∨
    strReplaceAlloc sizeMax s placeholder repl = .ok (strlen out + 1)

/-- **The allocation is exact but for one size.** For every word size, `str_replace` exits in a
check or allocates what the replaced string needs, if and only if the size of that string is
not the largest `size_t`. -/
theorem strReplaceAlloc_exact_iff (w : Nat) {s placeholder repl out : CStr}
    (hne : placeholder ≠ []) (hs : strlen s < 2 ^ w - 1)
    (hout : Substitutes placeholder repl s out) :
    AllocatesExactly (2 ^ w - 1) s placeholder repl out ↔ strlen out ≠ 2 ^ w - 1 := by
  generalize 2 ^ w - 1 = sizeMax at hs ⊢
  have hcopied : copyReplaced placeholder repl (strlen s + 1) s = out :=
    (copyReplaced_substitutes hne repl _ s (Nat.lt_succ_self _)).unique hout
  unfold AllocatesExactly
  rw [strReplaceAlloc_eq, strReplaceNewLen_eq _ _ (Nat.le_of_lt hs), hcopied, checkedSize]
  by_cases hfits : strlen out ≤ sizeMax
  · -- The checks pass, and the NUL makes the sum wrap exactly for the largest size.
    rw [if_pos hfits]
    simp only [Except.map, reduceCtorEq, false_or, Except.ok.injEq]
    by_cases hlast : strlen out = sizeMax
    · rw [hlast, Nat.mod_self]
      simp
    · rw [Nat.mod_eq_of_lt (by omega)]
      simp [hlast]
  · rw [if_neg hfits]
    simp only [Except.map, true_or, true_iff]
    omega

/-- `printf aa | phxargs -I % e %%`, in a word of 8 bits. -/
theorem strReplaceAlloc_exact_small :
    AllocatesExactly (2 ^ 8 - 1) [37, 37] [37] [97, 97] [97, 97, 97, 97] := by
  refine (strReplaceAlloc_exact_iff 8 (by decide) (by decide) ?_).mpr (by decide)
  exact copyReplaced_substitutes (List.cons_ne_nil 37 []) [97, 97] 3 [37, 37] (by decide)

/-- A text of `m` placeholders of one byte has `m` occurrences. -/
theorem countOccurrences_replicate (b : UInt8) :
    ∀ (m n : Nat), m < n → countOccurrences [b] n (List.replicate m b) = m := by
  intro m
  induction m with
  | zero =>
      intro n hn
      obtain ⟨n, rfl⟩ : ∃ k, n = k + 1 := ⟨n - 1, by omega⟩
      rfl
  | succ m ih =>
      intro n hn
      obtain ⟨n, rfl⟩ : ∃ k, n = k + 1 := ⟨n - 1, by omega⟩
      have hfirst : strstr [b] (List.replicate (m + 1) b) = some 0 := by
        simp [List.replicate_succ, strstr]
      have hrest : (List.replicate (m + 1) b).drop (0 + strlen [b]) = List.replicate m b := by
        simp [strlen]
      rw [countOccurrences, hfirst]
      simp only [hrest]
      rw [ih n (by omega)]

/-- Each of `m` placeholders becomes a replacement. -/
theorem substitutes_replicate (b : UInt8) (repl : CStr) (m : Nat) :
    ∃ out, Substitutes [b] repl (List.replicate m b) out ∧ strlen out = m * strlen repl ∧
      ∀ sizeMax, m ≤ sizeMax → strReplaceAlloc sizeMax (List.replicate m b) [b] repl
        = (checkedSize sizeMax (strlen out)).map fun newLen => (newLen + 1) % (sizeMax + 1) := by
  have hs : strlen (List.replicate m b) = m := List.length_replicate
  refine ⟨copyReplaced [b] repl (m + 1) (List.replicate m b), ?_, ?_, ?_⟩
  · exact copyReplaced_substitutes (List.cons_ne_nil b []) repl _ _ (by omega)
  · have hlength := strlen_copyReplaced [b] repl (m + 1) (List.replicate m b)
    rw [countOccurrences_replicate b m (m + 1) (Nat.lt_succ_self m), hs,
      show strlen [b] = 1 from rfl] at hlength
    omega
  · intro sizeMax hm
    rw [strReplaceAlloc_eq, strReplaceNewLen_eq _ _ (by omega), hs]

/-- On a machine of 32 bits, 65537 placeholders of one byte and an item of 65535 bytes make a
string of `SIZE_MAX` bytes: the checks pass, and `calloc` gets the size 0. -/
theorem strReplaceAlloc_wraps :
    ∃ s repl out : CStr, s = List.replicate 65537 37 ∧ repl = List.replicate 65535 97 ∧
      Substitutes [37] repl s out ∧ strlen out = 2 ^ 32 - 1 ∧
      strReplaceAlloc (2 ^ 32 - 1) s [37] repl = .ok 0 ∧
      ¬ AllocatesExactly (2 ^ 32 - 1) s [37] repl out := by
  obtain ⟨out, hsub, hlength, halloc⟩ := substitutes_replicate 37 (List.replicate 65535 97) 65537
  rw [show strlen (List.replicate 65535 (97 : UInt8)) = 65535 from List.length_replicate] at hlength
  have hout : strlen out = 2 ^ 32 - 1 := hlength
  have hwrapped := halloc (2 ^ 32 - 1) (by decide)
  rw [hout] at hwrapped
  refine ⟨_, _, out, rfl, rfl, hsub, hout, hwrapped, ?_⟩
  rw [AllocatesExactly, hwrapped, hout]
  rintro (h | h) <;> cases h

end Phxargs
