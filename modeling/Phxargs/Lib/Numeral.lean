import Mathlib.Data.Nat.Digits.Lemmas

/-!
# `Phxargs.Lib.Numeral`: signed decimal numerals

A numeral is an optional sign and at least one digit. Its value is that of `Nat.ofDigits`, and
`foldl_magnitude` is how a parser computes it from the left. Every integer has a numeral
(`exists_signedNumeral`), and numbers have many: a numeral may have leading zeros and a plus sign.
-/

set_option autoImplicit false

namespace Lib

/-- The sign of a numeral, if it has one. -/
inductive NumeralSign where
  | none
  | plus
  | minus
  deriving DecidableEq, Repr

/-- A numeral: a sign, and digits with the most significant one first. -/
structure SignedNumeral where
  sign : NumeralSign
  digits : List (Fin 10)
  digits_ne : digits ≠ []

namespace SignedNumeral

/-- The value without the sign. -/
def magnitude (n : SignedNumeral) : Nat := Nat.ofDigits 10 (n.digits.reverse.map Fin.val)

def value (n : SignedNumeral) : Int :=
  match n.sign with
  | .minus => -(n.magnitude : Int)
  | .none | .plus => n.magnitude

end SignedNumeral

/-- From the left, each digit multiplies what has been read by ten. -/
theorem foldl_magnitude (digits : List (Fin 10)) :
    digits.foldl (fun (acc : Nat) d => 10 * acc + d.val) 0
      = Nat.ofDigits 10 (digits.reverse.map Fin.val) := by
  rw [← List.foldr_reverse, Nat.ofDigits_eq_foldr, List.foldr_map]
  congr 1
  funext d acc
  simp only [Nat.cast_id]
  omega

/-- Every natural number has digits. -/
theorem exists_digits (n : Nat) : ∃ digits : List (Fin 10), digits ≠ [] ∧
    Nat.ofDigits 10 (digits.reverse.map Fin.val) = n := by
  by_cases hzero : n = 0
  · exact ⟨[0], by simp, by simp [hzero]⟩
  · -- Its digits of `Nat.digits`, which come with the least significant one first.
    refine ⟨((Nat.digits 10 n).map (Fin.ofNat 10)).reverse, ?_, ?_⟩
    · simpa using Nat.digits_ne_nil_iff_ne_zero.mpr hzero
    · rw [List.reverse_reverse, List.map_map]
      have hdigits : (Nat.digits 10 n).map (Fin.val ∘ Fin.ofNat 10) = (Nat.digits 10 n).map id := by
        apply List.map_congr_left
        intro d hd
        exact Nat.mod_eq_of_lt (Nat.digits_lt_base (by decide) hd)
      rw [hdigits, List.map_id, Nat.ofDigits_digits]

/-- Every integer has a numeral. -/
theorem exists_signedNumeral (v : Int) :
    ∃ n : SignedNumeral, n.value = v ∧ n.sign = if v < 0 then .minus else .none := by
  obtain ⟨digits, hne, hdigits⟩ := exists_digits v.natAbs
  by_cases hneg : v < 0
  · refine ⟨⟨.minus, digits, hne⟩, ?_, by rw [if_pos hneg]⟩
    simp only [SignedNumeral.value, SignedNumeral.magnitude, hdigits]
    omega
  · refine ⟨⟨.none, digits, hne⟩, ?_, by rw [if_neg hneg]⟩
    simp only [SignedNumeral.value, SignedNumeral.magnitude, hdigits]
    omega

end Lib
