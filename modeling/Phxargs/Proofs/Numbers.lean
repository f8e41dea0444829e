import Phxargs.Lib.Numeral
import Phxargs.Model.Options

/-!
# `Phxargs.Proofs.Numbers`: the numbers that options take

`parse_number_arg_with_min` leaves the scan to `strtol` and decides by the place where it stopped.
What it accepts is a numeral behind any white space, and nothing behind it. Then the value decides:
outside of `long` it is invalid, and below the minimum it is too small.

The minimum of `-n`, `-L` and `-s` is 1, that of `-P` is 0. A negative number is well formed, so it
is reported as too small and not as invalid.
-/

set_option autoImplicit false

namespace Phxargs

open Lib

/-! ### Numerals as text -/

def digitByte (d : Fin 10) : UInt8 := UInt8.ofNat (48 + d.val)

def signText : NumeralSign → CStr
  | .none => []
  | .plus => [43]
  | .minus => [45]

/-- A numeral behind some white space. -/
structure NumberArg where
  blanks : CStr
  blanks_space : ∀ b ∈ blanks, isSpace b = true
  numeral : SignedNumeral

/-- The option argument of a number. -/
def NumberArg.text (n : NumberArg) : CStr :=
  n.blanks ++ (signText n.numeral.sign ++ n.numeral.digits.map digitByte)

/-- A `long` holds the value. -/
def NumberArg.IsLong (n : NumberArg) : Prop :=
  -(LONG_MAX : Int) - 1 ≤ n.numeral.value ∧ n.numeral.value ≤ LONG_MAX

theorem digitByte_toNat (d : Fin 10) : (digitByte d).toNat - 48 = d.val := by
  revert d
  decide

theorem isDigit_digitByte (d : Fin 10) : isDigit (digitByte d) = true := by
  revert d
  decide

/-- Neither a blank nor a sign is a digit. -/
theorem digitByte_ne (d : Fin 10) :
    isSpace (digitByte d) = false ∧ digitByte d ≠ 45 ∧ digitByte d ≠ 43 := by
  revert d
  decide

theorem exists_digitByte {b : UInt8} (h : isDigit b = true) : ∃ d : Fin 10, digitByte d = b := by
  unfold isDigit at h
  simp only [Bool.and_eq_true, decide_eq_true_eq, UInt8.le_iff_toNat_le] at h
  have hlow : 48 ≤ b.toNat := h.1
  have hhigh : b.toNat ≤ 57 := h.2
  refine ⟨⟨b.toNat - 48, by omega⟩, ?_⟩
  unfold digitByte
  rw [show 48 + (b.toNat - 48) = b.toNat by omega, UInt8.ofNat_toNat]

/-- A run of digits is the text of some digits. -/
theorem exists_digitBytes : ∀ {digits : CStr}, (∀ b ∈ digits, isDigit b = true) →
    ∃ ds : List (Fin 10), ds.map digitByte = digits := by
  intro digits
  induction digits with
  | nil => exact fun _ => ⟨[], rfl⟩
  | cons b digits ih =>
      intro h
      obtain ⟨d, hd⟩ := exists_digitByte (h b List.mem_cons_self)
      obtain ⟨ds, hds⟩ := ih fun c hc => h c (List.mem_cons_of_mem _ hc)
      exact ⟨d :: ds, by rw [List.map_cons, hd, hds]⟩

/-! ### `strtol` -/

/-- The scan of the sign. -/
theorem strtolSign_text (sign : NumeralSign) (d : Fin 10) (rest : CStr) :
    strtolSign (signText sign ++ digitByte d :: rest)
      = (decide (sign = .minus), digitByte d :: rest) := by
  cases sign with
  | plus => rfl
  | minus => rfl
  | none =>
      show strtolSign (digitByte d :: rest) = (false, digitByte d :: rest)
      unfold strtolSign
      split
      · rename_i hsign
        exact absurd (List.cons.inj hsign).1 (digitByte_ne d).2.1
      · rename_i hsign
        exact absurd (List.cons.inj hsign).1 (digitByte_ne d).2.2
      · rfl

/-- What is behind the sign. -/
theorem exists_strtolSign (s : CStr) : ∃ sign : NumeralSign,
    s = signText sign ++ (strtolSign s).2 := by
  unfold strtolSign
  split
  · exact ⟨.minus, rfl⟩
  · exact ⟨.plus, rfl⟩
  · exact ⟨.none, rfl⟩

theorem strtolClamp_cases (value : Int) (endptr : CStr) :
    (strtolClamp value endptr).endptr = endptr ∧
      ((-(LONG_MAX : Int) - 1 ≤ value ∧ value ≤ LONG_MAX) →
        strtolClamp value endptr = ⟨value, endptr, false⟩) ∧
      (¬ (-(LONG_MAX : Int) - 1 ≤ value ∧ value ≤ LONG_MAX) →
        (strtolClamp value endptr).erange = true) := by
  unfold strtolClamp
  by_cases hlarge : value > LONG_MAX
  · rw [if_pos hlarge]
    exact ⟨rfl, fun h => absurd h.2 (Int.not_le.mpr hlarge), fun _ => rfl⟩
  · rw [if_neg hlarge]
    by_cases hsmall : value < -(LONG_MAX : Int) - 1
    · rw [if_pos hsmall]
      exact ⟨rfl, fun h => absurd h.1 (Int.not_le.mpr hsmall), fun _ => rfl⟩
    · rw [if_neg hsmall]
      exact ⟨rfl, fun _ => rfl, fun h => absurd ⟨Int.not_lt.mp hsmall, Int.not_lt.mp hlarge⟩ h⟩

/-- The digits, read as `strtol` reads them. -/
theorem foldl_digitBytes (ds : List (Fin 10)) :
    (ds.map digitByte).foldl (fun (acc : Int) d => 10 * acc + (d.toNat - 48 : Nat)) 0
      = (Nat.ofDigits 10 (ds.reverse.map Fin.val) : Nat) := by
  rw [← foldl_magnitude, List.foldl_map]
  -- On the digits, with the number that has been read so far.
  suffices h : ∀ (ds : List (Fin 10)) (acc : Nat),
      ds.foldl (fun (acc : Int) d => 10 * acc + ((digitByte d).toNat - 48 : Nat)) (acc : Int)
        = (ds.foldl (fun (acc : Nat) d => 10 * acc + d.val) acc : Nat) from h ds 0
  intro ds
  induction ds with
  | nil => exact fun acc => rfl
  | cons d ds ih =>
      intro acc
      rw [List.foldl_cons, List.foldl_cons, ← ih, digitByte_toNat]
      push_cast
      rfl

/-- `strtol` reads the whole argument, and its value. -/
theorem strtol_text (n : NumberArg) : strtol n.text = strtolClamp n.numeral.value [] := by
  obtain ⟨blanks, hblanks, ⟨sign, digits, hne⟩⟩ := n
  obtain ⟨d, ds, rfl⟩ := List.exists_cons_of_ne_nil hne
  have hspace : (blanks ++ (signText sign ++ (d :: ds).map digitByte)).dropWhile isSpace
      = signText sign ++ digitByte d :: ds.map digitByte := by
    rw [List.dropWhile_append_of_pos hblanks, List.map_cons]
    cases sign with
    | plus => rfl
    | minus => rfl
    | none =>
        show (digitByte d :: ds.map digitByte).dropWhile isSpace = _
        rw [List.dropWhile_cons_of_neg (by rw [(digitByte_ne d).1]; exact Bool.false_ne_true)]
        rfl
  have hdigits : ∀ b ∈ (d :: ds).map digitByte, isDigit b = true := by
    intro b hb
    obtain ⟨d', -, rfl⟩ := List.mem_map.mp hb
    exact isDigit_digitByte d'
  unfold strtol NumberArg.text
  dsimp only
  rw [hspace, strtolSign_text]
  dsimp only
  rw [← List.map_cons, List.takeWhile_eq_self_iff.mpr hdigits, if_neg (by simp),
    List.dropWhile_eq_nil_iff.mpr hdigits, foldl_digitBytes]
  cases sign <;> rfl

/-- Where `strtol` reads a whole argument that is not empty, this is a number. -/
theorem exists_numberArg {arg : CStr} (hne : arg ≠ []) (hend : (strtol arg).endptr = []) :
    ∃ n : NumberArg, n.text = arg := by
  obtain ⟨sign, hsign⟩ := exists_strtolSign (arg.dropWhile isSpace)
  unfold strtol at hend
  dsimp only at hend
  generalize (strtolSign (arg.dropWhile isSpace)).2 = unsigned at hsign hend
  by_cases hdigits : unsigned.takeWhile isDigit = []
  · rw [if_pos hdigits] at hend
    exact absurd hend hne
  · rw [if_neg hdigits, (strtolClamp_cases _ _).1] at hend
    -- Nothing is left behind the digits.
    have hall : unsigned.takeWhile isDigit = unsigned :=
      List.takeWhile_eq_self_iff.mpr (List.dropWhile_eq_nil_iff.mp hend)
    obtain ⟨ds, hds⟩ := exists_digitBytes (List.dropWhile_eq_nil_iff.mp hend)
    have hdsne : ds ≠ [] := by
      rintro rfl
      rw [hall, ← hds] at hdigits
      exact hdigits rfl
    refine ⟨⟨arg.takeWhile isSpace, fun b hb => List.mem_takeWhile_imp hb, ⟨sign, ds, hdsne⟩⟩, ?_⟩
    show arg.takeWhile isSpace ++ (signText sign ++ ds.map digitByte) = arg
    rw [hds, ← hsign, List.takeWhile_append_dropWhile]

/-! ### The arguments of options -/

/-- A number that a `long` holds is accepted from the minimum on. -/
theorem parseNumberArgWithMin_text (opt : Char) {n : NumberArg} (h : n.IsLong) (minVal : Int) :
    parseNumberArgWithMin opt n.text minVal =
      if n.numeral.value < minVal then .error (Exit.failure (.numberTooSmall opt n.text))
      else .ok n.numeral.value := by
  have hne : n.text ≠ [] := by
    intro hnil
    exact n.numeral.digits_ne
      (List.map_eq_nil_iff.mp (List.append_eq_nil_iff.mp (List.append_eq_nil_iff.mp hnil).2).2)
  unfold parseNumberArgWithMin
  dsimp only
  rw [strtol_text, (strtolClamp_cases _ _).2.1 h]
  exact if_neg (by simp [hne])

/-- Everything else is invalid. -/
theorem parseNumberArgWithMin_invalid (opt : Char) {arg : CStr}
    (h : ∀ n : NumberArg, n.text = arg → ¬ n.IsLong) (minVal : Int) :
    parseNumberArgWithMin opt arg minVal = .error (Exit.failure (.invalidNumber opt arg)) := by
  unfold parseNumberArgWithMin
  dsimp only
  apply if_pos
  by_cases hempty : arg = (strtol arg).endptr
  · exact .inl hempty
  · by_cases hend : (strtol arg).endptr = []
    · obtain ⟨n, rfl⟩ := exists_numberArg (fun hnil => hempty (hnil.trans hend.symm)) hend
      refine .inr (.inl ?_)
      rw [strtol_text]
      exact (strtolClamp_cases _ _).2.2 (h n rfl)
    · exact .inr (.inr hend)

/-- The three ways. -/
theorem parseNumberArgWithMin_cases (opt : Char) (arg : CStr) (minVal : Int) :
    (∃ n : NumberArg, n.text = arg ∧ n.IsLong ∧ minVal ≤ n.numeral.value ∧
      parseNumberArgWithMin opt arg minVal = .ok n.numeral.value) ∨
    (∃ n : NumberArg, n.text = arg ∧ n.IsLong ∧ n.numeral.value < minVal ∧
      parseNumberArgWithMin opt arg minVal = .error (Exit.failure (.numberTooSmall opt arg))) ∨
    ((¬ ∃ n : NumberArg, n.text = arg ∧ n.IsLong) ∧
      parseNumberArgWithMin opt arg minVal = .error (Exit.failure (.invalidNumber opt arg))) := by
  by_cases harg : ∃ n : NumberArg, n.text = arg ∧ n.IsLong
  · obtain ⟨n, rfl, hlong⟩ := harg
    have hparse := parseNumberArgWithMin_text opt hlong minVal
    by_cases hlt : n.numeral.value < minVal
    · rw [if_pos hlt] at hparse
      exact .inr (.inl ⟨n, rfl, hlong, hlt, hparse⟩)
    · rw [if_neg hlt] at hparse
      exact .inl ⟨n, rfl, hlong, Int.not_lt.mp hlt, hparse⟩
  · exact .inr (.inr ⟨harg,
      parseNumberArgWithMin_invalid opt (fun n htext hlong => harg ⟨n, htext, hlong⟩) minVal⟩)

/-- **The numbers of options.** An option argument is accepted as a number if and only if it is a
numeral behind some white space whose value a `long` holds, and this value is the result if it is
at least the minimum. A number below it is reported as too small, and everything that is not such a
numeral as invalid. Every value from the minimum to the largest `long` has an argument without
white space and without a plus sign. -/
theorem parseNumberArgWithMin_accepts (opt : Char) (minVal : Int) :
    (∀ arg v, parseNumberArgWithMin opt arg minVal = .ok v ↔
      ∃ n : NumberArg, n.text = arg ∧ n.IsLong ∧ minVal ≤ n.numeral.value ∧ n.numeral.value = v) ∧
    (∀ arg, parseNumberArgWithMin opt arg minVal = .error (Exit.failure (.numberTooSmall opt arg)) ↔
      ∃ n : NumberArg, n.text = arg ∧ n.IsLong ∧ n.numeral.value < minVal) ∧
    (∀ arg, parseNumberArgWithMin opt arg minVal = .error (Exit.failure (.invalidNumber opt arg)) ↔
      ¬ ∃ n : NumberArg, n.text = arg ∧ n.IsLong) ∧
    (∀ v : Int, -(LONG_MAX : Int) - 1 ≤ v → v ≤ LONG_MAX → minVal ≤ v →
      ∃ n : NumberArg, n.blanks = [] ∧ n.numeral.sign ≠ .plus ∧
        parseNumberArgWithMin opt n.text minVal = .ok v) := by
  refine ⟨?_, ?_, ?_, ?_⟩
  · intro arg v
    constructor
    · intro h
      rcases parseNumberArgWithMin_cases opt arg minVal with
        ⟨n, htext, hlong, hmin, hok⟩ | ⟨n, -, -, -, hsmall⟩ | ⟨-, hinvalid⟩
      · rw [hok] at h
        exact ⟨n, htext, hlong, hmin, Except.ok.inj h⟩
      · rw [hsmall] at h
        cases h
      · rw [hinvalid] at h
        cases h
    · rintro ⟨n, rfl, hlong, hmin, rfl⟩
      rw [parseNumberArgWithMin_text opt hlong, if_neg (Int.not_lt.mpr hmin)]
  · intro arg
    constructor
    · intro h
      rcases parseNumberArgWithMin_cases opt arg minVal with
        ⟨n, -, -, -, hok⟩ | ⟨n, htext, hlong, hlt, -⟩ | ⟨-, hinvalid⟩
      · rw [hok] at h
        cases h
      · exact ⟨n, htext, hlong, hlt⟩
      · rw [hinvalid] at h
        cases h
    · rintro ⟨n, rfl, hlong, hlt⟩
      rw [parseNumberArgWithMin_text opt hlong, if_pos hlt]
  · intro arg
    constructor
    · rintro h ⟨n, rfl, hlong⟩
      rw [parseNumberArgWithMin_text opt hlong] at h
      split at h
      · cases h
      · cases h
    · intro h
      exact parseNumberArgWithMin_invalid opt (fun n htext hlong => h ⟨n, htext, hlong⟩) minVal
  · intro v hlow hhigh hmin
    obtain ⟨numeral, hvalue, hsign⟩ := exists_signedNumeral v
    refine ⟨⟨[], fun _ h => (List.not_mem_nil h).elim, numeral⟩, rfl, ?_, ?_⟩
    · rw [hsign]
      split
      · simp
      · simp
    · rw [parseNumberArgWithMin_text opt ⟨by rw [hvalue]; exact hlow, by rw [hvalue]; exact hhigh⟩,
        if_neg (by rw [hvalue]; exact Int.not_lt.mpr hmin), hvalue]

end Phxargs
