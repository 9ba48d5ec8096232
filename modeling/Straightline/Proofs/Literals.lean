import Straightline.Proofs.LoadedConstants
import Straightline.Proofs.Numerals

/-!
# Literals

A numeral is read by one of two rules, with a minus sign and without one, and as one of two kinds of constant. Together they cover
the integers from `-2^63` to `2^64 - 1` without a gap: below `2^63` a constant is signed and above it is not (`Constant.ofInt?`).
Main statement: a literal is read exactly or not at all, and a number that is written is read back (`Grammar.literal_exact`).
-/

namespace Straightline

open Reader

/-! ## The constants of integers -/

namespace Constant

variable {c : Constant} {v : Int}

/-- The constant that an integer is read as: a signed one if there is one, else an unsigned one if there is one. -/
def ofInt? (v : Int) : Option Constant :=
  if -2 ^ 63 ≤ v ∧ v ≤ 2 ^ 63 - 1 then some (.int (Int64.ofInt v))
  else if 2 ^ 63 ≤ v ∧ v ≤ 2 ^ 64 - 1 then some (.uint (UInt64.ofNat v.toNat))
  else none

/-- The signed constants are those of the integers from `-2^63` to `2^63 - 1`. -/
theorem ofInt?_signed (h : -2 ^ 63 ≤ v ∧ v ≤ 2 ^ 63 - 1) : ∃ i, ofInt? v = some (.int i) ∧ (int i).toInt = v := by
  refine ⟨Int64.ofInt v, if_pos h, ?_⟩
  exact Int64.toInt_ofInt_of_le (by omega) (by omega)

/-- The unsigned constants that are read are those of the integers from `2^63` to `2^64 - 1`. -/
theorem ofInt?_unsigned (h : 2 ^ 63 ≤ v ∧ v ≤ 2 ^ 64 - 1) : ∃ u, ofInt? v = some (.uint u) ∧ (uint u).toInt = v := by
  refine ⟨UInt64.ofNat v.toNat, ?_, ?_⟩
  · rw [ofInt?, if_neg (by omega), if_pos h]
  · rw [toInt, UInt64.toNat_ofNat_of_lt' (show v.toNat < 2 ^ 64 by omega)]
    omega

theorem ofInt?_eq_none_iff : ofInt? v = none ↔ v < -2 ^ 63 ∨ 2 ^ 64 - 1 < v := by
  unfold ofInt?
  split
  · simp only [reduceCtorEq, false_iff]
    omega
  · split
    · simp only [reduceCtorEq, false_iff]
      omega
    · simp only [true_iff]
      omega

/-- The constant of an integer is a number and stands for it. -/
theorem toInt_of_ofInt? (h : ofInt? v = some c) : c.IsNumber ∧ c.toInt = v := by
  by_cases hsigned : -2 ^ 63 ≤ v ∧ v ≤ 2 ^ 63 - 1
  · obtain ⟨i, hi, hvalue⟩ := ofInt?_signed hsigned
    rw [hi] at h
    cases h
    exact ⟨trivial, hvalue⟩
  · by_cases hunsigned : 2 ^ 63 ≤ v ∧ v ≤ 2 ^ 64 - 1
    · obtain ⟨u, hu, hvalue⟩ := ofInt?_unsigned hunsigned
      rw [hu] at h
      cases h
      exact ⟨trivial, hvalue⟩
    · rw [ofInt?_eq_none_iff.2 (by omega)] at h
      cases h

/-- The integer of a number is that of a constant. -/
theorem exists_ofInt?_toInt (hc : c.IsNumber) : ∃ d, ofInt? c.toInt = some d := by
  have hbounds : -2 ^ 63 ≤ c.toInt ∧ c.toInt ≤ 2 ^ 64 - 1 := by
    cases c with
    | int i =>
      have hle := i.le_toInt
      have hlt := i.toInt_lt
      simp only [toInt]
      omega
    | uint u =>
      have hlt := u.toNat_lt
      simp only [toInt]
      omega
    | bool b => exact absurd hc id
  refine Option.ne_none_iff_exists'.1 fun hnone => ?_
  have := ofInt?_eq_none_iff.1 hnone
  omega

/-- A number is written as its integer is, whichever form it has. -/
theorem chars_eq (hc : c.IsNumber) : c.chars = Decimal.intDigits c.toInt := by
  cases c with
  | bool b => exact absurd hc id
  | _ => rfl

end Constant

namespace Grammar

variable {w rest : List Char} {v : Int}

/-! ## Both rules as one -/

/-- Digits without a sign are read as the constant of their number. -/
theorem numeralOf?_plus (ds : List Char) : numeralOf? (none, ds) = Constant.ofInt? (Decimal.value ds) := by
  rw [numeralOf?, unsignedOf?, Constant.ofInt?]
  split
  · rw [if_pos (by omega), Int64.ofInt_eq_ofNat]
  · have hlarge : ¬(-2 ^ 63 ≤ (Decimal.value ds : Int) ∧ (Decimal.value ds : Int) ≤ 2 ^ 63 - 1) := by omega
    rw [if_neg hlarge]
    split
    · rw [if_pos (by omega), Int.toNat_natCast]
    · rw [if_neg (by omega)]

/-- Digits after a minus sign are read as the constant of their number, negated. -/
theorem numeralOf?_minus (ds : List Char) : numeralOf? (some (), ds) = Constant.ofInt? (-Decimal.value ds) := by
  rw [numeralOf?, negativeOf?, Constant.ofInt?]
  split
  · rw [if_pos (by omega)]
  · rw [if_neg (by omega), if_neg (by omega)]

/-- A numeral is read whole, as the constant of its integer. Where there is none the reader fails, at the start of the numeral. -/
theorem literal_of_spellsInt (hw : Decimal.SpellsInt w v) (hrest : Stops Char.isDigit rest) :
    literal (w ++ rest) = match Constant.ofInt? v with
      | some c => .done c rest
      | none => .fail (w ++ rest) := by
  cases hw with
  | plus h =>
    obtain ⟨hne, hds, rfl⟩ := Decimal.spells_iff.1 h
    rw [← numeralOf?_plus]
    exact literal_run none hne hds hrest
  | minus h =>
    obtain ⟨hne, hds, rfl⟩ := Decimal.spells_iff.1 h
    rw [← numeralOf?_minus]
    exact literal_run (some ()) hne hds hrest

/-- A numeral is no literal exactly if there is no constant of its integer. -/
theorem literal_fails_iff (hw : Decimal.SpellsInt w v) (hrest : Stops Char.isDigit rest) :
    Fails literal (w ++ rest) ↔ Constant.ofInt? v = none := by
  have hread := literal_of_spellsInt hw hrest
  cases hc : Constant.ofInt? v with
  | none =>
    rw [hc] at hread
    exact ⟨fun _ => rfl, fun _ => ⟨_, hread⟩⟩
  | some c =>
    rw [hc] at hread
    constructor
    · rintro ⟨r, hr⟩
      rw [hread] at hr
      cases hr
    · intro h
      cases h

/-- A literal is read exactly or not at all. From a run of digits, with a minus sign or without one, before the end or a character
that is no digit, just that is read, and the constant stands for the integer that is written: a signed constant from `-2^63` to
`2^63 - 1`, an unsigned one from `2^63` to `2^64 - 1`. Beyond these bounds, and only there, the reader fails. A number is read
back from its text, maybe in the other form, as one that stands for the same integer and is written the same. -/
theorem literal_exact :
    (∀ (w rest : List Char) (v : Int), Decimal.SpellsInt w v → Stops Char.isDigit rest →
      (-2 ^ 63 ≤ v ∧ v ≤ 2 ^ 63 - 1 → ∃ i, literal (w ++ rest) = .done (.int i) rest ∧ (Constant.int i).toInt = v) ∧
      (2 ^ 63 ≤ v ∧ v ≤ 2 ^ 64 - 1 → ∃ u, literal (w ++ rest) = .done (.uint u) rest ∧ (Constant.uint u).toInt = v) ∧
      (Fails literal (w ++ rest) ↔ v < -2 ^ 63 ∨ 2 ^ 64 - 1 < v)) ∧
    ∀ c : Constant, c.IsNumber → ∃ d, literal c.text.toList = .done d [] ∧ d.toInt = c.toInt ∧ d.text = c.text := by
  refine ⟨fun w rest v hw hrest => ⟨fun hv => ?_, fun hv => ?_, ?_⟩, fun c hc => ?_⟩
  · obtain ⟨i, hi, hvalue⟩ := Constant.ofInt?_signed hv
    exact ⟨i, by rw [literal_of_spellsInt hw hrest, hi], hvalue⟩
  · obtain ⟨u, hu, hvalue⟩ := Constant.ofInt?_unsigned hv
    exact ⟨u, by rw [literal_of_spellsInt hw hrest, hu], hvalue⟩
  · exact (literal_fails_iff hw hrest).trans Constant.ofInt?_eq_none_iff
  · obtain ⟨d, hd⟩ := Constant.exists_ofInt?_toInt hc
    obtain ⟨hnumber, hvalue⟩ := Constant.toInt_of_ofInt? hd
    have hend : Stops Char.isDigit [] := trivial
    have hread : literal (Decimal.intDigits c.toInt ++ []) = .done d [] := by
      rw [literal_of_spellsInt (Decimal.spellsInt_intDigits c.toInt) hend, hd]
    refine ⟨d, ?_, hvalue, ?_⟩
    · rw [Constant.text, String.toList_ofList, Constant.chars_eq hc, ← hread, List.append_nil]
    · rw [Constant.text, Constant.text, Constant.chars_eq hnumber, Constant.chars_eq hc, hvalue]

/-- The least literal is read before a line feed and the greatest one, with a zero in front, before a letter. One less and one
more are no literals. A small unsigned number is read back from its text. -/
theorem literal_bounds :
    (Decimal.Spells "9223372036854775808".toList (2 ^ 63) ∧ Decimal.Spells "018446744073709551615".toList (2 ^ 64 - 1)) ∧
      (∃ i, literal ('-' :: "9223372036854775808".toList ++ ['\n']) = .done (.int i) ['\n'] ∧ (Constant.int i).toInt = -2 ^ 63) ∧
      (∃ u, literal ("018446744073709551615".toList ++ ['x']) = .done (.uint u) ['x'] ∧ (Constant.uint u).toInt = 2 ^ 64 - 1) ∧
      Fails literal ('-' :: "9223372036854775809".toList ++ []) ∧ Fails literal ("18446744073709551616".toList ++ []) ∧
      ∃ d, literal (Constant.uint 7).text.toList = .done d [] ∧ d.toInt = 7 ∧ d.text = "7" := by
  obtain ⟨hnumeral, hnumber⟩ := literal_exact
  have hleast : Decimal.Spells "9223372036854775808".toList (2 ^ 63) := by decide
  have hgreatest : Decimal.Spells "018446744073709551615".toList (2 ^ 64 - 1) := by decide
  have hless : Decimal.Spells "9223372036854775809".toList (2 ^ 63 + 1) := by decide
  have hmore : Decimal.Spells "18446744073709551616".toList (2 ^ 64) := by decide
  refine ⟨⟨hleast, hgreatest⟩, ?_, ?_, ?_, ?_, ?_⟩
  · exact (hnumeral _ ['\n'] _ (.minus hleast) rfl).1 (by decide)
  · exact (hnumeral _ ['x'] _ (.plus hgreatest) rfl).2.1 (by decide)
  · exact (hnumeral _ [] _ (.minus hless) trivial).2.2.2 (by decide)
  · exact (hnumeral _ [] _ (.plus hmore) trivial).2.2.2 (by decide)
  · have htext : (Constant.uint 7).text = "7" := by decide +kernel
    obtain ⟨d, hd, hvalue, hsame⟩ := hnumber (.uint 7) trivial
    exact ⟨d, hd, hvalue, hsame.trans htext⟩

end Grammar

end Straightline
