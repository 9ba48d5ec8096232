/-!
# Decimal numerals

Numbers are written with the digits `0` to `9`, the most significant first, without leading zeros; an integer below zero has a
`-` in front. A numeral that is read may have leading zeros. Main statement: a written numeral reads back as its number
(`Decimal.value_digits`), and it consists of digits and is not empty (`Decimal.isDigit_of_mem_digits`, `Decimal.digits_ne_nil`).
-/

namespace Straightline.Decimal

/-- The character of a digit; `d` is below ten. -/
def digitChar (d : Nat) : Char := Char.ofNat (48 + d)

/-- The digit a character stands for, counted from `0`. -/
def digitValue (c : Char) : Nat := c.toNat - 48

/-- The numeral of a number. -/
def digits (n : Nat) : List Char :=
  if n < 10 then [digitChar n] else digits (n / 10) ++ [digitChar (n % 10)]

/-- The number a run of digits writes, leading zeros allowed; an empty run writes zero. -/
def value (ds : List Char) : Nat := ds.foldl (fun n c => 10 * n + digitValue c) 0

/-- The numeral of an integer. -/
def intDigits : Int → List Char
  | .ofNat n => digits n
  | .negSucc n => '-' :: digits (n + 1)

/-- The numeral of a number, as a text. -/
def text (n : Nat) : String := String.ofList (digits n)

/-- The numeral of an integer, as a text. -/
def intText (i : Int) : String := String.ofList (intDigits i)

/-! ## Writing and reading -/

/-- A digit is read back from its character. -/
theorem digitValue_digitChar {d : Nat} (h : d < 10) : digitValue (digitChar d) = d := by
  have hall : ∀ e ∈ List.range 10, digitValue (digitChar e) = e := by decide
  exact hall d (List.mem_range.2 h)

/-- The character of a digit is a digit. -/
theorem isDigit_digitChar {d : Nat} (h : d < 10) : (digitChar d).isDigit = true := by
  have hall : ∀ e ∈ List.range 10, (digitChar e).isDigit = true := by decide
  exact hall d (List.mem_range.2 h)

/-- Another digit at the end of a run. -/
theorem value_concat (ds : List Char) (c : Char) : value (ds ++ [c]) = 10 * value ds + digitValue c := by
  simp [value]

/-- A numeral reads back as its number. -/
@[simp] theorem value_digits (n : Nat) : value (digits n) = n := by
  induction n using digits.induct with
  | case1 n h =>
    rw [digits, if_pos h]
    simp [value, digitValue_digitChar h]
  | case2 n h ih =>
    rw [digits, if_neg h, value_concat, ih, digitValue_digitChar (Nat.mod_lt n (by decide))]
    omega

/-- A numeral has at least one digit. -/
theorem digits_ne_nil (n : Nat) : digits n ≠ [] := by
  rw [digits]
  split <;> simp

/-- A numeral consists of digits. -/
theorem isDigit_of_mem_digits (n : Nat) : ∀ c ∈ digits n, c.isDigit = true := by
  induction n using digits.induct with
  | case1 n h =>
    rw [digits, if_pos h]
    simpa using isDigit_digitChar h
  | case2 n h ih =>
    intro c hc
    rw [digits, if_neg h] at hc
    rcases List.mem_append.1 hc with hc | hc
    · exact ih c hc
    · rw [List.mem_singleton.1 hc]
      exact isDigit_digitChar (Nat.mod_lt n (by decide))

end Straightline.Decimal
