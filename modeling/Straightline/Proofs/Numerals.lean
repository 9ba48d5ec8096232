import Mathlib.Data.Nat.Digits.Defs
import Straightline.Proofs.Tokens

/-!
# Numerals

What a numeral says, place by place, without regard to how it is read: the last digit counts ones, the one before it tens, and so
on (`Decimal.Spells`), and a minus sign in front makes the number negative (`Decimal.SpellsInt`). Main statements: the digits read
one after the other come to this number (`Decimal.spells_iff`), and the numeral of an integer spells it
(`Decimal.spellsInt_intDigits`).
-/

namespace Straightline.Decimal

variable {ds : List Char} {n : Nat}

/-- A run of characters spells a number: it is not empty, each character is an ASCII digit, and the digits count ones, tens,
hundreds and so on, from the last one to the first. Zeros in front count nothing. -/
structure Spells (ds : List Char) (n : Nat) : Prop where
  ne_nil : ds ≠ []
  digit : ∀ c ∈ ds, '0' ≤ c ∧ c ≤ '9'
  places : Nat.ofDigits 10 (ds.reverse.map digitValue) = n

/-- A text spells an integer: it is a run of digits, with a minus sign in front or without one. -/
inductive SpellsInt : List Char → Int → Prop where
  | plus {ds : List Char} {n : Nat} (h : Spells ds n) : SpellsInt ds n
  | minus {ds : List Char} {n : Nat} (h : Spells ds n) : SpellsInt ('-' :: ds) (-n)

theorem isDigit_iff {c : Char} : c.isDigit = true ↔ '0' ≤ c ∧ c ≤ '9' := by
  simp [Char.isDigit, Char.le_def]

/-- Reading from the first digit on, ten times what was read and the next digit, comes to the sum over the places. -/
theorem ofDigits_eq_value (ds : List Char) : Nat.ofDigits 10 (ds.reverse.map digitValue) = value ds := by
  rw [Nat.ofDigits_eq_foldr, List.foldr_map, List.foldr_reverse, value]
  congr 1
  funext m c
  exact Nat.add_comm _ _

theorem spells_iff : Spells ds n ↔ ds ≠ [] ∧ (∀ c ∈ ds, c.isDigit = true) ∧ value ds = n := by
  constructor
  · rintro ⟨hne, hdigit, hplaces⟩
    exact ⟨hne, fun c hc => isDigit_iff.2 (hdigit c hc), (ofDigits_eq_value ds).symm.trans hplaces⟩
  · rintro ⟨hne, hdigit, hvalue⟩
    exact ⟨hne, fun c hc => isDigit_iff.1 (hdigit c hc), (ofDigits_eq_value ds).trans hvalue⟩

instance : Decidable (Spells ds n) :=
  decidable_of_iff ((!ds.isEmpty && ds.all Char.isDigit && value ds == n) = true) (by
    simp only [spells_iff, Bool.and_eq_true, Bool.not_eq_true', List.isEmpty_eq_false_iff, List.all_eq_true, beq_iff_eq,
      and_assoc])

/-- The numeral of a number spells it. -/
theorem spells_digits (n : Nat) : Spells (digits n) n :=
  spells_iff.2 ⟨digits_ne_nil n, isDigit_of_mem_digits n, value_digits n⟩

/-- The numeral of an integer spells it. -/
theorem spellsInt_intDigits (v : Int) : SpellsInt (intDigits v) v := by
  cases v with
  | ofNat n => exact .plus (spells_digits n)
  | negSucc n => exact .minus (spells_digits (n + 1))

end Straightline.Decimal
