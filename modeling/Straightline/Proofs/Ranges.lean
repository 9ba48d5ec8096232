import Mathlib.Data.Int.ModEq
import Straightline.Proofs.Reduction

/-!
# Words in the range of a type

At a type a word stands for an integer: its value with a sign, or without one at an unsigned type that has all the bits of a word
(`Scalar.reading`). Main statements: two words are reduced to the same word exactly if their integers are of one class
(`Scalar.wrap_eq_wrap_iff`), and a word stands for an integer in the range of a type exactly if it is its own reduction
(`Scalar.contains_reading_iff`).
-/

namespace Straightline.Scalar

/-- The integer that a word stands for at a type. Only an unsigned type of 64 or more bits reads the bits of the word without a
sign. -/
def reading (t : Scalar) (v : Int64) : Int := if t.signed = false ∧ 64 ≤ t.bits.toNat then v.toUInt64.toNat else v.toInt

variable {t : Scalar} {v v' : Int64}

theorem powTwo_eq (k : Nat) : powTwo k = 2 ^ k := by
  rw [powTwo, Nat.one_shiftLeft, Int.natCast_pow]
  rfl

/-- A type has all the bits of a word exactly if its width is at least that of a word. -/
theorem width_eq_iff : t.width = 64 ↔ 64 ≤ t.bits.toNat := by
  unfold width
  omega

/-! ## Reduced words -/

/-- Words are reduced to the same word exactly if their integers are congruent modulo the number of values of the type. -/
theorem wrap_eq_wrap_iff : t.wrap v = t.wrap v' ↔ v.toInt ≡ v'.toInt [ZMOD 2 ^ t.width] := by
  rw [← Int64.toInt_inj, toInt_wrap, toInt_wrap, reduce_eq_reduce_iff, Int.modEq_comm, Int.modEq_iff_dvd]

/-- A word is its own reduction exactly if its integer is among those that are. -/
theorem wrap_eq_self_iff : t.wrap v = v ↔ t.start ≤ v.toInt ∧ v.toInt < t.start + 2 ^ t.width := by
  rw [← Int64.toInt_inj, toInt_wrap, reduce_eq_iff, Int.sub_self]
  exact and_iff_right (Int.dvd_zero _)

/-- A reduced word is its own reduction. -/
theorem wrap_wrap (t : Scalar) (v : Int64) : t.wrap (t.wrap v) = t.wrap v := by
  obtain ⟨-, hrange⟩ := reduce_eq_iff.1 (toInt_wrap t v).symm
  exact wrap_eq_self_iff.2 hrange

/-! ## Ranges -/

/-- An unsigned type that has all the bits of a word has every word in its range. -/
theorem contains_toNat (hs : t.signed = false) (hw : t.width = 64) (v : Int64) : t.Contains v.toUInt64.toNat := by
  have hlt := v.toUInt64.toNat_lt
  unfold Contains least greatest
  rw [powTwo_eq, powTwo_eq, hs, hw]
  simp only [OfNat.ofNat_ne_zero, if_false, Bool.false_eq_true]
  omega

/-- At the other types, the range is that of the integers that are their own reductions. -/
theorem contains_iff (h : ¬(t.signed = false ∧ 64 ≤ t.bits.toNat)) (x : Int) :
    t.Contains x ↔ t.start ≤ x ∧ x < t.start + 2 ^ t.width := by
  unfold Contains least greatest start
  rw [powTwo_eq, powTwo_eq]
  by_cases h₀ : t.width = 0
  · simp only [h₀, if_true, ne_eq, not_true_eq_false, false_and, if_false]
    omega
  · have hpow : (2 ^ t.width : Int) = 2 * 2 ^ (t.width - 1) := by
      rw [← Int.pow_succ', Nat.sub_add_cancel (Nat.one_le_iff_ne_zero.2 h₀)]
    cases hs : t.signed with
    | true =>
      simp only [h₀, if_false, if_true, ne_eq, not_false_eq_true, true_and, true_or]
      omega
    | false =>
      have hw : t.width ≠ 64 := fun hw => h ⟨hs, width_eq_iff.1 hw⟩
      simp only [h₀, hw, if_false, Bool.false_eq_true, or_self, and_false]
      omega

/-- A word stands for an integer in the range of a type exactly if it is its own reduction. -/
theorem contains_reading_iff : t.Contains (t.reading v) ↔ t.wrap v = v := by
  rw [wrap_eq_self_iff, reading]
  by_cases h : t.signed = false ∧ 64 ≤ t.bits.toNat
  · -- every word is in the range, and every word is its own reduction
    have hw : t.width = 64 := width_eq_iff.2 h.2
    have hstart : t.start = -2 ^ 63 := by
      rw [start, hw, if_pos ⟨by decide, Or.inr rfl⟩]
    have hle := v.le_toInt
    have hlt := v.toInt_lt
    rw [if_pos h, hstart, hw]
    exact ⟨fun _ => ⟨by omega, by omega⟩, fun _ => contains_toNat h.1 hw v⟩
  · rw [if_neg h]
    exact contains_iff h v.toInt

end Straightline.Scalar
