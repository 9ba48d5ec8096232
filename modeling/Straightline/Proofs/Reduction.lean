import Mathlib.Algebra.Ring.Int.Defs
import Mathlib.Algebra.Ring.Nat
import Straightline.Scalar

/-!
# Reduction of integers to types

Of an integer, a type of width `w` keeps the class modulo `2 ^ w`. The class has one member among the `2 ^ w` integers from
`Scalar.start` on, and that is what the integer is reduced to (`Scalar.reduce`). Main statement: reducing a word by shifting its
low bits out and back is this reduction of any integer that the word is taken from (`Scalar.toInt_wrap_ofInt`).
-/

namespace Straightline.Scalar

/-- The least integer that is its own reduction. The words of a signed type, and those of an unsigned type that has all the bits
of a word, are spread around zero: they go from `-2 ^ (w - 1)` up to `2 ^ (w - 1)`. Those of the other unsigned types start at
zero. -/
def start (t : Scalar) : Int := if t.width ≠ 0 ∧ (t.signed ∨ t.width = 64) then -2 ^ (t.width - 1) else 0

/-- An integer reduced to a type: the member of its class modulo `2 ^ width` among the `2 ^ width` integers from `start` on. -/
def reduce (t : Scalar) (x : Int) : Int := t.start + (x - t.start) % 2 ^ t.width

variable {t : Scalar} {x y : Int}

theorem width_le (t : Scalar) : t.width ≤ 64 := Nat.min_le_right _ _

/-- The reduction of an integer is the one member of its class in the range. -/
theorem reduce_eq_iff : t.reduce x = y ↔ (2 ^ t.width : Int) ∣ y - x ∧ t.start ≤ y ∧ y < t.start + 2 ^ t.width := by
  have hpos : (0 : Int) < 2 ^ t.width := Int.pow_pos (by decide)
  have hdiv := Int.emod_add_mul_ediv (x - t.start) (2 ^ t.width)
  have hnonneg := Int.emod_nonneg (x - t.start) (Int.ne_of_gt hpos)
  have hlt := Int.emod_lt_of_pos (x - t.start) hpos
  unfold reduce
  constructor
  · rintro rfl
    refine ⟨⟨-((x - t.start) / 2 ^ t.width), ?_⟩, by omega, by omega⟩
    rw [Int.mul_neg]
    omega
  · rintro ⟨⟨k, hk⟩, hle, hlt'⟩
    have hclass : x - t.start = (y - t.start) + 2 ^ t.width * (-k) := by
      rw [Int.mul_neg]
      omega
    rw [hclass, Int.add_mul_emod_self_left, Int.emod_eq_of_lt (by omega) (by omega)]
    omega

/-- Two integers have the same reduction exactly if they are of one class. -/
theorem reduce_eq_reduce_iff : t.reduce x = t.reduce y ↔ (2 ^ t.width : Int) ∣ x - y := by
  obtain ⟨hdvd, hrange⟩ := reduce_eq_iff.1 (Eq.refl (t.reduce y))
  constructor
  · intro h
    obtain ⟨hdvd', -⟩ := reduce_eq_iff.1 h
    have hsub := Int.dvd_sub hdvd hdvd'
    rwa [show t.reduce y - y - (t.reduce y - x) = x - y by omega] at hsub
  · intro h
    have hsub := Int.dvd_sub hdvd h
    rw [show t.reduce y - y - (x - y) = t.reduce y - x by omega] at hsub
    exact reduce_eq_iff.2 ⟨hsub, hrange⟩

/-- Integers that differ by a multiple of `2 ^ 64` have the same reduction. -/
theorem reduce_eq_of_dvd (t : Scalar) (h : (2 ^ 64 : Int) ∣ x - y) : t.reduce x = t.reduce y := by
  have hwide : ((2 ^ t.width : Nat) : Int) ∣ (2 ^ 64 : Nat) := Int.natCast_dvd_natCast.2 (Nat.pow_dvd_pow 2 t.width_le)
  rw [Int.natCast_pow] at hwide
  exact reduce_eq_reduce_iff.2 (Int.dvd_trans hwide h)

/-- At the types that start at zero, the reduction is the remainder. -/
theorem reduce_eq_emod (h : ¬(t.width ≠ 0 ∧ (t.signed ∨ t.width = 64))) : t.reduce x = x % 2 ^ t.width := by
  rw [reduce, start, if_neg h, Int.sub_zero, Int.zero_add]

/-- At the other types, the reduction is the remainder around zero. -/
theorem reduce_eq_bmod (h₀ : t.width ≠ 0) (h : t.signed ∨ t.width = 64) : t.reduce x = x.bmod (2 ^ t.width) := by
  have hstart : t.start = -2 ^ (t.width - 1) := if_pos ⟨h₀, h⟩
  have hpow : (2 ^ t.width : Int) = 2 * 2 ^ (t.width - 1) := by
    rw [← Int.pow_succ', Nat.sub_add_cancel (Nat.one_le_iff_ne_zero.2 h₀)]
  have hcast : ((2 ^ t.width : Nat) : Int) = 2 ^ t.width := Int.natCast_pow 2 t.width
  have hle := Int.le_bmod (x := x) (Nat.two_pow_pos t.width)
  have hlt := Int.bmod_lt (x := x) (Nat.two_pow_pos t.width)
  have hdvd := Int.dvd_bmod_sub_self (x := x) (m := 2 ^ t.width)
  rw [hcast] at hle hlt hdvd
  refine reduce_eq_iff.2 ⟨hdvd, ?_, ?_⟩ <;> rw [hstart] <;> omega

/-! ## Words -/

/-- A word and its bits as a natural number differ by a multiple of `2 ^ 64`. -/
theorem dvd_toInt_sub_toNat (v : Int64) : (2 ^ 64 : Int) ∣ v.toInt - v.toBitVec.toNat := by
  rw [← Int64.toInt_toBitVec, BitVec.toInt_eq_toNat_bmod]
  exact Int.dvd_bmod_sub_self

/-- The low `w` bits of a word, shifted out at the high end and back with the sign, are its class around zero. -/
theorem toInt_shiftLeft_sshiftRight (v : BitVec 64) {w : Nat} (h₀ : w ≠ 0) (h : w ≤ 64) :
    ((v <<< (64 - w)).sshiftRight (64 - w)).toInt = (v.toNat : Int).bmod (2 ^ w) := by
  have hpow : 2 ^ 64 = 2 ^ (64 - w) * 2 ^ w := by
    rw [← Nat.pow_add, Nat.sub_add_cancel h]
  have heven : 2 ∣ 2 ^ w := Nat.dvd_of_pow_dvd (Nat.one_le_iff_ne_zero.2 h₀) (Nat.dvd_refl _)
  have hpos : 0 < 2 ^ (64 - w) := Nat.two_pow_pos _
  have hleft : (v <<< (64 - w)).toInt = ((2 ^ (64 - w) : Nat) : Int) * (v.toNat : Int).bmod (2 ^ w) := by
    rw [BitVec.toInt_shiftLeft, hpow, ← Int.mod_bmod_mul_of_pos _ _ hpos heven, Nat.shiftLeft_eq, Int.natCast_mul, Int.mul_comm]
  rw [BitVec.toInt_sshiftRight, hleft, Int.shiftRight_eq_div_pow]
  exact Int.mul_ediv_cancel_left _ (Int.ne_of_gt (Int.natCast_pos.2 hpos))

/-- The low `w` bits of a word, shifted out at the high end and back with zeros. -/
theorem toNat_shiftLeft_ushiftRight (v : BitVec 64) {w : Nat} (h : w ≤ 64) :
    ((v <<< (64 - w)) >>> (64 - w)).toNat = v.toNat % 2 ^ w := by
  have hpow : 2 ^ 64 = 2 ^ w * 2 ^ (64 - w) := by
    rw [← Nat.pow_add, Nat.add_sub_cancel' h]
  rw [BitVec.toNat_ushiftRight, BitVec.toNat_shiftLeft, Nat.shiftLeft_eq, hpow, Nat.mul_mod_mul_right, Nat.shiftRight_eq_div_pow]
  exact Nat.mul_div_cancel _ (Nat.two_pow_pos _)

/-- A word reduced by shifting is the word's integer reduced. -/
theorem toInt_wrap (t : Scalar) (v : Int64) : (t.wrap v).toInt = t.reduce v.toInt := by
  -- the bits of the word, as a natural number, are in the class of its integer
  rw [reduce_eq_of_dvd t (dvd_toInt_sub_toNat v)]
  have hw := t.width_le
  unfold wrap
  by_cases h₀ : t.width = 0
  · rw [if_pos h₀, reduce_eq_emod fun h => h.1 h₀, h₀]
    exact (Int.emod_one _).symm
  rw [if_neg h₀]
  by_cases h₁ : t.width = 64
  · rw [if_pos h₁, reduce_eq_bmod h₀ (Or.inr h₁), h₁, ← Int64.toInt_toBitVec, BitVec.toInt_eq_toNat_bmod]
  rw [if_neg h₁]
  cases hs : t.signed with
  | true =>
    rw [if_pos rfl, reduce_eq_bmod h₀ (Or.inl hs), Int64.toInt_ofBitVec]
    exact toInt_shiftLeft_sshiftRight v.toBitVec h₀ hw
  | false =>
    have hnat : ((v.toBitVec <<< t.spare) >>> t.spare).toNat = v.toBitVec.toNat % 2 ^ t.width :=
      toNat_shiftLeft_ushiftRight v.toBitVec hw
    have hlt : v.toBitVec.toNat % 2 ^ t.width < 2 ^ t.width := Nat.mod_lt _ (Nat.two_pow_pos _)
    have hle : 2 ^ t.width ≤ 2 ^ 63 := Nat.pow_le_pow_right (by decide) (by omega)
    have hplain : ¬(t.width ≠ 0 ∧ (t.signed ∨ t.width = 64)) := by simp [hs, h₁]
    rw [if_neg (by decide), reduce_eq_emod hplain, Int64.toInt_ofBitVec, BitVec.toInt_eq_toNat_of_lt (by omega), hnat]
    rfl

/-- A word reduced by shifting is the reduction of any integer that the word is taken from. -/
theorem toInt_wrap_ofInt (t : Scalar) (x : Int) : (t.wrap (Int64.ofInt x)).toInt = t.reduce x := by
  rw [toInt_wrap]
  refine reduce_eq_of_dvd t ?_
  rw [Int64.toInt_ofInt]
  exact Int.dvd_bmod_sub_self

end Straightline.Scalar
