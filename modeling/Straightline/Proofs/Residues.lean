import Straightline.Proofs.Ranges

/-!
# Reduction as arithmetic of residues

The range of a type of width `w` has one integer of each class modulo `2 ^ w`, so that a word reduced to the type stands for the
one in the class of the word (`Scalar.eq_wrap_iff`). What is computed from reduced words is of the class it would be of without
the reduction: a sum may be reduced before and after (`Scalar.wrap_add`), and a reduction to a type that is no narrower may come
first (`Scalar.wrap_wrap_of_le`). The shifts and bounds behind this are computed on words of 64 and of 128 bits; computed there
with every operation checked, they are never refused and give the same (`Scalar.checkedWrap_eq`, `Scalar.checkedLeast_eq`,
`Scalar.checkedGreatest_eq`). Main statement: `Scalar.wrap_modular`.
-/

namespace Straightline

/-! ## Checked operations on words -/

section Checked

variable {w : Nat}

/-- A shift to the left by an amount that must be below the width of the word. -/
def checkedShiftLeft (x : BitVec w) (n : Nat) : Option (BitVec w) := if n < w then some (x <<< n) else none

/-- A shift to the right by an amount that must be below the width of the word, with zeros. -/
def checkedShiftRight (x : BitVec w) (n : Nat) : Option (BitVec w) := if n < w then some (x >>> n) else none

/-- A shift to the right by an amount that must be below the width of the word, with the sign. -/
def checkedSignedShiftRight (x : BitVec w) (n : Nat) : Option (BitVec w) := if n < w then some (x.sshiftRight n) else none

/-- The negative of a signed word, which must be one. -/
def checkedNeg (x : BitVec w) : Option (BitVec w) := if x.negOverflow then none else some (-x)

/-- The difference of two signed words, which must be one. -/
def checkedSub (x y : BitVec w) : Option (BitVec w) := if x.ssubOverflow y then none else some (x - y)

/-- A power of two that is no sign is shifted into its place, and is what it should be. -/
theorem checkedShiftLeft_one {k : Nat} (hk : k + 1 < w) : ∃ x, checkedShiftLeft 1#w k = some x ∧ x.toInt = 2 ^ k := by
  refine ⟨1#w <<< k, if_pos (by omega), ?_⟩
  rw [show 1#w <<< k = BitVec.twoPow w k from rfl, BitVec.toInt_twoPow, if_neg (by omega), if_neg (by omega)]

/-- A positive word has a negative. -/
theorem checkedNeg_of_pos {x : BitVec w} (hx : 0 < x.toInt) : ∃ y, checkedNeg x = some y ∧ y.toInt = -x.toInt := by
  have hno : ¬x.negOverflow = true := by
    have hpow : (0 : Int) < 2 ^ (w - 1) := Int.pow_pos (by decide)
    rw [BitVec.negOverflow, beq_iff_eq]
    omega
  exact ⟨-x, if_neg hno, BitVec.toInt_neg_of_not_negOverflow hno⟩

/-- A positive word has a predecessor. -/
theorem checkedSub_one {x : BitVec w} (hw : 1 < w) (hx : 0 < x.toInt) :
    ∃ y, checkedSub x 1#w = some y ∧ y.toInt = x.toInt - 1 := by
  have hone : (1#w).toInt = 1 := BitVec.toInt_one hw
  have hno : ¬x.ssubOverflow 1#w = true := by
    have hlt := BitVec.toInt_lt (x := x)
    have hpow : (0 : Int) < 2 ^ (w - 1) := Int.pow_pos (by decide)
    simp only [BitVec.ssubOverflow, hone, Bool.or_eq_true, decide_eq_true_eq]
    omega
  exact ⟨x - 1#w, if_neg hno, by rw [BitVec.toInt_sub_of_not_ssubOverflow hno, hone]⟩

end Checked

namespace Scalar

variable {t : Scalar} {a v : Int64} {x y : Int}

/-! ## Classes -/

/-- The range of a type has as many integers as there are classes. -/
theorem greatest_eq (t : Scalar) : t.greatest = t.least + 2 ^ t.width - 1 := by
  unfold greatest least
  rw [powTwo_eq, powTwo_eq]
  by_cases h₀ : t.width = 0
  · simp [h₀]
  · have hpow : (2 ^ t.width : Int) = 2 * 2 ^ (t.width - 1) := by
      rw [← Int.pow_succ', Nat.sub_add_cancel (Nat.one_le_iff_ne_zero.2 h₀)]
    simp only [if_neg h₀]
    split <;> omega

/-- No two integers of a class are in the range of a type. -/
theorem Contains.eq_of_modEq (hx : t.Contains x) (hy : t.Contains y) (h : x ≡ y [ZMOD 2 ^ t.width]) : x = y := by
  obtain ⟨hlx, hgx⟩ := hx
  obtain ⟨hly, hgy⟩ := hy
  rw [greatest_eq] at hgx hgy
  -- counted from the least value on, both are their own remainders
  have hmod := h.sub_right t.least
  rw [Int.ModEq, Int.emod_eq_of_lt (by omega) (by omega), Int.emod_eq_of_lt (by omega) (by omega)] at hmod
  omega

/-- Integers that are congruent modulo `2 ^ 64` are congruent modulo the number of values of a type. -/
theorem modEq_of_modEq_word (t : Scalar) (h : x ≡ y [ZMOD 2 ^ 64]) : x ≡ y [ZMOD 2 ^ t.width] :=
  h.of_dvd (pow_dvd_pow 2 t.width_le)

/-- What a word stands for is in the class of its integer. -/
theorem reading_modEq (t : Scalar) (v : Int64) : t.reading v ≡ v.toInt [ZMOD 2 ^ t.width] := by
  unfold reading
  split
  · exact t.modEq_of_modEq_word (Int.modEq_iff_dvd.2 (dvd_toInt_sub_toNat v))
  · exact Int.ModEq.refl _

/-- A reduced word is in the class of the word. -/
theorem wrap_modEq (t : Scalar) (v : Int64) : (t.wrap v).toInt ≡ v.toInt [ZMOD 2 ^ t.width] :=
  wrap_eq_wrap_iff.1 (t.wrap_wrap v)

/-- A reduced word is the one word of its class that stands for an integer in the range. -/
theorem eq_wrap_iff : v = t.wrap a ↔ v.toInt ≡ a.toInt [ZMOD 2 ^ t.width] ∧ t.Contains (t.reading v) := by
  rw [contains_reading_iff, ← wrap_eq_wrap_iff]
  constructor
  · rintro rfl
    exact ⟨t.wrap_wrap a, t.wrap_wrap a⟩
  · rintro ⟨hclass, hself⟩
    rw [← hself, hclass]

/-- A reduced word stands for the one integer of the word's class that is in the range. -/
theorem reading_wrap_eq_iff : t.reading (t.wrap v) = x ↔ x ≡ v.toInt [ZMOD 2 ^ t.width] ∧ t.Contains x := by
  have hclass : t.reading (t.wrap v) ≡ v.toInt [ZMOD 2 ^ t.width] := (t.reading_modEq _).trans (t.wrap_modEq v)
  have hrange : t.Contains (t.reading (t.wrap v)) := contains_reading_iff.2 (t.wrap_wrap v)
  constructor
  · rintro rfl
    exact ⟨hclass, hrange⟩
  · rintro ⟨hx, hxrange⟩
    exact hrange.eq_of_modEq hxrange (hclass.trans hx.symm)

/-! ## Sums and repeated reductions -/

/-- The sum of two words is in the class of the sum of their integers. -/
theorem toInt_add_modEq (t : Scalar) (a b : Int64) : (a + b).toInt ≡ a.toInt + b.toInt [ZMOD 2 ^ t.width] := by
  refine t.modEq_of_modEq_word (Int.ModEq.symm (Int.modEq_iff_dvd.2 ?_))
  rw [Int64.toInt_add]
  exact Int.dvd_bmod_sub_self

/-- A sum may be taken of reduced words. -/
theorem wrap_add (t : Scalar) (a b : Int64) : t.wrap (a + b) = t.wrap (t.wrap a + t.wrap b) := by
  rw [wrap_eq_wrap_iff]
  calc (a + b).toInt ≡ a.toInt + b.toInt [ZMOD 2 ^ t.width] := t.toInt_add_modEq a b
    _ ≡ (t.wrap a).toInt + (t.wrap b).toInt [ZMOD 2 ^ t.width] := ((t.wrap_modEq a).add (t.wrap_modEq b)).symm
    _ ≡ (t.wrap a + t.wrap b).toInt [ZMOD 2 ^ t.width] := (t.toInt_add_modEq _ _).symm

/-- A reduction to a type that is no narrower, signed or not, may come first. -/
theorem wrap_wrap_of_le {s : Scalar} (h : t.width ≤ s.width) (a : Int64) : t.wrap (s.wrap a) = t.wrap a :=
  wrap_eq_wrap_iff.2 ((s.wrap_modEq a).of_dvd (pow_dvd_pow 2 h))

/-! ## Checked computations -/

/-- The reduction of a word with every shift checked. -/
def checkedWrap (t : Scalar) (v : Int64) : Option Int64 :=
  if t.width = 0 then some 0
  else if t.width = 64 then some v
  else (checkedShiftLeft v.toBitVec t.spare).bind fun high =>
    if t.signed then (checkedSignedShiftRight high t.spare).map .ofBitVec else (checkedShiftRight high t.spare).map .ofBitVec

/-- The least value of a type, computed on 128 bits with every operation checked. -/
def checkedLeast (t : Scalar) : Option (BitVec 128) :=
  if t.width = 0 then some 0
  else if t.signed then (checkedShiftLeft 1 (t.width - 1)).bind checkedNeg
  else some 0

/-- The greatest value of a type, computed on 128 bits with every operation checked. -/
def checkedGreatest (t : Scalar) : Option (BitVec 128) :=
  if t.width = 0 then some 0
  else if t.signed then (checkedShiftLeft 1 (t.width - 1)).bind fun x => checkedSub x 1
  else (checkedShiftLeft 1 t.width).bind fun x => checkedSub x 1

/-- No shift of a reduction is by more than a word. -/
theorem checkedWrap_eq (t : Scalar) (v : Int64) : t.checkedWrap v = some (t.wrap v) := by
  unfold checkedWrap wrap
  by_cases h₀ : t.width = 0
  · rw [if_pos h₀, if_pos h₀]
  rw [if_neg h₀, if_neg h₀]
  by_cases h₁ : t.width = 64
  · rw [if_pos h₁, if_pos h₁]
  have hspare : t.spare < 64 := by
    unfold spare
    omega
  rw [if_neg h₁, if_neg h₁, checkedShiftLeft, if_pos hspare, Option.bind_some]
  split
  · rw [checkedSignedShiftRight, if_pos hspare, Option.map_some]
  · rw [checkedShiftRight, if_pos hspare, Option.map_some]

/-- The power of two at a bound of a type. -/
theorem exists_checkedShiftLeft {k : Nat} (hk : k ≤ 64) :
    ∃ x : BitVec 128, checkedShiftLeft 1 k = some x ∧ x.toInt = 2 ^ k ∧ 0 < x.toInt := by
  obtain ⟨x, hx, hval⟩ := checkedShiftLeft_one (w := 128) (k := k) (by omega)
  exact ⟨x, hx, hval, hval ▸ Int.pow_pos (by decide)⟩

/-- The least value of a type does not overflow in 128 bits. -/
theorem checkedLeast_eq (t : Scalar) : ∃ x, t.checkedLeast = some x ∧ x.toInt = t.least := by
  have hw := t.width_le
  unfold checkedLeast least
  rw [powTwo_eq]
  by_cases h₀ : t.width = 0
  · rw [if_pos h₀, if_pos h₀]
    exact ⟨0, rfl, rfl⟩
  rw [if_neg h₀, if_neg h₀]
  split
  · obtain ⟨x, hx, hval, hpos⟩ := exists_checkedShiftLeft (k := t.width - 1) (by omega)
    obtain ⟨y, hy, hneg⟩ := checkedNeg_of_pos hpos
    exact ⟨y, by rw [hx, Option.bind_some, hy], by rw [hneg, hval]⟩
  · exact ⟨0, rfl, rfl⟩

/-- The greatest value of a type does not overflow in 128 bits. -/
theorem checkedGreatest_eq (t : Scalar) : ∃ x, t.checkedGreatest = some x ∧ x.toInt = t.greatest := by
  have hw := t.width_le
  unfold checkedGreatest greatest
  rw [powTwo_eq, powTwo_eq]
  by_cases h₀ : t.width = 0
  · rw [if_pos h₀, if_pos h₀]
    exact ⟨0, rfl, rfl⟩
  have hpred : ∀ k, k ≤ 64 →
      ∃ x : BitVec 128, (checkedShiftLeft 1 k).bind (fun x => checkedSub x 1) = some x ∧ x.toInt = 2 ^ k - 1 := by
    intro k hk
    obtain ⟨x, hx, hval, hpos⟩ := exists_checkedShiftLeft hk
    obtain ⟨y, hy, hsub⟩ := checkedSub_one (by decide) hpos
    exact ⟨y, by rw [hx, Option.bind_some]; exact hy, by rw [hsub, hval]⟩
  rw [if_neg h₀, if_neg h₀]
  split
  · exact hpred (t.width - 1) (by omega)
  · exact hpred t.width hw

/-! ## Reduction -/

/-- Reduction is arithmetic modulo the number of values of a type. A reduced word is the one word that is congruent to the word
and stands for an integer in the range of the type; sums may be taken of reduced words; and a reduction to a type that is no
narrower, signed or not, may come first. None of its shifts is by the width of a word or more, and the bounds of the range do not
overflow in 128 bits. -/
theorem wrap_modular (t : Scalar) (a b : Int64) :
    (∀ v : Int64, v = t.wrap a ↔ v.toInt ≡ a.toInt [ZMOD 2 ^ t.width] ∧ t.Contains (t.reading v)) ∧
    t.wrap (a + b) = t.wrap (t.wrap a + t.wrap b) ∧
    (∀ s : Scalar, t.width ≤ s.width → t.wrap (s.wrap a) = t.wrap a) ∧
    (t.checkedWrap a = some (t.wrap a) ∧ (∃ x, t.checkedLeast = some x ∧ x.toInt = t.least) ∧
      ∃ x, t.checkedGreatest = some x ∧ x.toInt = t.greatest) :=
  ⟨fun _ => eq_wrap_iff, t.wrap_add a b, fun _ h => wrap_wrap_of_le h a, t.checkedWrap_eq a, t.checkedLeast_eq,
    t.checkedGreatest_eq⟩

end Scalar

end Straightline
