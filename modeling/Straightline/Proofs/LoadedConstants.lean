import Straightline.Proofs.Exact
import Straightline.Proofs.Residues

/-!
# Constants that are loaded

Whether a constant may be loaded at a type is decided on its number, against the range of the type; what a run loads is a word,
reduced to the type by shifting. The two agree: a number is accepted exactly if the word that is loaded stands for it, and a truth
value that is accepted is loaded as one or zero. Main statement: `Program.loadConst_accepted_iff`.
-/

namespace Straightline

namespace Constant

/-- A constant is no truth value. -/
def IsNumber : Constant → Prop
  | .bool _ => False
  | _ => True

/-- The word that holds a constant is of the class of its number. -/
theorem toInt_modEq_toWord (c : Constant) : c.toInt ≡ c.toWord.toInt [ZMOD 2 ^ 64] := by
  rw [toWord_eq_ofInt, Int64.toInt_ofInt]
  exact Int.modEq_iff_dvd.2 Int.dvd_bmod_sub_self

end Constant

namespace Scalar

variable {t : Scalar} {c : Constant}

/-- The word of a constant, reduced to a type, stands for the number of the constant exactly if the number is in the range. -/
theorem reading_wrap_toWord_iff : t.reading (t.wrap c.toWord) = c.toInt ↔ t.Contains c.toInt :=
  reading_wrap_eq_iff.trans (and_iff_right (t.modEq_of_modEq_word c.toInt_modEq_toWord))

/-- A number is admitted exactly if it is in the range. -/
theorem admits_iff_of_isNumber (hc : c.IsNumber) : t.Admits c ↔ t.Contains c.toInt := by
  cases c with
  | bool b => exact absurd hc id
  | _ => exact Iff.rfl

/-- A truth value that is admitted is its own reduction. -/
theorem wrap_toWord_of_admits {b : Bool} (h : t.Admits (.bool b)) : t.wrap (Constant.bool b).toWord = if b then 1 else 0 := by
  have ht : t = .bool := h
  subst ht
  cases b <;> decide

end Scalar

namespace Program

variable {p : Program} {ref : TypeRef} {t : Scalar}

/-- A run that comes to an instruction goes on with a word in a register and all else as it was. -/
def Loads (p : Program) (i : Instr) (r : Register) (v : Int64) : Prop :=
  ∀ (call : MethodRef → List Int64 → RunResult) (f : Activation) (regs : Registers) (rest : List Instr),
    p.exec call f regs (i :: rest) = p.exec call f (regs.set r v) rest

/-- A constant is loaded as its word, reduced to the type. -/
theorem loads_loadConst (ht : p.type? ref = some t) (r : Register) (c : Constant) :
    p.Loads (.loadConst r ref c) r (t.wrap c.toWord) := by
  intro call f regs rest
  rw [exec, wrap, ht]

/-- Loading a constant is accepted exactly if the type admits the constant. -/
theorem checkInstr_loadConst_iff (ht : p.type? ref = some t) (d : Method) (r : Register) (c : Constant) :
    p.checkInstr d (.loadConst r ref c) = .ok () ↔ t.Admits c := by
  rw [checkInstr_eq_ok_iff]
  constructor
  · rintro ⟨t', ht', hc⟩
    rw [ht] at ht'
    cases ht'
    exact hc
  · exact fun hc => ⟨t, ht, hc⟩

/-- A number is accepted exactly if loading it keeps its value: if the word that a run puts into the register, which is the word
of the constant reduced to the type, stands for the number at that type. A truth value that is accepted is loaded as one or zero.
-/
theorem loadConst_accepted_iff {p : Program} {ref : TypeRef} {t : Scalar} (ht : p.type? ref = some t) (d : Method) (r : Register)
    (c : Constant) :
    p.Loads (.loadConst r ref c) r (t.wrap c.toWord) ∧
    (c.IsNumber → (p.checkInstr d (.loadConst r ref c) = .ok () ↔ t.reading (t.wrap c.toWord) = c.toInt)) ∧
    (∀ b, c = .bool b → p.checkInstr d (.loadConst r ref c) = .ok () → t.wrap c.toWord = if b then 1 else 0) := by
  rw [checkInstr_loadConst_iff ht]
  refine ⟨loads_loadConst ht r c, fun hc => ?_, ?_⟩
  · rw [Scalar.admits_iff_of_isNumber hc, Scalar.reading_wrap_toWord_iff]
  · rintro b rfl
    exact Scalar.wrap_toWord_of_admits

/-- A program with three types: bytes without a sign, numbers without a sign of more bits than a word has, and truth values. -/
def threeTypes : Program where
  types := [⟨false, 8⟩, ⟨false, 80⟩, .bool]

/-- A method without parameters and blocks. -/
def plainMethod : Method where
  name := "main"
  returnType := ⟨0⟩
  params := []

/-- The greatest word is accepted at 80 bits, where it is read without a sign, and `-1`, which is the same word, is not. At a
byte, `256` would be loaded as zero and is not accepted. A truth value is loaded as one. -/
theorem loadConst_threeTypes :
    threeTypes.checkInstr plainMethod (.loadConst 0 ⟨1⟩ (.uint 18446744073709551615)) = .ok () ∧
      threeTypes.checkInstr plainMethod (.loadConst 0 ⟨1⟩ (.int (-1))) ≠ .ok () ∧
      threeTypes.checkInstr plainMethod (.loadConst 0 ⟨0⟩ (.int 256)) ≠ .ok () ∧
      threeTypes.Loads (.loadConst 0 ⟨0⟩ (.int 256)) 0 0 ∧ Scalar.bool.wrap (Constant.bool true).toWord = 1 := by
  have hbytes : threeTypes.type? ⟨0⟩ = some ⟨false, 8⟩ := rfl
  have hwords : threeTypes.type? ⟨1⟩ = some ⟨false, 80⟩ := rfl
  have hbools : threeTypes.type? ⟨2⟩ = some .bool := rfl
  have hwide := loadConst_accepted_iff hwords plainMethod 0
  obtain ⟨hload, hbyte, -⟩ := loadConst_accepted_iff hbytes plainMethod 0 (.int 256)
  obtain ⟨-, -, htrue⟩ := loadConst_accepted_iff hbools plainMethod 0 (.bool true)
  refine ⟨((hwide (.uint 18446744073709551615)).2.1 trivial).2 (by decide), fun h => ?_, fun h => ?_, hload, htrue true rfl rfl⟩
  · exact absurd (((hwide (.int (-1))).2.1 trivial).1 h) (by decide)
  · exact absurd ((hbyte trivial).1 h) (by decide)

end Program

end Straightline
