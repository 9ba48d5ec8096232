import Straightline.Decimal

/-!
# Scalar types

A scalar type is a signed or unsigned integer type of some width in bits; `bool` is the unsigned one of a single bit. Values are
held in 64-bit words, so that of a wider type only 64 bits count. A type has a name (`Scalar.name`, read by `Scalar.ofName?`), a
range (`Scalar.Contains`) and a reduction of words to it (`Scalar.wrap`).
-/

namespace Straightline

/-- A signed or unsigned integer type of `bits` bits. -/
structure Scalar where
  signed : Bool
  bits : UInt32
  deriving DecidableEq, Repr

namespace Scalar

/-- The type of truth values: one bit, unsigned. -/
def bool : Scalar := ⟨false, 1⟩

/-- Whether a type is the type of truth values. -/
def isBool (t : Scalar) : Bool := decide (t = bool)

/-! ## Names -/

/-- The name of a type: `bool`, or `i` or `u` and the width. -/
def nameChars (t : Scalar) : List Char :=
  if t = bool then "bool".toList
  else (if t.signed then 'i' else 'u') :: Decimal.digits t.bits.toNat

/-- The name of a type, as a text. -/
def name (t : Scalar) : String := String.ofList t.nameChars

/-- The width that a run of digits writes, unless the run is empty, holds anything but digits or writes `2^32` or more. -/
def widthOf? (ds : List Char) : Option UInt32 :=
  if ds.isEmpty || !ds.all Char.isDigit then none
  else if Decimal.value ds < UInt32.size then some (UInt32.ofNat (Decimal.value ds))
  else none

/-- The type of a name. The width may have leading zeros, and `u1` is another name of `bool`. -/
def ofChars? (cs : List Char) : Option Scalar :=
  if cs = "bool".toList then some bool
  else
    match cs with
    | 'i' :: ds => (widthOf? ds).map (⟨true, ·⟩)
    | 'u' :: ds => (widthOf? ds).map (⟨false, ·⟩)
    | _ => none

/-- The type of a name, given as a text. -/
def ofName? (s : String) : Option Scalar := ofChars? s.toList

/-! ## Values -/

/-- The number of bits of a word that count for a type. -/
def width (t : Scalar) : Nat := min t.bits.toNat 64

/-- The number of values of `k` bits. -/
def powTwo (k : Nat) : Int := ((1 <<< k : Nat) : Int)

/-- The least value of a type. -/
def least (t : Scalar) : Int :=
  if t.width = 0 then 0 else if t.signed then -(powTwo (t.width - 1)) else 0

/-- The greatest value of a type. -/
def greatest (t : Scalar) : Int :=
  if t.width = 0 then 0 else if t.signed then powTwo (t.width - 1) - 1 else powTwo t.width - 1

/-- A value is in the range of a type. -/
def Contains (t : Scalar) (v : Int) : Prop := t.least ≤ v ∧ v ≤ t.greatest

instance (t : Scalar) (v : Int) : Decidable (t.Contains v) := inferInstanceAs (Decidable (_ ∧ _))

/-- The number of high bits of a word that do not count for a type. -/
def spare (t : Scalar) : Nat := 64 - t.width

/-- A word reduced to a type: its low bits, extended by the sign for a signed type and by zeros for an unsigned one. The bits that
do not count are shifted out at the high end and the rest is shifted back. -/
def wrap (t : Scalar) (v : Int64) : Int64 :=
  if t.width = 0 then 0
  else if t.width = 64 then v
  else if t.signed then .ofBitVec ((v.toBitVec <<< t.spare).sshiftRight t.spare)
  else .ofBitVec ((v.toBitVec <<< t.spare) >>> t.spare)

end Scalar

end Straightline
