import Straightline.Decimal

/-!
# Constants

A constant is a signed or an unsigned 64-bit integer or a truth value. Two constants of different form are different, also where
they stand for the same number (`Constant.toInt`).
-/

namespace Straightline

/-- A literal value. -/
inductive Constant where
  | int (v : Int64)
  | uint (v : UInt64)
  | bool (b : Bool)
  deriving DecidableEq, Repr

namespace Constant

/-- The number a constant stands for; `true` is one. -/
def toInt : Constant → Int
  | .int v => v.toInt
  | .uint v => v.toNat
  | .bool b => if b then 1 else 0

/-- The word that holds a constant. An unsigned constant keeps its bits. -/
def toWord : Constant → Int64
  | .int v => v
  | .uint v => v.toInt64
  | .bool b => if b then 1 else 0

/-- A constant as it is written. -/
def chars : Constant → List Char
  | .int v => Decimal.intDigits v.toInt
  | .uint v => Decimal.digits v.toNat
  | .bool b => (if b then "true" else "false").toList

/-- A constant as it is written, as a text. -/
def text (c : Constant) : String := String.ofList c.chars

/-! ## The machine integers as constants -/

instance : Coe Int8 Constant := ⟨fun v => .int v.toInt64⟩
instance : Coe Int16 Constant := ⟨fun v => .int v.toInt64⟩
instance : Coe Int32 Constant := ⟨fun v => .int v.toInt64⟩
instance : Coe Int64 Constant := ⟨.int⟩
instance : Coe UInt8 Constant := ⟨fun v => .uint v.toUInt64⟩
instance : Coe UInt16 Constant := ⟨fun v => .uint v.toUInt64⟩
instance : Coe UInt32 Constant := ⟨fun v => .uint v.toUInt64⟩
instance : Coe UInt64 Constant := ⟨.uint⟩
instance : Coe Bool Constant := ⟨.bool⟩

end Constant

end Straightline
