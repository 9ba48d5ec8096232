import Straightline.Instr.Decode
import Straightline.Scalar

/-!
# Building errors

Why a call that builds a program is refused. Each cause has its wording in `BuildError.message`.
-/

namespace Straightline

/-- Why a building call is refused. -/
inductive BuildError where
  /-- The name of a method or block is no identifier. -/
  | invalidName (name : String)
  | duplicateMethod (name : String)
  | duplicateBlock (method name : String)
  | unknownType (type : TypeRef)
  | unknownMethod (method : MethodRef)
  /-- A text calls, or enters at, a method that it does not declare. -/
  | undefinedMethod (name : String)
  | unknownBlock (method : String) (block : BlockRef)
  /-- The mnemonic and the operands are no instruction. -/
  | decode (e : DecodeError)
  | paramOutOfRange (method : String) (index : UInt32) (count : Nat)
  | constantOutOfRange (value : Constant) (type : Scalar)
  | arityMismatch (callee : String) (expected found : Nat)
  | entryAlreadySet (current requested : String)
  deriving DecidableEq, Repr

/-- A building error in words. -/
def BuildError.message : BuildError → String
  | .invalidName name => s!"invalid name '{name}'"
  | .duplicateMethod name => s!"method '{name}' already exists"
  | .duplicateBlock method name => s!"block '{name}' already exists in method '{method}'"
  | .unknownType t => s!"unknown type {t.text}"
  | .unknownMethod m => s!"unknown method {m.text}"
  | .undefinedMethod name => s!"method '{name}' is not declared"
  | .unknownBlock method b => s!"unknown block {b.text} in method '{method}'"
  | .decode e => e.message
  | .paramOutOfRange method i count =>
    s!"parameter {Decimal.text i.toNat} out of range for method '{method}' with {Decimal.text count} parameters"
  | .constantOutOfRange value type => s!"constant {value.text} does not fit type {type.name}"
  | .arityMismatch callee expected found =>
    s!"call to '{callee}' expects {Decimal.text expected} arguments, got {Decimal.text found}"
  | .entryAlreadySet current requested => s!"entry point already set to '{current}', cannot set it to '{requested}'"

end Straightline
