import Straightline.Constant
import Straightline.Ref

/-!
# Operands

The operands of an instruction that is handed to a backend: registers, parameter indices, references, constants, lists of
operands, or nothing where a value may be absent.
-/

namespace Straightline

/-- A value slot of a method, chosen by its writer. -/
abbrev Register := UInt32

/-- An operand of an instruction. -/
inductive Operand where
  /-- No value: the operand of a return without one. -/
  | absent
  | register (r : Register)
  /-- A plain number, such as that of a parameter. -/
  | index (i : UInt32)
  | type (t : TypeRef)
  | const (c : Constant)
  | method (m : MethodRef)
  | block (b : BlockRef)
  /-- A sequence, such as the argument registers of a call. -/
  | list (items : List Operand)
  deriving Repr

namespace Operand

/-- The kinds of operand. -/
inductive Kind where
  | absent | register | index | type | constant | method | block | list
  deriving DecidableEq, Repr

/-- The word for a kind of operand. -/
def Kind.word : Kind → String
  | .absent => "absent"
  | .register => "register"
  | .index => "index"
  | .type => "type"
  | .constant => "constant"
  | .method => "method"
  | .block => "block"
  | .list => "list"

/-- The kind of an operand. -/
def kind : Operand → Kind
  | .absent => .absent
  | .register _ => .register
  | .index _ => .index
  | .type _ => .type
  | .const _ => .constant
  | .method _ => .method
  | .block _ => .block
  | .list _ => .list

/-- A list of registers. -/
def registers (rs : List Register) : Operand := .list (rs.map .register)

mutual

/-- An operand as it is shown. -/
def text : Operand → String
  | .absent => "_"
  | .register r => "r" ++ Decimal.text r.toNat
  | .index i => Decimal.text i.toNat
  | .type t => t.text
  | .const c => c.text
  | .method m => m.text
  | .block b => b.text
  | .list items => "[" ++ String.intercalate ", " (texts items) ++ "]"

/-- The operands of a list as they are shown. -/
def texts : List Operand → List String
  | [] => []
  | o :: os => o.text :: texts os

end

end Operand

end Straightline
