import Straightline.Operand

/-!
# Instructions

There are five operations, each with a mnemonic and a fixed number of operands. An instruction is handed to a backend as the
mnemonic of its operation and a list of operands (`Instr.operands`).
-/

namespace Straightline

/-- The operations. -/
inductive Opcode where
  | add | ldParam | ldConst | call | ret
  deriving DecidableEq, Repr

namespace Opcode

/-- The written form of an operation. -/
def mnemonic : Opcode → String
  | .add => "add"
  | .ldParam => "ld_param"
  | .ldConst => "ld_const"
  | .call => "call"
  | .ret => "ret"

/-- All operations. -/
def all : List Opcode := [.add, .ldParam, .ldConst, .call, .ret]

/-- The operation of a mnemonic. -/
def ofMnemonic? (s : String) : Option Opcode := all.find? (fun op => op.mnemonic == s)

/-- The number of operands an operation takes. -/
def operandCount : Opcode → Nat
  | .add => 3
  | .ldParam => 2
  | .ldConst => 3
  | .call => 3
  | .ret => 1

/-- A mnemonic leads back to its operation. -/
@[simp] theorem ofMnemonic?_mnemonic (op : Opcode) : ofMnemonic? op.mnemonic = some op := by
  cases op <;> rfl

end Opcode

/-- An instruction of a block. -/
inductive Instr where
  /-- The sum of two registers. -/
  | add (result a b : Register)
  /-- The argument at `index`. -/
  | loadParam (result : Register) (index : UInt32)
  /-- A literal of a type. -/
  | loadConst (result : Register) (type : TypeRef) (value : Constant)
  /-- What a method returns for the values of some registers. -/
  | call (result : Register) (callee : MethodRef) (args : List Register)
  /-- The end of the method, with a value or without. -/
  | ret (value : Option Register)
  deriving DecidableEq, Repr

namespace Instr

/-- The operation of an instruction. -/
def opcode : Instr → Opcode
  | .add .. => .add
  | .loadParam .. => .ldParam
  | .loadConst .. => .ldConst
  | .call .. => .call
  | .ret _ => .ret

/-- The register an instruction writes. -/
def result? : Instr → Option Register
  | .add r .. => some r
  | .loadParam r _ => some r
  | .loadConst r .. => some r
  | .call r .. => some r
  | .ret _ => none

/-- The registers an instruction reads, in the order in which it reads them. -/
def uses : Instr → List Register
  | .add _ a b => [a, b]
  | .loadParam .. => []
  | .loadConst .. => []
  | .call _ _ args => args
  | .ret value => value.toList

/-- The operands under which an instruction is handed to a backend. -/
def operands : Instr → List Operand
  | .add r a b => [.register r, .register a, .register b]
  | .loadParam r i => [.register r, .index i]
  | .loadConst r t c => [.register r, .type t, .const c]
  | .call r m args => [.register r, .method m, .registers args]
  | .ret value => [(value.map Operand.register).getD .absent]

/-- An instruction has as many operands as its operation takes. -/
theorem length_operands (i : Instr) : i.operands.length = i.opcode.operandCount := by
  cases i <;> rfl

end Instr

end Straightline
