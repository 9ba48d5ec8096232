import Straightline.Instr

/-!
# Decoding instructions

A backend gets an instruction as a mnemonic and a list of operands. Decoding looks at the mnemonic first, then at the number of
operands, then at their kinds from left to right; whether the entities it refers to exist is not its concern. Main statement: an
instruction is decoded from the operands under which it is handed to a backend (`Instr.decode_operands`).
-/

namespace Straightline

/-- Why a mnemonic and a list of operands are no instruction. -/
inductive DecodeError where
  | unknownMnemonic (mnemonic : String)
  | operandCount (op : Opcode) (found : Nat)
  | operandKind (op : Opcode) (position : Nat) (expected found : Operand.Kind)
  deriving DecidableEq, Repr

/-- A decoding error in words. -/
def DecodeError.message : DecodeError → String
  | .unknownMnemonic mnemonic => s!"unrecognized instruction '{mnemonic}'"
  | .operandCount op found =>
    s!"'{op.mnemonic}' takes {Decimal.text op.operandCount} operands, got {Decimal.text found}"
  | .operandKind op position expected found =>
    s!"'{op.mnemonic}' operand {Decimal.text position} must be a {expected.word}, got a {found.word}"

namespace Opcode

/-- The register at a position. -/
def expectRegister (op : Opcode) (position : Nat) : Operand → Except DecodeError Register
  | .register r => .ok r
  | o => .error (.operandKind op position .register o.kind)

/-- The index at a position. -/
def expectIndex (op : Opcode) (position : Nat) : Operand → Except DecodeError UInt32
  | .index i => .ok i
  | o => .error (.operandKind op position .index o.kind)

/-- The type at a position. -/
def expectType (op : Opcode) (position : Nat) : Operand → Except DecodeError TypeRef
  | .type t => .ok t
  | o => .error (.operandKind op position .type o.kind)

/-- The constant at a position. -/
def expectConst (op : Opcode) (position : Nat) : Operand → Except DecodeError Constant
  | .const c => .ok c
  | o => .error (.operandKind op position .constant o.kind)

/-- The method at a position. -/
def expectMethod (op : Opcode) (position : Nat) : Operand → Except DecodeError MethodRef
  | .method m => .ok m
  | o => .error (.operandKind op position .method o.kind)

/-- The list of registers at a position. An item of another kind is reported at the position of the list. -/
def expectRegisters (op : Opcode) (position : Nat) : Operand → Except DecodeError (List Register)
  | .list items => items.mapM (op.expectRegister position)
  | o => .error (.operandKind op position .list o.kind)

/-- The register at a position, or nothing. -/
def expectRegister? (op : Opcode) (position : Nat) : Operand → Except DecodeError (Option Register)
  | .absent => .ok none
  | o => some <$> op.expectRegister position o

/-- The instruction of an operation and its operands. -/
def assemble (op : Opcode) (operands : List Operand) : Except DecodeError Instr :=
  match op, operands with
  | .add, [r, a, b] => do
    return .add (← op.expectRegister 0 r) (← op.expectRegister 1 a) (← op.expectRegister 2 b)
  | .ldParam, [r, i] => do
    return .loadParam (← op.expectRegister 0 r) (← op.expectIndex 1 i)
  | .ldConst, [r, t, c] => do
    return .loadConst (← op.expectRegister 0 r) (← op.expectType 1 t) (← op.expectConst 2 c)
  | .call, [r, m, args] => do
    return .call (← op.expectRegister 0 r) (← op.expectMethod 1 m) (← op.expectRegisters 2 args)
  | .ret, [value] => do
    return .ret (← op.expectRegister? 0 value)
  | _, _ => .error (.operandCount op operands.length)

end Opcode

/-- The instruction of a mnemonic and its operands. -/
def Instr.decode (mnemonic : String) (operands : List Operand) : Except DecodeError Instr :=
  match Opcode.ofMnemonic? mnemonic with
  | none => .error (.unknownMnemonic mnemonic)
  | some op => op.assemble operands

/-- A list of registers is decoded as it is. -/
theorem Opcode.expectRegisters_registers (op : Opcode) (position : Nat) (rs : List Register) :
    op.expectRegisters position (.registers rs) = .ok rs := by
  simp only [Operand.registers, Opcode.expectRegisters]
  induction rs with
  | nil => rfl
  | cons r rs ih =>
    simp only [List.map_cons, List.mapM_cons, ih, Opcode.expectRegister]
    rfl

/-- An instruction is decoded from its own operands. -/
theorem Instr.decode_operands (i : Instr) : Instr.decode i.opcode.mnemonic i.operands = .ok i := by
  simp only [Instr.decode, Opcode.ofMnemonic?_mnemonic]
  cases i with
  | add => rfl
  | loadParam => rfl
  | loadConst => rfl
  | call r m args =>
    simp only [Instr.operands, Instr.opcode, Opcode.assemble, Opcode.expectRegisters_registers]
    rfl
  | ret value => cases value <;> rfl

end Straightline
