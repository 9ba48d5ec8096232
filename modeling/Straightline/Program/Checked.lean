import Straightline.Backend
import Straightline.BuildError
import Straightline.Identifier
import Straightline.Program

/-!
# Checked building

A program answers the building calls with checks, so that a program that is built by calls alone is always meaningful: names are
identifiers and distinct, references lead to something, parameters and constants are in range, calls have the right number of
arguments and the entry is set once. A call makes its checks on the program first and writes to it last, so a refused call leaves
the program as it is.
-/

namespace Straightline

/-- A condition that a call must meet, with the error if it does not. -/
def ensure {ε : Type} (c : Prop) [Decidable c] (e : ε) : Except ε Unit := if c then .ok () else .error e

/-- A condition is ensured exactly where it holds. -/
theorem ensure_eq_ok_iff {ε : Type} {c : Prop} [Decidable c] {e : ε} : ensure c e = .ok () ↔ c := by
  unfold ensure
  split
  · next h => exact ⟨fun _ => h, fun _ => rfl⟩
  · next h => exact ⟨fun h' => (nomatch h'), fun h' => absurd h' h⟩

/-- A constant may be loaded at a type: a truth value at `bool` only, a number where it is in range. -/
def Scalar.Admits (t : Scalar) : Constant → Prop
  | .bool _ => t = .bool
  | c => t.Contains c.toInt

instance (t : Scalar) (c : Constant) : Decidable (t.Admits c) := by
  cases c <;> simp only [Scalar.Admits] <;> infer_instance

/-- A name that is to be declared is an identifier. -/
def checkName (name : String) : Except BuildError Unit := ensure (isIdentifier name.toList) (.invalidName name)

namespace Program

/-- A type reference leads to a type. -/
def checkType (p : Program) (t : TypeRef) : Except BuildError Unit := ensure ((p.type? t).isSome) (.unknownType t)

/-- Type references lead to types, each looked at in its turn. -/
def checkTypes (p : Program) (ts : List TypeRef) : Except BuildError Unit := ts.forM p.checkType

/-- The method of a reference, which must exist. -/
def getMethod (p : Program) (m : MethodRef) : Except BuildError Method :=
  match p.method? m with
  | some method => .ok method
  | none => .error (.unknownMethod m)

/-- An instruction is meaningful in a method. -/
def checkInstr (p : Program) (method : Method) : Instr → Except BuildError Unit
  | .add .. => .ok ()
  | .loadParam _ i =>
    ensure (i.toNat < method.params.length) (.paramOutOfRange method.name i method.params.length)
  | .loadConst _ t c =>
    match p.type? t with
    | some scalar => ensure (scalar.Admits c) (.constantOutOfRange c scalar)
    | none => .error (.unknownType t)
  | .call _ m args => do
    let callee ← p.getMethod m
    ensure (args.length = callee.params.length) (.arityMismatch callee.name callee.params.length args.length)
  | .ret _ => .ok ()

/-- The name of a method, or its reference if it does not exist. -/
def methodLabel (p : Program) (m : MethodRef) : String :=
  match p.method? m with
  | some method => method.name
  | none => m.text

/-- No other method is the entry than the one that is to be it. -/
def checkEntry (p : Program) (m : MethodRef) (requested : Method) : Except BuildError Unit :=
  match p.entry with
  | some current => ensure (current = m) (.entryAlreadySet (p.methodLabel current) requested.name)
  | none => .ok ()

/-! ## The calls -/

/-- The first check that fails is the one that refuses a call. A name is checked before what it is declared in, the types of a
method in the order of its head, and a block before the instruction that is added to it. -/
instance : Backend Program BuildError where
  resolveType t := fun p => p.intern t
  declareMethod name returnType params := do
    checkName name
    let p ← get
    ensure ((p.methodRef? name).isNone) (BuildError.duplicateMethod name)
    p.checkTypes (returnType :: params)
    modifyGet fun p => p.addMethod { name, returnType, params }
  declareBlock m name := do
    checkName name
    let p ← get
    let method ← p.getMethod m
    ensure ((method.blockRef? name).isNone) (BuildError.duplicateBlock method.name name)
    modifyGet fun p => ((method.addBlock name).1, p.setMethod m (method.addBlock name).2)
  emit m b mnemonic operands := do
    let p ← get
    let method ← p.getMethod m
    ensure ((method.block? b).isSome) (BuildError.unknownBlock method.name b)
    let i ← (Instr.decode mnemonic operands).mapError BuildError.decode
    p.checkInstr method i
    modify fun p => p.push m b i
  setEntry m := do
    let p ← get
    let method ← p.getMethod m
    p.checkEntry m method
    modify fun p => { p with entry := some m }

/-! ## The calls on a program that is given up when one is refused -/

/-- Declares a method. -/
def declareMethod (p : Program) (name : String) (returnType : TypeRef) (params : List TypeRef) :
    Except BuildError (MethodRef × Program) :=
  BuildM.outcome (Backend.declareMethod name returnType params) p

/-- Declares a block of a method. -/
def declareBlock (p : Program) (m : MethodRef) (name : String) : Except BuildError (BlockRef × Program) :=
  BuildM.outcome (Backend.declareBlock m name) p

/-- Adds an instruction at the end of a block. -/
def emit (p : Program) (m : MethodRef) (b : BlockRef) (mnemonic : String) (operands : List Operand) :
    Except BuildError Program :=
  Prod.snd <$> BuildM.outcome (Backend.emit m b mnemonic operands) p

/-- Sets the entry, which may be set to the same method again but not to another one. -/
def setEntry (p : Program) (m : MethodRef) : Except BuildError Program := Prod.snd <$> BuildM.outcome (Backend.setEntry m) p

end Program

end Straightline
