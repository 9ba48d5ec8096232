import Straightline.Backend
import Straightline.Instr

/-!
# The builder

A convenient way to build a program over any backend. The builder resolves a catalogue of nine common types once. Each of its
operations then makes exactly one call: a method or a block is declared, an instruction is written at a site, the entry is set.
Writing an instruction gives back the site, so that instructions can be chained.
-/

namespace Straightline

/-- The references to the common types. -/
structure Catalogue where
  bool : TypeRef
  i8 : TypeRef
  i16 : TypeRef
  i32 : TypeRef
  i64 : TypeRef
  u8 : TypeRef
  u16 : TypeRef
  u32 : TypeRef
  u64 : TypeRef
  deriving DecidableEq, Repr

/-- A place where instructions are written: a block of a method. -/
structure Site where
  method : MethodRef
  block : BlockRef
  deriving DecidableEq, Repr

/-- What may be called or entered: a method, given by itself or by one of its blocks. -/
inductive Target where
  | method (m : MethodRef)
  | site (s : Site)
  deriving DecidableEq, Repr

/-- The method of a target. -/
def Target.ref : Target → MethodRef
  | .method m => m
  | .site s => s.method

instance : Coe MethodRef Target := ⟨.method⟩
instance : Coe Site Target := ⟨.site⟩

variable {σ ε : Type} [Backend σ ε]

namespace Catalogue

/-- Resolves the common types: `bool`, the signed ones by width, the unsigned ones by width. -/
def resolve : StateM σ Catalogue := do
  let bool ← Backend.resolveType .bool
  let i8 ← Backend.resolveType ⟨true, 8⟩
  let i16 ← Backend.resolveType ⟨true, 16⟩
  let i32 ← Backend.resolveType ⟨true, 32⟩
  let i64 ← Backend.resolveType ⟨true, 64⟩
  let u8 ← Backend.resolveType ⟨false, 8⟩
  let u16 ← Backend.resolveType ⟨false, 16⟩
  let u32 ← Backend.resolveType ⟨false, 32⟩
  let u64 ← Backend.resolveType ⟨false, 64⟩
  return { bool, i8, i16, i32, i64, u8, u16, u32, u64 }

/-- The common types by name, in the order in which they were resolved. -/
def entries (c : Catalogue) : List (String × TypeRef) :=
  [("bool", c.bool), ("i8", c.i8), ("i16", c.i16), ("i32", c.i32), ("i64", c.i64), ("u8", c.u8), ("u16", c.u16),
    ("u32", c.u32), ("u64", c.u64)]

end Catalogue

namespace Builder

/-- Declares a method. -/
def method (name : String) (returnType : TypeRef) (params : List TypeRef) : BuildM σ ε MethodRef :=
  Backend.declareMethod name returnType params

/-- Declares a block of a method, and gives the site at it. -/
def block (m : MethodRef) (name : String) : BuildM σ ε Site := do
  let b ← Backend.declareBlock m name
  return ⟨m, b⟩

/-- Sets the entry. -/
def setMain (t : Target) : BuildM σ ε Unit := Backend.setEntry t.ref

end Builder

namespace Site

/-- Writes an operation with its operands at a site. -/
def emit (s : Site) (op : Opcode) (operands : List Operand) : BuildM σ ε Site := do
  Backend.emit s.method s.block op.mnemonic operands
  return s

/-- Writes a sum. -/
def add (s : Site) (result a b : Register) : BuildM σ ε Site :=
  s.emit .add [.register result, .register a, .register b]

/-- Writes the load of a parameter. -/
def ldParam (s : Site) (result : Register) (index : UInt32) : BuildM σ ε Site :=
  s.emit .ldParam [.register result, .index index]

/-- Writes the load of a constant. -/
def ldConst (s : Site) (result : Register) (type : TypeRef) (value : Constant) : BuildM σ ε Site :=
  s.emit .ldConst [.register result, .type type, .const value]

/-- Writes a call. -/
def call (s : Site) (result : Register) (target : Target) (args : List Register) : BuildM σ ε Site :=
  s.emit .call [.register result, .method target.ref, .registers args]

/-- Writes a return, with a value or without. -/
def ret (s : Site) (value : Option Register) : BuildM σ ε Site :=
  match value with
  | some r => s.emit .ret [.register r]
  | none => s.emit .ret [.absent]

end Site

end Straightline
