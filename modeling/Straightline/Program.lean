import Straightline.Instr
import Straightline.Scalar

/-!
# Programs

A program is a table of types, a list of methods in the order of their declaration, and possibly an entry method. A method has a
signature and a list of blocks; running it runs its first block. This module holds the data, the look-ups and the plain edits. No
edit here checks anything: the checked ones are in `Straightline.Program.Checked`.
-/

namespace Straightline

/-- A labelled list of instructions. -/
structure Block where
  name : String
  instrs : List Instr := []
  deriving DecidableEq, Repr

/-- A method: its signature, whose types are references into the type table, and its blocks. -/
structure Method where
  name : String
  returnType : TypeRef
  params : List TypeRef
  blocks : List Block := []
  deriving DecidableEq, Repr

/-- A program. -/
structure Program where
  types : List Scalar := []
  methods : List Method := []
  entry : Option MethodRef := none
  deriving DecidableEq, Repr

/-! ## Blocks -/

namespace Block

/-- The block with an instruction added at its end. -/
def push (b : Block) (i : Instr) : Block := { b with instrs := b.instrs ++ [i] }

/-- Whether the last instruction is a return. -/
def terminated (b : Block) : Bool :=
  match b.instrs.getLast? with
  | some (.ret _) => true
  | _ => false

end Block

/-! ## Methods -/

namespace Method

/-- The block of a reference. -/
def block? (m : Method) (b : BlockRef) : Option Block := m.blocks[b.index]?

/-- The first block of a name. -/
def blockRef? (m : Method) (name : String) : Option BlockRef :=
  (m.blocks.findIdx? (fun b => b.name == name)).map .ofIndex

/-- The block that runs. -/
def entryBlock? (m : Method) : Option Block := m.blocks.head?

/-- A new block at the end. -/
def addBlock (m : Method) (name : String) : BlockRef × Method :=
  (.ofIndex m.blocks.length, { m with blocks := m.blocks ++ [{ name }] })

/-- The method with an instruction added at the end of a block, or unchanged if there is no such block. -/
def push (m : Method) (b : BlockRef) (i : Instr) : Method :=
  { m with blocks := m.blocks.modify b.index (fun block => block.push i) }

end Method

/-! ## Programs -/

namespace Program

/-- The type of a reference. -/
def type? (p : Program) (t : TypeRef) : Option Scalar := p.types[t.index]?

/-- The reference to a type. A type that is not in the table yet is added at its end. -/
def intern (p : Program) (t : Scalar) : TypeRef × Program :=
  match p.types.idxOf? t with
  | some i => (.ofIndex i, p)
  | none => (.ofIndex p.types.length, { p with types := p.types ++ [t] })

/-- The method of a reference. -/
def method? (p : Program) (m : MethodRef) : Option Method := p.methods[m.index]?

/-- The first method of a name. -/
def methodRef? (p : Program) (name : String) : Option MethodRef :=
  (p.methods.findIdx? (fun m => m.name == name)).map .ofIndex

/-- The block of two references. -/
def block? (p : Program) (m : MethodRef) (b : BlockRef) : Option Block := (p.method? m).bind (fun d => d.block? b)

/-- The entry method. -/
def entryMethod? (p : Program) : Option Method := p.entry.bind p.method?

/-- The methods, each with its reference. -/
def numberedMethods (p : Program) : List (MethodRef × Method) :=
  p.methods.zipIdx.map (fun (m, i) => (.ofIndex i, m))

/-- A new method at the end. -/
def addMethod (p : Program) (m : Method) : MethodRef × Program :=
  (.ofIndex p.methods.length, { p with methods := p.methods ++ [m] })

/-- The program with another method in the place of a reference, or unchanged if there is no such place. -/
def setMethod (p : Program) (m : MethodRef) (method : Method) : Program :=
  { p with methods := p.methods.set m.index method }

/-- A new block at the end of a method, if there is such a method. -/
def addBlock? (p : Program) (m : MethodRef) (name : String) : Option (BlockRef × Program) :=
  (p.method? m).map fun method => ((method.addBlock name).1, p.setMethod m (method.addBlock name).2)

/-- The program with an instruction added at the end of a block, or unchanged if there is no such block. -/
def push (p : Program) (m : MethodRef) (b : BlockRef) (i : Instr) : Program :=
  { p with methods := p.methods.modify m.index (fun d => d.push b i) }

end Program

end Straightline
