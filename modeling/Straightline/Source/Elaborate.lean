import Straightline.Program.Checked
import Straightline.Source

/-!
# From source trees to programs

A source tree is elaborated by the checked building calls: first all methods are declared, so that a method may be called before
it is written, then their blocks and statements follow, and last the entry is set. The first refused call refuses the tree.
-/

namespace Straightline

namespace Program

/-- The references to some types, each added to the table if needed. -/
def internAll (p : Program) : List Scalar → List TypeRef × Program
  | [] => ([], p)
  | t :: ts =>
    let (r, p') := p.intern t
    let (rs, p'') := p'.internAll ts
    (r :: rs, p'')

/-- The method of a name, which must be declared. -/
def findMethod (p : Program) (name : String) : Except BuildError MethodRef :=
  match p.methodRef? name with
  | some m => .ok m
  | none => .error (.undefinedMethod name)

end Program

namespace Source

/-- Declares a method: its return type is entered into the type table first, then its parameter types. -/
def MethodDecl.declare (p : Program) (d : MethodDecl) : Except BuildError Program := do
  let (returnType, p') := p.intern d.returnType
  let (params, p'') := p'.internAll d.params
  let (_, declared) ← p''.declareMethod d.name returnType params
  return declared

/-- The operation and the operands under which a statement is handed over, with its type entered into the type table or its callee
looked up. -/
def Stmt.lower (p : Program) : Stmt → Except BuildError ((Opcode × List Operand) × Program)
  | .add r a b => .ok ((.add, [.register r, .register a, .register b]), p)
  | .loadParam r i => .ok ((.ldParam, [.register r, .index i]), p)
  | .loadConst r t c => .ok ((.ldConst, [.register r, .type (p.intern t).1, .const c]), (p.intern t).2)
  | .call r callee args => do
    let m ← p.findMethod callee
    return ((.call, [.register r, .method m, .registers args]), p)
  | .ret (some r) => .ok ((.ret, [.register r]), p)
  | .ret none => .ok ((.ret, [.absent]), p)

/-- Adds a statement at the end of a block. -/
def Stmt.emit (m : MethodRef) (b : BlockRef) (p : Program) (s : Stmt) : Except BuildError Program := do
  let ((op, operands), p') ← s.lower p
  p'.emit m b op.mnemonic operands

/-- Adds a block and its statements at the end of a method. -/
def BlockDecl.define (m : MethodRef) (p : Program) (d : BlockDecl) : Except BuildError Program := do
  let (b, p') ← p.declareBlock m d.name
  d.stmts.foldlM (Stmt.emit m b) p'

/-- Adds the blocks of a method that has been declared. -/
def MethodDecl.define (p : Program) (d : MethodDecl) : Except BuildError Program := do
  let m ← p.findMethod d.name
  d.blocks.foldlM (BlockDecl.define m) p

/-- The program of a source tree. -/
def elaborate (s : Source) : Except BuildError Program := do
  let declared ← s.methods.foldlM MethodDecl.declare {}
  let p ← s.methods.foldlM MethodDecl.define declared
  match s.entry with
  | some name => do
    let m ← p.findMethod name
    p.setEntry m
  | none => return p

end Source

end Straightline
