import Straightline.Operand
import Straightline.Scalar

/-!
# Source trees

What the text of a program says, before names are looked up: methods are called by name and types stand where they are written.
-/

namespace Straightline

namespace Source

/-- A line of a block. -/
inductive Stmt where
  | add (result a b : Register)
  | loadParam (result : Register) (index : UInt32)
  | loadConst (result : Register) (type : Scalar) (value : Constant)
  | call (result : Register) (callee : String) (args : List Register)
  | ret (value : Option Register)
  deriving DecidableEq, Repr

/-- A block as it is written. -/
structure BlockDecl where
  name : String
  stmts : List Stmt
  deriving DecidableEq, Repr

/-- A method as it is written. -/
structure MethodDecl where
  name : String
  params : List Scalar
  returnType : Scalar
  blocks : List BlockDecl
  deriving DecidableEq, Repr

end Source

/-- A program as it is written. -/
structure Source where
  entry : Option String
  methods : List Source.MethodDecl
  deriving DecidableEq, Repr

end Straightline
