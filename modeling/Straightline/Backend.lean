import Straightline.Operand
import Straightline.Scalar

/-!
# Backends

A backend answers the five calls that build a program. It is given by its states: a state that answers a call passes into another
one, also where the call is refused (`BuildM`). Types are resolved unconditionally; the other calls may be refused. The calls are
also values (`Call`), so that a run of calls is a list of them, performed one after another (`Backend.performAll`).
-/

namespace Straightline

/-- A computation over the states `σ` of a backend that may be refused with an error `ε`. A refusal ends it in the state that it
has come to: what it has written by then stays written. -/
abbrev BuildM (σ ε : Type) := ExceptT ε (StateM σ)

/-- What a computation comes to, starting from a state that is given up if the computation is refused. -/
def BuildM.outcome {σ ε α : Type} (x : BuildM σ ε α) (s : σ) : Except ε (α × σ) :=
  match x.run.run s with
  | (.ok a, s') => .ok (a, s')
  | (.error e, _) => .error e

/-- The states `σ` answer the calls that build a program, and refuse them with errors `ε`. -/
class Backend (σ : Type) (ε : outParam Type) where
  /-- The reference to a type. -/
  resolveType : Scalar → StateM σ TypeRef
  /-- A new method with a name, a return type and parameter types. -/
  declareMethod : String → TypeRef → List TypeRef → BuildM σ ε MethodRef
  /-- A new block of a method. -/
  declareBlock : MethodRef → String → BuildM σ ε BlockRef
  /-- An instruction, given by its mnemonic and its operands, at the end of a block. -/
  emit : MethodRef → BlockRef → String → List Operand → BuildM σ ε Unit
  /-- The method a run of the program starts with. -/
  setEntry : MethodRef → BuildM σ ε Unit

/-- A call that builds a program. -/
inductive Call where
  | resolveType (type : Scalar)
  | declareMethod (name : String) (returnType : TypeRef) (params : List TypeRef)
  | declareBlock (method : MethodRef) (name : String)
  | emit (method : MethodRef) (block : BlockRef) (mnemonic : String) (operands : List Operand)
  | setEntry (method : MethodRef)
  deriving Repr

/-- What a call is answered with, unless it is refused. -/
inductive Answer where
  | type (t : TypeRef)
  | method (m : MethodRef)
  | block (b : BlockRef)
  | done
  deriving DecidableEq, Repr

namespace Call

/-- Whether a call resolves a type. -/
def resolvesType : Call → Bool
  | .resolveType _ => true
  | _ => false

/-- The mnemonic of the instruction that a call emits. -/
def mnemonic? : Call → Option String
  | .emit _ _ mnemonic _ => some mnemonic
  | _ => none

end Call

namespace Backend

variable {σ ε : Type} [Backend σ ε]

/-- Performs a call. -/
def perform : Call → BuildM σ ε Answer
  | .resolveType t => .type <$> (liftM (resolveType t : StateM σ TypeRef) : BuildM σ ε TypeRef)
  | .declareMethod name returnType params => .method <$> declareMethod name returnType params
  | .declareBlock m name => .block <$> declareBlock m name
  | .emit m b mnemonic operands => (fun _ => .done) <$> emit m b mnemonic operands
  | .setEntry m => (fun _ => .done) <$> setEntry m

/-- Performs calls one after another, whether they are refused or not. -/
def performAll (s : σ) : List Call → List (Except ε Answer) × σ
  | [] => ([], s)
  | c :: cs =>
    let (a, s') := (perform c).run.run s
    let (as, s'') := performAll s' cs
    (a :: as, s'')

end Backend

end Straightline
