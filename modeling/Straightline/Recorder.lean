import Straightline.Backend

/-!
# The recorder

A backend that keeps the calls it gets and checks nothing. It numbers types, methods and the blocks of each method in the order in
which they are asked for. It may reject one call, named by its number: the call is kept, but answered with an error and without
taking a number. The resolution of a type is never rejected, and each resolution takes a new number.
-/

namespace Straightline

/-- The calls so far and the numbers they have taken. -/
structure Recorder where
  /-- The calls, in their order. -/
  calls : List Call := []
  /-- The number of types resolved. -/
  types : Nat := 0
  /-- The number of methods declared. -/
  methods : Nat := 0
  /-- For each block declared, its method. -/
  blocks : List MethodRef := []
  /-- The number of the call to reject, counted from zero. -/
  reject : Option Nat := none
  deriving Repr

/-- A call was rejected. -/
structure Rejected where
  /-- The number of the call, counted from zero. -/
  call : Nat
  deriving DecidableEq, Repr

/-- A rejection in words. -/
def Rejected.message (e : Rejected) : String := s!"call #{Decimal.text e.call} rejected"

namespace Recorder

/-- The recorder with one more call. -/
def record (r : Recorder) (c : Call) : Recorder := { r with calls := r.calls ++ [c] }

/-- Records a call and goes on with `f`, unless the call is to be rejected. -/
def accept {α : Type} (c : Call) (f : Recorder → α × Recorder) : BuildM Recorder Rejected α :=
  fun r =>
    if r.reject = some r.calls.length then (.error ⟨r.calls.length⟩, r.record c)
    else
      let (a, r') := f (r.record c)
      (.ok a, r')

instance : Backend Recorder Rejected where
  resolveType t := fun r => (.ofIndex r.types, { r.record (.resolveType t) with types := r.types + 1 })
  declareMethod name returnType params :=
    accept (.declareMethod name returnType params) fun r => (.ofIndex r.methods, { r with methods := r.methods + 1 })
  declareBlock m name :=
    accept (.declareBlock m name) fun r => (.ofIndex (r.blocks.count m), { r with blocks := r.blocks ++ [m] })
  emit m b mnemonic operands := accept (.emit m b mnemonic operands) fun r => ((), r)
  setEntry m := accept (.setEntry m) fun r => ((), r)

/-- The calls that do not resolve a type. -/
def callsAfterTypes (r : Recorder) : List Call := r.calls.filter (fun c => !c.resolvesType)

/-- The mnemonics of the instructions emitted. -/
def mnemonics (r : Recorder) : List String := r.calls.filterMap Call.mnemonic?

end Recorder

end Straightline
