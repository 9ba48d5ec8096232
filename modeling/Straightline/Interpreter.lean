import Straightline.Program

/-!
# Running programs

A method runs its first block from top to bottom over registers that hold 64-bit words. A word is reduced to the declared type
where a parameter or a constant is loaded and where a value is returned; sums wrap around. Calls may be nested up to a limit, and
the recursion is on the number of calls that may still be nested (`Program.call`).
-/

namespace Straightline

/-- Why a run fails. -/
inductive Fault where
  | noEntry
  | unknownMethod (method : MethodRef)
  /-- The method has no block. -/
  | emptyMethod (method : String)
  | argumentCount (method : String) (expected found : Nat)
  | undefinedRegister (method : String) (register : Register)
  /-- The block came to its end without a return. -/
  | missingReturn (method : String)
  | depthExceeded (limit : Nat)
  deriving DecidableEq, Repr

/-- A fault in words. -/
def Fault.message : Fault → String
  | .noEntry => "program has no entry point"
  | .unknownMethod m => s!"unknown method {m.text}"
  | .emptyMethod method => s!"method '{method}' has no blocks"
  | .argumentCount method expected found =>
    s!"method '{method}' takes {Decimal.text expected} arguments, got {Decimal.text found}"
  | .undefinedRegister method r => s!"register r{Decimal.text r.toNat} read before write in '{method}'"
  | .missingReturn method => s!"method '{method}' ended without returning"
  | .depthExceeded limit => s!"call depth limit of {Decimal.text limit} exceeded"

/-! ## Registers -/

/-- The registers written so far, the latest write first. -/
abbrev Registers := List (Register × Int64)

namespace Registers

/-- The word in a register. -/
def get? (regs : Registers) (r : Register) : Option Int64 := regs.lookup r

/-- The registers after a write. -/
def set (regs : Registers) (r : Register) (v : Int64) : Registers := (r, v) :: regs

/-- A register holds what was written to it last. -/
@[simp] theorem get?_set_self (regs : Registers) (r : Register) (v : Int64) : (regs.set r v).get? r = some v := by
  simp [get?, set]

/-- A write leaves the other registers alone. -/
theorem get?_set_of_ne (regs : Registers) {r r' : Register} (v : Int64) (h : r' ≠ r) :
    (regs.set r v).get? r' = regs.get? r' := by
  have hb : (r' == r) = false := beq_false_of_ne h
  simp [get?, set, List.lookup_cons, hb]

end Registers

/-! ## Runs -/

/-- What a run comes to: a value, no value, or a fault. -/
abbrev RunResult := Except Fault (Option Int64)

/-- An activation of a method: the method and the arguments it was called with. -/
structure Activation where
  method : Method
  args : List Int64

namespace Activation

/-- The word in a register, which must have been written. -/
def read (f : Activation) (regs : Registers) (r : Register) : Except Fault Int64 :=
  match regs.get? r with
  | some v => .ok v
  | none => .error (.undefinedRegister f.method.name r)

end Activation

namespace Program

/-- A word reduced to the type of a reference, or as it is if there is no such type. -/
def wrap (p : Program) (t : TypeRef) (v : Int64) : Int64 :=
  match p.type? t with
  | some scalar => scalar.wrap v
  | none => v

/-- The argument at an index, reduced to the type of its parameter. -/
def argument (p : Program) (f : Activation) (i : UInt32) : Except Fault Int64 :=
  match f.args[i.toNat]?, f.method.params[i.toNat]? with
  | some v, some t => .ok (p.wrap t v)
  | _, _ => .error (.argumentCount f.method.name (i.toNat + 1) f.args.length)

/-- Runs instructions up to the first return; `call` is how a method is called from here. -/
def exec (p : Program) (call : MethodRef → List Int64 → RunResult) (f : Activation) :
    Registers → List Instr → RunResult
  | _, [] => .error (.missingReturn f.method.name)
  | regs, .add r a b :: rest => do
    let x ← f.read regs a
    let y ← f.read regs b
    p.exec call f (regs.set r (x + y)) rest
  | regs, .loadParam r i :: rest => do
    let v ← p.argument f i
    p.exec call f (regs.set r v) rest
  | regs, .loadConst r t c :: rest => p.exec call f (regs.set r (p.wrap t c.toWord)) rest
  | regs, .call r m args :: rest => do
    let values ← args.mapM (f.read regs)
    match ← call m values with
    | some v => p.exec call f (regs.set r v) rest
    | none => p.exec call f regs rest
  | _, .ret none :: _ => .ok none
  | regs, .ret (some r) :: _ => do
    let v ← f.read regs r
    return some (p.wrap f.method.returnType v)

/-- Calls a method where at most `nested` calls, this one included, may still be nested; `limit` is reported if that is none. -/
def call (p : Program) (limit : Nat) (nested : Nat) (m : MethodRef) (args : List Int64) : RunResult :=
  match nested with
  | 0 => .error (.depthExceeded limit)
  | nested + 1 =>
    match p.method? m with
    | none => .error (.unknownMethod m)
    | some method =>
      if args.length ≠ method.params.length then
        .error (.argumentCount method.name method.params.length args.length)
      else
        match method.entryBlock? with
        | none => .error (.emptyMethod method.name)
        | some block => p.exec (p.call limit nested) ⟨method, args⟩ [] block.instrs

/-- The limit of nested calls where none is given. -/
def defaultLimit : Nat := 256

/-- Runs a method; below it, calls may be nested up to the limit. -/
def run (p : Program) (m : MethodRef) (args : List Int64) (limit : Nat) : RunResult := p.call limit (limit + 1) m args

/-- Runs the entry method. -/
def runEntry (p : Program) (args : List Int64) (limit : Nat) : RunResult :=
  match p.entry with
  | some m => p.run m args limit
  | none => .error .noEntry

end Program

end Straightline
