import Straightline.Interpreter
import Straightline.Program.Printer
import Straightline.TextCheck

/-!
# Trials

A trial runs one method of a program, or its entry, and compares the outcome with expectations. The first expectation that is not
met is what the trial fails with.
-/

namespace Straightline

/-- What is expected of a run, or of the text of the program. -/
inductive Expectation where
  /-- The run returns a value. -/
  | returns (v : Int64)
  /-- The run returns without a value. -/
  | void
  /-- The run fails, and the words for the fault hold a text. -/
  | fault (words : String)
  /-- The text of the program passes a check. -/
  | text (directives : String)
  deriving DecidableEq, Repr

/-- How an expectation is not met. -/
inductive Unmet where
  | otherValue (expected got : Int64)
  | noValue (expected : Int64)
  | faultForValue (expected : Int64) (e : Fault)
  | valueForVoid (got : Int64)
  | faultForVoid (e : Fault)
  | otherFault (expected : String) (e : Fault)
  | noFault (expected : String) (got : Option Int64)
  | check (e : CheckError)
  deriving DecidableEq, Repr

/-- The value of a run, or its absence, in words. -/
def valueText : Option Int64 → String
  | some v => s!"Some({Decimal.intText v.toInt})"
  | none => "None"

/-- An expectation that is not met, in words. -/
def Unmet.message : Unmet → String
  | .otherValue v w => s!"Expected return value {Decimal.intText v.toInt}, got {Decimal.intText w.toInt}"
  | .noValue v => s!"Expected return value {Decimal.intText v.toInt}, but method returned no value"
  | .faultForValue v e => s!"Expected return value {Decimal.intText v.toInt}, got error: {e.message}"
  | .valueForVoid w => s!"Expected no return value, got {Decimal.intText w.toInt}"
  | .faultForVoid e => s!"Expected no return value, got error: {e.message}"
  | .otherFault expected e => s!"Expected error containing '{expected}', got '{e.message}'"
  | .noFault expected got => s!"Expected error containing '{expected}', got {valueText got}"
  | .check e => e.message

/-- Compares an expectation with a program and the outcome of its run. -/
def Expectation.compare (p : Program) (got : RunResult) : Expectation → Except Unmet Unit
  | .returns v =>
    match got with
    | .ok (some w) => if w = v then .ok () else .error (.otherValue v w)
    | .ok none => .error (.noValue v)
    | .error e => .error (.faultForValue v e)
  | .void =>
    match got with
    | .ok none => .ok ()
    | .ok (some w) => .error (.valueForVoid w)
    | .error e => .error (.faultForVoid e)
  | .fault expected =>
    match got with
    | .error e => if Text.occursIn expected.toList e.message.toList then .ok () else .error (.otherFault expected e)
    | .ok value => .error (.noFault expected value)
  | .text directives => (TextCheck.check p.text directives).mapError .check

/-- A trial of a program. -/
structure Trial where
  program : Program
  /-- The method to run, or none for the entry. -/
  method : Option String := none
  args : List Int64 := []
  limit : Nat := Program.defaultLimit
  expectations : List Expectation := []

namespace Trial

/-- Why a trial fails. -/
inductive Failure where
  /-- There is no such method in the program, whose text this is. -/
  | noMethod (name program : String)
  | unmet (e : Unmet) (method : Option String) (args : List Int64)

/-- A failure in words. -/
def Failure.message : Failure → String
  | .noMethod name program => s!"No method named '{name}' in program:\n{program}"
  | .unmet e method args =>
    let shown := String.intercalate ", " (args.map (fun v => Decimal.intText v.toInt))
    let name := method.getD "<entry>"
    s!"Test expectation failed: {e.message}\n  Method: {name}\n  Arguments: [{shown}]"

/-- The outcome of the run. -/
def outcome (t : Trial) : Except Failure RunResult :=
  match t.method with
  | none => .ok (t.program.runEntry t.args t.limit)
  | some name =>
    match t.program.methodRef? name with
    | some m => .ok (t.program.run m t.args t.limit)
    | none => .error (.noMethod name t.program.text)

/-- Runs a trial. -/
def run (t : Trial) : Except Failure Unit := do
  let got ← t.outcome
  (t.expectations.forM (Expectation.compare t.program got)).mapError (.unmet · t.method t.args)

end Trial

end Straightline
