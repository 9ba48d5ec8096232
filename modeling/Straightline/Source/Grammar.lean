import Straightline.Identifier
import Straightline.Reader
import Straightline.Source

/-!
# The grammar of programs

Readers for the parts of a program's text, from blanks up to the whole (`Grammar.program`). Within a statement only spaces and
tabs may stand between words; elsewhere a blank is any run of white space and comments. A comment goes from `;` to the end of its
line. Keywords and registers end at a word boundary: what follows must not go on with an identifier.
-/

namespace Straightline.Grammar

open Reader
open Source (Stmt BlockDecl MethodDecl)

/-! ## Blanks -/

/-- Space within a line. -/
def isGap (c : Char) : Bool := c == ' ' || c == '\t'

/-- White space. -/
def isSpace (c : Char) : Bool := c == ' ' || c == '\t' || c == '\r' || c == '\n'

/-- A character that ends a line, or a part of such an end. -/
def isLineEnd (c : Char) : Bool := c == '\r' || c == '\n'

/-- What follows the text of a comment: the end of the line or of the whole text. A carriage return that no line feed follows does
not end a line, and then there is no comment. -/
def afterComment? (s : List Char) : Option (List Char) :=
  match s.dropWhile (fun c => !isLineEnd c) with
  | '\r' :: '\n' :: rest => some ('\r' :: '\n' :: rest)
  | '\r' :: _ => none
  | rest => some rest

/-- What follows a comment is no longer than its text. -/
theorem length_afterComment? {s r : List Char} (h : afterComment? s = some r) : r.length ≤ s.length := by
  have hd := (List.dropWhile_sublist (fun c => !isLineEnd c) (l := s)).length_le
  unfold afterComment? at h
  split at h
  · next rest heq =>
    injection h with h
    rw [← h, ← heq]
    exact hd
  · nomatch h
  · injection h with h
    rw [← h]
    exact hd

/-- What follows the white space and the comments at the front. -/
def skipBlank (s : List Char) : List Char :=
  match s with
  | [] => []
  | c :: cs =>
    if isSpace c then skipBlank cs
    else if c = ';' then
      match _h : afterComment? cs with
      | some rest => skipBlank rest
      | none => c :: cs
    else c :: cs
termination_by s.length
decreasing_by
  · simp
  · have := length_afterComment? _h
    simp only [List.length_cons]
    omega

/-- White space and comments, or nothing. -/
def blank : Reader Unit := fun s => .done () (skipBlank s)

/-- Space within a line, or nothing. -/
def gap : Reader Unit := do
  let _ ← run isGap
  return ()

/-- Space within a line. -/
def gap1 : Reader Unit := do
  let _ ← run1 isGap
  return ()

/-! ## Words -/

/-- No identifier goes on here. -/
def wordEnd : Reader Unit := notAhead (satisfy isIdentRest)

/-- A keyword. -/
def keyword (w : String) : Reader Unit := do
  word w
  wordEnd

/-- An identifier. -/
def identifier : Reader String := do
  let c ← satisfy isIdentStart
  let cs ← run isIdentRest
  return String.ofList (c :: cs)

/-- The number of a run of digits, if it is below `2^32`. -/
def word32Of? (ds : List Char) : Option UInt32 :=
  if Decimal.value ds < UInt32.size then some (UInt32.ofNat (Decimal.value ds)) else none

/-- A number below `2^32`. -/
def word32 : Reader UInt32 := (run1 Char.isDigit).filterMap word32Of?

/-- A register, such as `r12`. -/
def register : Reader Register := do
  let r ← (do char 'r'; run1 Char.isDigit : Reader (List Char)).filterMap word32Of?
  wordEnd
  return r

/-- A method by name, such as `%main`. -/
def methodName : Reader String := do
  char '%'
  identifier

/-- A type by name. -/
def typeName : Reader Scalar := identifier.filterMap Scalar.ofName?

/-- The constant of a numeral without a sign: signed if it is below `2^63`, unsigned if it is below `2^64`. -/
def unsignedOf? (ds : List Char) : Option Constant :=
  if Decimal.value ds < 0x8000000000000000 then some (.int (Int64.ofNat (Decimal.value ds)))
  else if Decimal.value ds < 0x10000000000000000 then some (.uint (UInt64.ofNat (Decimal.value ds)))
  else none

/-- The constant of a numeral after a minus sign, down to `-2^63`. -/
def negativeOf? (ds : List Char) : Option Constant :=
  if Decimal.value ds ≤ 0x8000000000000000 then some (.int (Int64.ofInt (-Decimal.value ds))) else none

/-- The constant of an optional minus sign and a numeral. -/
def numeralOf? : Option Unit × List Char → Option Constant
  | (none, ds) => unsignedOf? ds
  | (some _, ds) => negativeOf? ds

/-- An optional minus sign and a run of digits. -/
def numeral : Reader (Option Unit × List Char) := do
  let sign ← maybe (char '-')
  let ds ← run1 Char.isDigit
  return (sign, ds)

/-- A literal. -/
def literal : Reader Constant :=
  orElse (do keyword "true"; return .bool true)
    (orElse (do keyword "false"; return .bool false) (numeral.filterMap numeralOf?))

/-- A comma within a statement. -/
def comma : Reader Unit := do
  gap
  char ','
  gap

/-! ## Statements -/

/-- A return. The word `ret` before a colon is a label and no return. -/
def retStmt : Reader Stmt := do
  keyword "ret"
  notAhead (do gap; char ':')
  let value ← maybe (do gap1; register)
  return .ret value

/-- An operation that writes a register. -/
inductive Operation where
  | add | loadParam | loadConst | call
  deriving DecidableEq, Repr

namespace Operation

/-- The written form of an operation. -/
def name : Operation → String
  | .add => "add"
  | .loadParam => "ld_param"
  | .loadConst => "ld_const"
  | .call => "call"

/-- All operations that write a register. -/
def all : List Operation := [.add, .loadParam, .loadConst, .call]

/-- The operation of a name. -/
def ofName? (name : String) : Option Operation := all.find? fun op => op.name == name

end Operation

/-- The name of an operation and the gap after it. It fails at the start of the name if there is no such operation. -/
def operationName : Reader Operation :=
  (do let name ← identifier; gap1; return name : Reader String).filterMap Operation.ofName?

/-- The operands of an operation, read to the statement that writes a register. -/
def operation (result : Register) : Operation → Reader Stmt
  | .add => do
    let a ← register
    comma
    let b ← register
    return .add result a b
  | .loadParam => do
    let index ← word32
    return .loadParam result index
  | .loadConst => do
    let type ← typeName
    gap1
    let value ← literal
    return .loadConst result type value
  | .call => do
    let callee ← methodName
    gap
    char '('
    gap
    let args ← sepBy register comma
    gap
    char ')'
    return .call result callee args

/-- A statement that writes a register. -/
def assignStmt : Reader Stmt := do
  let result ← register
  gap
  char '='
  gap
  let op ← operationName
  operation result op

/-- A statement. -/
def stmt : Reader Stmt := orElse retStmt assignStmt

/-! ## Declarations -/

/-- A label and the statements under it. -/
def block : Reader BlockDecl := do
  let name ← identifier
  gap
  char ':'
  blank
  let stmts ← many (do let i ← stmt; blank; return i)
  return { name, stmts }

/-- The parameter types of a method. -/
def params : Reader (List Scalar) := do
  char '('
  blank
  let types ← sepBy (do let t ← typeName; blank; return t) (do char ','; blank)
  char ')'
  blank
  return types

/-- A method. -/
def method : Reader MethodDecl := do
  keyword "method"
  blank
  let name ← methodName
  blank
  let params ← params
  word "->"
  blank
  let returnType ← typeName
  blank
  char '\x7b'
  blank
  let blocks ← many block
  char '\x7d'
  blank
  return { name, params, returnType, blocks }

/-- The entry of a program. -/
def entry : Reader String := do
  keyword "entry"
  blank
  char ':'
  blank
  let name ← methodName
  blank
  return name

/-- A program, with the blanks around it. -/
def program : Reader Source := do
  blank
  keyword "program"
  blank
  char '\x7b'
  blank
  let entry ← maybe entry
  let methods ← many method
  char '\x7d'
  blank
  return { entry, methods }

end Straightline.Grammar
