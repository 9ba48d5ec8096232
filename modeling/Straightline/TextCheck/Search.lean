import Straightline.Text.Letters
import Straightline.TextCheck.Pattern

/-!
# Searching for patterns

Under given values of the variables a pattern comes down to a text to find (`Needle`). Expressions consist of letters and digits,
so that an expression finds exactly itself. Where a pattern starts or ends with plain text that starts or ends with a letter or a
digit, a match must start or end at a word boundary. Positions are counted in characters.
-/

namespace Straightline.TextCheck

/-- The value of a variable: a text, or an expression. -/
inductive Value where
  | text (s : List Char)
  | expr (e : List Char)
  deriving DecidableEq, Repr

/-- A variable with its value and the position after the match that defined it. -/
structure Variable where
  name : List Char
  value : Value
  offset : Nat
  deriving DecidableEq, Repr

/-- The variables, the latest definition first. -/
abbrev Variables := List Variable

namespace Variables

/-- The latest definition of a name. -/
def find (vars : Variables) (name : List Char) : Option Variable := vars.find? (fun v => v.name == name)

/-- The position after the match that defined a name, or the start of the text if none did. -/
def offset (vars : Variables) (name : List Char) : Nat := ((vars.find name).map Variable.offset).getD 0

end Variables

/-- A text to find, and how the search is shown. -/
structure Needle where
  /-- The characters to find. -/
  text : List Char
  /-- A match starts at a word boundary. -/
  fromBoundary : Bool
  /-- A match ends at a word boundary. -/
  toBoundary : Bool
  /-- The search as a regular expression. -/
  shown : List Char
  /-- The variables that a match defines, with their values. -/
  defs : List (List Char × List Char)
  deriving DecidableEq, Repr

/-- Why a pattern cannot be searched for. -/
inductive SearchError where
  /-- A variable has no value. -/
  | undefinedVariable (name : List Char)
  /-- A variable to define is named like no group: its name starts with a digit, at a column of the regular expression. -/
  | invalidGroupName (shown : List Char) (column : Nat)
  deriving DecidableEq, Repr

/-- A search error in words. A group that cannot be named is pointed at below the regular expression. -/
def SearchError.message : SearchError → String
  | .undefinedVariable name => "undefined variable $" ++ String.ofList name
  | .invalidGroupName shown column =>
    "regex parse error:\n    " ++ String.ofList shown ++ "\n    " ++ String.ofList (List.replicate column ' ') ++
      "^\nerror: invalid capture group character"

/-! ## From patterns to needles -/

/-- The characters that have a meaning of their own in a regular expression. -/
def specialChars : List Char := "\\.+*?()|[]\x7b\x7d^$#&-~".toList

/-- A text as a regular expression that matches just this text. -/
def escape (s : List Char) : List Char := s.flatMap (fun c => if specialChars.contains c then ['\\', c] else [c])

/-- An expression as a group. -/
def group (e : List Char) : List Char := "(?:".toList ++ e ++ [')']

/-- What stands in front of the name of a group. -/
def groupOpening : List Char := "(?P<".toList

/-- An expression as a group with a name. -/
def namedGroup (name e : List Char) : List Char := groupOpening ++ name ++ '>' :: e ++ [')']

namespace Part

/-- The value of a variable. -/
def lookup (vars : Variables) (name : List Char) : Except SearchError Value :=
  match vars.find name with
  | some v => .ok v.value
  | none => .error (.undefinedVariable name)

/-- The text that a part finds, and how it is shown. -/
def resolve (vars : Variables) : Part → Except SearchError (List Char × List Char)
  | .text s => .ok (s, escape s)
  | .var name => do
    match ← lookup vars name with
    | .text s => return (s, escape s)
    | .expr e => return (e, group e)
  | .expr e => .ok (e, group e)
  | .defExpr name e => .ok (e, namedGroup name e)
  | .defVar name other => do
    match ← lookup vars other with
    | .text s => return (s, namedGroup name (escape s))
    | .expr e => return (e, namedGroup name e)

/-- Whether a part defines a variable whose name starts with a digit. -/
def misnamesGroup (p : Part) : Bool := p.defines?.any (fun name => name.head?.any Char.isDigit)

/-- Whether a part is plain text that starts with a letter or a digit. -/
def startsWord : Part → Bool
  | .text s => s.head?.any Text.isAlphanumeric
  | _ => false

/-- Whether a part is plain text that ends with a letter or a digit. -/
def endsWord : Part → Bool
  | .text s => s.getLast?.any Text.isAlphanumeric
  | _ => false

end Part

/-- Where in a regular expression the first name stands that is no name of a group. The parts come with how they are shown, from
`column` on. -/
def misnamedColumn? (column : Nat) : List (Part × List Char) → Option Nat
  | [] => none
  | (p, shown) :: rest =>
    if p.misnamesGroup then some (column + groupOpening.length) else misnamedColumn? (column + shown.length) rest

/-- The needle of a pattern under the values of the variables. Variables are looked up before the names of groups are judged. -/
def Pattern.resolve (vars : Variables) (p : Pattern) : Except SearchError Needle := do
  let resolved ← p.parts.mapM (Part.resolve vars)
  let fromBoundary := p.parts.head?.any Part.startsWord
  let toBoundary := p.parts.getLast?.any Part.endsWord
  let boundary (b : Bool) : List Char := if b then "\\b".toList else []
  let shown := boundary fromBoundary ++ resolved.flatMap (·.2) ++ boundary toBoundary
  match misnamedColumn? (boundary fromBoundary).length (p.parts.zip (resolved.map (·.2))) with
  | some column => throw (.invalidGroupName shown column)
  | none => return {
    text := resolved.flatMap (·.1)
    fromBoundary
    toBoundary
    shown
    defs := (p.parts.zip resolved).filterMap fun (part, found) => part.defines?.map (·, found.1) }

/-! ## Searching -/

/-- Exactly one of two neighbours is a character of a word. -/
def isBoundary (before after : Option Char) : Bool := before.any Text.isWordChar != after.any Text.isWordChar

namespace Needle

/-- Whether a match starts here; `before` is the character in front. -/
def matchesAt (n : Needle) (before : Option Char) (s : List Char) : Bool :=
  match n.text.isPrefixOf? s with
  | some rest =>
    (!n.fromBoundary || isBoundary before s.head?) && (!n.toBoundary || isBoundary (n.text.getLast?.or before) rest.head?)
  | none => false

/-- The number of characters in front of the first match. -/
def findIn (n : Needle) (before : Option Char) (s : List Char) : Option Nat :=
  if n.matchesAt before s then some 0
  else
    match s with
    | [] => none
    | c :: cs => (n.findIn (some c) cs).map (· + 1)

/-- The first match within a range of a text, as a range. Boundaries are judged within the range alone. -/
def search (n : Needle) (text : List Char) (start stop : Nat) : Option (Nat × Nat) :=
  (n.findIn none ((text.drop start).take (stop - start))).map fun i => (start + i, start + i + n.text.length)

end Needle

end Straightline.TextCheck
