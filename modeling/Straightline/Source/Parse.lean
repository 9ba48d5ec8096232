import Straightline.Source.Elaborate
import Straightline.Source.Grammar
import Straightline.Text

/-!
# Reading programs

The text of a program is read into a source tree, which must take up the whole text, and the tree is elaborated. An error in the
text is reported with its position, in bytes, and the rest of its line; an error in the elaboration has no position of its own.
-/

namespace Straightline

/-- Why a text is no program. -/
inductive ParseError where
  /-- The text from a position on does not go on as a program does. -/
  | unexpected (position : Nat) (line : String)
  /-- There is text after the program. -/
  | remaining (position : Nat) (line : String)
  /-- The text is well formed, but the program it describes cannot be built. -/
  | build (e : BuildError)
  deriving DecidableEq, Repr

namespace ParseError

/-- The position of an error, in bytes. -/
def position : ParseError → Nat
  | .unexpected pos _ => pos
  | .remaining pos _ => pos
  | .build _ => 0

/-- An error in words. -/
def message : ParseError → String
  | .unexpected _ line => s!"Unexpected input: {line}"
  | .remaining _ line => s!"Unexpected input remaining: {line}"
  | .build e => e.message

/-- An error in words, with its position. -/
def text (e : ParseError) : String := s!"Parse error at position {Decimal.text e.position}: {e.message}"

end ParseError

namespace Source

/-- The position of a rest of a text, in bytes from the start of the text. -/
def positionOf (s rest : List Char) : Nat := Text.byteLength s - Text.byteLength rest

/-- The source tree of a text. -/
def parse (s : List Char) : Except ParseError Source :=
  match Grammar.program s with
  | .done tree [] => .ok tree
  | .done _ rest => .error (.remaining (positionOf s rest) (String.ofList (Text.firstLine rest)))
  | .fail rest => .error (.unexpected (positionOf s rest) (String.ofList (Text.firstLine rest)))

end Source

/-- The program of a list of characters. -/
def Program.ofChars (s : List Char) : Except ParseError Program := do
  let tree ← Source.parse s
  tree.elaborate.mapError .build

/-- The program of a text. -/
def Program.parse (text : String) : Except ParseError Program := Program.ofChars text.toList

end Straightline
