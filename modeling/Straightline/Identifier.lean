/-!
# Identifiers

The names of methods and blocks: a letter or an underscore, then letters, digits, underscores and dots, all of them ASCII.
-/

namespace Straightline

/-- The characters an identifier starts with. -/
def isIdentStart (c : Char) : Bool := c.isAlpha || c == '_'

/-- The characters an identifier goes on with. -/
def isIdentRest (c : Char) : Bool := c.isAlphanum || c == '_' || c == '.'

/-- A list of characters is an identifier. -/
def isIdentifier : List Char → Bool
  | [] => false
  | c :: cs => isIdentStart c && cs.all isIdentRest

/-- What starts an identifier may also go on with it. -/
theorem isIdentRest_of_isIdentStart {c : Char} (h : isIdentStart c = true) : isIdentRest c = true := by
  simp only [isIdentStart, isIdentRest, Char.isAlphanum, Bool.or_eq_true] at *
  rcases h with h | h
  · exact Or.inl (Or.inl (Or.inl h))
  · exact Or.inl (Or.inr h)

end Straightline
