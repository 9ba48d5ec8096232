/-!
# Lines and blanks of a text

A line ends before a line feed, or before a carriage return and a line feed, or at the end of the text; a text that ends with a
line feed has no empty line after it. A carriage return that no line feed follows is a character like any other.
-/

namespace Straightline.Text

/-- The number of bytes that the characters take in UTF-8. -/
def byteLength : List Char → Nat
  | [] => 0
  | c :: cs => c.utf8Size + byteLength cs

/-- A line without the carriage return at its end. -/
def dropReturn (line : List Char) : List Char :=
  if line.getLast? = some '\r' then line.dropLast else line

/-- The lines of a text. -/
def lines (s : List Char) : List (List Char) :=
  match s with
  | [] => []
  | c :: cs =>
    match _h : (c :: cs).dropWhile (· != '\n') with
    | [] => [c :: cs]
    | _ :: rest => dropReturn ((c :: cs).takeWhile (· != '\n')) :: lines rest
termination_by s.length
decreasing_by
  have := (List.dropWhile_sublist (· != '\n') (l := c :: cs)).length_le
  rw [_h] at this
  simp only [List.length_cons] at *
  omega

/-- The first line of a text, empty for an empty text. -/
def firstLine (s : List Char) : List Char := (lines s).headD []

/-- White space: the characters of the Unicode property `White_Space`. -/
def isBlank (c : Char) : Bool :=
  let n := c.toNat
  (9 ≤ n && n ≤ 13) || n == 0x20 || n == 0x85 || n == 0xA0 || n == 0x1680 || (0x2000 ≤ n && n ≤ 0x200A) || n == 0x2028 ||
    n == 0x2029 || n == 0x202F || n == 0x205F || n == 0x3000

/-- A text without the white space at its end. -/
def trimRight (s : List Char) : List Char := (s.reverse.dropWhile isBlank).reverse

/-- A text without the white space at its ends. -/
def trim (s : List Char) : List Char := trimRight (s.dropWhile isBlank)

/-- Whether a text occurs in another one. -/
def occursIn (t : List Char) : List Char → Bool
  | [] => t.isEmpty
  | c :: cs => t.isPrefixOf (c :: cs) || occursIn t cs

end Straightline.Text
