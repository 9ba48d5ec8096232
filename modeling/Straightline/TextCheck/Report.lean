import Straightline.Decimal
import Straightline.Text
import Straightline.TextCheck.Matcher

/-!
# Explaining a failure

The report of a failed matching is the text itself, line by line, with the findings in between: below the line where it starts, a
match is underlined, then the search and the variables it defined are named. An empty text has no line to
underline a match in, so a failed matching that has matched anything there cannot be reported.
-/

namespace Straightline.TextCheck

/-- The next line starts further on. -/
theorem lt_nextLineStart {text : List Char} {pos : Nat} (h : pos < text.length) : pos < nextLineStart text pos := by
  unfold nextLineStart
  split
  · omega
  · exact h

/-- The line last shown and the next line to show, by their starts. -/
structure Cursor where
  current : Nat
  next : Nat

/-- Shows lines until the one that holds a position. The last character before the next line is its line feed and is not shown. -/
def showLines (text : List Char) (pos : Nat) (cursor : Cursor) : List Char × Cursor :=
  if _h : cursor.next ≤ pos ∧ cursor.next < text.length then
    let stop := nextLineStart text cursor.next
    let line := (text.drop cursor.next).take (stop - 1 - cursor.next)
    let (shown, cursor') := showLines text pos ⟨cursor.next, stop⟩
    ("> ".toList ++ line ++ '\n' :: shown, cursor')
  else ([], cursor)
termination_by text.length - cursor.next
decreasing_by
  have := lt_nextLineStart _h.2
  omega

/-- Why a matching cannot be reported. -/
inductive ReportError where
  /-- No line has been shown in which a match could be underlined. -/
  | noLine
  deriving DecidableEq, Repr

/-- A report error in words: the end of the line last shown lies before the start of the text. -/
def ReportError.message : ReportError → String
  | .noLine => "attempt to subtract with overflow"

/-- The line that marks a match within the line last shown. -/
def underline (cursor : Cursor) (f : Finding) : Except ReportError (List Char) :=
  match cursor.next with
  | 0 => .error .noLine
  | lineEnd + 1 =>
    let mark (pos : Nat) : Char := if pos < f.start then ' ' else if pos = f.start then '^' else '~'
    let marks := (List.range' cursor.current (min f.stop lineEnd - cursor.current)).map mark
    .ok ("  ".toList ++ marks ++ ['\n'])

/-- The line that names a search. -/
def Finding.line (f : Finding) : List Char :=
  (if f.matched then "Matched" else "Missed").toList ++ " #".toList ++ Decimal.digits f.directive ++
    (if f.negative then " not: " else ": ").toList ++ f.shown ++ ['\n']

/-- The line that names a definition. -/
def Definition.line (d : Definition) : List Char := "Define ".toList ++ d.name ++ '=' :: d.value ++ ['\n']

/-- Shows findings, each below the line where it starts, and the rest of the text. -/
def showFindings (text : List Char) (definitions : List Definition) (cursor : Cursor) :
    List Finding → Except ReportError (List Char)
  | [] => .ok ((Text.lines (text.drop cursor.next)).flatMap (fun line => "> ".toList ++ line ++ ['\n']))
  | f :: fs => do
    let (shown, cursor') := showLines text f.start cursor
    let marked ← if f.matched then underline cursor' f else .ok []
    let defined := (definitions.filter (fun d => d.directive == f.directive)).flatMap Definition.line
    let rest ← showFindings text definitions cursor' fs
    return shown ++ marked ++ f.line ++ defined ++ rest

/-- The order of findings: by the start, then the end of their range, then by directive. -/
def Finding.before (f g : Finding) : Bool :=
  f.start < g.start || (f.start == g.start && (f.stop < g.stop || (f.stop == g.stop && f.directive ≤ g.directive)))

/-- The report of a matching. -/
def Progress.report (st : Progress) (text : List Char) : Except ReportError (List Char) :=
  showFindings text st.definitions ⟨0, 0⟩ (st.findings.mergeSort Finding.before)

end Straightline.TextCheck
