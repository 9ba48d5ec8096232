import Straightline.TextCheck.Report

/-!
# Checking a text against directives

Directives are given one to a line; empty lines are skipped. All of them are read before any is matched.
-/

namespace Straightline

/-- Why a text does not pass a check. -/
inductive CheckError where
  | badDirective (line : String) (e : TextCheck.DirectiveError)
  | notDirective (line : String)
  /-- A pattern cannot be searched for. -/
  | search (e : TextCheck.SearchError)
  /-- The directives do not match, and this is how far they do. -/
  | mismatch (report : String)
  /-- The directives do not match, and how far they do cannot be reported. -/
  | unreported (e : TextCheck.ReportError)
  deriving DecidableEq, Repr

/-- A check error in words. -/
def CheckError.message : CheckError → String
  | .badDirective line e => s!"Failed to parse filecheck directive '{line}': {e.message}"
  | .notDirective line => s!"Not a filecheck directive: '{line}'"
  | .search e => s!"Filecheck error: {e.message}"
  | .mismatch report => s!"Filecheck failed:\n{report}"
  | .unreported e => e.message

namespace TextCheck

/-- The directive of a line without white space at its ends. -/
def readLine (line : List Char) : Except CheckError Directive :=
  match Directive.ofLine? line with
  | some (.ok d) => .ok d
  | some (.error e) => .error (.badDirective (String.ofList line) e)
  | none => .error (.notDirective (String.ofList line))

/-- The directives of a text. -/
def readDirectives (s : List Char) : Except CheckError (List Directive) :=
  (((Text.lines s).map Text.trim).filter (fun line => !line.isEmpty)).mapM readLine

/-- Checks a text against directives. -/
def check (text directives : String) : Except CheckError Unit := do
  let ds ← readDirectives directives.toList
  match Progress.run {} text.toList 0 ds with
  | .error e => .error (.search e)
  | .ok (true, _) => .ok ()
  | .ok (false, st) =>
    match st.report text.toList with
    | .ok report => .error (.mismatch (String.ofList report))
    | .error e => .error (.unreported e)

end TextCheck

end Straightline
