import Straightline.TextCheck.Directive
import Straightline.TextCheck.Search

/-!
# Matching directives

The directives are taken one after another. A directive that asks for a pattern searches a range that depends on what was found
before, and the first one that finds nothing ends the matching. A pattern that must be absent is kept until the next ordered
match, or the end of the text, fixes the range in which it is searched. Every search is recorded as a finding, except the ones at
the end of the text.
-/

namespace Straightline.TextCheck

/-- A search: the range of the match or, where there is none, the range searched. -/
structure Finding where
  start : Nat
  stop : Nat
  /-- The number of the directive, counted from zero. -/
  directive : Nat
  matched : Bool
  /-- The pattern must be absent. -/
  negative : Bool
  /-- The search as a regular expression. -/
  shown : List Char
  deriving DecidableEq, Repr

/-- A pattern that must be absent from a position on. -/
structure Pending where
  directive : Nat
  start : Nat
  needle : Needle
  deriving DecidableEq, Repr

/-- A variable that a directive has defined. -/
structure Definition where
  directive : Nat
  name : List Char
  value : List Char
  deriving DecidableEq, Repr

/-- How far the matching has come. -/
structure Progress where
  /-- The end of the last ordered match. -/
  lastOrdered : Nat := 0
  /-- The end of the furthest match since the last ordered one. -/
  furthest : Nat := 0
  vars : Variables := []
  pending : List Pending := []
  findings : List Finding := []
  definitions : List Definition := []
  deriving DecidableEq, Repr

/-- The position after the next line feed, or the end of the text. -/
def nextLineStart (text : List Char) (pos : Nat) : Nat :=
  match (text.drop pos).findIdx? (· == '\n') with
  | some i => pos + i + 1
  | none => text.length

/-- Searches for patterns that must be absent, up to a position. It stops at the first one that is found. -/
def settle (text : List Char) (stop : Nat) : List Pending → Bool × List Finding
  | [] => (true, [])
  | q :: qs =>
    match q.needle.search text q.start stop with
    | some (a, b) => (false, [⟨a, b, q.directive, true, true, q.needle.shown⟩])
    | none =>
      let (ok, findings) := settle text stop qs
      (ok, ⟨q.start, stop, q.directive, false, true, q.needle.shown⟩ :: findings)

namespace Progress

/-- Where the search for an unordered or absent pattern starts: after the last ordered match and after the matches that defined
the variables it refers to. -/
def unorderedStart (st : Progress) (p : Pattern) : Nat := (p.refs.map st.vars.offset).foldl max st.lastOrdered

/-- Searches for a pattern in a range and defines its variables. -/
def find (st : Progress) (text : List Char) (number : Nat) (p : Pattern) (start stop : Nat) :
    Except SearchError (Option (Nat × Nat) × Progress) := do
  let needle ← p.resolve st.vars
  match needle.search text start stop with
  | none =>
    return (none, { st with findings := st.findings ++ [⟨start, stop, number, false, false, needle.shown⟩] })
  | some (a, b) =>
    return (some (a, b), { st with
      findings := st.findings ++ [⟨a, b, number, true, false, needle.shown⟩]
      vars := needle.defs.foldl (fun vars (name, value) => ⟨name, .text value, b⟩ :: vars) st.vars
      definitions := st.definitions ++ needle.defs.map fun (name, value) => ⟨number, name, value⟩ })

/-- Searches for a pattern in a range, in order: a match settles the pending patterns. -/
def findOrdered (st : Progress) (text : List Char) (number : Nat) (p : Pattern) (start stop : Nat) :
    Except SearchError (Bool × Progress) := do
  match ← st.find text number p start stop with
  | (none, st') => return (false, st')
  | (some (a, b), st') =>
    let (ok, findings) := settle text a st'.pending
    return (ok, { st' with lastOrdered := b, furthest := b, pending := [], findings := st'.findings ++ findings })

/-- Takes a directive; the answer tells whether the matching goes on. -/
def step (st : Progress) (text : List Char) (number : Nat) : Directive → Except SearchError (Bool × Progress)
  | .check p => st.findOrdered text number p st.furthest text.length
  | .sameLine p => st.findOrdered text number p st.furthest (nextLineStart text st.furthest)
  | .nextLine p =>
    let start := nextLineStart text st.furthest
    st.findOrdered text number p start (nextLineStart text start)
  | .unordered p => do
    match ← st.find text number p (st.unorderedStart p) text.length with
    | (none, st') => return (false, st')
    | (some (_, b), st') => return (true, { st' with furthest := max st'.furthest b })
  | .absent p => do
    let needle ← p.resolve st.vars
    return (true, { st with pending := st.pending ++ [⟨number, st.unorderedStart p, needle⟩] })
  | .define name e => return (true, { st with vars := ⟨name, .expr e, 0⟩ :: st.vars })

/-- Takes directives, numbered from `number` on, and says whether all of them hold. -/
def run (st : Progress) (text : List Char) (number : Nat) : List Directive → Except SearchError (Bool × Progress)
  | [] => .ok (st.pending.all (fun q => (q.needle.search text q.start text.length).isNone), st)
  | d :: ds => do
    match ← st.step text number d with
    | (true, st') => st'.run text (number + 1) ds
    | (false, st') => return (false, st')

end Progress

end Straightline.TextCheck
