import Straightline.Text
import Straightline.Text.Letters
import Straightline.TextCheck.Pattern

/-!
# Directives

A directive is a keyword, a colon and, after white space, a pattern or a definition. It may stand anywhere in a line, as long as
the keyword does not go on from a word before it; of several in a line the first one counts.
-/

namespace Straightline.TextCheck

/-- What a checked text has to satisfy. -/
inductive Directive where
  /-- The pattern is found after everything found so far. -/
  | check (p : Pattern)
  /-- The pattern is found in the rest of the line. -/
  | sameLine (p : Pattern)
  /-- The pattern is found in the next line. -/
  | nextLine (p : Pattern)
  /-- The pattern is found after the last ordered match. -/
  | unordered (p : Pattern)
  /-- The pattern is not found before the next ordered match. -/
  | absent (p : Pattern)
  /-- A variable stands for an expression. -/
  | define (name e : List Char)
  deriving DecidableEq, Repr

/-- The keywords of directives. -/
inductive Keyword where
  | check | sameLine | nextLine | unordered | absent | define
  deriving DecidableEq, Repr

/-- Why a directive cannot be understood. -/
inductive DirectiveError where
  | pattern (e : PatternError)
  /-- A pattern that must not be found defines a variable. -/
  | definitionInAbsent (name rest : List Char)
  /-- A definition without a name. -/
  | missingName (rest : List Char)
  /-- A definition without an equals sign. -/
  | missingEquals (name rest : List Char)
  deriving DecidableEq, Repr

/-- A directive error in words. -/
def DirectiveError.message : DirectiveError → String
  | .pattern e => e.message
  | .definitionInAbsent name rest =>
    "can't define variables '$(" ++ String.ofList name ++ "=...' in not: " ++ String.ofList rest
  | .missingName rest => "invalid variable name in regex: " ++ String.ofList rest
  | .missingEquals name rest =>
    "expected '=' after variable '" ++ String.ofList name ++ "' in regex: " ++ String.ofList rest

namespace Keyword

/-- All keywords. -/
def all : List Keyword := [.check, .sameLine, .nextLine, .unordered, .absent, .define]

/-- A keyword as it is written. -/
def word : Keyword → String
  | .check => "check"
  | .sameLine => "sameln"
  | .nextLine => "nextln"
  | .unordered => "unordered"
  | .absent => "not"
  | .define => "regex"

/-- What follows the keyword, its colon and the white space after it, if a text starts with these. -/
def after? (k : Keyword) (s : List Char) : Option (List Char) :=
  match (k.word.toList ++ [':']).isPrefixOf? s with
  | some (c :: rest) => if Text.isBlank c then some (rest.dropWhile Text.isBlank) else none
  | _ => none

/-- The first keyword of a text and what follows it; `before` is the character in front of the text. -/
def find? (before : Option Char) : List Char → Option (Keyword × List Char)
  | [] => none
  | c :: cs =>
    match if before.any Text.isWordChar then none else all.findSome? (fun k => (k.after? (c :: cs)).map (k, ·)) with
    | some found => some found
    | none => find? (some c) cs

end Keyword

namespace Directive

/-- The definition `name=expression`. -/
def parseDefine (s : List Char) : Except DirectiveError Directive :=
  let name := s.takeWhile isNameChar
  if name.isEmpty then .error (.missingName s)
  else
    match s.dropWhile isNameChar with
    | '=' :: e => .ok (.define name (Text.trimRight e))
    | _ => .error (.missingEquals name s)

/-- The directive of a keyword and what follows it. -/
def ofKeyword (k : Keyword) (rest : List Char) : Except DirectiveError Directive :=
  match k with
  | .define => parseDefine rest
  | k =>
    match Pattern.parse (Text.trim rest) with
    | .error e => .error (.pattern e)
    | .ok p =>
      match k with
      | .sameLine => .ok (.sameLine p)
      | .nextLine => .ok (.nextLine p)
      | .unordered => .ok (.unordered p)
      | .absent =>
        match p.defs with
        | [] => .ok (.absent p)
        | name :: _ => .error (.definitionInAbsent name rest)
      | _ => .ok (.check p)

/-- The directive in a line, if there is one. -/
def ofLine? (line : List Char) : Option (Except DirectiveError Directive) :=
  (Keyword.find? none line).map fun (k, rest) => ofKeyword k rest

end Directive

end Straightline.TextCheck
