/-!
# Patterns

A pattern is plain text with variables in it. `$name` and `$(name)` stand for the value of a variable, `$$` for a dollar sign and
`$()` for nothing. `$(name=expression)` and `$(name=$other)` match an expression, or what another variable stands for, and define
a variable by what they match; `$(=expression)` matches without defining. A variable may be defined once in a pattern, and is not
available in the pattern that defines it.
-/

namespace Straightline.TextCheck

/-- A part of a pattern. -/
inductive Part where
  /-- Plain text. -/
  | text (s : List Char)
  /-- The value of a variable. -/
  | var (name : List Char)
  /-- What an expression matches. -/
  | expr (e : List Char)
  /-- What an expression matches, which becomes the value of a variable. -/
  | defExpr (name e : List Char)
  /-- What another variable stands for, which becomes the value of a variable. -/
  | defVar (name var : List Char)
  deriving DecidableEq, Repr

namespace Part

/-- The variable a part refers to. -/
def refersTo? : Part → Option (List Char)
  | .var name => some name
  | .defVar _ other => some other
  | _ => none

/-- The variable a part defines. -/
def defines? : Part → Option (List Char)
  | .defExpr name _ => some name
  | .defVar name _ => some name
  | _ => none

end Part

/-- A pattern: its parts in order. -/
structure Pattern where
  parts : List Part
  deriving DecidableEq, Repr

namespace Pattern

/-- The variables a pattern defines, in order. -/
def defs (p : Pattern) : List (List Char) := p.parts.filterMap Part.defines?

/-- The variables a pattern refers to, in order. -/
def refs (p : Pattern) : List (List Char) := p.parts.filterMap Part.refersTo?

end Pattern

/-- Why a text is no pattern. -/
inductive PatternError where
  /-- A dollar sign that starts nothing. -/
  | strayDollar
  /-- The text ends within a variable. -/
  | unterminated (name : List Char)
  /-- A character that does not belong into a variable. -/
  | unexpectedChar (name : List Char) (c : Char)
  | duplicateDefinition (name : List Char)
  /-- A definition by a variable without a name. -/
  | missingVariable (name : List Char)
  /-- A definition by a variable that is not closed. -/
  | unclosedVariable (name var : List Char)
  /-- A variable that is matched without defining another one. -/
  | undefinedName (var : List Char)
  /-- An expression that is not closed. -/
  | unclosedExpr (name e : List Char)
  /-- A reference to a variable that the same pattern defines. -/
  | backReference (name : List Char)
  deriving DecidableEq, Repr

/-- A pattern error in words. -/
def PatternError.message : PatternError → String
  | .strayDollar => "pattern syntax error, use $$ to match a single $"
  | .unterminated name => "unterminated $(" ++ String.ofList name ++ "..."
  | .unexpectedChar name c => "syntax error in $(" ++ String.ofList name ++ "... '" ++ String.singleton c ++ "'"
  | .duplicateDefinition name => "duplicate definition of $" ++ String.ofList name ++ " in same pattern"
  | .missingVariable name => "expected variable name in $(" ++ String.ofList name ++ "=$..."
  | .unclosedVariable name var => "expected ')' after $(" ++ String.ofList name ++ "=$" ++ String.ofList var ++ "..."
  | .undefinedName var => "expected variable name in $(=$" ++ String.ofList var ++ ")"
  | .unclosedExpr name e => "missing ')' after regex in $(" ++ String.ofList name ++ "=" ++ String.ofList e
  | .backReference name =>
    "unsupported back-reference to '$" ++ String.ofList name ++ "' defined in same pattern"

/-! ## Reading -/

/-- The characters of a variable's name. -/
def isNameChar (c : Char) : Bool := c.isAlphanum || c == '_'

/-- Where the reading of an expression stands: outside of brackets, within braces, or at the start, at the second character or
further on within square brackets. -/
inductive ExprState where
  | plain | braces | setStart | setSecond | setBody
  deriving DecidableEq, Repr

/-- The characters of an expression, up to a closing parenthesis or brace that it has not opened. `depth` parentheses are open; a
backslash takes the next character along. -/
def exprChars (state : ExprState) (depth : Nat) : List Char → List Char
  | [] => []
  | ['\\'] => ['\\']
  | '\\' :: c :: cs => '\\' :: c :: exprChars state depth cs
  | c :: cs =>
    match state with
    | .plain =>
      if c = '[' then c :: exprChars .setStart depth cs
      else if c = '\x7b' then c :: exprChars .braces depth cs
      else if c = '(' then c :: exprChars .plain (depth + 1) cs
      else if c = ')' ∧ 0 < depth then c :: exprChars .plain (depth - 1) cs
      else if c = ')' ∨ c = '\x7d' then []
      else c :: exprChars .plain depth cs
    | .braces => c :: exprChars (if c = '\x7d' then .plain else .braces) depth cs
    | .setStart => c :: exprChars (if c = '^' then .setSecond else .setBody) depth cs
    | .setSecond => c :: exprChars .setBody depth cs
    | .setBody => c :: exprChars (if c = ']' then .plain else .setBody) depth cs

/-- Reads a definition after its equals sign. -/
def readDefinition (name s : List Char) : Except PatternError (Part × List Char) :=
  match s with
  | '$' :: s' =>
    let var := s'.takeWhile isNameChar
    if var.isEmpty then .error (.missingVariable name)
    else
      match s'.dropWhile isNameChar with
      | ')' :: rest => if name.isEmpty then .error (.undefinedName var) else .ok (.defVar name var, rest)
      | _ => .error (.unclosedVariable name var)
  | _ =>
    let e := exprChars .plain 0 s
    match s.drop e.length with
    | ')' :: rest => .ok (if name.isEmpty then .expr e else .defExpr name e, rest)
    | _ => .error (.unclosedExpr name e)

/-- Reads a variable or a definition after its opening parenthesis; the pattern defines `defs` so far. -/
def readGroup (defs : List (List Char)) (s : List Char) : Except PatternError (Part × List Char) :=
  let name := s.takeWhile isNameChar
  match s.dropWhile isNameChar with
  | [] => .error (.unterminated name)
  | ')' :: rest => .ok (if name.isEmpty then .text [] else .var name, rest)
  | '=' :: rest =>
    if !name.isEmpty && defs.contains name then .error (.duplicateDefinition name) else readDefinition name rest
  | c :: _ => .error (.unexpectedChar name c)

/-- Reads the first part of a text that is not empty; the pattern defines `defs` so far. -/
def readPart (defs : List (List Char)) (s : List Char) : Except PatternError (Part × List Char) :=
  match s with
  | '$' :: '$' :: rest => .ok (.text ['$'], rest)
  | '$' :: rest =>
    let name := rest.takeWhile isNameChar
    if name.isEmpty then
      match rest with
      | '(' :: s' => readGroup defs s'
      | _ => .error .strayDollar
    else .ok (.var name, rest.dropWhile isNameChar)
  | _ => .ok (.text (s.takeWhile (· != '$')), s.dropWhile (· != '$'))

/-- What is left after a definition is no longer than its text. -/
theorem readDefinition_length {name s rest : List Char} {p : Part} (h : readDefinition name s = .ok (p, rest)) :
    rest.length ≤ s.length := by
  unfold readDefinition at h
  split at h
  · next s' =>
    have hd := (List.dropWhile_sublist isNameChar (l := s')).length_le
    dsimp only at h
    split at h
    · nomatch h
    · split at h
      · next heq =>
        rw [heq] at hd
        split at h
        · nomatch h
        · injection h with h
          injection h with _ h
          subst h
          simp only [List.length_cons] at *
          omega
      · nomatch h
  · dsimp only at h
    split at h
    · next heq =>
      injection h with h
      injection h with _ h
      subst h
      have hd := congrArg List.length heq
      simp only [List.length_drop, List.length_cons] at hd
      omega
    · nomatch h

/-- What is left after a variable or a definition is no longer than its text. -/
theorem readGroup_length {defs : List (List Char)} {s rest : List Char} {p : Part}
    (h : readGroup defs s = .ok (p, rest)) : rest.length ≤ s.length := by
  have hd := (List.dropWhile_sublist isNameChar (l := s)).length_le
  unfold readGroup at h
  dsimp only at h
  split at h
  · nomatch h
  · next heq =>
    rw [heq] at hd
    injection h with h
    injection h with _ h
    subst h
    simp only [List.length_cons] at hd
    omega
  · next heq =>
    rw [heq] at hd
    split at h
    · nomatch h
    · have := readDefinition_length h
      simp only [List.length_cons] at hd
      omega
  · nomatch h

/-- A part uses up at least one character. -/
theorem readPart_length {defs : List (List Char)} {c : Char} {s rest : List Char} {p : Part}
    (h : readPart defs (c :: s) = .ok (p, rest)) : rest.length < (c :: s).length := by
  unfold readPart at h
  split at h
  · next heq =>
    injection h with h
    injection h with _ h
    subst h
    rw [heq]
    simp only [List.length_cons]
    omega
  · next rest' _ heq =>
    injection heq with _ heq
    subst heq
    have hd := (List.dropWhile_sublist isNameChar (l := s)).length_le
    dsimp only at h
    split at h
    · split at h
      · have := readGroup_length h
        simp only [List.length_cons]
        omega
      · nomatch h
    · injection h with h
      injection h with _ h
      subst h
      simp only [List.length_cons]
      omega
  · next hne₁ hne₂ =>
    injection h with h
    injection h with _ h
    have hc : (c != '$') = true := by
      simp only [bne_iff_ne, ne_eq]
      intro hc
      exact hne₂ s (by rw [hc])
    have hd := (List.dropWhile_sublist (· != '$') (l := s)).length_le
    rw [← h, List.dropWhile_cons, if_pos hc]
    simp only [List.length_cons]
    omega

/-- Reads the parts of a pattern that defines `defs` so far. -/
def readParts (defs : List (List Char)) (s : List Char) : Except PatternError (List Part) :=
  match s with
  | [] => .ok []
  | c :: cs =>
    match _h : readPart defs (c :: cs) with
    | .error e => .error e
    | .ok (p, rest) =>
      let defs' := defs ++ p.defines?.toList
      match p.refersTo?.filter defs'.contains with
      | some name => .error (.backReference name)
      | none => (p :: ·) <$> readParts defs' rest
termination_by s.length
decreasing_by exact readPart_length _h

/-- The pattern of a text that has no white space at its ends. -/
def Pattern.parse (s : List Char) : Except PatternError Pattern := Pattern.mk <$> readParts [] s

end Straightline.TextCheck
