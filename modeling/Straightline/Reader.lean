/-!
# Readers

A reader looks at a list of characters and either is done, with a value and the characters that are left, or fails at some point
of the list. A reader that is made of several tries them in order and commits to the first one that is done; what repeats or is
optional gives up a failing attempt and goes on from before it. Repetition (`Reader.many`) ends because each round has to use up
at least one character.
-/

namespace Straightline

/-- What a reader comes to. -/
inductive Outcome (α : Type) where
  /-- A value, and the characters left. -/
  | done (value : α) (rest : List Char)
  /-- A failure, and the characters from the point of failure on. -/
  | fail (rest : List Char)
  deriving DecidableEq, Repr

/-- A reader of values. -/
def Reader (α : Type) : Type := List Char → Outcome α

namespace Reader

variable {α β : Type}

instance : Monad Reader where
  pure a := fun s => .done a s
  bind p f := fun s =>
    match p s with
    | .done a r => f a r
    | .fail r => .fail r

/-- A value alone is read from nothing. -/
@[simp] theorem pure_apply (a : α) (s : List Char) : (pure a : Reader α) s = .done a s := rfl

/-- The second reader goes on where the first one is done. -/
theorem bind_apply (p : Reader α) (f : α → Reader β) (s : List Char) :
    (p >>= f) s = match p s with
      | .done a r => f a r
      | .fail r => .fail r := rfl

/-- Two readers in a row are done when the first one is and the second one is on what is left. -/
theorem bind_eq_done_iff {p : Reader α} {f : α → Reader β} {s t : List Char} {b : β} :
    (p >>= f) s = .done b t ↔ ∃ a r, p s = .done a r ∧ f a r = .done b t := by
  rw [bind_apply]
  cases p s with
  | done a r =>
    refine ⟨fun h => ⟨a, r, rfl, h⟩, ?_⟩
    rintro ⟨a', r', h, h'⟩
    cases h
    exact h'
  | fail r =>
    refine ⟨fun h => ?_, ?_⟩
    · nomatch h
    · rintro ⟨a, r', h, -⟩
      nomatch h

/-! ## Single characters and runs of them -/

/-- A character of a class. -/
def satisfy (p : Char → Bool) : Reader Char
  | [] => .fail []
  | c :: cs => if p c then .done c cs else .fail (c :: cs)

/-- A given character. -/
def char (c : Char) : Reader Unit
  | [] => .fail []
  | d :: cs => if d = c then .done () cs else .fail (d :: cs)

/-- A given word. It fails at the start of the word. -/
def word (w : String) : Reader Unit := fun s =>
  match w.toList.isPrefixOf? s with
  | some rest => .done () rest
  | none => .fail s

/-- The characters of a class up to the first other one. -/
def run (p : Char → Bool) : Reader (List Char) := fun s => .done (s.takeWhile p) (s.dropWhile p)

/-- The characters of a class up to the first other one, at least one of them. -/
def run1 (p : Char → Bool) : Reader (List Char) := fun s =>
  if (s.takeWhile p).isEmpty then .fail s else .done (s.takeWhile p) (s.dropWhile p)

/-! ## Choice and repetition -/

/-- What the first reader reads or, where it fails, what the second one reads. -/
def orElse (p q : Reader α) : Reader α := fun s =>
  match p s with
  | .done a r => .done a r
  | .fail _ => q s

/-- What a reader reads, or nothing where it fails. -/
def maybe (p : Reader α) : Reader (Option α) := fun s =>
  match p s with
  | .done a r => .done (some a) r
  | .fail _ => .done none s

/-- Reads nothing, and fails where the reader would not. -/
def notAhead (p : Reader α) : Reader Unit := fun s =>
  match p s with
  | .done _ _ => .fail s
  | .fail _ => .done () s

/-- What a reader reads, sent through a partial function. It fails at its start where the function is undefined. -/
def filterMap (p : Reader α) (f : α → Option β) : Reader β := fun s =>
  match p s with
  | .done a r =>
    match f a with
    | some b => .done b r
    | none => .fail s
  | .fail r => .fail r

/-- What a reader reads, as often as it is done. A round that uses up no character is a failure. -/
def many (p : Reader α) (s : List Char) : Outcome (List α) :=
  match p s with
  | .fail _ => .done [] s
  | .done a r =>
    if r.length < s.length then
      match many p r with
      | .done as t => .done (a :: as) t
      | .fail t => .fail t
    else .fail s
termination_by s.length

/-- What a reader reads, as often as it is done, with a separator between. A separator that nothing follows is left. -/
def sepBy (p : Reader α) (sep : Reader β) : Reader (List α) := fun s =>
  match p s with
  | .fail _ => .done [] s
  | .done a r =>
    match many (do let _ ← sep; p) r with
    | .done as t => .done (a :: as) t
    | .fail t => .fail t

end Reader

end Straightline
