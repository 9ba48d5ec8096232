import Straightline.Proofs.Reread
import Straightline.Proofs.ViablePrefix

/-!
# Where errors are reported

A text that is not read whole is reported with a position in it: a number of bytes that ends with a character of the text, up to
which the text could go on as a program, and with the first line of what comes after it. An error of elaboration is reported in
its own words, at the start of the text. Main statement: `Program.parse_error_position`.
-/

namespace Straightline

/-! ## Bytes and lines -/

namespace Text

open Reader (takeWhile_append_of_stops dropWhile_append_of_stops)

theorem byteLength_append (l k : List Char) : byteLength (l ++ k) = byteLength l + byteLength k := by
  induction l with
  | nil => rw [List.nil_append, byteLength, Nat.zero_add]
  | cons c l ih => rw [List.cons_append, byteLength, byteLength, ih, Nat.add_assoc]

/-- The bytes of a list of characters are those of its string. -/
theorem byteLength_eq (l : List Char) : byteLength l = (String.ofList l).utf8ByteSize := by
  induction l with
  | nil => rfl
  | cons c l ih =>
    have hsplit : String.ofList (c :: l) = String.singleton c ++ String.ofList l := by
      rw [String.singleton_eq_ofList, ← String.ofList_append, List.singleton_append]
    rw [hsplit, String.utf8ByteSize_append, String.utf8ByteSize_singleton, byteLength, ih]

/-- The second text is the first line of the first one. It ends before the first line feed, or before the carriage return right
before that, or with the text. -/
inductive FirstLine : List Char → List Char → Prop where
  | lineFeed {w : List Char} (hw : '\n' ∉ w) (hr : w.getLast? ≠ some '\r') (x : List Char) : FirstLine (w ++ '\n' :: x) w
  | returnLineFeed {w : List Char} (hw : '\n' ∉ w) (x : List Char) : FirstLine (w ++ '\r' :: '\n' :: x) w
  | whole {w : List Char} (hw : '\n' ∉ w) : FirstLine w w

theorem bne_of_not_mem {w : List Char} (hw : '\n' ∉ w) : ∀ c ∈ w, (c != '\n') = true := by
  intro c hc
  refine bne_iff_ne.2 ?_
  rintro rfl
  exact hw hc

/-- The first line of a text with a line feed. -/
theorem firstLine_append {w : List Char} (hw : '\n' ∉ w) (x : List Char) : firstLine (w ++ '\n' :: x) = dropReturn w := by
  have htake : (w ++ '\n' :: x).takeWhile (· != '\n') = w := takeWhile_append_of_stops (bne_of_not_mem hw) rfl
  have hdrop : (w ++ '\n' :: x).dropWhile (· != '\n') = '\n' :: x := dropWhile_append_of_stops (bne_of_not_mem hw) rfl
  generalize hs : w ++ '\n' :: x = s at htake hdrop
  cases s with
  | nil => cases hdrop
  | cons c cs =>
    rw [firstLine, lines]
    split
    · next hnil =>
      rw [hdrop] at hnil
      cases hnil
    · rw [htake]
      rfl

/-- The first line of a text without line feeds. -/
theorem firstLine_of_not_mem {w : List Char} (hw : '\n' ∉ w) : firstLine w = w := by
  have hdrop : (w ++ []).dropWhile (· != '\n') = [] := dropWhile_append_of_stops (bne_of_not_mem hw) trivial
  rw [List.append_nil] at hdrop
  cases w with
  | nil =>
    rw [firstLine, lines]
    rfl
  | cons c cs =>
    rw [firstLine, lines]
    split
    · rfl
    · next hcons =>
      rw [hdrop] at hcons
      cases hcons

/-- What is called the first line of a text is its first line. -/
theorem firstLine_spec (s : List Char) : FirstLine s (firstLine s) := by
  by_cases hfeed : '\n' ∈ s
  · obtain ⟨w, x, rfl, hw⟩ := List.eq_append_cons_of_mem hfeed
    rw [firstLine_append hw, dropReturn]
    split
    · next hr =>
      obtain ⟨u, rfl⟩ := List.getLast?_eq_some_iff.1 hr
      rw [List.dropLast_concat, List.append_assoc]
      exact .returnLineFeed (fun hu => hw (List.mem_append_left _ hu)) x
    · next hr => exact .lineFeed hw hr x
  · rw [firstLine_of_not_mem hfeed]
    exact .whole hfeed

end Text

/-! ## Errors -/

open Grammar (Viable viable_rest)

/-- The position of a rest of a text is the number of bytes before it. -/
theorem Source.positionOf_append (v r : List Char) : positionOf (v ++ r) r = Text.byteLength v := by
  rw [positionOf, Text.byteLength_append, Nat.add_sub_cancel_right]

namespace Program

/-- Where a text is not read whole, the error tells where reading ended. -/
theorem parse_of_unread {t : String} (h : ∀ tree, Grammar.program t.toList ≠ .done tree []) :
    ∃ e, Program.parse t = .error e ∧ e.position = Source.positionOf t.toList (Grammar.program t.toList).rest ∧
      (e.message = "Unexpected input: " ++ String.ofList (Text.firstLine (Grammar.program t.toList).rest) ∨
        e.message = "Unexpected input remaining: " ++ String.ofList (Text.firstLine (Grammar.program t.toList).rest)) := by
  unfold Program.parse Program.ofChars Source.parse
  cases hread : Grammar.program t.toList with
  | fail r => exact ⟨.unexpected _ _, rfl, rfl, .inl rfl⟩
  | done tree r =>
    cases r with
    | nil => exact absurd hread (h tree)
    | cons c r => exact ⟨.remaining _ _, rfl, rfl, .inr rfl⟩

/-- Errors are found in the text. A text that is not read whole is reported at a position that divides it into two texts, in
bytes: some other text makes the first one a program, and the message ends with the first line of the second one. A text that is
read but cannot be elaborated is reported at its start, with the message of elaboration. -/
theorem parse_error_position (t : String) :
    ((∀ tree, Grammar.program t.toList ≠ .done tree []) →
      ∃ (e : ParseError) (front rest line : String), Program.parse t = .error e ∧ t = front ++ rest ∧
        e.position = front.utf8ByteSize ∧
        Text.FirstLine rest.toList line.toList ∧
        (e.message = "Unexpected input: " ++ line ∨ e.message = "Unexpected input remaining: " ++ line) ∧
        ∃ (w : String) (tree : Source), Grammar.program (front ++ w).toList = .done tree []) ∧
    ∀ (tree : Source) (b : BuildError), Grammar.program t.toList = .done tree [] → tree.elaborate = .error b →
      ∃ e, Program.parse t = .error e ∧ e.position = 0 ∧ e.message = b.message := by
  refine ⟨fun hunread => ?_, fun tree b hread hb => ?_⟩
  · obtain ⟨e, hparse, hposition, hmessage⟩ := parse_of_unread hunread
    obtain ⟨v, w, tree, ht, hviable⟩ := viable_rest t.toList
    generalize (Grammar.program t.toList).rest = r at hposition hmessage ht
    refine ⟨e, String.ofList v, String.ofList r, String.ofList (Text.firstLine r), hparse, ?_, ?_, ?_, hmessage,
      String.ofList w, tree, ?_⟩
    · rw [← String.ofList_append, ← ht, String.ofList_toList]
    · rw [hposition, ht, Source.positionOf_append, Text.byteLength_eq]
    · rw [String.toList_ofList, String.toList_ofList]
      exact Text.firstLine_spec r
    · rw [String.toList_append, String.toList_ofList, String.toList_ofList]
      exact hviable
  · refine ⟨.build b, ?_, rfl, rfl⟩
    rw [Program.parse, Program.ofChars, Source.parse_eq_ok_iff.2 hread]
    show tree.elaborate.mapError ParseError.build = _
    rw [hb]
    rfl

/-- A text with a misspelled keyword behind an entry and a comment. A character of the comment takes two bytes, and lines end with
a carriage return and a line feed. -/
def misspelled : String := "program \x7b ; café\r\n  entry: %main\r\n  metod %main() -> i32 \x7b\x7d\r\n\x7d"

/-- A text with an entry that is no method. -/
def undeclaredEntry : String := "program \x7b entry: %main \x7d"

/-- The keyword is reported where it stands, and what comes before it could go on; the entry is reported at the start. -/
theorem parse_misspelled :
    ((∀ tree, Grammar.program misspelled.toList ≠ .done tree []) ∧
      ∃ (e : ParseError) (front rest : String), Program.parse misspelled = .error e ∧ misspelled = front ++ rest ∧
        front.utf8ByteSize = 37 ∧ e.message = "Unexpected input: metod %main() -> i32 \x7b\x7d" ∧
        ∃ (w : String) (tree : Source), Grammar.program (front ++ w).toList = .done tree []) ∧
    Grammar.program undeclaredEntry.toList = .done ⟨some "main", []⟩ [] ∧
      ∃ e, Program.parse undeclaredEntry = .error e ∧ e.position = 0 ∧ e.message = "method 'main' is not declared" := by
  have hrest : (Grammar.program misspelled.toList).rest ≠ [] := by decide +kernel
  have hunread : ∀ tree, Grammar.program misspelled.toList ≠ .done tree [] := by
    intro tree htree
    rw [htree] at hrest
    exact hrest rfl
  have herror : (match Program.parse misspelled with | .ok _ => none | .error e => some (e.position, e.message)) =
      some (37, "Unexpected input: metod %main() -> i32 \x7b\x7d") := by decide +kernel
  have hread : Grammar.program undeclaredEntry.toList = .done ⟨some "main", []⟩ [] := by decide +kernel
  obtain ⟨e, front, rest, line, hparse, ht, hposition, -, -, hviable⟩ := (parse_error_position misspelled).1 hunread
  rw [hparse] at herror
  obtain ⟨hbytes, hmessage⟩ := Prod.mk.inj (Option.some.inj herror)
  refine ⟨⟨hunread, e, front, rest, hparse, ht, hposition.symm.trans hbytes, hmessage, hviable⟩, hread, ?_⟩
  exact (parse_error_position undeclaredEntry).2 _ (.undefinedMethod "main") hread rfl

end Program

end Straightline
