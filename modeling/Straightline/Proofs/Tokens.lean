import Straightline.Program.Printer
import Straightline.Proofs.Readers
import Straightline.Source.Grammar

/-!
# Reading tokens

A token that is written in its plain form is read back, if the text after it does not go on with it: names, registers, numbers,
types and constants (`Grammar.identifier_append`, `register_append`, `word32_append`, `typeName_append`, `literal_append`). A
constant is read back as the signed one of its number if there is one (`Constant.canonical`). Gaps and blanks are passed over
whole (`Grammar.gap_append`, `blank_append`).
-/

namespace Straightline

open Reader

/-! ## Numbers and types -/

namespace Decimal

/-- The digits by their codes. -/
theorem isDigit_iff_toNat {c : Char} : c.isDigit = true ↔ 48 ≤ c.toNat ∧ c.toNat ≤ 57 := by
  simp [Char.isDigit, UInt32.le_iff_toNat_le]

/-- A numeral does not start with a character of a class without digits. -/
theorem stops_digits {k : Char → Bool} (hk : ∀ c : Char, c.isDigit = true → k c = false) (n : Nat) (rest : List Char) :
    Stops k (digits n ++ rest) :=
  stops_append_of_ne_nil (digits_ne_nil n) fun c hc => hk c (isDigit_of_mem_digits n c hc)

/-- A run of digits does not start with a character that is no digit. -/
theorem stops_beq {d : Char} {ds : List Char} (hd : d.isDigit = false) (hne : ds ≠ []) (hds : ∀ c ∈ ds, c.isDigit = true)
    (rest : List Char) : Stops (· == d) (ds ++ rest) := by
  refine stops_append_of_ne_nil hne fun c hc => beq_eq_false_iff_ne.2 ?_
  rintro rfl
  rw [hds c hc] at hd
  nomatch hd

end Decimal

/-- A digit may stand in an identifier. -/
theorem isIdentRest_of_isDigit {c : Char} (h : c.isDigit = true) : isIdentRest c = true := by
  simp [isIdentRest, Char.isAlphanum, h]

/-- The numbers that are read as words are those below `2^32`. -/
theorem Grammar.word32Of?_eq_some_iff {ds : List Char} {n : UInt32} : word32Of? ds = some n ↔ Decimal.value ds = n.toNat := by
  unfold word32Of?
  split
  · next hlt =>
    constructor
    · intro h
      cases h
      exact (UInt32.toNat_ofNat_of_lt' hlt).symm
    · intro h
      rw [h, UInt32.ofNat_toNat]
  · next hlarge =>
    constructor
    · intro h
      cases h
    · intro h
      exact absurd (h ▸ n.toNat_lt_size) hlarge

namespace Scalar

/-- The widths that are read are the numbers below `2^32`, each from any run of digits that writes it. -/
theorem widthOf?_eq_some_iff {ds : List Char} {n : UInt32} :
    widthOf? ds = some n ↔ ds ≠ [] ∧ (∀ c ∈ ds, c.isDigit = true) ∧ Decimal.value ds = n.toNat := by
  have hwidth : widthOf? ds = if ds.isEmpty || !ds.all Char.isDigit then none else Grammar.word32Of? ds := rfl
  rw [hwidth]
  split
  · next h =>
    constructor
    · intro hn
      cases hn
    · rintro ⟨hne, hds, -⟩
      simp [hne, List.all_eq_true.2 hds] at h
  · next h =>
    simp only [Bool.or_eq_true, Bool.not_eq_true', not_or, Bool.not_eq_false, List.isEmpty_iff, List.all_eq_true] at h
    rw [Grammar.word32Of?_eq_some_iff, and_iff_right h.1, and_iff_right h.2]

/-- The width of a type is read back. -/
theorem widthOf?_digits (n : UInt32) : widthOf? (Decimal.digits n.toNat) = some n :=
  widthOf?_eq_some_iff.2 ⟨Decimal.digits_ne_nil _, Decimal.isDigit_of_mem_digits _, Decimal.value_digits _⟩

/-- The name of a type is read back. -/
theorem ofChars?_nameChars (t : Scalar) : ofChars? t.nameChars = some t := by
  rw [nameChars]
  split
  · next h =>
    rw [h]
    decide
  · obtain ⟨signed, bits⟩ := t
    cases signed <;> simp [ofChars?, widthOf?_digits]

/-- The name of a type is an identifier. -/
theorem isIdentifier_nameChars (t : Scalar) : isIdentifier t.nameChars = true := by
  rw [nameChars]
  split
  · decide
  · refine Bool.and_eq_true_iff.2 ⟨by cases t.signed <;> decide, List.all_eq_true.2 fun c hc => ?_⟩
    exact isIdentRest_of_isDigit (Decimal.isDigit_of_mem_digits _ c hc)

end Scalar

/-! ## Identifiers -/

/-- An identifier consists of characters that may stand in one. -/
theorem isIdentRest_of_mem {cs : List Char} (h : isIdentifier cs = true) : ∀ c ∈ cs, isIdentRest c = true := by
  cases cs with
  | nil => nomatch h
  | cons d ds =>
    obtain ⟨hd, hds⟩ := Bool.and_eq_true_iff.1 h
    exact List.forall_mem_cons.2 ⟨isIdentRest_of_isIdentStart hd, List.all_eq_true.1 hds⟩

/-- A text that starts with an identifier does not start with a character that starts none. -/
theorem stops_identifier {k : Char → Bool} {cs : List Char} (h : isIdentifier cs = true)
    (hk : ∀ c, isIdentStart c = true → k c = false) (rest : List Char) : Stops k (cs ++ rest) := by
  cases cs with
  | nil => nomatch h
  | cons d ds => exact hk d (Bool.and_eq_true_iff.1 h).1

namespace Grammar

variable {rest : List Char}

/-- An identifier is read. -/
theorem identifier_append {cs : List Char} (h : isIdentifier cs = true) (hrest : Stops isIdentRest rest) :
    identifier (cs ++ rest) = .done (String.ofList cs) rest := by
  cases cs with
  | nil => nomatch h
  | cons c cs =>
    obtain ⟨hc, hcs⟩ := Bool.and_eq_true_iff.1 h
    refine bind_of_done (satisfy_cons hc) ?_
    refine bind_of_done (run_append (List.all_eq_true.1 hcs) hrest) ?_
    rfl

/-- An identifier is read up to its end. -/
theorem eq_append_of_identifier {s r : List Char} {name : String} (h : identifier s = .done name r) :
    s = name.toList ++ r ∧ Stops isIdentRest r := by
  obtain ⟨c, t, hc, h⟩ := bind_eq_done_iff.1 h
  obtain ⟨cs, t', hcs, h⟩ := bind_eq_done_iff.1 h
  cases hcs
  cases h
  obtain ⟨rfl, -⟩ := satisfy_eq_done_iff.1 hc
  rw [String.toList_ofList, List.cons_append, List.takeWhile_append_dropWhile]
  exact ⟨rfl, stops_dropWhile⟩

/-- No identifier is read where none starts. -/
theorem identifier_fails {s : List Char} (h : Stops isIdentStart s) : Fails identifier s :=
  (satisfy_fails h).bind _

/-- A name is read after its percent sign. -/
theorem methodName_append {name : String} (h : isIdentifier name.toList = true) (hrest : Stops isIdentRest rest) :
    methodName ('%' :: (name.toList ++ rest)) = .done name rest := by
  refine bind_of_done (char_cons '%' _) ?_
  rw [identifier_append h hrest, String.ofList_toList]

/-- The name of a type is read. -/
theorem typeName_append (t : Scalar) (hrest : Stops isIdentRest rest) : typeName (t.nameChars ++ rest) = .done t rest := by
  refine filterMap_of_done (identifier_append t.isIdentifier_nameChars hrest) ?_
  rw [Scalar.ofName?, String.toList_ofList, t.ofChars?_nameChars]

/-- No type is read where no identifier starts. -/
theorem typeName_fails {s : List Char} (h : Stops isIdentStart s) : Fails typeName s :=
  (identifier_fails h).filterMap _

/-! ## Words that end at a boundary -/

/-- A word has ended. -/
theorem wordEnd_of_stops (h : Stops isIdentRest rest) : wordEnd rest = .done () rest :=
  notAhead_of_fails (satisfy_fails h)

/-- Where a word has ended, nothing is read and no identifier goes on. -/
theorem stops_of_wordEnd {s : List Char} (h : wordEnd s = .done () rest) : s = rest ∧ Stops isIdentRest rest := by
  cases s with
  | nil =>
    cases h
    exact ⟨rfl, trivial⟩
  | cons c cs =>
    cases hc : isIdentRest c with
    | true =>
      have hahead : satisfy isIdentRest (c :: cs) = .done c cs := satisfy_cons hc
      obtain ⟨r, hr⟩ := notAhead_fails hahead
      rw [wordEnd, hr] at h
      nomatch h
    | false =>
      rw [wordEnd_of_stops (show Stops isIdentRest (c :: cs) from hc)] at h
      cases h
      exact ⟨rfl, hc⟩

/-- A keyword is read. -/
theorem keyword_append (w : String) (h : Stops isIdentRest rest) : keyword w (w.toList ++ rest) = .done () rest := by
  refine bind_of_done (word_eq_done_iff.2 rfl) ?_
  exact wordEnd_of_stops h

/-- A keyword is not read where it does not start. -/
theorem keyword_fails {w : String} {c : Char} {cs s : List Char} (hw : w.toList = c :: cs) (h : Stops (· == c) s) :
    Fails (keyword w) s :=
  (word_fails hw h).bind _

/-- A keyword takes up the characters that go on with an identifier, up to the first other one. -/
theorem rest_of_keyword {w : String} {s : List Char} (hw : w.toList.all isIdentRest = true)
    (h : keyword w s = .done () rest) : rest = s.dropWhile isIdentRest := by
  obtain ⟨_, r, hword, hend⟩ := bind_eq_done_iff.1 h
  obtain ⟨rfl, hr⟩ := stops_of_wordEnd hend
  rw [word_eq_done_iff.1 hword, dropWhile_append_of_stops (List.all_eq_true.1 hw) hr]

/-- The number of a numeral is read. -/
theorem word32Of?_digits (n : UInt32) : word32Of? (Decimal.digits n.toNat) = some n :=
  word32Of?_eq_some_iff.2 (Decimal.value_digits _)

/-- A number is read. -/
theorem word32_append (n : UInt32) (hrest : Stops Char.isDigit rest) :
    word32 (Decimal.digits n.toNat ++ rest) = .done n rest :=
  filterMap_of_done (run1_append (Decimal.digits_ne_nil _) (Decimal.isDigit_of_mem_digits _) hrest) (word32Of?_digits n)

/-- Where no identifier goes on, no digit does. -/
theorem stops_isDigit (h : Stops isIdentRest rest) : Stops Char.isDigit rest :=
  h.imp fun _ => isIdentRest_of_isDigit

/-- A register is read. -/
theorem register_append (r : Register) (hrest : Stops isIdentRest rest) :
    register (Register.chars r ++ rest) = .done r rest := by
  have hdigits : (do char 'r'; run1 Char.isDigit : Reader (List Char)) (Register.chars r ++ rest) =
      .done (Decimal.digits r.toNat) rest := by
    refine bind_of_done (char_cons 'r' _) ?_
    exact run1_append (Decimal.digits_ne_nil _) (Decimal.isDigit_of_mem_digits _) (stops_isDigit hrest)
  refine bind_of_done (filterMap_of_done hdigits (word32Of?_digits r)) ?_
  refine bind_of_done (wordEnd_of_stops hrest) ?_
  rfl

/-- No register is read where there is no `r`. -/
theorem register_fails {s : List Char} (h : Stops (· == 'r') s) : Fails register s :=
  (((char_fails h).bind _).filterMap _).bind _

/-- A register takes up the characters that go on with an identifier, up to the first other one. -/
theorem rest_of_register {r : Register} {s : List Char} (h : register s = .done r rest) : rest = s.dropWhile isIdentRest := by
  obtain ⟨_, t, hnum, hend⟩ := bind_eq_done_iff.1 h
  obtain ⟨_, u, hword, hpure⟩ := bind_eq_done_iff.1 hend
  obtain ⟨rfl, hu⟩ := stops_of_wordEnd hword
  cases hpure
  obtain ⟨ds, hds, -⟩ := exists_done_of_filterMap hnum
  obtain ⟨_, v, hchar, hrun⟩ := bind_eq_done_iff.1 hds
  obtain ⟨rfl, hall, -⟩ := eq_append_of_run1 hrun
  rw [char_eq_done_iff.1 hchar, List.dropWhile_cons_of_pos (by decide)]
  exact (dropWhile_append_of_stops (fun c hc => isIdentRest_of_isDigit (hall c hc)) hu).symm

/-! ## Constants -/

end Grammar

/-- The constant of the number of a constant as a literal gives it: a signed one, if there is one. -/
def Constant.canonical : Constant → Constant
  | .uint v => if v.toNat < 0x8000000000000000 then .int (Int64.ofNat v.toNat) else .uint v
  | c => c

namespace Grammar

/-- The character of a minus sign, if there is one. -/
def signChars (sign : Option Unit) : List Char := if sign.isSome then ['-'] else []

@[simp] theorem signChars_none : signChars none = [] := rfl

@[simp] theorem signChars_some (minus : Unit) : signChars (some minus) = ['-'] := rfl

/-- A run of digits is read whole, with a minus sign in front or without one. -/
theorem numeral_append (sign : Option Unit) {ds : List Char} (hne : ds ≠ []) (hds : ∀ c ∈ ds, c.isDigit = true)
    (hrest : Stops Char.isDigit rest) : numeral (signChars sign ++ (ds ++ rest)) = .done (sign, ds) rest := by
  have hsign : maybe (char '-') (signChars sign ++ (ds ++ rest)) = .done sign (ds ++ rest) := by
    cases sign with
    | none => exact maybe_of_fails (char_fails (Decimal.stops_beq rfl hne hds rest))
    | some minus => exact maybe_of_done (char_cons '-' _)
  refine bind_of_done hsign ?_
  refine bind_of_done (run1_append hne hds hrest) ?_
  rfl

/-- A run of digits, with a minus sign in front or without one, is a literal where it has a constant. Where it has none the reader
fails, at the start of the run. -/
theorem literal_run (sign : Option Unit) {ds : List Char} (hne : ds ≠ []) (hds : ∀ c ∈ ds, c.isDigit = true)
    (hrest : Stops Char.isDigit rest) :
    literal (signChars sign ++ (ds ++ rest)) = match numeralOf? (sign, ds) with
      | some c => .done c rest
      | none => .fail (signChars sign ++ (ds ++ rest)) := by
  -- neither truth value starts with a digit or a minus sign
  have hstops : ∀ {d : Char}, d.isDigit = false → d ≠ '-' → Stops (· == d) (signChars sign ++ (ds ++ rest)) := by
    intro d hd hminus
    cases sign with
    | none => exact Decimal.stops_beq hd hne hds rest
    | some minus => exact beq_eq_false_iff_ne.2 hminus.symm
  have hread := numeral_append sign hne hds hrest
  rw [literal, orElse_of_fails ((keyword_fails (w := "true") rfl (hstops rfl (by decide))).bind _),
    orElse_of_fails ((keyword_fails (w := "false") rfl (hstops rfl (by decide))).bind _)]
  cases hc : numeralOf? (sign, ds) with
  | none => exact filterMap_of_none hread hc
  | some c => exact filterMap_of_done hread hc

/-- A numeral that has a constant is a literal. -/
theorem literal_of_numeral (sign : Option Unit) {n : Nat} {c : Constant} (hrest : Stops Char.isDigit rest)
    (hc : numeralOf? (sign, Decimal.digits n) = some c) :
    literal (signChars sign ++ (Decimal.digits n ++ rest)) = .done c rest := by
  rw [literal_run sign (Decimal.digits_ne_nil n) (Decimal.isDigit_of_mem_digits n) hrest, hc]

/-- An unsigned numeral is the canonical constant of its number. -/
theorem unsignedOf?_digits (v : UInt64) : unsignedOf? (Decimal.digits v.toNat) = some (Constant.uint v).canonical := by
  rw [unsignedOf?, Constant.canonical, Decimal.value_digits]
  split
  · rfl
  · rw [if_pos v.toNat_lt_size, UInt64.ofNat_toNat]

/-- A signed constant is read. -/
theorem literal_int (v : Int64) (hrest : Stops Char.isDigit rest) :
    literal ((Constant.int v).chars ++ rest) = .done (.int v) rest := by
  rw [Constant.chars]
  have hlt := v.toInt_lt
  have hle := v.le_toInt
  have hv := v.ofInt_toInt
  cases hi : v.toInt with
  | ofNat n =>
    rw [hi] at hlt hv
    refine literal_of_numeral none hrest ?_
    rw [numeralOf?, unsignedOf?, Decimal.value_digits, if_pos (by simp at hlt; omega), ← Int64.ofInt_eq_ofNat]
    exact congrArg _ (congrArg _ hv)
  | negSucc n =>
    rw [hi] at hle hv
    refine literal_of_numeral (some ()) hrest ?_
    rw [numeralOf?, negativeOf?, Decimal.value_digits, if_pos (by omega)]
    exact congrArg _ (congrArg _ hv)

/-- A constant is read, as the canonical one of its number. -/
theorem literal_append (c : Constant) (hrest : Stops isIdentRest rest) :
    literal (c.chars ++ rest) = .done c.canonical rest := by
  cases c with
  | int v => exact literal_int v (stops_isDigit hrest)
  | uint v => exact literal_of_numeral none (stops_isDigit hrest) (unsignedOf?_digits v)
  | bool b =>
    cases b with
    | true =>
      refine orElse_of_done ?_
      exact bind_of_done (keyword_append "true" hrest) rfl
    | false =>
      have ht : Fails (keyword "true") ((Constant.bool false).chars ++ rest) := keyword_fails rfl rfl
      rw [literal, orElse_of_fails (ht.bind _)]
      refine orElse_of_done ?_
      exact bind_of_done (keyword_append "false" hrest) rfl

/-! ## Gaps and blanks -/

/-- Space within a line. -/
def Gap (g : List Char) : Prop := ∀ c ∈ g, isGap c = true

/-- White space and comments. A comment has no line end in it and a line feed after it. -/
inductive Blank : List Char → Prop where
  | nil : Blank []
  | space {c : Char} {b : List Char} (hc : isSpace c = true) (hb : Blank b) : Blank (c :: b)
  | comment {w b : List Char} (hw : ∀ c ∈ w, isLineEnd c = false) (hb : Blank b) : Blank (';' :: (w ++ '\n' :: b))

/-- A character that may start a blank. -/
def isBlankStart (c : Char) : Bool := isSpace c || c == ';'

/-- Space within a line does not go on with an identifier. -/
theorem isIdentRest_of_isGap {c : Char} (h : isGap c = true) : isIdentRest c = false := by
  rcases Bool.or_eq_true_iff.1 h with h | h <;> rw [beq_iff_eq.1 h] <;> decide

/-- A digit is no space. -/
theorem isGap_of_isDigit {c : Char} (h : c.isDigit = true) : isGap c = false :=
  Bool.eq_false_iff.2 fun hg => Bool.eq_false_iff.1 (isIdentRest_of_isGap hg) (isIdentRest_of_isDigit h)

/-- Space within a line is white space. -/
theorem isSpace_of_isGap {c : Char} (h : isGap c = true) : isSpace c = true := by
  simp only [isGap, isSpace, Bool.or_eq_true] at *
  exact .inl (.inl h)

/-- A gap is passed over. -/
theorem gap_append {g : List Char} (hg : Gap g) (hrest : Stops isGap rest) : gap (g ++ rest) = .done () rest := by
  exact bind_of_done (run_append hg hrest) rfl

/-- A gap that may not be empty is passed over. -/
theorem gap1_append {g : List Char} (hg : Gap g) (hne : g ≠ []) (hrest : Stops isGap rest) :
    gap1 (g ++ rest) = .done () rest := by
  exact bind_of_done (run1_append hne hg hrest) rfl

/-- A comma with gaps around it is passed over. -/
theorem comma_append {g₁ g₂ : List Char} (hg₁ : Gap g₁) (hg₂ : Gap g₂) (hrest : Stops isGap rest) :
    comma (g₁ ++ ',' :: (g₂ ++ rest)) = .done () rest := by
  refine bind_of_done (gap_append hg₁ rfl) ?_
  refine bind_of_done (char_cons ',' _) ?_
  exact gap_append hg₂ hrest

/-- No comma is read where none follows the gap. -/
theorem comma_fails {g : List Char} (hg : Gap g) (hrest : Stops isGap rest) (h : Stops (· == ',') rest) :
    Fails comma (g ++ rest) :=
  Fails.bind_of_done ((char_fails h).bind _) (gap_append hg hrest)

/-- White space at the front is skipped. -/
theorem skipBlank_space {c : Char} (h : isSpace c = true) : skipBlank (c :: rest) = skipBlank rest := by
  rw [skipBlank, if_pos h]

theorem skipBlank_nil : skipBlank [] = [] := by rw [skipBlank]

/-- What may follow the text of a comment: the end of the line or of the whole text. -/
inductive LineEnds : List Char → Prop where
  | nil : LineEnds []
  | lineFeed (x : List Char) : LineEnds ('\n' :: x)
  | returnLineFeed (x : List Char) : LineEnds ('\r' :: '\n' :: x)

/-- The text of a comment goes on to the first end of a line, and there is no comment if a carriage return comes before that. -/
theorem afterComment?_eq_some_iff {s r : List Char} :
    afterComment? s = some r ↔ ∃ w, s = w ++ r ∧ (∀ c ∈ w, isLineEnd c = false) ∧ LineEnds r := by
  refine ⟨?_, ?_⟩
  · intro h
    have hline : ∀ c ∈ s.takeWhile (fun c => !isLineEnd c), isLineEnd c = false := by
      simpa using List.all_eq_true.1 (List.all_takeWhile (p := fun c => !isLineEnd c) (l := s))
    have hstop : Stops (fun c => !isLineEnd c) (s.dropWhile fun c => !isLineEnd c) := stops_dropWhile
    have hsplit : s = s.takeWhile (fun c => !isLineEnd c) ++ s.dropWhile (fun c => !isLineEnd c) :=
      List.takeWhile_append_dropWhile.symm
    unfold afterComment? at h
    generalize s.dropWhile (fun c => !isLineEnd c) = y at h hstop hsplit
    split at h
    · cases h
      exact ⟨_, hsplit, hline, .returnLineFeed _⟩
    · nomatch h
    · next hreturn =>
      cases h
      refine ⟨_, hsplit, hline, ?_⟩
      cases r with
      | nil => exact .nil
      | cons c cs =>
        have hc : isLineEnd c = true := by simpa [Stops] using hstop
        rcases Bool.or_eq_true_iff.1 hc with hc | hc
        · rw [beq_iff_eq.1 hc] at hreturn
          exact absurd rfl (hreturn cs)
        · rw [beq_iff_eq.1 hc]
          exact .lineFeed cs
  · rintro ⟨w, rfl, hw, hr⟩
    have hstop : Stops (fun c => !isLineEnd c) r := by
      cases hr <;> trivial
    rw [afterComment?, dropWhile_append_of_stops (fun c hc => by rw [hw c hc]; rfl) hstop]
    cases hr <;> rfl

/-- A comment that starts at the front of a text is skipped. -/
theorem skipBlank_of_lineEnds {w r : List Char} (hw : ∀ c ∈ w, isLineEnd c = false) (hr : LineEnds r) :
    skipBlank (';' :: (w ++ r)) = skipBlank r := by
  have hafter := afterComment?_eq_some_iff.2 ⟨w, rfl, hw, hr⟩
  rw [skipBlank, if_neg (by decide), if_pos rfl]
  split
  · next r' hr' =>
    rw [hafter] at hr'
    cases hr'
    rfl
  · next hnone =>
    rw [hafter] at hnone
    cases hnone

/-- A comment at the front is skipped, with the line feed behind it. -/
theorem skipBlank_comment {w : List Char} (hw : ∀ c ∈ w, isLineEnd c = false) :
    skipBlank (';' :: (w ++ '\n' :: rest)) = skipBlank rest := by
  rw [skipBlank_of_lineEnds hw (.lineFeed rest), skipBlank_space rfl]

/-- Nothing is skipped where no blank starts. -/
theorem skipBlank_of_stops (h : Stops isBlankStart rest) : skipBlank rest = rest := by
  cases rest with
  | nil => rw [skipBlank]
  | cons c cs =>
    obtain ⟨hspace, hsemi⟩ := Bool.or_eq_false_iff.1 h
    rw [skipBlank, if_neg (by simp [hspace]), if_neg (beq_eq_false_iff_ne.1 hsemi)]

/-- A blank at the front is skipped. -/
theorem skipBlank_append {b : List Char} (hb : Blank b) : skipBlank (b ++ rest) = skipBlank rest := by
  induction hb with
  | nil => rfl
  | space hc _ ih => rw [List.cons_append, skipBlank_space hc, ih]
  | comment hw _ ih => rw [List.cons_append, List.append_assoc, List.cons_append, skipBlank_comment hw, ih]

/-- What is left behind a blank is no longer than the text. -/
theorem length_skipBlank (s : List Char) : (skipBlank s).length ≤ s.length := by
  fun_induction skipBlank s with
  | case1 => exact Nat.le_refl _
  | case2 c cs hc ih => exact Nat.le_succ_of_le ih
  | case3 cs rest hrest hc ih => exact Nat.le_succ_of_le (Nat.le_trans ih (length_afterComment? hrest))
  | case4 cs hnone hc => exact Nat.le_refl _
  | case5 c cs hc hcomment => exact Nat.le_refl _

/-- A blank is passed over. -/
theorem blank_append {b : List Char} (hb : Blank b) (hrest : Stops isBlankStart rest) : blank (b ++ rest) = .done () rest := by
  refine congrArg (Outcome.done ()) ?_
  rw [skipBlank_append hb, skipBlank_of_stops hrest]

/-- No class without white space and the comment sign has a member at the front of a blank that is not empty. -/
theorem Blank.stops_of_ne_nil {k : Char → Bool} {b : List Char} (hb : Blank b) (hk : ∀ c, isBlankStart c = true → k c = false)
    (hne : b ≠ []) : Stops k (b ++ rest) := by
  cases hb with
  | nil => exact absurd rfl hne
  | space hc _ => exact hk _ (by simp [isBlankStart, hc])
  | comment _ _ => exact hk ';' rfl

/-- The same for any blank before a text that starts with no member of the class. -/
theorem Blank.stops {k : Char → Bool} {b : List Char} (hb : Blank b) (hk : ∀ c, isBlankStart c = true → k c = false)
    (hrest : Stops k rest) : Stops k (b ++ rest) := by
  cases b with
  | nil => exact hrest
  | cons c cs => exact hb.stops_of_ne_nil hk (List.cons_ne_nil c cs)

/-- What starts a blank does not go on with an identifier. -/
theorem isIdentRest_of_isBlankStart {c : Char} (h : isBlankStart c = true) : isIdentRest c = false := by
  simp only [isBlankStart, isSpace, Bool.or_eq_true, beq_iff_eq] at h
  rcases h with (((rfl | rfl) | rfl) | rfl) | rfl <;> decide

end Grammar

end Straightline
