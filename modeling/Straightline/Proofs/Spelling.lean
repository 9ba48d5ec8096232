import Mathlib.Data.List.Induction
import Straightline.Proofs.ReadTrees

/-!
# How tokens are spelled

A number may be written with zeros in front, zero may be written with a minus sign, and `bool` has the second name `u1`. A text
without its comments (`Grammar.uncomment`) that has none of this (`Grammar.Plain`) spells each of its tokens as the token is
written. Main statements: a numeral, a type and a constant that are read from such a text stand there in their plain form
(`Grammar.Plain.digits_value`, `Grammar.Plain.nameChars`, `Grammar.Plain.constantChars`).
-/

namespace Straightline

open Reader

/-! ## Numerals without zeros in front -/

namespace Decimal

/-- A digit is the character of its value. -/
theorem digitChar_digitValue {c : Char} (h : c.isDigit = true) : digitChar (digitValue c) = c ∧ digitValue c < 10 := by
  have hrange := isDigit_iff_toNat.1 h
  refine ⟨?_, ?_⟩
  · rw [digitChar, digitValue, show 48 + (c.toNat - 48) = c.toNat by omega, Char.ofNat_toNat]
  · rw [digitValue]
    omega

/-- A run of digits is the numeral of its number, unless it has more than one digit and the first one is a zero. -/
theorem digits_value {ds : List Char} (hds : ∀ c ∈ ds, c.isDigit = true) (hne : ds ≠ []) (hzero : ∀ d v, ds ≠ '0' :: d :: v) :
    digits (value ds) = ds := by
  induction ds using List.reverseRecOn with
  | nil => exact absurd rfl hne
  | append_singleton ds c ih =>
    obtain ⟨hchar, hlt⟩ := digitChar_digitValue (hds c (by simp))
    rw [value_concat]
    by_cases hnil : ds = []
    · subst hnil
      have hvalue : 10 * value [] + digitValue c = digitValue c := by simp [value]
      rw [hvalue, digits, if_pos hlt, hchar, List.nil_append]
    · have hprefix : digits (value ds) = ds := by
        refine ih (fun d hd => hds d (List.mem_append_left _ hd)) hnil fun d v hd => ?_
        exact hzero d (v ++ [c]) (by rw [hd]; rfl)
      have hpos : value ds ≠ 0 := by
        intro h
        rw [h, show digits 0 = ['0'] by rw [digits]; rfl] at hprefix
        exact hzero c [] (by rw [← hprefix]; rfl)
      rw [digits, if_neg (by omega), show (10 * value ds + digitValue c) / 10 = value ds by omega,
        show (10 * value ds + digitValue c) % 10 = digitValue c by omega, hprefix, hchar]

end Decimal

namespace Grammar

variable {s r u v w x : List Char}

/-! ## Texts without comments -/

/-- A text without its comments. A comment goes from `;` up to the next line feed or to the end. -/
def uncomment (s : List Char) : List Char :=
  match s with
  | [] => []
  | c :: cs => if c = ';' then uncomment (cs.dropWhile (· != '\n')) else c :: uncomment cs
termination_by s.length
decreasing_by
  · have := (List.dropWhile_sublist (· != '\n') (l := cs)).length_le
    simp only [List.length_cons]
    omega
  · simp

theorem uncomment_nil : uncomment [] = [] := by rw [uncomment]

theorem uncomment_cons {c : Char} (hc : c ≠ ';') (s : List Char) : uncomment (c :: s) = c :: uncomment s := by
  rw [uncomment, if_neg hc]

theorem uncomment_comment (s : List Char) : uncomment (';' :: s) = uncomment (s.dropWhile (· != '\n')) := by
  rw [uncomment, if_pos rfl]

/-- What has no comment sign stays. -/
theorem uncomment_append (hx : ∀ c ∈ x, c ≠ ';') (s : List Char) : uncomment (x ++ s) = x ++ uncomment s := by
  induction x with
  | nil => rfl
  | cons c x ih =>
    obtain ⟨hc, hx⟩ := List.forall_mem_cons.1 hx
    rw [List.cons_append, uncomment_cons hc, ih hx, List.cons_append]

/-- A comment and a blank go on to the same text: only a carriage return may be left of the line. -/
theorem skipBlank_afterComment (h : afterComment? s = some r) : skipBlank r = skipBlank (s.dropWhile (· != '\n')) := by
  obtain ⟨w, rfl, hw, hends⟩ := afterComment?_eq_some_iff.1 h
  have hline : ∀ c ∈ w, (c != '\n') = true := by
    intro c hc
    refine bne_iff_ne.2 ?_
    rintro rfl
    exact absurd (hw _ hc) (by decide)
  rw [List.dropWhile_append_of_pos hline]
  cases hends with
  | nil => rfl
  | lineFeed x => rfl
  | returnLineFeed x =>
    rw [skipBlank_space rfl]
    rfl

/-- What a blank skips is, apart from comments, white space. -/
theorem uncomment_skipBlank (s : List Char) : ∃ x, uncomment s = x ++ uncomment (skipBlank s) ∧ ∀ c ∈ x, isSpace c = true := by
  have hnone : ∀ t, ∃ x, uncomment t = x ++ uncomment t ∧ ∀ c ∈ x, isSpace c = true := fun t => ⟨[], rfl, fun c hc => nomatch hc⟩
  induction hn : s.length using Nat.strongRecOn generalizing s with
  | ind n ih =>
    cases s with
    | nil =>
      rw [skipBlank]
      exact hnone []
    | cons c cs =>
      rw [List.length_cons] at hn
      cases hspace : isSpace c with
      | true =>
        have hc : c ≠ ';' := by
          rintro rfl
          exact absurd hspace (by decide)
        obtain ⟨x, hx, hall⟩ := ih cs.length (by omega) cs rfl
        refine ⟨c :: x, ?_, List.forall_mem_cons.2 ⟨hspace, hall⟩⟩
        rw [skipBlank_space hspace, uncomment_cons hc, hx, List.cons_append]
      | false =>
        by_cases hc : c = ';'
        · subst hc
          rw [skipBlank, if_neg (by simp [hspace]), if_pos rfl]
          split
          · next rest hrest =>
            have hle := (List.dropWhile_sublist (· != '\n') (l := cs)).length_le
            rw [skipBlank_afterComment hrest, uncomment_comment]
            exact ih _ (by omega) _ rfl
          · exact hnone _
        · rw [skipBlank, if_neg (by simp [hspace]), if_neg hc]
          exact hnone _

/-! ## Plain spelling -/

/-- Between `u` and `v` starts a run of two or more digits, with a zero. -/
def zeroRun (u v : List Char) : Bool :=
  u.getLast?.all (fun c => !c.isDigit) && v.head? == some '0' && v.tail.head?.any Char.isDigit

/-- At the start of `v` stands a zero with a minus sign. -/
def minusZero (v : List Char) : Bool := ['-', '0'].isPrefixOf v

/-- A text without its white space. -/
def dense (s : List Char) : List Char := s.filter fun c => !isSpace c

/-- A word after a text without white space is a type: it follows a bracket, a comma, an arrow or the operation that names a type.
In a call, which has brackets and commas too, only registers follow them. -/
def expectsType (d : List Char) : Bool := ["(", ",", "->", "ld_const"].any fun e => e.toList.isSuffixOf d

theorem expectsType_append {e : String} (he : e ∈ ["(", ",", "->", "ld_const"]) (d : List Char) :
    expectsType (d ++ e.toList) = true :=
  List.any_eq_true.2 ⟨e, he, List.isSuffixOf_iff_suffix.2 (List.suffix_append d _)⟩

/-- A word that starts after `u` is a type. -/
def typeDue (u : List Char) : Bool := u.getLast?.all (fun c => !isIdentRest c) && expectsType (dense u)

/-- Between `u` and `v` starts a type that is written `u1`. -/
def otherBool (u v : List Char) : Bool := typeDue u && v.take 2 == ['u', '1'] && (v.drop 2).head?.all fun c => !isIdentRest c

/-- A text, its comments apart, is spelled plainly: no run of two or more digits starts with a zero, no zero has a minus sign, and
no type is written `u1`. -/
structure Plain (w : List Char) : Prop where
  zeros : ∀ u v, w = u ++ v → zeroRun u v = false
  minus : ∀ u v, w = u ++ v → minusZero v = false
  types : ∀ u v, w = u ++ v → otherBool u v = false

/-- What holds wherever a text is cut holds at each number of characters. -/
theorem forall_split_iff {f : List Char → List Char → Bool} :
    (∀ u v, w = u ++ v → f u v = true) ↔ (List.range (w.length + 1)).all (fun n => f (w.take n) (w.drop n)) = true := by
  rw [List.all_eq_true]
  refine ⟨fun h n _ => h _ _ (List.take_append_drop n w).symm, ?_⟩
  rintro h u v rfl
  have hcut := h u.length (List.mem_range.2 (by simp only [List.length_append]; omega))
  rwa [List.take_left, List.drop_left] at hcut

/-- A text is spelled plainly if it is wherever it is cut. -/
theorem plain_iff :
    Plain w ↔ ∀ u v, w = u ++ v → (!zeroRun u v && !minusZero v && !otherBool u v) = true := by
  simp only [Bool.and_eq_true, Bool.not_eq_true']
  refine ⟨fun h u v huv => ⟨⟨h.zeros u v huv, h.minus u v huv⟩, h.types u v huv⟩, fun h => ?_⟩
  exact ⟨fun u v huv => (h u v huv).1.1, fun u v huv => (h u v huv).1.2, fun u v huv => (h u v huv).2⟩

instance (w : List Char) : Decidable (Plain w) := decidable_of_iff _ (plain_iff.trans forall_split_iff).symm

/-- A text ends with no character of a class. -/
def EndsOff (k : Char → Bool) (u : List Char) : Prop := u.getLast?.all (fun c => !k c) = true

theorem endsOff_concat {k : Char → Bool} {c : Char} (hc : k c = false) (u : List Char) : EndsOff k (u ++ [c]) := by
  simp [EndsOff, hc]

/-- What ends with characters of another class. -/
theorem endsOff_append {k : Char → Bool} (hx : ∀ c ∈ x, k c = false) (hne : x ≠ []) (u : List Char) : EndsOff k (u ++ x) := by
  rcases List.eq_nil_or_concat x with rfl | ⟨y, c, rfl⟩
  · exact absurd rfl hne
  · rw [List.concat_eq_append, ← List.append_assoc]
    exact endsOff_concat (hx c (by simp)) _

/-- White space is no part of an identifier. -/
theorem isIdentRest_of_isSpace {c : Char} (h : isSpace c = true) : isIdentRest c = false :=
  isIdentRest_of_isBlankStart (by simp [isBlankStart, h])

/-- What ends with no character of an identifier ends with no digit. -/
theorem EndsOff.isDigit (h : EndsOff isIdentRest u) : EndsOff Char.isDigit u := by
  unfold EndsOff at *
  cases hu : u.getLast? with
  | none => rfl
  | some c =>
    rw [hu] at h
    have hc : isIdentRest c = false := by simpa using h
    have hd : c.isDigit = false := Bool.eq_false_iff.2 fun hd => Bool.eq_false_iff.1 hc (isIdentRest_of_isDigit hd)
    simp [hd]

namespace Plain

variable {ds : List Char}

/-- A run of digits in a plain text is the numeral of its number. -/
theorem digits_value (hw : Plain w) (h : w = u ++ (ds ++ v)) (hu : EndsOff Char.isDigit u)
    (hds : ∀ c ∈ ds, c.isDigit = true) (hne : ds ≠ []) : Decimal.digits (Decimal.value ds) = ds := by
  refine Decimal.digits_value hds hne ?_
  rintro d t rfl
  have hd : d.isDigit = true := hds d (by simp)
  have hzero := hw.zeros u _ h
  simp [zeroRun, show u.getLast?.all (fun c => !c.isDigit) = true from hu, hd] at hzero

/-- A number below `2^32` in a plain text is written as its numeral. -/
theorem word32Of? (hw : Plain w) (h : w = u ++ (ds ++ v)) (hu : EndsOff Char.isDigit u) (hds : ∀ c ∈ ds, c.isDigit = true)
    (hne : ds ≠ []) {n : UInt32} (hn : word32Of? ds = some n) : Decimal.digits n.toNat = ds := by
  rw [← word32Of?_eq_some_iff.1 hn]
  exact hw.digits_value h hu hds hne

/-- The width of a type in a plain text is written as its numeral. -/
theorem widthOf? (hw : Plain w) (h : w = u ++ (ds ++ v)) (hu : EndsOff Char.isDigit u) {n : UInt32}
    (hn : Scalar.widthOf? ds = some n) : Decimal.digits n.toNat = ds := by
  obtain ⟨hne, hds, hvalue⟩ := Scalar.widthOf?_eq_some_iff.1 hn
  rw [← hvalue]
  exact hw.digits_value h hu hds hne

/-- A type in a plain text is written by its name. -/
theorem nameChars (hw : Plain w) {cs : List Char} (h : w = u ++ (cs ++ v)) (hu : typeDue u = true) (hv : Stops isIdentRest v)
    {t : Scalar} (ht : Scalar.ofChars? cs = some t) : t.nameChars = cs := by
  unfold Scalar.ofChars? at ht
  split at ht
  · next hbool =>
    cases ht
    exact hbool.symm
  · split at ht
    · next ds _ =>
      obtain ⟨n, hn, rfl⟩ := Option.map_eq_some_iff.1 ht
      have hdigits := hw.widthOf? (u := u ++ ['i']) (v := v) (by rw [h]; simp) (endsOff_concat rfl u) hn
      have hne : (⟨true, n⟩ : Scalar) ≠ Scalar.bool := fun hb => by cases hb
      rw [Scalar.nameChars, if_neg hne, hdigits]
      rfl
    · next ds _ =>
      obtain ⟨n, hn, rfl⟩ := Option.map_eq_some_iff.1 ht
      have hdigits := hw.widthOf? (u := u ++ ['u']) (v := v) (by rw [h]; simp) (endsOff_concat rfl u) hn
      by_cases hone : n = 1
      · -- the type is `bool`, by its other name
        have hds : ds = ['1'] := by
          rw [← hdigits, hone]
          decide +kernel
        subst hds
        have hother := hw.types u _ h
        have hstop : v.head?.all (fun c => !isIdentRest c) = true := by
          cases v with
          | nil => rfl
          | cons c v =>
            have hc : isIdentRest c = false := hv
            simp [hc]
        simp [otherBool, hu, hstop] at hother
      · have hne : (⟨false, n⟩ : Scalar) ≠ Scalar.bool := fun hb => hone (congrArg Scalar.bits hb)
        rw [Scalar.nameChars, if_neg hne, hdigits]
        rfl
    · cases ht

/-- A constant in a plain text is written as it is. -/
theorem constantChars (hw : Plain w) {sign : Option Unit} (h : w = u ++ (signChars sign ++ (ds ++ v)))
    (hu : EndsOff Char.isDigit u) (hds : ∀ c ∈ ds, c.isDigit = true) (hne : ds ≠ []) {c : Constant}
    (hc : numeralOf? (sign, ds) = some c) : c.chars = signChars sign ++ ds := by
  cases sign with
  | none =>
    have hdigits := hw.digits_value (u := u) (v := v) (by simpa using h) hu hds hne
    rw [numeralOf?, unsignedOf?] at hc
    split at hc
    · next hlt =>
      cases hc
      rw [Constant.chars, Int64.toInt_ofNat_of_lt hlt]
      exact hdigits
    · split at hc
      · next hlt =>
        cases hc
        rw [Constant.chars, UInt64.toNat_ofNat_of_lt' hlt]
        exact hdigits
      · cases hc
  | some minus =>
    have hdigits := hw.digits_value (u := u ++ ['-']) (v := v) (by simpa using h) (endsOff_concat rfl u) hds hne
    rw [numeralOf?, negativeOf?] at hc
    split at hc
    · next hle =>
      cases hc
      cases hvalue : Decimal.value ds with
      | zero =>
        -- then the text has a zero with a minus sign
        have hzero : ds = ['0'] := by
          rw [← hdigits, hvalue]
          decide +kernel
        have hminus := hw.minus u ('-' :: '0' :: v) (by rw [h, hzero]; rfl)
        cases hminus
      | succ n =>
        rw [hvalue] at hle hdigits
        have hneg : (-((n + 1 : Nat) : Int)) = Int.negSucc n := rfl
        rw [Constant.chars, hneg, Int64.toInt_ofInt_of_le (by omega) (by omega)]
        exact congrArg ('-' :: ·) hdigits
    · cases hc

end Plain

end Grammar

end Straightline
