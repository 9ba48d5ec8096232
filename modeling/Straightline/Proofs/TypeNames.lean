import Straightline.Proofs.Numerals

/-!
# The names of types

A name stands for a type exactly if it is `bool`, or `i` or `u` and a numeral below `2^32`. Names are texts of any characters.
Read by its bytes, a name is cut after the first one (`Scalar.checkedOfName?`); the cut is made only after a byte that is a whole
character, so that no character is cut in two. Main statement: `Scalar.name_exact`.
-/

namespace Straightline

/-! ## The bytes of a text -/

namespace Text

/-- The bytes of a text in UTF-8. -/
def bytes (s : String) : List UInt8 := s.toByteArray.data.toList

/-- The text from a byte on, or nothing where that byte is inside a character or beyond the end. -/
def dropBytes? (s : String) (i : Nat) : Option String :=
  if h : String.Pos.Raw.IsValid s ⟨i⟩ then some (s.sliceFrom (s.pos ⟨i⟩ h)).copy else none

/-- Whether a byte is an ASCII digit. -/
def isDigitByte (b : UInt8) : Bool := 48 ≤ b && b ≤ 57

theorem bytes_eq (s : String) : bytes s = s.toList.flatMap String.utf8EncodeChar := by
  rw [bytes, ← String.utf8Encode_toList, List.utf8Encode, List.data_toByteArray]

/-- A text may be cut where it was put together. -/
theorem dropBytes?_append (s t : String) : dropBytes? (s ++ t) s.utf8ByteSize = some t := by
  have hvalid : String.Pos.Raw.IsValid (s ++ t) ⟨s.utf8ByteSize⟩ :=
    String.Pos.Raw.isValid_iff_exists_append.2 ⟨s, t, rfl, rfl⟩
  have hsplits : ((s ++ t).pos ⟨s.utf8ByteSize⟩ hvalid).Splits s t := ⟨rfl, String.offset_pos⟩
  rw [dropBytes?, dif_pos hvalid, hsplits.copy_sliceFrom_eq]

example : dropBytes? "é1" 1 = none ∧ dropBytes? "é1" 2 = some "1" := by decide

/-- An ASCII character is its own byte, and any other one starts with a byte that is no ASCII character. -/
theorem utf8EncodeChar_cases (c : Char) :
    (∃ b, String.utf8EncodeChar c = [b] ∧ b.toNat = c.toNat) ∨
      128 ≤ c.toNat ∧ ∃ b bs, String.utf8EncodeChar c = b :: bs ∧ 128 ≤ b.toNat := by
  have hsize : c.utf8Size = 1 ↔ c.toNat ≤ 127 := by
    rw [Char.utf8Size_eq_one_iff, UInt32.le_iff_toNat_le]
    exact Iff.rfl
  -- with two bytes or more, the first one is marked with its length, above all ASCII codes
  have hlead : ∀ b k : UInt8, 128 ≤ k.toNat → 128 ≤ (b ||| k).toNat := by
    intro b k hk
    rw [UInt8.toNat_or]
    exact Nat.le_trans hk Nat.right_le_or
  rcases c.utf8Size_eq with h | h | h | h
  · refine Or.inl ⟨_, String.utf8EncodeChar_eq_singleton h, ?_⟩
    rw [UInt32.toNat_toUInt8]
    exact Nat.mod_eq_of_lt (Nat.lt_of_le_of_lt (hsize.1 h) (by decide))
  · exact Or.inr ⟨by omega, _, _, String.utf8EncodeChar_eq_cons_cons h, hlead _ _ (by decide)⟩
  · exact Or.inr ⟨by omega, _, _, String.utf8EncodeChar_eq_cons_cons_cons h, hlead _ _ (by decide)⟩
  · exact Or.inr ⟨by omega, _, _, String.utf8EncodeChar_eq_cons_cons_cons_cons h, hlead _ _ (by decide)⟩

theorem isDigitByte_iff {b : UInt8} : isDigitByte b = true ↔ 48 ≤ b.toNat ∧ b.toNat ≤ 57 := by
  simp [isDigitByte, UInt8.le_iff_toNat_le]

/-- The bytes of a text are digits exactly if its characters are. -/
theorem all_isDigitByte (s : String) : (bytes s).all isDigitByte = s.toList.all Char.isDigit := by
  rw [bytes_eq, List.all_flatMap]
  congr 1
  funext c
  rw [Bool.eq_iff_iff, Decimal.isDigit_iff_toNat]
  rcases utf8EncodeChar_cases c with ⟨b, hbytes, hb⟩ | ⟨hc, b, bs, hbytes, hb⟩
  · rw [hbytes, ← hb, ← isDigitByte_iff]
    simp
  · rw [hbytes, List.all_cons, Bool.and_eq_true, isDigitByte_iff]
    omega

theorem isEmpty_bytes (s : String) : (bytes s).isEmpty = s.toList.isEmpty := by
  rw [bytes_eq]
  cases s.toList with
  | nil => rfl
  | cons c cs => simp [String.utf8EncodeChar_ne_nil]

end Text

namespace Scalar

variable {c : Char} {cs : List Char} {t : Scalar}

/-! ## Reading characters -/

/-- Whether a type is signed, by the first character of its name. -/
def signOf? (c : Char) : Option Bool := if c = 'i' then some true else if c = 'u' then some false else none

theorem signOf?_eq_some_iff {signed : Bool} : signOf? c = some signed ↔ c = if signed then 'i' else 'u' := by
  unfold signOf?
  split
  · next h =>
    rw [h]
    cases signed <;> decide
  · split
    · next h =>
      rw [h]
      cases signed <;> decide
    · next hi hu => cases signed <;> simp [hi, hu]

/-- A name other than `bool` tells the sign by its first character and the width by the others. -/
theorem ofChars?_cons (h : c :: cs ≠ "bool".toList) :
    ofChars? (c :: cs) = (signOf? c).bind fun signed => (widthOf? cs).map (⟨signed, ·⟩) := by
  unfold ofChars?
  rw [if_neg h]
  split
  · next ds heq =>
    cases heq
    rfl
  · next ds heq =>
    cases heq
    rfl
  · next hi hu =>
    have hci : c ≠ 'i' := fun hc => hi cs (by rw [hc])
    have hcu : c ≠ 'u' := fun hc => hu cs (by rw [hc])
    rw [signOf?, if_neg hci, if_neg hcu]
    rfl

/-- The names that are read: `bool`, and a sign and a width. -/
theorem ofChars?_eq_some_iff :
    ofChars? cs = some t ↔
      cs = "bool".toList ∧ t = bool ∨ ∃ ds, cs = (if t.signed then 'i' else 'u') :: ds ∧ Decimal.Spells ds t.bits.toNat := by
  by_cases hbool : cs = "bool".toList
  · have hread : ofChars? cs = some bool := by
      unfold ofChars?
      exact if_pos hbool
    rw [hread]
    constructor
    · intro h
      exact Or.inl ⟨hbool, (Option.some.inj h).symm⟩
    · rintro (⟨-, rfl⟩ | ⟨ds, hcs, -⟩)
      · rfl
      · -- the name `bool` starts with neither sign
        have hhead := congrArg List.head? (hbool.symm.trans hcs)
        cases hsigned : t.signed <;> simp [hsigned] at hhead
  · cases cs with
    | nil => simp [ofChars?]
    | cons c cs =>
      rw [ofChars?_cons hbool, Option.bind_eq_some_iff]
      constructor
      · rintro ⟨signed, hsign, h⟩
        obtain ⟨w, hw, rfl⟩ := Option.map_eq_some_iff.1 h
        exact Or.inr ⟨cs, by rw [signOf?_eq_some_iff.1 hsign], Decimal.spells_iff.2 (widthOf?_eq_some_iff.1 hw)⟩
      · rintro (⟨h, -⟩ | ⟨ds, hcs, hds⟩)
        · exact absurd h hbool
        · obtain ⟨hc, rfl⟩ := List.cons.inj hcs
          have hwidth : widthOf? cs = some t.bits := widthOf?_eq_some_iff.2 (Decimal.spells_iff.1 hds)
          exact ⟨t.signed, signOf?_eq_some_iff.2 hc, Option.map_eq_some_iff.2 ⟨t.bits, hwidth, rfl⟩⟩

/-! ## Reading bytes -/

/-- Whether a type is signed, by the first byte of its name. -/
def signOfByte? (b : UInt8) : Option Bool := if b = 105 then some true else if b = 117 then some false else none

/-- The width that a text writes, with the digits checked byte by byte. -/
def widthOfText? (ds : String) : Option UInt32 :=
  if (Text.bytes ds).isEmpty || !(Text.bytes ds).all Text.isDigitByte then none else Grammar.word32Of? ds.toList

/-- The type of a name, read from its bytes: the sign from the first one, the width from the text after it. There is no answer at
all where the name would be cut inside a character. -/
def checkedOfName? (s : String) : Option (Option Scalar) :=
  if s = "bool" then some (some bool)
  else
    match (Text.bytes s).head?.bind signOfByte? with
    | none => some none
    | some signed => (Text.dropBytes? s 1).map fun ds => (widthOfText? ds).map (⟨signed, ·⟩)

/-- The first byte of a character shows a sign exactly if the character does. -/
theorem signOfByte?_head (c : Char) (bs : List UInt8) :
    (String.utf8EncodeChar c ++ bs).head?.bind signOfByte? = signOf? c := by
  have hbyte : ∀ b : UInt8, signOfByte? b = if b.toNat = 105 then some true else if b.toNat = 117 then some false else none := by
    intro b
    simp only [signOfByte?, ← UInt8.toNat_inj]
    rfl
  have hchar : signOf? c = if c.toNat = 105 then some true else if c.toNat = 117 then some false else none := by
    simp only [signOf?, ← Char.toNat_inj]
    rfl
  rw [hchar]
  rcases Text.utf8EncodeChar_cases c with ⟨b, hbytes, hb⟩ | ⟨hc, b, bs', hbytes, hb⟩
  · rw [hbytes, ← hb]
    exact hbyte b
  · rw [hbytes, if_neg (by omega), if_neg (by omega)]
    refine (hbyte b).trans ?_
    rw [if_neg (by omega), if_neg (by omega)]

theorem widthOfText?_ofList (ds : List Char) : widthOfText? (String.ofList ds) = widthOf? ds := by
  rw [widthOfText?, Text.isEmpty_bytes, Text.all_isDigitByte, String.toList_ofList]
  rfl

/-- A name that shows a sign is cut after its first character. -/
theorem dropBytes?_one {signed : Bool} (h : signOf? c = some signed) (cs : List Char) :
    Text.dropBytes? (String.ofList (c :: cs)) 1 = some (String.ofList cs) := by
  -- both signs are ASCII, so that the first character is the first byte
  have hsize : (String.singleton c).utf8ByteSize = 1 := by
    rw [String.utf8ByteSize_singleton, signOf?_eq_some_iff.1 h]
    cases signed <;> decide
  have happend : String.ofList (c :: cs) = String.singleton c ++ String.ofList cs := by
    rw [String.singleton_eq_ofList, ← String.ofList_append, List.singleton_append]
  rw [happend, ← hsize, Text.dropBytes?_append]

/-- A name is never cut inside a character, and its bytes are read like its characters. -/
theorem checkedOfName?_eq (s : String) : checkedOfName? s = some (ofName? s) := by
  unfold checkedOfName?
  split
  · next h =>
    rw [h]
    decide
  · next h =>
    rw [Text.bytes_eq, ofName?]
    cases hs : s.toList with
    | nil => rfl
    | cons c cs =>
      have hbool : c :: cs ≠ "bool".toList := fun heq => h (String.toList_inj.1 (hs.trans heq))
      have hname : s = String.ofList (c :: cs) := by rw [← hs, String.ofList_toList]
      rw [List.flatMap_cons, signOfByte?_head, ofChars?_cons hbool]
      cases hsign : signOf? c with
      | none => rfl
      | some signed =>
        show (Text.dropBytes? s 1).map _ = _
        rw [hname, dropBytes?_one hsign, Option.map_some, widthOfText?_ofList]
        rfl

/-! ## Names and types -/

/-- Each type is read back from its name, so that no two types have one name. A name is that of a type exactly if it is `bool`, or
`i` for a signed and `u` for an unsigned type and a numeral of the width, at most `2^32 - 1`, zeros in front allowed. Read by
bytes, no name is cut inside a character, and the type is the same. -/
theorem name_exact :
    (∀ t : Scalar, ofName? t.name = some t) ∧ (∀ t u : Scalar, t.name = u.name ↔ t = u) ∧
      (∀ (n : String) (t : Scalar), ofName? n = some t ↔
        n = "bool" ∧ t = bool ∨
          ∃ ds w, n = String.ofList ((if t.signed then 'i' else 'u') :: ds) ∧ Decimal.Spells ds w ∧
            w ≤ 2 ^ 32 - 1 ∧ t.bits.toNat = w) ∧
      ∀ n, checkedOfName? n = some (ofName? n) := by
  have hread : ∀ t : Scalar, ofName? t.name = some t := by
    intro t
    rw [ofName?, name, String.toList_ofList, ofChars?_nameChars]
  refine ⟨hread, fun t u => ⟨fun h => ?_, fun h => h ▸ rfl⟩, fun n t => ?_, checkedOfName?_eq⟩
  · exact Option.some.inj ((hread t).symm.trans (h ▸ hread u))
  · rw [ofName?, ofChars?_eq_some_iff, String.toList_inj]
    have htext : ∀ cs : List Char, n.toList = cs ↔ n = String.ofList cs := by
      intro cs
      rw [← String.toList_inj, String.toList_ofList]
    refine or_congr Iff.rfl (exists_congr fun ds => ?_)
    rw [htext]
    constructor
    · rintro ⟨hn, hds⟩
      exact ⟨_, hn, hds, Nat.le_pred_of_lt t.bits.toNat_lt_size, rfl⟩
    · rintro ⟨w, hn, hds, -, rfl⟩
      exact ⟨hn, hds⟩

example : ofName? "u01" = some bool ∧ ofName? "i4294967296" = none ∧ ofName? "i٣" = none ∧ checkedOfName? "é8" = some none := by
  decide

end Scalar

end Straightline
