import Straightline.Proofs.Abreast
import Straightline.Proofs.Reread

/-!
# Comments and empty lines

A comment at the end of a line and a line that is empty or holds only a comment make no difference to what is read. In the place
of a line feed there is then a longer line break (`Grammar.LineBreak`). Texts that differ in this are read abreast
(`Grammar.carries_edited`): readers go on in the same way up to that place, end alike there, and behind it have the same text
before them. So the reader of programs does not tell such texts apart (`Grammar.blind_program`). Main statement:
`Program.parse_annotated_iff`.
-/

namespace Straightline

namespace Grammar

open Reader
open Source (Stmt BlockDecl MethodDecl)

variable {α β : Type} {b post s s' r r' : List Char} {p q : Reader α} {k : Char → Bool}

/-! ## Line breaks -/

/-- What may stand in the place of a line feed: a line feed or a comment first, and a blank behind it. -/
inductive LineBreak : List Char → Prop where
  | line {y : List Char} (hy : Blank y) : LineBreak ('\n' :: y)
  | comment {w y : List Char} (hw : ∀ c ∈ w, isLineEnd c = false) (hy : Blank y) : LineBreak (';' :: (w ++ '\n' :: y))

/-- A line break is a blank. -/
theorem LineBreak.blank (h : LineBreak b) : Blank b := by
  cases h with
  | line hy => exact .space rfl hy
  | comment hw hy => exact .comment hw hy

/-- A line break starts with no character of a class without the line feed and the comment sign. -/
theorem LineBreak.stops (h : LineBreak b) (hn : k '\n' = false) (hc : k ';' = false) : Stops k (b ++ post) := by
  cases h with
  | line hy => exact hn
  | comment hw hy => exact hc

/-- A line break is not empty. -/
theorem LineBreak.length_pos (h : LineBreak b) : 0 < b.length := by
  cases h <;> simp

/-- Within a comment, a line break is what is left of the line, a line feed and a blank. -/
theorem LineBreak.exists_split (h : LineBreak b) : ∃ x y, b = x ++ '\n' :: y ∧ (∀ c ∈ x, isLineEnd c = false) ∧ Blank y := by
  cases h with
  | line hy => exact ⟨[], _, rfl, (fun c hc => nomatch hc), hy⟩
  | @comment w y hw hy => exact ⟨';' :: w, y, rfl, List.forall_mem_cons.2 ⟨rfl, hw⟩, hy⟩

/-! ## Texts that differ in one line break -/

/-- Two texts are the same but for one place, where the first one has a line feed and the second one has `b`, and `post` follows;
or that place is passed and they are the same. -/
inductive Edited (b post : List Char) : List Char → List Char → Prop where
  | ahead {x : List Char} (hx : '\r' ∉ x) : Edited b post (x ++ '\n' :: post) (x ++ (b ++ post))
  | passed {s : List Char} (hs : s.length ≤ post.length) : Edited b post s s

/-- Two readings end alike: with the same value and texts left that differ at most in the line break, or in failure. -/
inductive EndAlike (b post : List Char) : Outcome α → Outcome α → Prop where
  | done (a : α) {r r' : List Char} (h : Edited b post r r') : EndAlike b post (.done a r) (.done a r')
  | fail (r r' : List Char) : EndAlike b post (.fail r) (.fail r')

/-- A reader ends alike on texts that differ in the line break. -/
def Blind (b post : List Char) (p : Reader α) : Prop := ∀ s s', Edited b post s s' → EndAlike b post (p s) (p s')

/-- Texts that differ in the line break are used up together. -/
theorem Edited.length_lt_iff (hb : LineBreak b) (hs : Edited b post s s') (hr : Edited b post r r') :
    r.length < s.length ↔ r'.length < s'.length := by
  have hpos := hb.length_pos
  cases hs with
  | ahead hx =>
    cases hr with
    | ahead hx' => simp
    | passed hr =>
      simp only [List.length_append, List.length_cons]
      omega
  | passed hs =>
    cases hr with
    | ahead hx' =>
      simp only [List.length_append, List.length_cons]
      omega
    | passed hr => exact Iff.rfl

/-- Texts that differ in the line break are empty together. -/
theorem Edited.nil_iff (hb : LineBreak b) (h : Edited b post r r') : r = [] ↔ r' = [] := by
  cases h with
  | ahead hx =>
    have hne : b ≠ [] := List.length_pos_iff.1 hb.length_pos
    simp [hne]
  | passed hr => exact Iff.rfl

/-- What a reader comes to on two texts that differ in the line break. -/
theorem Blind.cases (hp : Blind b post p) (h : Edited b post s s') :
    (∃ a r r', p s = .done a r ∧ p s' = .done a r' ∧ Edited b post r r') ∨ ∃ r r', p s = .fail r ∧ p s' = .fail r' := by
  have hends := hp s s' h
  generalize p s = o at hends ⊢
  generalize p s' = o' at hends ⊢
  cases hends with
  | done a hr => exact .inl ⟨a, _, _, rfl, rfl, hr⟩
  | fail r r' => exact .inr ⟨r, r', rfl, rfl⟩

/-! ## Reading on from a line break -/

/-- Without carriage returns, a line ends at a line feed or goes on to the end. -/
theorem exists_line {x : List Char} (hx : '\r' ∉ x) :
    (∀ c ∈ x, isLineEnd c = false) ∨ ∃ w y, x = w ++ '\n' :: y ∧ ∀ c ∈ w, isLineEnd c = false := by
  have hclass : ∀ w : List Char, '\r' ∉ w → '\n' ∉ w → ∀ c ∈ w, isLineEnd c = false := by
    intro w hr hn c hc
    refine Bool.or_eq_false_iff.2 ⟨beq_eq_false_iff_ne.2 ?_, beq_eq_false_iff_ne.2 ?_⟩
    · rintro rfl
      exact hr hc
    · rintro rfl
      exact hn hc
  by_cases hn : '\n' ∈ x
  · obtain ⟨w, y, rfl, hw⟩ := List.eq_append_cons_of_mem hn
    exact .inr ⟨w, y, rfl, hclass w (fun hr => hx (List.mem_append_left _ hr)) hw⟩
  · exact .inl (hclass x hx hn)

/-- A blank passes over the line break, be it within a comment or not, or ends before it. -/
theorem Edited.skipBlank (hb : LineBreak b) (h : Edited b post s s') : Edited b post (skipBlank s) (skipBlank s') := by
  have hpassed : Edited b post (Grammar.skipBlank post) (Grammar.skipBlank post) := .passed (length_skipBlank post)
  cases h with
  | passed hs => exact .passed (Nat.le_trans (length_skipBlank s) hs)
  | @ahead x hx =>
    induction hn : x.length using Nat.strongRecOn generalizing x with
    | ind n ih =>
      cases x with
      | nil =>
        rw [List.nil_append, List.nil_append, skipBlank_space rfl, skipBlank_append hb.blank]
        exact hpassed
      | cons c x =>
        have hx' : '\r' ∉ x := fun hr => hx (List.mem_cons_of_mem c hr)
        rw [List.length_cons] at hn
        cases hspace : isSpace c with
        | true =>
          rw [List.cons_append, List.cons_append, skipBlank_space hspace, skipBlank_space hspace]
          exact ih x.length (by omega) hx' rfl
        | false =>
          by_cases hc : c = ';'
          · subst hc
            rcases exists_line hx' with hline | ⟨w, y, rfl, hw⟩
            · -- the comment goes on to the line break
              obtain ⟨v, y, rfl, hv, hy⟩ := hb.exists_split
              have hlong : ∀ d ∈ x ++ v, isLineEnd d = false := fun d hd => (List.mem_append.1 hd).elim (hline d) (hv d)
              have hcomment : skipBlank (';' :: (x ++ v ++ '\n' :: (y ++ post))) = skipBlank (y ++ post) :=
                skipBlank_comment hlong
              simp only [List.append_assoc, List.cons_append] at hcomment ⊢
              rw [skipBlank_comment hline, hcomment, skipBlank_append hy]
              exact hpassed
            · have hy : '\r' ∉ y := fun hr => hx' (List.mem_append_right _ (List.mem_cons_of_mem _ hr))
              simp only [List.append_assoc, List.cons_append]
              rw [skipBlank_comment hw, skipBlank_comment hw]
              refine ih y.length ?_ hy rfl
              simp only [List.length_append, List.length_cons] at hn
              omega
          · have hstop : isBlankStart c = false := by simp [isBlankStart, hspace, hc]
            rw [skipBlank_of_stops (show Stops isBlankStart (c :: x ++ '\n' :: post) from hstop),
              skipBlank_of_stops (show Stops isBlankStart (c :: x ++ (b ++ post)) from hstop)]
            exact .ahead hx

/-- Texts that differ in the line break are read abreast. -/
theorem carries_edited (hb : LineBreak b) : Carries ['\n', ';'] (Edited b post) := by
  refine ⟨?_, fun h => h.skipBlank hb, fun hs hr => hs.length_lt_iff hb hr⟩
  intro s s' h
  cases h with
  | @ahead x hx =>
    cases x with
    | nil => exact .inr ⟨rfl, hb.stops rfl rfl⟩
    | cons c x => exact .inl ⟨c, _, _, rfl, rfl, .ahead fun hr => hx (List.mem_cons_of_mem c hr)⟩
  | passed hs =>
    cases s with
    | nil => exact .inr ⟨trivial, trivial⟩
    | cons c cs => exact .inl ⟨c, cs, cs, rfl, rfl, .passed (Nat.le_of_succ_le hs)⟩

/-- A reader that is abreast on texts that differ in the line break ends alike on them. -/
theorem Abreast.blind (hp : Abreast (Edited b post) p) : Blind b post p := by
  intro s s' h
  rcases hp s s' h with ⟨a, r, r', hs, hs', hr⟩ | ⟨⟨r, hs⟩, r', hs'⟩
  · rw [hs, hs']
    exact .done a hr
  · rw [hs, hs']
    exact .fail r r'

theorem blind_program (hb : LineBreak b) : Blind b post program := (carries_edited hb).program.blind

/-- Another line break changes neither whether a text is read as a program nor the tree. -/
theorem program_edited_iff (hb : LineBreak b) (h : Edited b post s s') {tree : Source} :
    program s = .done tree [] ↔ program s' = .done tree [] := by
  rcases (blind_program hb).cases h with ⟨a, r, r', hs, hs', hr⟩ | ⟨r, r', hs, hs'⟩
  · rw [hs, hs', Outcome.done.injEq, Outcome.done.injEq, hr.nil_iff hb]
  · rw [hs, hs']
    exact ⟨fun h => (nomatch h), fun h => (nomatch h)⟩

end Grammar

/-! ## Annotations -/

open Grammar

/-- The second text is the first one with a comment at the end of a line, or with an empty line or a line of a comment after it.
-/
inductive Annotated : List Char → List Char → Prop where
  | comment (pre : List Char) {w : List Char} (post : List Char) (hw : ∀ c ∈ w, isLineEnd c = false) :
      Annotated (pre ++ '\n' :: post) (pre ++ ';' :: (w ++ '\n' :: post))
  | emptyLine (pre post : List Char) : Annotated (pre ++ '\n' :: post) (pre ++ '\n' :: '\n' :: post)
  | commentLine (pre : List Char) {w : List Char} (post : List Char) (hw : ∀ c ∈ w, isLineEnd c = false) :
      Annotated (pre ++ '\n' :: post) (pre ++ '\n' :: ';' :: (w ++ '\n' :: post))

/-- An annotation is another line break in the place of a line feed. -/
theorem Annotated.exists_edited {s s' : List Char} (h : Annotated s s') (hs : '\r' ∉ s) :
    ∃ b post, LineBreak b ∧ Edited b post s s' := by
  cases h with
  | @comment pre w post hw =>
    refine ⟨';' :: (w ++ ['\n']), post, .comment hw .nil, ?_⟩
    have hedit : Edited (';' :: (w ++ ['\n'])) post _ _ := .ahead fun hr => hs (List.mem_append_left _ hr)
    simpa only [List.cons_append, List.append_assoc, List.nil_append] using hedit
  | emptyLine pre post =>
    exact ⟨['\n', '\n'], post, .line (.space rfl .nil), .ahead fun hr => hs (List.mem_append_left _ hr)⟩
  | @commentLine pre w post hw =>
    refine ⟨'\n' :: ';' :: (w ++ ['\n']), post, .line (.comment hw .nil), ?_⟩
    have hedit : Edited ('\n' :: ';' :: (w ++ ['\n'])) post _ _ := .ahead fun hr => hs (List.mem_append_left _ hr)
    simpa only [List.cons_append, List.append_assoc, List.nil_append] using hedit

namespace Program

/-- Comments and empty lines are insignificant: a text without carriage returns and the text with an annotation at any of its line
feeds are read as the same program, or neither is read. -/
theorem parse_annotated_iff (t t' : String) (ht : '\r' ∉ t.toList) (h : Annotated t.toList t'.toList) (p : Program) :
    Program.parse t = .ok p ↔ Program.parse t' = .ok p := by
  obtain ⟨b, post, hb, hedit⟩ := h.exists_edited ht
  rw [Program.parse, Program.parse, ofChars, ofChars, bind_eq_ok_iff, bind_eq_ok_iff]
  refine exists_congr fun tree => and_congr_left fun _ => ?_
  rw [Source.parse_eq_ok_iff, Source.parse_eq_ok_iff]
  exact program_edited_iff hb hedit

/-- A return without a value, and then a label like a register. -/
def labelAfterReturn : String := "program \x7b\nmethod %f() -> u8 \x7b\na: ret\nr1:\n\x7d\n\x7d"

/-- The same text, with a comment between the two that would be a value if it were none. -/
def labelAfterComment : String := "program \x7b\nmethod %f() -> u8 \x7b\na: ret; r0\nr1:\n\x7d\n\x7d"

/-- The program of both texts: the return has no value, and the label starts a block. -/
def returnThenLabel : Program where
  types := [⟨false, 8⟩]
  methods := [{ name := "f", returnType := ⟨0⟩, params := [], blocks := [⟨"a", [.ret none]⟩, ⟨"r1", []⟩] }]

theorem parse_labelAfterComment :
    ('\r' ∉ labelAfterReturn.toList ∧ Annotated labelAfterReturn.toList labelAfterComment.toList) ∧
      Program.parse labelAfterReturn = .ok returnThenLabel ∧ Program.parse labelAfterComment = .ok returnThenLabel := by
  have hreturn : '\r' ∉ labelAfterReturn.toList := by decide +kernel
  have hline : " r0".toList.all (fun c => !isLineEnd c) = true := rfl
  have hannotated : Annotated labelAfterReturn.toList labelAfterComment.toList :=
    .comment "program \x7b\nmethod %f() -> u8 \x7b\na: ret".toList (w := " r0".toList) "r1:\n\x7d\n\x7d".toList fun c hc => by
      simpa using List.all_eq_true.1 hline c hc
  have hread : Program.parse labelAfterReturn = .ok returnThenLabel := eq_ok_of_toOption (by decide +kernel)
  exact ⟨⟨hreturn, hannotated⟩, hread, (parse_annotated_iff _ _ hreturn hannotated returnThenLabel).1 hread⟩

end Program

end Straightline
