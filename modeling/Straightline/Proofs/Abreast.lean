import Straightline.Proofs.Tokens

/-!
# Reading two texts abreast

A relation of texts may be such that reading two related texts goes the same way: related texts start with the same character and
go on related, except where both start with one of a few characters that readers stop at, or are at their end, and what follows
the blanks at their front is related again (`Grammar.Carries`). Then each reader of the grammar comes to the same value on both,
with related texts left, or fails on both (`Grammar.Abreast`). This goes through all ways of making readers, also through
lookahead and through attempts that are given up. A relation of a text to itself is one case of this: it says what a reader leaves
of a text.
-/

namespace Straightline

namespace Reader

instance : LawfulMonad Reader := by
  refine LawfulMonad.mk' Reader ?_ ?_ ?_
  · intro α p
    funext s
    show (match p s with | .done a r => Outcome.done a r | .fail r => .fail r) = p s
    cases p s <;> rfl
  · intro α β a f
    rfl
  · intro α β γ p f g
    funext s
    simp only [bind_apply]
    cases p s <;> rfl

end Reader

namespace Grammar

open Reader
open Source (Stmt BlockDecl MethodDecl)

variable {α β : Type} {E : List Char → List Char → Prop} {p q : Reader α} {s s' r r' ends ends' : List Char} {k : Char → Bool}

/-! ## Readers and relations of texts -/

/-- On related texts, a reader is done with the same value and related texts left, or it fails on both. -/
def Abreast (E : List Char → List Char → Prop) (p : Reader α) : Prop :=
  ∀ s s', E s s' → (∃ a r r', p s = .done a r ∧ p s' = .done a r' ∧ E r r') ∨ Fails p s ∧ Fails p s'

/-- A relation of texts carries over from character to character, but for those in `ends`, and from before a blank to behind it.
Related texts are used up together. -/
structure Carries (ends : List Char) (E : List Char → List Char → Prop) : Prop where
  step : ∀ {s s'}, E s s' →
    (∃ c r r', s = c :: r ∧ s' = c :: r' ∧ E r r') ∨ Stops (fun c => !ends.contains c) s ∧ Stops (fun c => !ends.contains c) s'
  skip : ∀ {s s'}, E s s' → E (skipBlank s) (skipBlank s')
  shorter : ∀ {s s' r r'}, E s s' → E r r' → (r.length < s.length ↔ r'.length < s'.length)

/-- A relation that carries over from all but a few characters does so from all but those and some more. -/
theorem Carries.mono (h : Carries ends E) (hends : ends.all ends'.contains = true) : Carries ends' E := by
  refine ⟨?_, h.skip, h.shorter⟩
  intro s s' hs
  refine (h.step hs).imp_right fun hstops => ?_
  have himp : ∀ c, (!ends'.contains c) = true → (!ends.contains c) = true := by
    intro c hc
    rw [Bool.not_eq_true'] at hc ⊢
    refine Bool.eq_false_iff.2 fun hmem => ?_
    have hmem' := List.all_eq_true.1 hends c (List.contains_iff_mem.1 hmem)
    rw [hc] at hmem'
    nomatch hmem'
  exact ⟨hstops.1.imp himp, hstops.2.imp himp⟩

/-- What is read from a text is read from a related one. -/
theorem Abreast.of_done (hp : Abreast E p) (h : E s s') {a : α} (hs : p s = .done a r) : ∃ r', p s' = .done a r' ∧ E r r' := by
  rcases hp s s' h with ⟨b, t, r', ht, hs', hr⟩ | ⟨⟨t, hfail⟩, -⟩
  · rw [hs] at ht
    cases ht
    exact ⟨r', hs', hr⟩
  · rw [hs] at hfail
    cases hfail

/-! ## Ways of making readers -/

theorem abreast_pure (a : α) : Abreast E (pure a) := fun s s' h => .inl ⟨a, s, s', rfl, rfl, h⟩

theorem Abreast.bind {f : α → Reader β} (hp : Abreast E p) (hf : ∀ a, Abreast E (f a)) : Abreast E (p >>= f) := by
  intro s s' h
  rcases hp s s' h with ⟨a, r, r', hs, hs', hr⟩ | ⟨hs, hs'⟩
  · rw [bind_of_done hs rfl, bind_of_done hs' rfl]
    rcases hf a r r' hr with hdone | ⟨hfail, hfail'⟩
    · exact .inl hdone
    · exact .inr ⟨hfail.bind_of_done hs, hfail'.bind_of_done hs'⟩
  · exact .inr ⟨hs.bind f, hs'.bind f⟩

theorem Abreast.orElse (hp : Abreast E p) (hq : Abreast E q) : Abreast E (orElse p q) := by
  intro s s' h
  rcases hp s s' h with ⟨a, r, r', hs, hs', hr⟩ | ⟨hs, hs'⟩
  · exact .inl ⟨a, r, r', orElse_of_done hs, orElse_of_done hs', hr⟩
  · rw [Fails, Fails, orElse_of_fails hs, orElse_of_fails hs']
    exact hq s s' h

theorem Abreast.maybe (hp : Abreast E p) : Abreast E (maybe p) := by
  intro s s' h
  rcases hp s s' h with ⟨a, r, r', hs, hs', hr⟩ | ⟨hs, hs'⟩
  · exact .inl ⟨some a, r, r', maybe_of_done hs, maybe_of_done hs', hr⟩
  · exact .inl ⟨none, s, s', maybe_of_fails hs, maybe_of_fails hs', h⟩

theorem Abreast.notAhead (hp : Abreast E p) : Abreast E (notAhead p) := by
  intro s s' h
  rcases hp s s' h with ⟨a, r, r', hs, hs', hr⟩ | ⟨hs, hs'⟩
  · exact .inr ⟨notAhead_fails hs, notAhead_fails hs'⟩
  · exact .inl ⟨(), s, s', notAhead_of_fails hs, notAhead_of_fails hs', h⟩

theorem Abreast.filterMap (hp : Abreast E p) (f : α → Option β) : Abreast E (filterMap p f) := by
  intro s s' h
  rcases hp s s' h with ⟨a, r, r', hs, hs', hr⟩ | ⟨hs, hs'⟩
  · cases hf : f a with
    | none =>
      refine .inr ⟨⟨s, ?_⟩, ⟨s', ?_⟩⟩
      · simp only [Reader.filterMap, hs, hf]
      · simp only [Reader.filterMap, hs', hf]
    | some b => exact .inl ⟨b, r, r', filterMap_of_done hs hf, filterMap_of_done hs' hf, hr⟩
  · exact .inr ⟨hs.filterMap f, hs'.filterMap f⟩

/-- In each round of a repetition both texts are used up or neither is. -/
theorem Carries.many (h : Carries ends E) (hp : Abreast E p) : Abreast E (many p) := by
  intro s
  induction hn : s.length using Nat.strongRecOn generalizing s with
  | ind n ih =>
    intro s' hss
    rcases hp s s' hss with ⟨a, r, r', hs, hs', hr⟩ | ⟨hs, hs'⟩
    · have hlt := h.shorter hss hr
      by_cases hshort : r.length < s.length
      · rcases ih r.length (hn ▸ hshort) r rfl r' hr with ⟨as, t, t', ht, ht', htt⟩ | ⟨⟨t, ht⟩, t', ht'⟩
        · exact .inl ⟨a :: as, t, t', many_of_done hs hshort ht, many_of_done hs' (hlt.1 hshort) ht', htt⟩
        · refine .inr ⟨⟨t, ?_⟩, ⟨t', ?_⟩⟩
          · rw [Reader.many, hs]
            simp only [if_pos hshort, ht]
          · rw [Reader.many, hs']
            simp only [if_pos (hlt.1 hshort), ht']
      · refine .inr ⟨⟨s, ?_⟩, ⟨s', ?_⟩⟩
        · rw [Reader.many, hs]
          simp only [if_neg hshort]
        · rw [Reader.many, hs']
          simp only [if_neg fun h' => hshort (hlt.2 h')]
    · exact .inl ⟨[], s, s', many_of_fails hs, many_of_fails hs', hss⟩

theorem Carries.sepBy (h : Carries ends E) (hp : Abreast E p) {sep : Reader β} (hsep : Abreast E sep) :
    Abreast E (sepBy p sep) := by
  intro s s' hss
  have hrest : Abreast E (Reader.many (do let _ ← sep; p)) := h.many (hsep.bind fun _ => hp)
  rcases hp s s' hss with ⟨a, r, r', hs, hs', hr⟩ | ⟨hs, hs'⟩
  · rcases hrest r r' hr with ⟨as, t, t', ht, ht', htt⟩ | ⟨⟨t, ht⟩, t', ht'⟩
    · exact .inl ⟨a :: as, t, t', sepBy_of_done hs ht, sepBy_of_done hs' ht', htt⟩
    · refine .inr ⟨⟨t, ?_⟩, ⟨t', ?_⟩⟩
      · simp only [Reader.sepBy, hs, ht]
      · simp only [Reader.sepBy, hs', ht']
  · exact .inl ⟨[], s, s', sepBy_of_fails hs, sepBy_of_fails hs', hss⟩

/-! ## Characters and words -/

section Characters

/-- A class without the characters in `ends` is one of the characters that are not in `ends`. -/
theorem not_contains_of_class (hk : ends.all (fun c => !k c) = true) (c : Char) (hc : k c = true) :
    (!ends.contains c) = true := by
  rw [Bool.not_eq_true']
  refine Bool.eq_false_iff.2 fun hmem => ?_
  have hnot := List.all_eq_true.1 hk c (List.contains_iff_mem.1 hmem)
  rw [hc] at hnot
  nomatch hnot

variable (h : Carries ends E)
include h

/-- Related texts start with the same character of a class and go on related, or start with none. -/
theorem Carries.class (hk : ends.all (fun c => !k c) = true) (hs : E s s') :
    (∃ c r r', k c = true ∧ s = c :: r ∧ s' = c :: r' ∧ E r r') ∨ Stops k s ∧ Stops k s' := by
  rcases h.step hs with ⟨c, r, r', rfl, rfl, hr⟩ | ⟨hstop, hstop'⟩
  · cases hc : k c with
    | true => exact .inl ⟨c, r, r', hc, rfl, rfl, hr⟩
    | false => exact .inr ⟨hc, hc⟩
  · exact .inr ⟨hstop.imp (not_contains_of_class hk), hstop'.imp (not_contains_of_class hk)⟩

theorem Carries.satisfy (hk : ends.all (fun c => !k c) = true) : Abreast E (satisfy k) := by
  intro s s' hs
  rcases h.class hk hs with ⟨c, r, r', hc, rfl, rfl, hr⟩ | ⟨hstop, hstop'⟩
  · exact .inl ⟨c, r, r', satisfy_cons hc, satisfy_cons hc, hr⟩
  · exact .inr ⟨satisfy_fails hstop, satisfy_fails hstop'⟩

theorem Carries.char {c : Char} (hc : ends.all (fun d => !(d == c)) = true) : Abreast E (char c) := by
  intro s s' hs
  rcases h.class hc hs with ⟨d, r, r', hd, rfl, rfl, hr⟩ | ⟨hstop, hstop'⟩
  · obtain rfl := beq_iff_eq.1 hd
    exact .inl ⟨(), r, r', char_cons d r, char_cons d r', hr⟩
  · exact .inr ⟨char_fails hstop, char_fails hstop'⟩

/-- The characters of a class at the front of related texts are the same. -/
theorem Carries.exists_run (hk : ends.all (fun c => !k c) = true) (hs : E s s') :
    ∃ w r r', s = w ++ r ∧ s' = w ++ r' ∧ (∀ c ∈ w, k c = true) ∧ Stops k r ∧ Stops k r' ∧ E r r' := by
  induction s generalizing s' with
  | nil =>
    rcases h.class hk hs with ⟨c, r, r', _, hnil, _⟩ | ⟨hstop, hstop'⟩
    · nomatch hnil
    · exact ⟨[], [], s', rfl, rfl, (fun c hc => nomatch hc), hstop, hstop', hs⟩
  | cons c cs ih =>
    rcases h.class hk hs with ⟨d, r, r', hd, hcs, rfl, hr⟩ | ⟨hstop, hstop'⟩
    · cases hcs
      obtain ⟨w, t, t', rfl, rfl, hw, ht, ht', htt⟩ := ih hr
      exact ⟨c :: w, t, t', rfl, rfl, List.forall_mem_cons.2 ⟨hd, hw⟩, ht, ht', htt⟩
    · exact ⟨[], c :: cs, s', rfl, rfl, (fun c hc => nomatch hc), hstop, hstop', hs⟩

theorem Carries.run (hk : ends.all (fun c => !k c) = true) : Abreast E (run k) := by
  intro s s' hs
  obtain ⟨w, r, r', rfl, rfl, hw, hr, hr', hrr⟩ := h.exists_run hk hs
  exact .inl ⟨w, r, r', run_append hw hr, run_append hw hr', hrr⟩

theorem Carries.run1 (hk : ends.all (fun c => !k c) = true) : Abreast E (run1 k) := by
  intro s s' hs
  obtain ⟨w, r, r', rfl, rfl, hw, hr, hr', hrr⟩ := h.exists_run hk hs
  cases w with
  | nil =>
    have hfail : ∀ t, Stops k t → Fails (Reader.run1 k) t := by
      intro t ht
      have htake : t.takeWhile k = [] := takeWhile_append_of_stops (w := []) (fun c hc => nomatch hc) ht
      exact ⟨t, by simp [Reader.run1, htake]⟩
    exact .inr ⟨hfail r hr, hfail r' hr'⟩
  | cons c w =>
    have hne : c :: w ≠ [] := List.cons_ne_nil c w
    exact .inl ⟨c :: w, r, r', run1_append hne hw hr, run1_append hne hw hr', hrr⟩

/-- Related texts start with the same word and go on related, or neither starts with it. -/
theorem Carries.exists_word {w : List Char} (hw : ends.all (fun d => !w.contains d) = true) (hs : E s s') :
    (∃ r r', s = w ++ r ∧ s' = w ++ r' ∧ E r r') ∨ (∀ r, s ≠ w ++ r) ∧ ∀ r, s' ≠ w ++ r := by
  induction w generalizing s s' with
  | nil => exact .inl ⟨s, s', rfl, rfl, hs⟩
  | cons c w ih =>
    have hclass : ends.all (fun d => !(d == c)) = true := by
      refine List.all_eq_true.2 fun d hd => ?_
      have hnot := List.all_eq_true.1 hw d hd
      rw [List.contains_cons, Bool.not_or, Bool.and_eq_true] at hnot
      exact hnot.1
    have hrest : ends.all (fun d => !w.contains d) = true := by
      refine List.all_eq_true.2 fun d hd => ?_
      have hnot := List.all_eq_true.1 hw d hd
      rw [List.contains_cons, Bool.not_or, Bool.and_eq_true] at hnot
      exact hnot.2
    rcases h.class hclass hs with ⟨d, r, r', hd, rfl, rfl, hr⟩ | ⟨hstop, hstop'⟩
    · obtain rfl := beq_iff_eq.1 hd
      rcases ih hrest hr with ⟨t, t', rfl, rfl, htt⟩ | ⟨hnot, hnot'⟩
      · exact .inl ⟨t, t', rfl, rfl, htt⟩
      · exact .inr ⟨fun t ht => hnot t (List.cons.inj ht).2, fun t ht => hnot' t (List.cons.inj ht).2⟩
    · refine .inr ⟨?_, ?_⟩
      · rintro t rfl
        exact absurd hstop (by simp [Stops])
      · rintro t rfl
        exact absurd hstop' (by simp [Stops])

theorem Carries.word {w : String} (hw : ends.all (fun d => !w.toList.contains d) = true) : Abreast E (word w) := by
  have hfail : ∀ t, (∀ r, t ≠ w.toList ++ r) → Fails (Reader.word w) t := by
    intro t ht
    rcases fails_or_done (Reader.word w) t with hfail | ⟨_, r, hdone⟩
    · exact hfail
    · exact absurd (word_eq_done_iff.1 hdone) (ht r)
  intro s s' hs
  rcases h.exists_word hw hs with ⟨r, r', rfl, rfl, hr⟩ | ⟨hnot, hnot'⟩
  · exact .inl ⟨(), r, r', word_eq_done_iff.2 rfl, word_eq_done_iff.2 rfl, hr⟩
  · exact .inr ⟨hfail s hnot, hfail s' hnot'⟩

theorem Carries.blank : Abreast E blank := fun _ _ hs => .inl ⟨(), _, _, rfl, rfl, h.skip hs⟩

theorem Carries.wordEnd (hk : ends.all (fun c => !isIdentRest c) = true) : Abreast E wordEnd := (h.satisfy hk).notAhead

theorem Carries.keyword {w : String} (hw : ends.all (fun d => !w.toList.contains d) = true)
    (hk : ends.all (fun c => !isIdentRest c) = true) : Abreast E (keyword w) :=
  (h.word hw).bind fun _ => h.wordEnd hk

end Characters

/-! ## The parts of a method

All readers here stop at a brace that closes. -/

section Parts

variable (h : Carries ['\n', ';', '\x7d'] E)
include h

theorem Carries.gap : Abreast E gap := (h.run rfl).bind fun _ => abreast_pure ()

theorem Carries.gap1 : Abreast E gap1 := (h.run1 rfl).bind fun _ => abreast_pure ()

theorem Carries.identifier : Abreast E identifier := (h.satisfy rfl).bind fun _ => (h.run rfl).bind fun _ => abreast_pure _

theorem Carries.word32 : Abreast E word32 := (h.run1 rfl).filterMap _

theorem Carries.register : Abreast E register := by
  have hdigits : Abreast E (do Reader.char 'r'; Reader.run1 Char.isDigit : Reader (List Char)) :=
    (h.char rfl).bind fun _ => h.run1 rfl
  exact (hdigits.filterMap _).bind fun _ => (h.wordEnd rfl).bind fun _ => abreast_pure _

theorem Carries.methodName : Abreast E methodName := (h.char rfl).bind fun _ => h.identifier

theorem Carries.typeName : Abreast E typeName := h.identifier.filterMap _

theorem Carries.numeral : Abreast E numeral :=
  (h.char rfl).maybe.bind fun _ => (h.run1 rfl).bind fun _ => abreast_pure _

theorem Carries.literal : Abreast E literal := by
  refine Abreast.orElse ((h.keyword rfl rfl).bind fun _ => abreast_pure _) ?_
  exact Abreast.orElse ((h.keyword rfl rfl).bind fun _ => abreast_pure _) (h.numeral.filterMap _)

theorem Carries.comma : Abreast E comma := h.gap.bind fun _ => (h.char rfl).bind fun _ => h.gap

theorem Carries.retStmt : Abreast E retStmt := by
  have hcolon : Abreast E (do Grammar.gap; Reader.char ':' : Reader Unit) := h.gap.bind fun _ => h.char rfl
  have hvalue : Abreast E (do Grammar.gap1; Grammar.register : Reader Register) := h.gap1.bind fun _ => h.register
  exact (h.keyword rfl rfl).bind fun _ => hcolon.notAhead.bind fun _ => hvalue.maybe.bind fun _ => abreast_pure _

theorem Carries.operationName : Abreast E operationName :=
  (h.identifier.bind fun _ => h.gap1.bind fun _ => abreast_pure _).filterMap _

theorem Carries.operation (result : Register) (op : Operation) : Abreast E (operation result op) := by
  cases op with
  | add => exact h.register.bind fun _ => h.comma.bind fun _ => h.register.bind fun _ => abreast_pure _
  | loadParam => exact h.word32.bind fun _ => abreast_pure _
  | loadConst => exact h.typeName.bind fun _ => h.gap1.bind fun _ => h.literal.bind fun _ => abreast_pure _
  | call =>
    refine h.methodName.bind fun _ => h.gap.bind fun _ => (h.char rfl).bind fun _ => h.gap.bind fun _ => ?_
    refine (h.sepBy h.register h.comma).bind fun _ => h.gap.bind fun _ => ?_
    exact (h.char rfl).bind fun _ => abreast_pure _

theorem Carries.stmt : Abreast E stmt := by
  refine h.retStmt.orElse ?_
  refine h.register.bind fun _ => h.gap.bind fun _ => (h.char rfl).bind fun _ => h.gap.bind fun _ => ?_
  exact h.operationName.bind fun _ => h.operation _ _

theorem Carries.block : Abreast E block := by
  have hline : Abreast E (do let i ← Grammar.stmt; Grammar.blank; return i : Reader Stmt) :=
    h.stmt.bind fun _ => h.blank.bind fun _ => abreast_pure _
  refine h.identifier.bind fun _ => h.gap.bind fun _ => (h.char rfl).bind fun _ => h.blank.bind fun _ => ?_
  exact (h.many hline).bind fun _ => abreast_pure _

theorem Carries.params : Abreast E params := by
  have htype : Abreast E (do let t ← Grammar.typeName; Grammar.blank; return t : Reader Scalar) :=
    h.typeName.bind fun _ => h.blank.bind fun _ => abreast_pure _
  have hcomma : Abreast E (do Reader.char ','; Grammar.blank : Reader Unit) := (h.char rfl).bind fun _ => h.blank
  refine (h.char rfl).bind fun _ => h.blank.bind fun _ => (h.sepBy htype hcomma).bind fun _ => ?_
  exact (h.char rfl).bind fun _ => h.blank.bind fun _ => abreast_pure _

theorem Carries.entry : Abreast E entry := by
  refine (h.keyword rfl rfl).bind fun _ => h.blank.bind fun _ => (h.char rfl).bind fun _ => h.blank.bind fun _ => ?_
  exact h.methodName.bind fun _ => h.blank.bind fun _ => abreast_pure _

end Parts

/-! ## Methods and programs -/

/-- A method up to the brace that closes it. -/
def openMethod : Reader MethodDecl := do
  keyword "method"
  blank
  let name ← methodName
  blank
  let params ← params
  word "->"
  blank
  let returnType ← typeName
  blank
  char '\x7b'
  blank
  let blocks ← many block
  return { name, params, returnType, blocks }

/-- A program up to the brace that opens it. -/
def startProgram : Reader Unit := do
  blank
  keyword "program"
  blank

/-- A program up to its entry. -/
def openProgram : Reader Unit := do
  startProgram
  char '\x7b'
  blank

/-- The end of a method or of a program. -/
def closing : Reader Unit := do
  char '\x7d'
  blank

theorem method_eq : method = (do let d ← openMethod; closing; return d) := by
  simp only [method, openMethod, closing, bind_assoc]
  iterate 11 refine bind_congr fun _ => ?_
  apply Eq.symm
  exact bind_assoc (m := Reader) (many block) _ _

theorem program_eq :
    program = (do openProgram; let entry ← maybe entry; let methods ← many method; closing; return { entry, methods }) := by
  simp only [program, startProgram, openProgram, closing, bind_assoc]

theorem Carries.openMethod (h : Carries ['\n', ';', '\x7d'] E) : Abreast E openMethod := by
  refine (h.keyword rfl rfl).bind fun _ => h.blank.bind fun _ => h.methodName.bind fun _ => h.blank.bind fun _ => ?_
  refine h.params.bind fun _ => (h.word rfl).bind fun _ => h.blank.bind fun _ => h.typeName.bind fun _ => ?_
  refine h.blank.bind fun _ => (h.char rfl).bind fun _ => h.blank.bind fun _ => ?_
  exact (h.many h.block).bind fun _ => abreast_pure _

theorem Carries.startProgram (h : Carries ends E) (hw : ends.all (fun d => !"program".toList.contains d) = true)
    (hk : ends.all (fun c => !isIdentRest c) = true) : Abreast E startProgram :=
  h.blank.bind fun _ => (h.keyword hw hk).bind fun _ => h.blank

theorem Carries.openProgram (h : Carries ends E) (hw : ends.all (fun d => !"program".toList.contains d) = true)
    (hk : ends.all (fun c => !isIdentRest c) = true) (hc : ends.all (fun d => !(d == '\x7b')) = true) : Abreast E openProgram :=
  (h.startProgram hw hk).bind fun _ => (h.char hc).bind fun _ => h.blank

theorem Carries.method (h : Carries ['\n', ';'] E) : Abreast E method := by
  rw [method_eq]
  refine (h.mono rfl).openMethod.bind fun _ => Abreast.bind ?_ fun _ => abreast_pure _
  exact (h.char rfl).bind fun _ => h.blank

theorem Carries.program (h : Carries ['\n', ';'] E) : Abreast E program := by
  rw [program_eq]
  refine (h.openProgram rfl rfl rfl).bind fun _ => (h.mono rfl).entry.maybe.bind fun _ => (h.many h.method).bind fun _ => ?_
  refine Abreast.bind ?_ fun _ => abreast_pure _
  exact (h.char rfl).bind fun _ => h.blank

end Grammar

end Straightline
