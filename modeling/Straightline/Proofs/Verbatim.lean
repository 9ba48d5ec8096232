import Straightline.Proofs.Reread
import Straightline.Proofs.Spelling

/-!
# What is written is what was read

Reading a program and writing it again loses nothing of a plainly spelled text and adds nothing to it, comments and white space
apart (`Program.dense_uncomment_eq`). Both texts come down to the tree between them, written without white space (`Source.dense`).
For the text that is read this is an invariant of reading: a reader goes from one place of the text to another, and what stands
before the place, without white space, grows by what the reader is done with (`Grammar.Reads`, `Grammar.ReadTo`).
-/

namespace Straightline

open Reader

/-! ## Trees without white space -/

/-- Items with a comma between them. -/
def commaJoined : List (List Char) → List Char
  | [] => []
  | x :: xs => x ++ xs.flatMap (',' :: ·)

namespace Source

/-- A statement without white space. -/
def Stmt.dense : Stmt → List Char
  | .add r a b => Register.chars r ++ '=' :: "add".toList ++ Register.chars a ++ ',' :: Register.chars b
  | .loadParam r i => Register.chars r ++ '=' :: "ld_param".toList ++ Decimal.digits i.toNat
  | .loadConst r t c => Register.chars r ++ '=' :: "ld_const".toList ++ t.nameChars ++ c.chars
  | .call r callee args =>
    Register.chars r ++ '=' :: "call".toList ++ '%' :: callee.toList ++ '(' :: commaJoined (args.map Register.chars) ++ [')']
  | .ret value => "ret".toList ++ value.elim [] Register.chars

/-- A block without white space. -/
def BlockDecl.dense (b : BlockDecl) : List Char := b.name.toList ++ ':' :: b.stmts.flatMap Stmt.dense

/-- A method without white space. -/
def MethodDecl.dense (d : MethodDecl) : List Char :=
  "method".toList ++ '%' :: d.name.toList ++ '(' :: commaJoined (d.params.map Scalar.nameChars) ++ ')' :: "->".toList ++
    d.returnType.nameChars ++ '\x7b' :: d.blocks.flatMap BlockDecl.dense ++ ['\x7d']

/-- The entry of a tree without white space. -/
def entryDense : Option String → List Char
  | some name => "entry".toList ++ ':' :: '%' :: name.toList
  | none => []

theorem entryDense_some (name : String) : entryDense (some name) = "entry".toList ++ ':' :: '%' :: name.toList := rfl

/-- A tree without white space. -/
def dense (s : Source) : List Char :=
  "program".toList ++ '\x7b' :: entryDense s.entry ++ s.methods.flatMap MethodDecl.dense ++ ['\x7d']

end Source

namespace Grammar

open Source (Stmt BlockDecl MethodDecl)

variable {α β : Type} {w u x d s r : List Char} {off : Bool}

/-! ## Places in a text -/

section Rules

variable {P : List Char → Prop} {p q : Reader α} {Q : α → List Char → Prop}

/-- From a place of the text `w`, comments apart, where `P` holds of what stands before it, a reader that is done comes to a place
where `Q` does. -/
def Reads (w : List Char) (P : List Char → Prop) (p : Reader α) (Q : α → List Char → Prop) : Prop :=
  ∀ u s a r, w = u ++ uncomment s → P u → p s = .done a r → ∃ u', w = u' ++ uncomment r ∧ Q a u'

theorem reads_pure {a : α} (h : ∀ u, P u → Q a u) : Reads w P (pure a) Q := by
  intro u s b r hw hu hb
  cases hb
  exact ⟨u, hw, h u hu⟩

theorem Reads.bind {f : α → Reader β} {R : β → List Char → Prop} (hp : Reads w P p Q) (hf : ∀ a, Reads w (Q a) (f a) R) :
    Reads w P (p >>= f) R := by
  intro u s b t hw hu h
  obtain ⟨a, r, ha, hb⟩ := bind_eq_done_iff.1 h
  obtain ⟨u', hw', hu'⟩ := hp u s a r hw hu ha
  exact hf a u' r b t hw' hu' hb

theorem Reads.filterMap {f : α → Option β} {R : β → List Char → Prop} (hp : Reads w P p Q)
    (hf : ∀ a b u, f a = some b → Q a u → R b u) : Reads w P (filterMap p f) R := by
  intro u s b r hw hu h
  obtain ⟨a, ha, hab⟩ := exists_done_of_filterMap h
  obtain ⟨u', hw', hu'⟩ := hp u s a r hw hu ha
  exact ⟨u', hw', hf a b u' hab hu'⟩

theorem Reads.orElse (hp : Reads w P p Q) (hq : Reads w P q Q) : Reads w P (orElse p q) Q := by
  intro u s a r hw hu h
  rcases fails_or_done p s with hfail | ⟨b, t, hdone⟩
  · rw [orElse_of_fails hfail] at h
    exact hq u s a r hw hu h
  · rw [orElse_of_done hdone, ← hdone] at h
    exact hp u s a r hw hu h

theorem Reads.maybe {Q : Option α → List Char → Prop} (hp : Reads w P p fun a => Q (some a)) (hnone : ∀ u, P u → Q none u) :
    Reads w P (maybe p) Q := by
  intro u s a r hw hu h
  rcases fails_or_done p s with hfail | ⟨b, t, hdone⟩
  · rw [maybe_of_fails hfail] at h
    cases h
    exact ⟨u, hw, hnone u hu⟩
  · rw [maybe_of_done hdone] at h
    cases h
    exact hp u s b r hw hu hdone

theorem reads_notAhead : Reads w P (notAhead p) fun _ => P := by
  intro u s a r hw hu h
  rcases fails_or_done p s with hfail | ⟨b, t, hdone⟩
  · rw [notAhead_of_fails hfail] at h
    cases h
    exact ⟨u, hw, hu⟩
  · obtain ⟨t, hfail⟩ := notAhead_fails hdone
    rw [hfail] at h
    cases h

end Rules

/-- What stands before a place of a text is, without white space, `d`. If `off`, it does not end within a word or a number. -/
structure ReadTo (off : Bool) (d u : List Char) : Prop where
  dense : dense u = d
  ends : off = true → EndsOff isIdentRest u

namespace ReadTo

theorem weaken (h : ReadTo off d u) : ReadTo false d u := ⟨h.dense, fun hoff => nomatch hoff⟩

/-- Something without white space is read. -/
theorem append (h : ReadTo off d u) (hx : ∀ c ∈ x, isBlankStart c = false) : ReadTo false (d ++ x) (u ++ x) := by
  refine ⟨?_, fun hoff => nomatch hoff⟩
  have hkeep : Grammar.dense x = x := by
    refine List.filter_eq_self.2 fun c hc => ?_
    have hc := hx c hc
    simp only [isBlankStart, Bool.or_eq_false_iff] at hc
    simp [hc.1]
  rw [Grammar.dense, List.filter_append]
  exact congrArg₂ (· ++ ·) h.dense hkeep

/-- Something without white space is read that is no part of a word or a number. -/
theorem mark (h : ReadTo off d u) (hx : ∀ c ∈ x, isBlankStart c = false) (hmark : ∀ c ∈ x, isIdentRest c = false) (hne : x ≠ []) :
    ReadTo true (d ++ x) (u ++ x) :=
  ⟨(h.append hx).dense, fun _ => endsOff_append hmark hne u⟩

/-- White space is read. -/
theorem space (h : ReadTo off d u) (hx : ∀ c ∈ x, isSpace c = true) : ReadTo off d (u ++ x) := by
  have hdrop : Grammar.dense x = [] := List.filter_eq_nil_iff.2 fun c hc => by simp [hx c hc]
  refine ⟨?_, fun hoff => ?_⟩
  · rw [Grammar.dense, List.filter_append]
    exact (congrArg₂ (· ++ ·) h.dense hdrop).trans (List.append_nil d)
  · cases x with
    | nil =>
      rw [List.append_nil]
      exact h.ends hoff
    | cons c x => exact endsOff_append (fun c hc => isIdentRest_of_isSpace (hx c hc)) (List.cons_ne_nil c x) u

/-- White space is read that ends a word or a number. -/
theorem space_of_ne_nil (h : ReadTo off d u) (hx : ∀ c ∈ x, isSpace c = true) (hne : x ≠ []) : ReadTo true d (u ++ x) :=
  ⟨(h.space hx).dense, fun _ => endsOff_append (fun c hc => isIdentRest_of_isSpace (hx c hc)) hne u⟩

end ReadTo

/-! ## Readers of tokens -/

/-- What has no blank in it is not a comment. -/
theorem uncomment_token (hx : ∀ c ∈ x, isBlankStart c = false) (r : List Char) : uncomment (x ++ r) = x ++ uncomment r := by
  refine uncomment_append (fun c hc => ?_) r
  rintro rfl
  exact absurd (hx _ hc) (by decide)

/-- What is written the way it is read is read. -/
theorem reads_token {p : Reader α} {f : α → List Char}
    (hp : ∀ u s a r, w = u ++ uncomment s → ReadTo off d u → p s = .done a r → s = f a ++ r ∧ ∀ c ∈ f a, isBlankStart c = false) :
    Reads w (ReadTo off d) p fun a => ReadTo false (d ++ f a) := by
  intro u s a r hw hu h
  obtain ⟨rfl, hf⟩ := hp u s a r hw hu h
  refine ⟨u ++ f a, ?_, hu.append hf⟩
  rw [hw, uncomment_token hf, List.append_assoc]

/-- A given mark is read. -/
theorem reads_mark {p : Reader Unit} (hp : ∀ s r, p s = .done () r → s = x ++ r)
    (hx : x.all (fun c => !isBlankStart c && !isIdentRest c) = true) (hne : x ≠ []) :
    Reads w (ReadTo off d) p fun _ => ReadTo true (d ++ x) := by
  intro u s a r hw hu h
  obtain rfl := hp s r h
  simp only [List.all_eq_true, Bool.and_eq_true, Bool.not_eq_true'] at hx
  refine ⟨u ++ x, ?_, hu.mark (fun c hc => (hx c hc).1) (fun c hc => (hx c hc).2) hne⟩
  rw [hw, uncomment_token fun c hc => (hx c hc).1, List.append_assoc]

theorem reads_char {c : Char} (hc : (!isBlankStart c && !isIdentRest c) = true) :
    Reads w (ReadTo off d) (char c) fun _ => ReadTo true (d ++ [c]) :=
  reads_mark (fun _ _ => char_eq_done_iff.1) (by simpa using hc) (List.cons_ne_nil c [])

theorem reads_arrow : Reads w (ReadTo off d) (word "->") fun _ => ReadTo true (d ++ "->".toList) :=
  reads_mark (fun _ _ => word_eq_done_iff.1) rfl (by simp)

/-- A character of a word is no blank. -/
theorem isBlankStart_of_isIdentRest {c : Char} (h : isIdentRest c = true) : isBlankStart c = false := by
  refine Bool.eq_false_iff.2 fun hb => ?_
  rw [isIdentRest_of_isBlankStart hb] at h
  cases h

theorem reads_keyword {k : String} (hk : k.toList.all isIdentRest = true) :
    Reads w (ReadTo off d) (keyword k) fun _ => ReadTo false (d ++ k.toList) := by
  refine reads_token fun u s _ r _ _ h => ?_
  obtain ⟨_, t, hword, hend⟩ := bind_eq_done_iff.1 h
  obtain ⟨rfl, -⟩ := stops_of_wordEnd hend
  exact ⟨word_eq_done_iff.1 hword, fun c hc => isBlankStart_of_isIdentRest (List.all_eq_true.1 hk c hc)⟩

theorem isBlankStart_of_mem_identifier {cs : List Char} (h : isIdentifier cs = true) : ∀ c ∈ cs, isBlankStart c = false :=
  fun c hc => isBlankStart_of_isIdentRest (isIdentRest_of_mem h c hc)

theorem reads_identifier : Reads w (ReadTo off d) identifier fun name => ReadTo false (d ++ name.toList) :=
  reads_token fun _ s name r _ _ h =>
    ⟨(eq_append_of_identifier h).1, isBlankStart_of_mem_identifier (identifier_yields s name r h)⟩

theorem reads_methodName : Reads w (ReadTo off d) methodName fun name => ReadTo false (d ++ ['%'] ++ name.toList) :=
  (reads_char rfl).bind fun _ => reads_identifier

/-- What does not go on with a word does not do so without its comments. -/
theorem stops_uncomment (h : Stops isIdentRest r) : Stops isIdentRest (uncomment r) := by
  cases r with
  | nil => rw [uncomment_nil]; trivial
  | cons c cs =>
    by_cases hc : c = ';'
    · rw [hc, uncomment_comment]
      have hline : Stops (· != '\n') (cs.dropWhile (· != '\n')) := stops_dropWhile
      generalize cs.dropWhile (· != '\n') = t at hline
      cases t with
      | nil => rw [uncomment_nil]; trivial
      | cons b t =>
        have hb : b = '\n' := by simpa [Stops] using hline
        rw [hb, uncomment_cons (by decide)]
        exact rfl
    · rw [uncomment_cons hc]
      exact h

theorem reads_typeName (hw : Plain w) (hd : expectsType d = true) :
    Reads w (ReadTo true d) typeName fun t => ReadTo false (d ++ t.nameChars) := by
  refine reads_token fun u s t r hs hu h => ?_
  obtain ⟨name, hname, ht⟩ := exists_done_of_filterMap h
  obtain ⟨rfl, hstop⟩ := eq_append_of_identifier hname
  have hchars := isBlankStart_of_mem_identifier (identifier_yields _ name r hname)
  rw [uncomment_token hchars] at hs
  have hdue : typeDue u = true := by
    rw [typeDue, hu.dense, hd, Bool.and_true]
    exact hu.ends rfl
  rw [hw.nameChars hs hdue (stops_uncomment hstop) ht]
  exact ⟨rfl, hchars⟩

/-- Digits are no blanks. -/
theorem isBlankStart_of_digits {ds : List Char} (h : ∀ c ∈ ds, c.isDigit = true) : ∀ c ∈ ds, isBlankStart c = false :=
  fun c hc => isBlankStart_of_isIdentRest (isIdentRest_of_isDigit (h c hc))

theorem reads_word32 (hw : Plain w) : Reads w (ReadTo true d) word32 fun n => ReadTo false (d ++ Decimal.digits n.toNat) := by
  refine reads_token fun u s n r hs hu h => ?_
  obtain ⟨ds, hrun, hn⟩ := exists_done_of_filterMap h
  obtain ⟨rfl, hds, -⟩ := eq_append_of_run1 hrun
  rw [uncomment_token (isBlankStart_of_digits hds)] at hs
  rw [hw.word32Of? hs (hu.ends rfl).isDigit hds (ne_nil_of_run1 hrun) hn]
  exact ⟨rfl, isBlankStart_of_digits hds⟩

theorem reads_register (hw : Plain w) : Reads w (ReadTo off d) register fun n => ReadTo false (d ++ Register.chars n) := by
  refine reads_token fun u s n r hs hu h => ?_
  obtain ⟨n', t, hnum, h⟩ := bind_eq_done_iff.1 h
  obtain ⟨_, t', hend, h⟩ := bind_eq_done_iff.1 h
  cases h
  obtain ⟨rfl, -⟩ := stops_of_wordEnd hend
  obtain ⟨ds, hdigits, hn⟩ := exists_done_of_filterMap hnum
  obtain ⟨_, t', hr, hrun⟩ := bind_eq_done_iff.1 hdigits
  obtain rfl := char_eq_done_iff.1 hr
  obtain ⟨rfl, hds, -⟩ := eq_append_of_run1 hrun
  have hchars : ∀ c ∈ 'r' :: ds, isBlankStart c = false := List.forall_mem_cons.2 ⟨rfl, isBlankStart_of_digits hds⟩
  have hs' : w = u ++ ['r'] ++ (ds ++ uncomment t) := by
    rw [hs, List.append_assoc]
    exact congrArg (u ++ ·) (uncomment_token hchars t)
  rw [Register.chars, hw.word32Of? hs' (endsOff_concat rfl u) hds (ne_nil_of_run1 hrun) hn]
  exact ⟨rfl, hchars⟩

/-- A numeral is read up to its end. -/
theorem eq_append_of_numeral {sign : Option Unit} {ds : List Char} (h : numeral s = .done (sign, ds) r) :
    s = signChars sign ++ (ds ++ r) ∧ (∀ c ∈ ds, c.isDigit = true) ∧ ds ≠ [] := by
  obtain ⟨sign', t, hsign, h⟩ := bind_eq_done_iff.1 h
  obtain ⟨ds', t', hrun, h⟩ := bind_eq_done_iff.1 h
  cases h
  obtain ⟨rfl, hds, -⟩ := eq_append_of_run1 hrun
  refine ⟨?_, hds, ne_nil_of_run1 hrun⟩
  rcases fails_or_done (char '-') s with hfail | ⟨_, t', hdone⟩
  · rw [maybe_of_fails hfail] at hsign
    cases hsign
    rfl
  · rw [maybe_of_done hdone] at hsign
    cases hsign
    exact char_eq_done_iff.1 hdone

theorem reads_literal (hw : Plain w) : Reads w (ReadTo true d) literal fun c => ReadTo false (d ++ c.chars) := by
  refine Reads.orElse ((reads_keyword rfl).bind fun _ => reads_pure fun _ hu => hu) ?_
  refine Reads.orElse ((reads_keyword rfl).bind fun _ => reads_pure fun _ hu => hu) ?_
  refine reads_token fun u s c r hs hu h => ?_
  obtain ⟨⟨sign, ds⟩, hnumeral, hc⟩ := exists_done_of_filterMap h
  obtain ⟨rfl, hds, hne⟩ := eq_append_of_numeral hnumeral
  have hchars : ∀ b ∈ signChars sign ++ ds, isBlankStart b = false := by
    intro b hb
    rcases List.mem_append.1 hb with hb | hb
    · cases sign with
      | none => nomatch hb
      | some minus =>
        rw [List.mem_singleton.1 hb]
        rfl
    · exact isBlankStart_of_digits hds b hb
  rw [← List.append_assoc] at hs ⊢
  rw [uncomment_token hchars, List.append_assoc] at hs
  rw [hw.constantChars hs (hu.ends rfl).isDigit hds hne hc]
  exact ⟨rfl, hchars⟩

/-! ## Readers of white space -/

theorem reads_blank : Reads w (ReadTo off d) blank fun _ => ReadTo off d := by
  intro u s a r hw hu h
  cases h
  obtain ⟨x, hx, hspace⟩ := uncomment_skipBlank s
  refine ⟨u ++ x, ?_, hu.space hspace⟩
  rw [hw, hx, List.append_assoc]

/-- A gap is white space and no comment. -/
theorem uncomment_gap (hx : ∀ c ∈ x, isGap c = true) (r : List Char) : uncomment (x ++ r) = x ++ uncomment r := by
  refine uncomment_append (fun c hc => ?_) r
  rintro rfl
  exact absurd (hx _ hc) (by decide)

theorem reads_gap : Reads w (ReadTo off d) gap fun _ => ReadTo off d := by
  intro u s a r hw hu h
  cases h
  have hgap : ∀ c ∈ s.takeWhile isGap, isGap c = true := List.all_eq_true.1 List.all_takeWhile
  refine ⟨u ++ s.takeWhile isGap, ?_, hu.space fun c hc => isSpace_of_isGap (hgap c hc)⟩
  rw [hw, List.append_assoc, ← uncomment_gap hgap, List.takeWhile_append_dropWhile]

theorem reads_gap1 : Reads w (ReadTo off d) gap1 fun _ => ReadTo true d := by
  intro u s a r hw hu h
  obtain ⟨x, t, hrun, h⟩ := bind_eq_done_iff.1 h
  cases h
  obtain ⟨rfl, hgap, -⟩ := eq_append_of_run1 hrun
  refine ⟨u ++ x, ?_, hu.space_of_ne_nil (fun c hc => isSpace_of_isGap (hgap c hc)) (ne_nil_of_run1 hrun)⟩
  rw [hw, List.append_assoc, ← uncomment_gap hgap]

/-- An operation is found by its own name. -/
theorem Operation.name_eq_of_ofName? {name : String} {op : Operation} (h : Operation.ofName? name = some op) :
    op.name = name := by
  have hname := List.find?_some (p := fun op : Operation => op.name == name) h
  exact beq_iff_eq.1 hname

theorem reads_operationName : Reads w (ReadTo off d) operationName fun op => ReadTo true (d ++ op.name.toList) := by
  have hname : Reads w (ReadTo off d) (do let name ← identifier; gap1; return name : Reader String) fun name =>
      ReadTo true (d ++ name.toList) :=
    reads_identifier.bind fun name => reads_gap1.bind fun _ => reads_pure fun _ hu => hu
  refine hname.filterMap fun name op u hop hu => ?_
  rw [Operation.name_eq_of_ofName? hop]
  exact hu

theorem reads_comma : Reads w (ReadTo off d) comma fun _ => ReadTo true (d ++ [',']) :=
  reads_gap.bind fun _ => (reads_char rfl).bind fun _ => reads_gap

/-! ## Readers of lists -/

section Lists

variable {p : Reader α} {f : α → List Char}

/-- A value is what was read since a place. -/
theorem reads_pure_of_eq {a : α} {d' : List Char} (h : d' = d ++ f a) :
    Reads w (ReadTo off d') (pure a) fun a => ReadTo false (d ++ f a) :=
  reads_pure fun _ hu => h ▸ hu.weaken

/-- Items one after the other are read. -/
theorem Reads.many (hp : ∀ d, Reads w (ReadTo false d) p fun a => ReadTo false (d ++ f a)) (d : List Char) :
    Reads w (ReadTo off d) (many p) fun as => ReadTo false (d ++ as.flatMap f) := by
  intro u s as t hw hu h
  fun_induction Reader.many p s generalizing off d u as t with
  | case1 s r hfail =>
    cases h
    exact ⟨u, hw, by simpa using hu.weaken⟩
  | case2 s a r hdone hlt as' t' hmany ih =>
    cases h
    obtain ⟨v, hv, hread⟩ := hp d u s a r hw hu.weaken hdone
    obtain ⟨v', hv', hread'⟩ := ih (d ++ f a) v as' t' hv hread hmany
    exact ⟨v', hv', by simpa using hread'⟩
  | case3 s a r hdone hlt t' hmany ih => cases h
  | case4 s a r hdone hlt => cases h

/-- Items with commas between them are read. -/
theorem Reads.sepBy {sep : Reader β} (hp : Reads w (ReadTo off d) p fun a => ReadTo false (d ++ f a))
    (hnext : ∀ d, Reads w (ReadTo false d) (do let _ ← sep; p) fun a => ReadTo false (d ++ ',' :: f a)) :
    Reads w (ReadTo off d) (sepBy p sep) fun as => ReadTo false (d ++ commaJoined (as.map f)) := by
  intro u s as t hw hu h
  rcases fails_or_done p s with hfail | ⟨a, r, hdone⟩
  · rw [sepBy_of_fails hfail] at h
    cases h
    exact ⟨u, hw, by simpa [commaJoined] using hu.weaken⟩
  · obtain ⟨v, hv, hread⟩ := hp u s a r hw hu hdone
    simp only [Reader.sepBy, hdone] at h
    split at h
    · next as' t' hmany =>
      cases h
      obtain ⟨v', hv', hread'⟩ := Reads.many hnext _ v r as' t hv hread hmany
      refine ⟨v', hv', ?_⟩
      simpa [commaJoined, List.flatMap_map] using hread'
    · cases h

end Lists

/-! ## Statements and declarations -/

section Plain

variable (hw : Plain w) (d : List Char)

include hw

theorem reads_retStmt : Reads w (ReadTo false d) retStmt fun st => ReadTo false (d ++ st.dense) := by
  refine (reads_keyword rfl).bind fun _ => reads_notAhead.bind fun _ => ?_
  have hvalue : Reads w (ReadTo false (d ++ "ret".toList)) (maybe (do gap1; register)) fun value =>
      ReadTo false (d ++ "ret".toList ++ value.elim [] Register.chars) := by
    refine Reads.maybe (reads_gap1.bind fun _ => reads_register hw) fun u hu => ?_
    rw [Option.elim_none, List.append_nil]
    exact hu
  exact hvalue.bind fun value => reads_pure_of_eq (by rw [Stmt.dense, List.append_assoc])

theorem reads_operation (result : Register) (op : Operation) :
    Reads w (ReadTo true (d ++ Register.chars result ++ ['='] ++ op.name.toList)) (operation result op) fun st =>
      ReadTo false (d ++ st.dense) := by
  cases op with
  | add =>
    refine (reads_register hw).bind fun a => reads_comma.bind fun _ => (reads_register hw).bind fun b => reads_pure_of_eq ?_
    simp only [Stmt.dense, Operation.name, List.append_assoc, List.cons_append, List.nil_append]
  | loadParam =>
    refine (reads_word32 hw).bind fun index => reads_pure_of_eq ?_
    simp only [Stmt.dense, Operation.name, List.append_assoc, List.cons_append, List.nil_append]
  | loadConst =>
    refine (reads_typeName hw (expectsType_append (by simp [Operation.name]) _)).bind fun type => reads_gap1.bind fun _ => ?_
    refine (reads_literal hw).bind fun value => reads_pure_of_eq ?_
    simp only [Stmt.dense, Operation.name, List.append_assoc, List.cons_append, List.nil_append]
  | call =>
    refine reads_methodName.bind fun callee => reads_gap.bind fun _ => (reads_char rfl).bind fun _ => reads_gap.bind fun _ => ?_
    refine Reads.bind (Reads.sepBy (reads_register hw) fun d => ?_) fun args => ?_
    · refine reads_comma.bind fun _ => ?_
      have hreg : Reads w (ReadTo true (d ++ [','])) register _ := reads_register hw
      simpa using hreg
    · refine reads_gap.bind fun _ => (reads_char rfl).bind fun _ => reads_pure_of_eq ?_
      simp only [Stmt.dense, Operation.name, List.append_assoc, List.cons_append, List.nil_append]

theorem reads_stmt : Reads w (ReadTo false d) stmt fun st => ReadTo false (d ++ st.dense) := by
  refine Reads.orElse (reads_retStmt hw d) ?_
  refine (reads_register hw).bind fun result => reads_gap.bind fun _ => (reads_char rfl).bind fun _ => reads_gap.bind fun _ => ?_
  exact reads_operationName.bind fun op => reads_operation hw d result op

theorem reads_block : Reads w (ReadTo false d) block fun b => ReadTo false (d ++ b.dense) := by
  refine reads_identifier.bind fun name => reads_gap.bind fun _ => (reads_char rfl).bind fun _ => reads_blank.bind fun _ => ?_
  have hline : ∀ d, Reads w (ReadTo false d) (do let i ← stmt; blank; return i) fun st => ReadTo false (d ++ st.dense) :=
    fun d => (reads_stmt hw d).bind fun st => reads_blank.bind fun _ => reads_pure fun _ hu => hu
  refine Reads.bind (Reads.many hline _) ?_
  exact fun stmts => reads_pure_of_eq (by simp only [BlockDecl.dense, List.append_assoc, List.cons_append, List.nil_append])

theorem reads_params :
    Reads w (ReadTo false d) params fun ts => ReadTo false (d ++ '(' :: commaJoined (ts.map Scalar.nameChars) ++ [')']) := by
  have htype : ∀ {d}, expectsType d = true →
      Reads w (ReadTo true d) (do let t ← typeName; blank; return t) fun t => ReadTo false (d ++ t.nameChars) :=
    fun hd => (reads_typeName hw hd).bind fun t => reads_blank.bind fun _ => reads_pure fun _ hu => hu
  refine (reads_char rfl).bind fun _ => reads_blank.bind fun _ => ?_
  refine Reads.bind (Reads.sepBy (htype (expectsType_append (e := "(") (by simp) d)) fun d => ?_) fun ts => ?_
  · refine Reads.bind ((reads_char rfl).bind fun _ => reads_blank) fun _ => ?_
    have hnext := htype (expectsType_append (e := ",") (by simp) d)
    simpa using hnext
  · refine (reads_char rfl).bind fun _ => reads_blank.bind fun _ => reads_pure fun u hu => ?_
    simpa using hu.weaken

theorem reads_method : Reads w (ReadTo false d) method fun m => ReadTo false (d ++ m.dense) := by
  refine (reads_keyword rfl).bind fun _ => ?_
  refine reads_blank.bind fun _ => ?_
  refine reads_methodName.bind fun name => ?_
  refine reads_blank.bind fun _ => ?_
  refine (reads_params hw _).bind fun params => reads_arrow.bind fun _ => reads_blank.bind fun _ => ?_
  refine (reads_typeName hw (expectsType_append (by simp) _)).bind fun returnType => reads_blank.bind fun _ => ?_
  refine (reads_char rfl).bind fun _ => reads_blank.bind fun _ => (Reads.many (reads_block hw) _).bind fun blocks => ?_
  refine (reads_char rfl).bind fun _ => reads_blank.bind fun _ => reads_pure_of_eq ?_
  unfold MethodDecl.dense
  simp only [List.append_assoc, List.cons_append, List.nil_append]

omit hw in
theorem reads_entry : Reads w (ReadTo off d) (maybe entry) fun e => ReadTo false (d ++ Source.entryDense e) := by
  refine Reads.maybe ?_ fun u hu => (List.append_nil d).symm ▸ hu.weaken
  refine (reads_keyword rfl).bind fun _ => reads_blank.bind fun _ => (reads_char rfl).bind fun _ => reads_blank.bind fun _ => ?_
  refine reads_methodName.bind fun name => reads_blank.bind fun _ => reads_pure fun u hu => ?_
  rw [Source.entryDense_some]
  simpa only [List.append_assoc, List.cons_append, List.nil_append] using hu

/-- Reading a program copies its tree, and so each part of it copies the part of the tree it is done with. -/
theorem reads_program : Reads w (ReadTo false d) program fun tree => ReadTo false (d ++ tree.dense) := by
  refine reads_blank.bind fun _ => ?_
  refine (reads_keyword rfl).bind fun _ => ?_
  refine reads_blank.bind fun _ => ?_
  refine (reads_char rfl).bind fun _ => ?_
  refine reads_blank.bind fun _ => (reads_entry _).bind fun entry => (Reads.many (reads_method hw) _).bind fun methods => ?_
  refine (reads_char rfl).bind fun _ => reads_blank.bind fun _ => reads_pure_of_eq ?_
  unfold Source.dense
  simp only [List.append_assoc, List.cons_append, List.nil_append]

end Plain

/-- A plainly spelled text that is read whole is, without comments and white space, its tree without white space. -/
theorem dense_of_program {t : List Char} {tree : Source} (h : program t = .done tree []) (ht : Plain (uncomment t)) :
    dense (uncomment t) = tree.dense := by
  obtain ⟨u, hu, hread⟩ := reads_program ht [] [] t tree [] rfl ⟨rfl, fun hoff => nomatch hoff⟩ h
  rw [uncomment_nil, List.append_nil] at hu
  rw [hu]
  exact hread.dense

end Grammar

/-! ## The text of a program without white space -/

/-- A character that is neither a space nor a line feed. -/
def isInk (c : Char) : Bool := c != ' ' && c != '\n'

namespace Program

open Grammar
open Source (Stmt BlockDecl MethodDecl)

variable {p : Program} {x : List Char}

/-- A word has no white space. -/
theorem filter_isInk (h : ∀ c ∈ x, isIdentRest c = true) : x.filter isInk = x := by
  refine List.filter_eq_self.2 fun c hc => ?_
  refine Bool.and_eq_true_iff.2 ⟨bne_iff_ne.2 ?_, bne_iff_ne.2 ?_⟩
  · rintro rfl
    exact absurd (h _ hc) (by decide)
  · rintro rfl
    exact absurd (h _ hc) (by decide)

theorem filter_isInk_digits (n : Nat) : (Decimal.digits n).filter isInk = Decimal.digits n :=
  filter_isInk fun c hc => isIdentRest_of_isDigit (Decimal.isDigit_of_mem_digits n c hc)

theorem filter_isInk_register (r : Register) : (Register.chars r).filter isInk = Register.chars r := by
  rw [Register.chars, List.filter_cons_of_pos rfl, filter_isInk_digits]

theorem filter_isInk_nameChars (t : Scalar) : t.nameChars.filter isInk = t.nameChars :=
  filter_isInk (isIdentRest_of_mem (Scalar.isIdentifier_nameChars t))

theorem filter_isInk_constant (c : Constant) : c.chars.filter isInk = c.chars := by
  cases c with
  | int v =>
    rw [Constant.chars]
    cases v.toInt with
    | ofNat n => exact filter_isInk_digits n
    | negSucc n =>
      rw [Decimal.intDigits, List.filter_cons_of_pos rfl, filter_isInk_digits]
  | uint v => exact filter_isInk_digits _
  | bool b => cases b <;> rfl

/-- Items with commas are, without white space, items with commas. -/
theorem filter_isInk_commaSeparated {α : Type} {f : α → List Char} (hf : ∀ a, (f a).filter isInk = f a) (as : List α) :
    (commaSeparated (as.map f)).filter isInk = commaJoined (as.map f) := by
  cases as with
  | nil => rfl
  | cons a as =>
    have hnext : ∀ a, (", ".toList ++ f a).filter isInk = ',' :: f a := by
      intro a
      rw [List.filter_append, hf]
      rfl
    rw [List.map_cons, commaSeparated_cons, List.filter_append, hf, List.filter_flatMap, commaJoined, List.flatMap_map,
      List.flatMap_map]
    simp only [hnext]

/-- The text of an instruction is, without white space, the statement it realizes. -/
theorem WellFormed.filter_instrChars (hp : p.WellFormed) {i : Instr} {st : Stmt} (h : p.RealizesStmt i st) :
    (p.instrChars i).filter isInk = st.dense := by
  cases h with
  | add r a b =>
    unfold instrChars Stmt.dense
    simp only [List.filter_append, filter_isInk_register]
    simp [isInk]
  | loadParam r i =>
    unfold instrChars Stmt.dense
    simp only [List.filter_append, filter_isInk_register, filter_isInk_digits]
    simp [isInk]
  | loadConst r c ht =>
    unfold instrChars Stmt.dense
    simp only [List.filter_append, List.filter_cons, typeChars_of_type? ht, filter_isInk_register, filter_isInk_nameChars,
      filter_isInk_constant]
    simp [isInk]
  | call r args hm =>
    unfold instrChars Stmt.dense
    simp only [List.filter_append, List.filter_cons, methodChars_of_method? hm, filter_isInk_register,
      filter_isInk (isIdentRest_of_mem (hp.method hm).name), filter_isInk_commaSeparated filter_isInk_register]
    simp [isInk]
  | ret v =>
    cases v with
    | none => rfl
    | some r =>
      unfold instrChars Stmt.dense
      rw [List.filter_append, filter_isInk_register]
      rfl

/-- The lines of a block are, without white space, the block it realizes. -/
theorem WellFormed.filter_blockLines (hp : p.WellFormed) {b : Block} {d : BlockDecl} (h : p.RealizesBlock b d)
    (hname : isIdentifier b.name.toList = true) : (p.blockLines b).filter isInk = d.dense := by
  have hlines : (b.instrs.flatMap p.instrLine).filter isInk = d.stmts.flatMap Stmt.dense := by
    rw [List.filter_flatMap]
    refine flatMap_eq_of_forall₂ h.instrs fun i st hi => ?_
    unfold instrLine
    rw [List.filter_append, List.filter_append, hp.filter_instrChars hi]
    simp [isInk]
  unfold blockLines BlockDecl.dense
  rw [List.filter_append, List.filter_append, List.filter_append, hlines, filter_isInk (isIdentRest_of_mem hname), h.name]
  simp [isInk]

/-- The lines of a method are, without white space, the method it realizes. -/
theorem WellFormed.filter_methodLines (hp : p.WellFormed) {m : Method} {d : MethodDecl} (h : p.RealizesMethod m d)
    (hm : p.MethodWellFormed m) : (p.methodLines m).filter isInk = d.dense := by
  have hblocks : (m.blocks.flatMap p.blockLines).filter isInk = d.blocks.flatMap BlockDecl.dense := by
    rw [List.filter_flatMap]
    have hnamed := (List.forall₂_and_left m.blocks d.blocks).2 ⟨hm.blockNames, h.blocks⟩
    exact flatMap_eq_of_forall₂ hnamed fun b e hbe => hp.filter_blockLines hbe.2 hbe.1
  have hname : m.name.toList.filter isInk = d.name.toList := by
    rw [filter_isInk (isIdentRest_of_mem hm.name), h.name]
  unfold methodLines MethodDecl.dense
  simp only [List.filter_append, List.filter_cons, hname, hblocks, map_typeChars h.params, typeChars_of_type? h.returnType,
    filter_isInk_commaSeparated filter_isInk_nameChars, filter_isInk_nameChars]
  simp [isInk]

/-- The line of the entry is, without white space, the entry it realizes. -/
theorem WellFormed.filter_entryLine (hp : p.WellFormed) {s : Source} (h : p.Realizes s) :
    p.entryLine.filter isInk = Source.entryDense s.entry := by
  have hentry := h.entry
  unfold entryLine
  generalize p.entry = pe at hentry
  generalize s.entry = se at hentry ⊢
  cases hentry with
  | none => rfl
  | some hm =>
    obtain ⟨d, hm, rfl⟩ := hm
    have hname := isIdentRest_of_mem (hp.method hm).name
    simp only [methodChars_of_method? hm, List.filter_append, List.filter_cons, filter_isInk hname]
    simp [isInk, Source.entryDense_some]

/-- The text of a program is, without white space, the tree it realizes. -/
theorem WellFormed.filter_chars (hp : p.WellFormed) {s : Source} (h : p.Realizes s) : p.chars.filter isInk = s.dense := by
  have hmethods : (p.methods.flatMap p.methodLines).filter isInk = s.methods.flatMap MethodDecl.dense := by
    rw [List.filter_flatMap]
    have hwf := (List.forall₂_and_left p.methods s.methods).2 ⟨hp.methods, h.methods⟩
    exact flatMap_eq_of_forall₂ hwf fun m d hmd => hp.filter_methodLines hmd.2 hmd.1
  unfold chars Source.dense
  simp only [List.filter_append, hp.filter_entryLine h, hmethods]
  simp [isInk]

/-! ## Reading and writing -/

/-- Nothing of a plainly spelled text is lost and nothing is invented: a text that is read as a program has, without its comments
and its white space, the same characters as the text of the program without its white space. The program is small, so that its
references tell its methods, blocks and types apart. -/
theorem dense_uncomment_eq (t : String) (p : Program) (h : Program.parse t = .ok p) (hsmall : p.Small)
    (ht : Plain (uncomment t.toList)) : dense (uncomment t.toList) = p.text.toList.filter isInk := by
  obtain ⟨s, hs, helab⟩ := bind_eq_ok_iff.1 h
  rw [mapError_eq_ok_iff] at helab
  have hread := Source.parse_eq_ok_iff.1 hs
  obtain ⟨hnamed, -⟩ := Grammar.program_yields _ _ _ hread
  obtain ⟨hrealizes, hwf⟩ := (Source.elaborate_ends hnamed (Source.small_of_elaborate helab hsmall)).of_ok helab
  rw [text, String.toList_ofList, hwf.filter_chars hrealizes]
  exact dense_of_program hread ht

/-- Comments with other spellings in them, all kinds of white space, hardly any of it where it can be left out, and a method and a
block with the other name of `bool`. -/
def glossedText : String :=
  "; u1 -0 007\r\nprogram\x7bentry:%u1\tmethod %u1(i8 , u64)->bool\x7bu1:r0=ld_const i8 -5 ; (u1\n" ++
    " r1 = call %u1 ( r0,r0 )ret\tr1\x7d\x7d"

/-- A method that calls itself. -/
def glossed : Program where
  types := [⟨false, 1⟩, ⟨true, 8⟩, ⟨false, 64⟩]
  methods :=
    [{ name := "u1", returnType := ⟨0⟩, params := [⟨1⟩, ⟨2⟩]
       blocks := [{ name := "u1", instrs := [.loadConst 0 ⟨1⟩ (.int (-5)), .call 1 ⟨0⟩ [0, 0], .ret (some 1)] }] }]
  entry := some ⟨0⟩

theorem dense_uncomment_glossed :
    Program.parse glossedText = .ok glossed ∧ glossed.Small ∧ Plain (uncomment glossedText.toList) ∧
      dense (uncomment glossedText.toList) = glossed.text.toList.filter isInk := by
  have hparse : Program.parse glossedText = .ok glossed := eq_ok_of_toOption (by decide +kernel)
  have hsmall : glossed.Small := by
    refine ⟨?_, ?_, ?_⟩ <;> decide +kernel
  have hplain : Plain (uncomment glossedText.toList) := by decide +kernel
  exact ⟨hparse, hsmall, hplain, dense_uncomment_eq glossedText glossed hparse hsmall hplain⟩

end Program

end Straightline
