import Straightline.Proofs.Tokens

/-!
# Layouts of source trees

The ways to write a source tree: its tokens in their plain form and in their order, any blank wherever the grammar lets one stand,
any gap between the words of a statement, and a line feed after a statement unless the method ends there. Each part of the grammar
has a relation between what is written, the text that starts with it and what follows (`Grammar.StmtText` up to
`Grammar.ProgramText`). Main statement: a tree is read from each of its layouts, with nothing left (`Grammar.program_of_text`).
-/

namespace Straightline.Grammar

open Reader
open Source (Stmt BlockDecl MethodDecl)

/-! ## Statements -/

/-- An argument of a call after the first one. -/
inductive NextArgText : Register → List Char → List Char → Prop where
  | mk (r : Register) {g₁ g₂ : List Char} (rest : List Char) (hg₁ : Gap g₁) (hg₂ : Gap g₂) :
      NextArgText r (g₁ ++ ',' :: (g₂ ++ (Register.chars r ++ rest))) rest

/-- The arguments of a call, and the gap after them. -/
inductive ArgsText : List Register → List Char → List Char → Prop where
  | nil (rest : List Char) : ArgsText [] rest rest
  | cons (r : Register) {rs : List Register} {g s rest : List Char} (hrs : Repeated NextArgText rs s (g ++ rest)) (hg : Gap g) :
      ArgsText (r :: rs) (Register.chars r ++ s) rest

/-- What stands after the name of an operation that writes a register. -/
inductive OperandsText (r : Register) : String → Stmt → List Char → List Char → Prop where
  | add (a b : Register) {g₁ g₂ : List Char} (rest : List Char) (hg₁ : Gap g₁) (hg₂ : Gap g₂) :
      OperandsText r "add" (.add r a b) (Register.chars a ++ (g₁ ++ ',' :: (g₂ ++ (Register.chars b ++ rest)))) rest
  | loadParam (i : UInt32) (rest : List Char) :
      OperandsText r "ld_param" (.loadParam r i) (Decimal.digits i.toNat ++ rest) rest
  | loadConst (t : Scalar) (c : Constant) {g : List Char} (rest : List Char) (hg : Gap g) (hne : g ≠ []) :
      OperandsText r "ld_const" (.loadConst r t c.canonical) (t.nameChars ++ (g ++ (c.chars ++ rest))) rest
  | call {callee : String} {args : List Register} {g₁ g₂ s rest : List Char} (hcallee : isIdentifier callee.toList = true)
      (hg₁ : Gap g₁) (hg₂ : Gap g₂) (hargs : ArgsText args s (')' :: rest)) :
      OperandsText r "call" (.call r callee args) ('%' :: (callee.toList ++ (g₁ ++ '(' :: (g₂ ++ s)))) rest

/-- A statement. -/
inductive StmtText : Stmt → List Char → List Char → Prop where
  | assign (r : Register) {op : String} {st : Stmt} {g₁ g₂ g₃ s rest : List Char} (hg₁ : Gap g₁) (hg₂ : Gap g₂) (hg₃ : Gap g₃)
      (hne : g₃ ≠ []) (hs : OperandsText r op st s rest) :
      StmtText st (Register.chars r ++ (g₁ ++ '=' :: (g₂ ++ (op.toList ++ (g₃ ++ s))))) rest
  | ret (rest : List Char) : StmtText (.ret none) ("ret".toList ++ rest) rest
  | retValue (r : Register) {g : List Char} (rest : List Char) (hg : Gap g) (hne : g ≠ []) :
      StmtText (.ret (some r)) ("ret".toList ++ (g ++ (Register.chars r ++ rest))) rest

/-- A statement and the blank after it, with a line feed in it unless the method ends there. -/
inductive LineText : Stmt → List Char → List Char → Prop where
  | mk {st : Stmt} {s b rest : List Char} (hst : StmtText st s (b ++ rest)) (hb : Blank b)
      (hend : '\n' ∈ b ∨ ∃ r, rest = '\x7d' :: r) : LineText st s rest

/-! ## Declarations -/

/-- A label and the statements under it. -/
inductive BlockText : BlockDecl → List Char → List Char → Prop where
  | mk {name : String} {stmts : List Stmt} {g b s rest : List Char} (hname : isIdentifier name.toList = true) (hg : Gap g)
      (hb : Blank b) (hstmts : Repeated LineText stmts s rest) :
      BlockText ⟨name, stmts⟩ (name.toList ++ (g ++ ':' :: (b ++ s))) rest

/-- A parameter type and the blank after it. -/
inductive ParamText : Scalar → List Char → List Char → Prop where
  | mk (t : Scalar) {b : List Char} (rest : List Char) (hb : Blank b) : ParamText t (t.nameChars ++ (b ++ rest)) rest

/-- A parameter type after the first one. -/
inductive NextParamText : Scalar → List Char → List Char → Prop where
  | mk {t : Scalar} {b s rest : List Char} (hb : Blank b) (ht : ParamText t s rest) : NextParamText t (',' :: (b ++ s)) rest

/-- The parameter types of a method. -/
inductive ParamsText : List Scalar → List Char → List Char → Prop where
  | nil (rest : List Char) : ParamsText [] rest rest
  | cons {t : Scalar} {ts : List Scalar} {s u rest : List Char} (ht : ParamText t s u) (hts : Repeated NextParamText ts u rest) :
      ParamsText (t :: ts) s rest

/-- A method: its head, from the parameters on in `s`, and its blocks in `u`. -/
inductive MethodText : MethodDecl → List Char → List Char → Prop where
  | mk {name : String} {params : List Scalar} {returnType : Scalar} {blocks : List BlockDecl}
      {b₁ b₂ b₃ b₄ b₅ b₆ b₇ b₈ s u rest : List Char} (hname : isIdentifier name.toList = true)
      (hb₁ : Blank b₁) (hb₂ : Blank b₂) (hb₃ : Blank b₃) (hb₄ : Blank b₄) (hb₅ : Blank b₅) (hb₆ : Blank b₆) (hb₇ : Blank b₇)
      (hb₈ : Blank b₈)
      (hparams : ParamsText params s
        (')' :: (b₄ ++ ("->".toList ++ (b₅ ++ (returnType.nameChars ++ (b₆ ++ '\x7b' :: (b₇ ++ u))))))))
      (hblocks : Repeated BlockText blocks u ('\x7d' :: (b₈ ++ rest))) :
      MethodText ⟨name, params, returnType, blocks⟩
        ("method".toList ++ (b₁ ++ '%' :: (name.toList ++ (b₂ ++ '(' :: (b₃ ++ s))))) rest

/-- The entry of a program, if it has one, and the blank after it, which may be empty only at the end of the program. -/
inductive EntryText : Option String → List Char → List Char → Prop where
  | none (rest : List Char) : EntryText none rest rest
  | some {name : String} {b₁ b₂ b₃ : List Char} (rest : List Char) (hname : isIdentifier name.toList = true) (hb₁ : Blank b₁)
      (hb₂ : Blank b₂) (hb₃ : Blank b₃) (hend : b₃ ≠ [] ∨ ∃ r, rest = '\x7d' :: r) :
      EntryText (some name) ("entry".toList ++ (b₁ ++ ':' :: (b₂ ++ '%' :: (name.toList ++ (b₃ ++ rest))))) rest

/-- A program, with the blanks around it. -/
inductive ProgramText : Source → List Char → Prop where
  | mk {entry : Option String} {methods : List MethodDecl} {b₁ b₂ b₃ b₄ s u : List Char} (hb₁ : Blank b₁) (hb₂ : Blank b₂)
      (hb₃ : Blank b₃) (hb₄ : Blank b₄) (hentry : EntryText entry s u) (hmethods : Repeated MethodText methods u ('\x7d' :: b₄)) :
      ProgramText ⟨entry, methods⟩ (b₁ ++ ("program".toList ++ (b₂ ++ '\x7b' :: (b₃ ++ s))))

/-! ## What may follow -/

variable {s rest : List Char}

/-- A gap does not go on with an identifier. -/
theorem Gap.stops {g : List Char} (hg : Gap g) (h : Stops isIdentRest rest) : Stops isIdentRest (g ++ rest) :=
  Stops.append (fun c hc => isIdentRest_of_isGap (hg c hc)) h

/-- A gap that is not empty ends a word. -/
theorem Gap.stops_of_ne_nil {g : List Char} (hg : Gap g) (hne : g ≠ []) : Stops isIdentRest (g ++ rest) :=
  stops_append_of_ne_nil hne fun c hc => isIdentRest_of_isGap (hg c hc)

/-- A blank does not go on with an identifier. -/
theorem Blank.stops_isIdentRest {b : List Char} (hb : Blank b) (h : Stops isIdentRest rest) : Stops isIdentRest (b ++ rest) :=
  hb.stops (fun _ => isIdentRest_of_isBlankStart) h

/-- What starts an identifier starts no blank. -/
theorem isBlankStart_of_isIdentStart {c : Char} (h : isIdentStart c = true) : isBlankStart c = false := by
  refine Bool.eq_false_iff.2 fun hb => ?_
  exact Bool.eq_false_iff.1 (isIdentRest_of_isBlankStart hb) (isIdentRest_of_isIdentStart h)

/-- A name starts with no blank. -/
theorem stops_name {cs : List Char} (h : isIdentifier cs = true) : Stops isBlankStart (cs ++ rest) :=
  stops_identifier h (fun _ => isBlankStart_of_isIdentStart) rest

/-- Where no blank starts, there is no gap. -/
theorem stops_isGap (h : Stops isBlankStart s) : Stops isGap s :=
  h.imp fun c hc => by simp [isBlankStart, isSpace_of_isGap hc]

/-- A constant does not start with a gap. -/
theorem stops_constant (c : Constant) (rest : List Char) : Stops isGap (c.chars ++ rest) := by
  cases c with
  | int v =>
    rw [Constant.chars]
    cases v.toInt with
    | ofNat n => exact Decimal.stops_digits (fun _ => isGap_of_isDigit) n rest
    | negSucc n => exact rfl
  | uint v => exact Decimal.stops_digits (fun _ => isGap_of_isDigit) _ rest
  | bool b => cases b <;> exact rfl

/-- What follows a statement does not go on with it: not with the last word, and after a gap neither with a colon nor with a
register. -/
structure EndsStmt (s : List Char) : Prop where
  word : Stops isIdentRest s
  gap : Stops (fun c => c == ':' || c == 'r') (s.dropWhile isGap)

/-- A blank with a line feed in it, or before the end of the method, ends a statement. -/
theorem endsStmt_of_blank {b : List Char} (hb : Blank b) (hend : '\n' ∈ b ∨ ∃ r, rest = '\x7d' :: r) : EndsStmt (b ++ rest) := by
  induction hb with
  | nil =>
    rcases hend with hmem | ⟨r, rfl⟩
    · exact absurd hmem List.not_mem_nil
    · exact ⟨rfl, rfl⟩
  | @space c b hc hb ih =>
    have hstart : isBlankStart c = true := by simp [isBlankStart, hc]
    cases hgap : isGap c with
    | true =>
      -- the line feed, if there is one, is further on
      have htail : EndsStmt (b ++ rest) := by
        refine ih (hend.imp_left fun hmem => ?_)
        rcases List.mem_cons.1 hmem with rfl | hmem
        · exact absurd hgap (by decide)
        · exact hmem
      refine ⟨isIdentRest_of_isBlankStart hstart, ?_⟩
      rw [List.cons_append, List.dropWhile_cons_of_pos hgap]
      exact htail.gap
    | false =>
      refine ⟨isIdentRest_of_isBlankStart hstart, ?_⟩
      rw [List.cons_append, List.dropWhile_cons_of_neg (by simp [hgap])]
      simp only [isSpace, Bool.or_eq_true, beq_iff_eq] at hc
      rcases hc with ((rfl | rfl) | rfl) | rfl <;> rfl
  | comment hw hb ih => exact ⟨rfl, rfl⟩

/-! ## Statements are read -/

/-- An argument is read after its comma. -/
theorem NextArgText.read {r : Register} (h : NextArgText r s rest) (hrest : Stops isIdentRest rest) :
    (do let _ ← comma; register : Reader Register) s = .done r rest := by
  cases h with
  | mk rest hg₁ hg₂ =>
    refine bind_of_done (comma_append hg₁ hg₂ rfl) ?_
    exact register_append r hrest

/-- An argument after the first one is no word that goes on. -/
theorem NextArgText.stops {r : Register} (h : NextArgText r s rest) : Stops isIdentRest s := by
  cases h with
  | mk rest hg₁ hg₂ =>
    refine hg₁.stops ?_
    rfl

/-- An argument takes up some of the text. -/
theorem NextArgText.length_lt {r : Register} (h : NextArgText r s rest) : rest.length < s.length := by
  cases h with
  | mk rest hg₁ hg₂ =>
    simp only [List.length_append, List.length_cons]
    omega

/-- The arguments of a call are read, up to the gap after them. -/
theorem ArgsText.read {args : List Register} (h : ArgsText args s (')' :: rest)) :
    ∃ g, Gap g ∧ sepBy register comma s = .done args (g ++ ')' :: rest) := by
  cases h with
  | nil _ => exact ⟨[], fun _ hc => (nomatch hc), sepBy_of_fails (register_fails rfl)⟩
  | @cons r rs g s _ hrs hg =>
    have hend : Stops isIdentRest (g ++ ')' :: rest) := hg.stops rfl
    refine ⟨g, hg, sepBy_of_done (register_append r ?_) ?_⟩
    · exact hrs.start hend fun _ _ _ hnext _ => hnext.stops
    · refine many_of_repeated hrs (fun _ _ _ hnext => hnext.read) (fun _ _ _ hnext => hnext.length_lt)
        (fun _ _ _ hnext _ => hnext.stops) hend ?_
      have hcomma : Fails comma (g ++ ')' :: rest) := comma_fails hg rfl rfl
      exact hcomma.bind _

/-- What follows the arguments of a call is no longer than the text. -/
theorem ArgsText.length_le {args : List Register} (h : ArgsText args s rest) : rest.length ≤ s.length := by
  cases h with
  | nil rest => exact Nat.le_refl _
  | cons r hrs hg =>
    have := hrs.length_le fun _ _ _ hnext => hnext.length_lt
    simp only [List.length_append] at *
    omega

/-- The arguments of a call do not start with a gap. -/
theorem ArgsText.stops {args : List Register} (h : ArgsText args s (')' :: rest)) : Stops isGap s := by
  cases h with
  | nil _ => exact rfl
  | cons r hrs hg => exact rfl

/-- The name of an operation is an identifier. -/
theorem OperandsText.isIdentifier_op {r : Register} {op : String} {st : Stmt} (h : OperandsText r op st s rest) :
    isIdentifier op.toList = true := by
  cases h <;> decide

/-- Operands do not start with a gap. -/
theorem OperandsText.stops {r : Register} {op : String} {st : Stmt} (h : OperandsText r op st s rest) : Stops isGap s := by
  cases h with
  | add a b rest hg₁ hg₂ => exact rfl
  | loadParam i rest => exact Decimal.stops_digits (fun _ => isGap_of_isDigit) _ rest
  | loadConst t c rest hg hne =>
    exact stops_isGap (stops_name t.isIdentifier_nameChars)
  | call hcallee hg₁ hg₂ hargs => exact rfl

/-- The operands of an operation are read. -/
theorem OperandsText.read {r : Register} {op : String} {st : Stmt} (h : OperandsText r op st s rest)
    (hrest : Stops isIdentRest rest) : ∃ o, Operation.ofName? op = some o ∧ operation r o s = .done st rest := by
  cases h with
  | add a b rest hg₁ hg₂ =>
    refine ⟨.add, rfl, ?_⟩
    refine bind_of_done (register_append a (hg₁.stops rfl)) ?_
    refine bind_of_done (comma_append hg₁ hg₂ rfl) ?_
    exact bind_of_done (register_append b hrest) rfl
  | loadParam i rest => exact ⟨.loadParam, rfl, bind_of_done (word32_append i (stops_isDigit hrest)) rfl⟩
  | loadConst t c rest hg hne =>
    refine ⟨.loadConst, rfl, ?_⟩
    refine bind_of_done (typeName_append t (hg.stops_of_ne_nil hne)) ?_
    refine bind_of_done (gap1_append hg hne (stops_constant c rest)) ?_
    exact bind_of_done (literal_append c hrest) rfl
  | call hcallee hg₁ hg₂ hargs =>
    obtain ⟨g, hg, hread⟩ := hargs.read
    refine ⟨.call, rfl, ?_⟩
    refine bind_of_done (methodName_append hcallee (hg₁.stops rfl)) ?_
    refine bind_of_done (gap_append hg₁ rfl) ?_
    refine bind_of_done (char_cons '(' _) ?_
    refine bind_of_done (gap_append hg₂ hargs.stops) ?_
    refine bind_of_done hread ?_
    refine bind_of_done (gap_append hg rfl) ?_
    exact bind_of_done (char_cons ')' _) rfl

/-- A register is no return: after its `r` comes a digit. -/
theorem retStmt_fails (r : Register) (rest : List Char) : Fails retStmt (Register.chars r ++ rest) := by
  have hword : Fails (word "ret") (Register.chars r ++ rest) := by
    rcases fails_or_done (word "ret") (Register.chars r ++ rest) with hfail | ⟨_, t, hdone⟩
    · exact hfail
    · have htail : Decimal.digits r.toNat ++ rest = 'e' :: 't' :: t := (List.cons.inj (word_eq_done_iff.1 hdone)).2
      have hstop : Stops (· == 'e') (Decimal.digits r.toNat ++ rest) :=
        Decimal.stops_beq rfl (Decimal.digits_ne_nil _) (Decimal.isDigit_of_mem_digits _) rest
      rw [htail] at hstop
      nomatch hstop
  exact (hword.bind _).bind _

/-- An operation that writes a register is read if its operands are. -/
theorem OperandsText.read_assign {r : Register} {op : String} {st : Stmt} {g₁ g₂ g₃ : List Char}
    (h : OperandsText r op st s rest) (hread : ∃ o, Operation.ofName? op = some o ∧ operation r o s = .done st rest)
    (hg₁ : Gap g₁) (hg₂ : Gap g₂) (hg₃ : Gap g₃) (hne : g₃ ≠ []) :
    stmt (Register.chars r ++ (g₁ ++ '=' :: (g₂ ++ (op.toList ++ (g₃ ++ s))))) = .done st rest := by
  have hop : isIdentifier _ = true := h.isIdentifier_op
  obtain ⟨o, ho, hread⟩ := hread
  rw [stmt, orElse_of_fails (retStmt_fails r _)]
  refine bind_of_done (register_append r (hg₁.stops rfl)) ?_
  refine bind_of_done (gap_append hg₁ rfl) ?_
  refine bind_of_done (char_cons '=' _) ?_
  refine bind_of_done (gap_append hg₂ (stops_isGap (stops_name hop))) ?_
  refine bind_of_done (filterMap_of_done (a := op) ?_ ho) hread
  refine bind_of_done (identifier_append hop (hg₃.stops_of_ne_nil hne)) ?_
  refine bind_of_done (gap1_append hg₃ hne h.stops) ?_
  rw [String.ofList_toList]
  rfl

/-- A statement is read. -/
theorem StmtText.read {st : Stmt} (h : StmtText st s rest) (hrest : EndsStmt rest) : stmt s = .done st rest := by
  cases h with
  | assign r hg₁ hg₂ hg₃ hne hs => exact hs.read_assign (hs.read hrest.word) hg₁ hg₂ hg₃ hne
  | ret rest =>
    have hcolon : Fails (do gap; char ':' : Reader Unit) rest := by
      refine Fails.bind_of_done (char_fails ?_) (bind_of_done rfl rfl : gap rest = .done () (rest.dropWhile isGap))
      exact hrest.gap.imp fun c hc => by simp [beq_iff_eq.1 hc]
    have hvalue : Fails (do gap1; register : Reader Register) rest := by
      rcases fails_or_done gap1 rest with hfail | ⟨_, t, hdone⟩
      · exact hfail.bind _
      · obtain ⟨g, u, hrun, hpure⟩ := bind_eq_done_iff.1 hdone
        cases hpure
        obtain ⟨rfl, hg, hu⟩ := eq_append_of_run1 hrun
        have hgap := hrest.gap
        rw [dropWhile_append_of_stops hg hu] at hgap
        refine Fails.bind_of_done (register_fails ?_) hdone
        exact hgap.imp fun c hc => by simp [beq_iff_eq.1 hc]
    refine orElse_of_done ?_
    refine bind_of_done (keyword_append "ret" hrest.word) ?_
    refine bind_of_done (notAhead_of_fails hcolon) ?_
    exact bind_of_done (maybe_of_fails hvalue) rfl
  | @retValue r g rest hg hne =>
    have hcolon : Fails (do gap; char ':' : Reader Unit) (g ++ (Register.chars r ++ rest)) := by
      refine Fails.bind_of_done (char_fails ?_) (gap_append hg rfl)
      rfl
    refine orElse_of_done ?_
    refine bind_of_done (keyword_append "ret" (hg.stops_of_ne_nil hne)) ?_
    refine bind_of_done (notAhead_of_fails hcolon) ?_
    have hvalue : (do gap1; register : Reader Register) (g ++ (Register.chars r ++ rest)) = .done r rest :=
      bind_of_done (gap1_append hg hne rfl) (register_append r hrest.word)
    exact bind_of_done (maybe_of_done hvalue) rfl

/-- Operands take up some of the text. -/
theorem OperandsText.length_lt {r : Register} {op : String} {st : Stmt} (h : OperandsText r op st s rest) :
    rest.length < s.length := by
  cases h with
  | add a b rest hg₁ hg₂ =>
    simp only [List.length_append, List.length_cons, Register.chars]
    omega
  | loadParam i rest =>
    have := List.length_pos_iff.2 (Decimal.digits_ne_nil i.toNat)
    simp only [List.length_append]
    omega
  | loadConst t c rest hg hne =>
    have := List.length_pos_iff.2 hne
    simp only [List.length_append]
    omega
  | call hcallee hg₁ hg₂ hargs =>
    have hle : rest.length ≤ _ := Nat.le_trans (Nat.le_succ _) hargs.length_le
    simp only [List.length_append, List.length_cons]
    omega

/-- A statement takes up some of the text. -/
theorem StmtText.length_lt {st : Stmt} (h : StmtText st s rest) : rest.length < s.length := by
  cases h with
  | assign r hg₁ hg₂ hg₃ hne hs =>
    have := hs.length_lt
    simp only [List.length_append, List.length_cons]
    omega
  | ret rest =>
    rw [List.length_append]
    exact Nat.lt_add_of_pos_left (by decide)
  | retValue r rest hg hne =>
    simp only [List.length_append, Register.chars, List.length_cons]
    omega

/-! ## Blocks are read -/

/-- A statement starts with an `r`, of a register or of `ret`. -/
theorem StmtText.exists_cons {st : Stmt} (h : StmtText st s rest) : ∃ t, s = 'r' :: t := by
  cases h with
  | assign r hg₁ hg₂ hg₃ hne hs => exact ⟨_, rfl⟩
  | ret rest => exact ⟨_, rfl⟩
  | retValue r rest hg hne => exact ⟨_, rfl⟩

/-- A line starts with a statement. -/
theorem LineText.stops {st : Stmt} (h : LineText st s rest) : Stops isBlankStart s := by
  cases h with
  | mk hst hb hend =>
    obtain ⟨t, rfl⟩ := hst.exists_cons
    rfl

/-- A line takes up some of the text. -/
theorem LineText.length_lt {st : Stmt} (h : LineText st s rest) : rest.length < s.length := by
  cases h with
  | mk hst hb hend =>
    have := hst.length_lt
    rw [List.length_append] at this
    omega

/-- A line is read. -/
theorem LineText.read {st : Stmt} (h : LineText st s rest) (hrest : Stops isBlankStart rest) :
    (do let i ← stmt; blank; return i : Reader Stmt) s = .done st rest := by
  cases h with
  | mk hst hb hend =>
    refine bind_of_done (hst.read (endsStmt_of_blank hb hend)) ?_
    exact bind_of_done (blank_append hb hrest) rfl

/-- What follows the statements of a block: no blank and no statement. -/
structure EndsBlock (s : List Char) : Prop where
  blank : Stops isBlankStart s
  stmt : Fails stmt s

/-- No statement starts with anything but an `r`. -/
theorem stmt_fails_of_stops (h : Stops (· == 'r') s) : Fails stmt s :=
  Fails.orElse ((keyword_fails (w := "ret") rfl h).bind _) ((register_fails h).bind _)

/-- A label is no statement, whatever its name: `ret` is no return before a colon, and after a register comes no equals sign. -/
theorem stmt_fails_of_label {g : List Char} (hg : Gap g) (h : s.dropWhile isIdentRest = g ++ ':' :: rest) : Fails stmt s := by
  refine Fails.orElse ?_ ?_
  · rcases fails_or_done (keyword "ret") s with hfail | ⟨_, t, hdone⟩
    · exact hfail.bind _
    · refine Fails.bind_of_done (Fails.bind ?_ _) hdone
      rw [rest_of_keyword rfl hdone, h]
      exact notAhead_fails (bind_of_done (gap_append hg rfl) (char_cons ':' rest))
  · rcases fails_or_done register s with hfail | ⟨r, t, hdone⟩
    · exact hfail.bind _
    · refine Fails.bind_of_done ?_ hdone
      rw [rest_of_register hdone, h]
      refine Fails.bind_of_done ((char_fails ?_).bind _) (gap_append hg rfl)
      rfl

/-- The end of a method ends its last block. -/
theorem endsBlock_brace (rest : List Char) : EndsBlock ('\x7d' :: rest) := ⟨rfl, stmt_fails_of_stops rfl⟩

/-- A block ends the one before it. -/
theorem BlockText.endsBlock {d : BlockDecl} (h : BlockText d s rest) : EndsBlock s := by
  cases h with
  | mk hname hg hb hstmts =>
    refine ⟨stops_name hname, ?_⟩
    exact stmt_fails_of_label hg (dropWhile_append_of_stops (isIdentRest_of_mem hname) (hg.stops rfl))

/-- A block takes up some of the text. -/
theorem BlockText.length_lt {d : BlockDecl} (h : BlockText d s rest) : rest.length < s.length := by
  cases h with
  | mk hname hg hb hstmts =>
    have := hstmts.length_le fun _ _ _ hline => hline.length_lt
    simp only [List.length_append, List.length_cons]
    omega

/-- A block is read. -/
theorem BlockText.read {d : BlockDecl} (h : BlockText d s rest) (hrest : EndsBlock rest) : block s = .done d rest := by
  cases h with
  | @mk name stmts g b u rest hname hg hb hstmts =>
    have hu : Stops isBlankStart u := hstmts.start hrest.blank fun _ _ _ hline _ => hline.stops
    have hlines : many (do let i ← stmt; blank; return i : Reader Stmt) u = .done stmts rest :=
      many_of_repeated hstmts (fun _ _ _ hline => hline.read) (fun _ _ _ hline => hline.length_lt)
        (fun _ _ _ hline _ => hline.stops) hrest.blank (hrest.stmt.bind _)
    refine bind_of_done (identifier_append hname (hg.stops rfl)) ?_
    refine bind_of_done (gap_append hg rfl) ?_
    refine bind_of_done (char_cons ':' _) ?_
    refine bind_of_done (blank_append hb hu) ?_
    refine bind_of_done hlines ?_
    rw [String.ofList_toList]
    rfl

/-- The blocks of a method are read, up to its end. -/
theorem many_block {ds : List BlockDecl} (h : Repeated BlockText ds s ('\x7d' :: rest)) :
    many block s = .done ds ('\x7d' :: rest) := by
  have hname : Fails identifier ('\x7d' :: rest) := identifier_fails rfl
  exact many_of_repeated h (fun _ _ _ hblock => hblock.read) (fun _ _ _ hblock => hblock.length_lt)
    (fun _ _ _ hblock _ => hblock.endsBlock) (endsBlock_brace rest) (hname.bind _)

/-! ## Methods are read -/

/-- What follows a parameter type and its blank: no blank and nothing that goes on with a name. -/
structure EndsParam (s : List Char) : Prop where
  blank : Stops isBlankStart s
  word : Stops isIdentRest s

/-- A parameter type is read. -/
theorem ParamText.read {t : Scalar} (h : ParamText t s rest) (hrest : EndsParam rest) :
    (do let t ← typeName; blank; return t : Reader Scalar) s = .done t rest := by
  cases h with
  | mk rest hb =>
    refine bind_of_done (typeName_append t (hb.stops_isIdentRest hrest.word)) ?_
    exact bind_of_done (blank_append hb hrest.blank) rfl

/-- A parameter type starts with no blank. -/
theorem ParamText.stops {t : Scalar} (h : ParamText t s rest) : Stops isBlankStart s := by
  cases h with
  | mk rest hb => exact stops_name t.isIdentifier_nameChars

/-- What follows a parameter type is no longer than the text. -/
theorem ParamText.length_le {t : Scalar} (h : ParamText t s rest) : rest.length ≤ s.length := by
  cases h with
  | mk rest hb =>
    simp only [List.length_append]
    omega

/-- A parameter type is read after its comma. -/
theorem NextParamText.read {t : Scalar} (h : NextParamText t s rest) (hrest : EndsParam rest) :
    (do let _ ← (do char ','; blank : Reader Unit); (do let t ← typeName; blank; return t) : Reader Scalar) s =
      .done t rest := by
  cases h with
  | mk hb ht =>
    refine bind_of_done (bind_of_done (char_cons ',' _) (blank_append hb ht.stops)) ?_
    exact ht.read hrest

/-- A parameter type after the first one starts with its comma. -/
theorem NextParamText.endsParam {t : Scalar} (h : NextParamText t s rest) : EndsParam s := by
  cases h with
  | mk hb ht => exact ⟨rfl, rfl⟩

/-- A parameter type takes up some of the text. -/
theorem NextParamText.length_lt {t : Scalar} (h : NextParamText t s rest) : rest.length < s.length := by
  cases h with
  | mk hb ht =>
    have := ht.length_le
    simp only [List.length_append, List.length_cons]
    omega

/-- The parameter types of a method start with no blank. -/
theorem ParamsText.stops {ts : List Scalar} (h : ParamsText ts s (')' :: rest)) : Stops isBlankStart s := by
  cases h with
  | nil _ => exact rfl
  | cons ht hts => exact ht.stops

/-- What follows the parameter types of a method is no longer than the text. -/
theorem ParamsText.length_le {ts : List Scalar} (h : ParamsText ts s rest) : rest.length ≤ s.length := by
  cases h with
  | nil rest => exact Nat.le_refl _
  | cons ht hts => exact Nat.le_trans (hts.length_le fun _ _ _ hnext => hnext.length_lt) ht.length_le

/-- The parameter types of a method are read. -/
theorem ParamsText.read {ts : List Scalar} (h : ParamsText ts s (')' :: rest)) :
    sepBy (do let t ← typeName; blank; return t) (do char ','; blank) s = .done ts (')' :: rest) := by
  have hend : EndsParam (')' :: rest) := ⟨rfl, rfl⟩
  cases h with
  | nil _ =>
    have hfail : Fails typeName (')' :: rest) := typeName_fails rfl
    exact sepBy_of_fails (hfail.bind _)
  | @cons t ts s u _ ht hts =>
    have hcomma : Fails (char ',') (')' :: rest) := char_fails rfl
    refine sepBy_of_done (ht.read (hts.start hend fun _ _ _ hnext _ => hnext.endsParam)) ?_
    exact many_of_repeated hts (fun _ _ _ hnext => hnext.read) (fun _ _ _ hnext => hnext.length_lt)
      (fun _ _ _ hnext _ => hnext.endsParam) hend ((hcomma.bind _).bind _)

/-- The blocks of a method start with no blank. -/
theorem stops_of_blocks {ds : List BlockDecl} (h : Repeated BlockText ds s ('\x7d' :: rest)) : Stops isBlankStart s :=
  (h.start (endsBlock_brace rest) fun _ _ _ hblock _ => hblock.endsBlock).blank

/-- A method takes up some of the text. -/
theorem MethodText.length_lt {d : MethodDecl} (h : MethodText d s rest) : rest.length < s.length := by
  cases h with
  | mk hname hb₁ hb₂ hb₃ hb₄ hb₅ hb₆ hb₇ hb₈ hparams hblocks =>
    have hhead := hparams.length_le
    have hbody := hblocks.length_le fun _ _ _ hblock => hblock.length_lt
    simp only [List.length_append, List.length_cons] at *
    omega

/-- A method is read. -/
theorem MethodText.read {d : MethodDecl} (h : MethodText d s rest) (hrest : Stops isBlankStart rest) :
    method s = .done d rest := by
  cases h with
  | mk hname hb₁ hb₂ hb₃ hb₄ hb₅ hb₆ hb₇ hb₈ hparams hblocks =>
    refine bind_of_done (keyword_append "method" (hb₁.stops_isIdentRest rfl)) ?_
    refine bind_of_done (blank_append hb₁ rfl) ?_
    refine bind_of_done (methodName_append hname (hb₂.stops_isIdentRest rfl)) ?_
    refine bind_of_done (blank_append hb₂ rfl) ?_
    -- the parameters, in brackets
    refine bind_of_done (bind_of_done (char_cons '(' _) (bind_of_done (blank_append hb₃ hparams.stops)
      (bind_of_done hparams.read (bind_of_done (char_cons ')' _) (bind_of_done (blank_append hb₄ rfl) rfl))))) ?_
    refine bind_of_done (word_eq_done_iff.2 rfl) ?_
    refine bind_of_done (blank_append hb₅ (stops_name (Scalar.isIdentifier_nameChars _))) ?_
    refine bind_of_done (typeName_append _ (hb₆.stops_isIdentRest rfl)) ?_
    refine bind_of_done (blank_append hb₆ rfl) ?_
    refine bind_of_done (char_cons '\x7b' _) ?_
    refine bind_of_done (blank_append hb₇ (stops_of_blocks hblocks)) ?_
    refine bind_of_done (many_block hblocks) ?_
    refine bind_of_done (char_cons '\x7d' _) ?_
    exact bind_of_done (blank_append hb₈ hrest) rfl

/-! ## Programs are read -/

/-- What stands before a method or at the end of the methods. -/
inductive MethodStart : List Char → Prop where
  | method (s : List Char) : MethodStart ('m' :: s)
  | brace (s : List Char) : MethodStart ('\x7d' :: s)

/-- No blank stands before a method. -/
theorem MethodStart.stops (h : MethodStart s) : Stops isBlankStart s := by
  cases h <;> exact rfl

/-- A method starts with its keyword. -/
theorem MethodText.start {d : MethodDecl} (h : MethodText d s rest) : MethodStart s := by
  cases h with
  | mk hname hb₁ hb₂ hb₃ hb₄ hb₅ hb₆ hb₇ hb₈ hparams hblocks => exact .method _

/-- The methods of a program are read, up to its end. -/
theorem many_method {ds : List MethodDecl} (h : Repeated MethodText ds s ('\x7d' :: rest)) :
    many method s = .done ds ('\x7d' :: rest) := by
  have hend : Fails (keyword "method") ('\x7d' :: rest) := keyword_fails rfl rfl
  exact many_of_repeated h (fun _ _ _ hmethod hrest => hmethod.read (MethodStart.stops hrest))
    (fun _ _ _ hmethod => hmethod.length_lt) (fun _ _ _ hmethod _ => hmethod.start) (.brace rest) (hend.bind _)

/-- The entry is read if there is one. -/
theorem EntryText.read {e : Option String} (h : EntryText e s rest) (hrest : MethodStart rest) :
    maybe entry s = .done e rest := by
  cases h with
  | none _ =>
    have hfail : Fails (keyword "entry") s := by
      cases hrest <;> exact keyword_fails rfl rfl
    exact maybe_of_fails (hfail.bind _)
  | @some name b₁ b₂ b₃ rest hname hb₁ hb₂ hb₃ hend =>
    have hword : Stops isIdentRest (b₃ ++ rest) := by
      rcases hend with hne | ⟨r, rfl⟩
      · exact hb₃.stops_of_ne_nil (fun _ => isIdentRest_of_isBlankStart) hne
      · exact hb₃.stops_isIdentRest rfl
    refine maybe_of_done ?_
    refine bind_of_done (keyword_append "entry" (hb₁.stops_isIdentRest rfl)) ?_
    refine bind_of_done (blank_append hb₁ rfl) ?_
    refine bind_of_done (char_cons ':' _) ?_
    refine bind_of_done (blank_append hb₂ rfl) ?_
    refine bind_of_done (methodName_append hname hword) ?_
    exact bind_of_done (blank_append hb₃ hrest.stops) rfl

/-- The entry of a program, or what follows where there is none, starts with no blank. -/
theorem EntryText.stops {e : Option String} (h : EntryText e s rest) (hrest : MethodStart rest) : Stops isBlankStart s := by
  cases h with
  | none rest => exact hrest.stops
  | some rest hname hb₁ hb₂ hb₃ hend => exact rfl

/-- A tree is read from each of its layouts, with nothing left. -/
theorem program_of_text {tree : Source} (h : ProgramText tree s) : program s = .done tree [] := by
  cases h with
  | @mk entry methods b₁ b₂ b₃ b₄ s u hb₁ hb₂ hb₃ hb₄ hentry hmethods =>
    have hu : MethodStart u := hmethods.start (.brace b₄) fun _ _ _ hmethod _ => hmethod.start
    have hlast : blank (b₄ ++ []) = .done () [] := blank_append hb₄ trivial
    rw [List.append_nil] at hlast
    refine bind_of_done (blank_append hb₁ rfl) ?_
    refine bind_of_done (keyword_append "program" (hb₂.stops_isIdentRest rfl)) ?_
    refine bind_of_done (blank_append hb₂ rfl) ?_
    refine bind_of_done (char_cons '\x7b' _) ?_
    refine bind_of_done (blank_append hb₃ (hentry.stops hu)) ?_
    refine bind_of_done (hentry.read hu) ?_
    refine bind_of_done (many_method hmethods) ?_
    refine bind_of_done (char_cons '\x7d' _) ?_
    exact bind_of_done hlast rfl

end Straightline.Grammar
