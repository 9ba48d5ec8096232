import Straightline.Proofs.Layout
import Straightline.Proofs.Realizes

/-!
# The text of a program is a layout

The text of a well-formed program is a layout of the tree the program realizes, with each of its constants in the form a literal
is read in (`Source.canonical`); main statement: `Program.WellFormed.programText`. Each line of the text starts with its
indentation, whereas a layout has a blank after each item. A text therefore writes an item (`Grammar.Writes`) if, before any
blank, it is a blank and a layout of the item that ends with that other blank; one induction carries this from the lines to their
lists.
-/

namespace Straightline

namespace Source

/-- A statement with its constant in the form a literal is read in. -/
def Stmt.canonical : Stmt → Stmt
  | .loadConst r t c => .loadConst r t c.canonical
  | st => st

/-- A block with its constants in the form literals are read in. -/
def BlockDecl.canonical (b : BlockDecl) : BlockDecl := { b with stmts := b.stmts.map Stmt.canonical }

/-- A method with its constants in the form literals are read in. -/
def MethodDecl.canonical (d : MethodDecl) : MethodDecl := { d with blocks := d.blocks.map BlockDecl.canonical }

/-- A tree with its constants in the form literals are read in. -/
def canonical (s : Source) : Source := { s with methods := s.methods.map MethodDecl.canonical }

/-- The methods of the canonical form have the same names. -/
theorem map_name_canonical (s : Source) : s.canonical.methods.map (·.name) = s.methods.map (·.name) := by
  rw [canonical, List.map_map]
  rfl

end Source

namespace Grammar

open Reader

/-! ## Blanks around items -/

/-- White space is a blank. -/
theorem blank_of_isSpace {b : List Char} (h : b.all isSpace = true) : Blank b := by
  induction b with
  | nil => exact .nil
  | cons c cs ih =>
    rw [List.all_cons, Bool.and_eq_true] at h
    exact .space h.1 (ih h.2)

/-- A blank may be one space. -/
theorem blank_space : Blank [' '] := .space rfl .nil

/-- The end of a line before a blank is a blank. -/
theorem Blank.line {e : List Char} (he : Blank e) : Blank ('\n' :: e) := .space rfl he

variable {α β : Type} {Item : α → List Char → List Char → Prop}

/-- A text writes an item: before a blank it is a blank and a layout of the item that takes up the other blank. -/
def Writes (Item : α → List Char → List Char → Prop) (a : α) (t : List Char) : Prop :=
  ∀ e rest, Blank e → ∃ e' u, t ++ (e ++ rest) = e' ++ u ∧ Blank e' ∧ Item a u rest

/-- The texts of the items of a list, one after the other, write the list. -/
theorem writes_flatMap {R : β → α → Prop} {f : β → List Char} {g : α → α} {l : List β} {as : List α}
    (h : List.Forall₂ R l as) (hf : ∀ b ∈ l, ∀ a, R b a → Writes Item (g a) (f b)) :
    Writes (Repeated Item) (as.map g) (l.flatMap f) := by
  intro e rest he
  induction h with
  | nil => exact ⟨e, rest, rfl, he, .nil rest⟩
  | @cons b a l as hab hl ih =>
    obtain ⟨hb, hl⟩ := List.forall_mem_cons.1 hf
    obtain ⟨e₁, u₁, htail, he₁, hu₁⟩ := ih hl
    obtain ⟨e₂, u₂, hhead, he₂, hu₂⟩ := hb a hab e₁ u₁ he₁
    refine ⟨e₂, u₂, ?_, he₂, .cons hu₂ hu₁⟩
    rw [List.flatMap_cons, List.append_assoc, htail, hhead]

end Grammar

/-! ## Lists with commas -/

/-- The first of some items, and a comma before each of the others. -/
theorem commaSeparated_cons (x : List Char) (xs : List (List Char)) :
    commaSeparated (x :: xs) = x ++ xs.flatMap (", ".toList ++ ·) := by
  induction xs generalizing x with
  | nil => simp [commaSeparated]
  | cons y ys ih =>
    have hys : commaSeparated (y :: ys) = y ++ ys.flatMap (", ".toList ++ ·) := ih y
    rw [commaSeparated] at hys ⊢
    rw [List.intercalate_cons_cons, hys, List.flatMap_cons]
    simp only [List.append_assoc]

namespace Grammar

open Reader

/-- A gap may be empty. -/
theorem gap_nil : Gap [] := fun _ hc => (nomatch hc)

/-- A gap may be one space. -/
theorem gap_space : Gap [' '] := by
  intro c hc
  rw [List.mem_singleton.1 hc]
  rfl

/-- Registers with commas between them are the arguments of a call. -/
theorem argsText_commaSeparated (args : List Register) (rest : List Char) :
    ArgsText args (commaSeparated (args.map Register.chars) ++ rest) rest := by
  cases args with
  | nil => exact .nil rest
  | cons r rs =>
    have hnext : Repeated NextArgText rs ((rs.map Register.chars).flatMap (", ".toList ++ ·) ++ rest) rest := by
      induction rs with
      | nil => exact .nil rest
      | cons r rs ih =>
        rw [List.map_cons, List.flatMap_cons]
        simp only [List.append_assoc]
        exact .cons (NextArgText.mk r _ gap_nil gap_space) ih
    rw [List.map_cons, commaSeparated_cons, List.append_assoc]
    exact ArgsText.cons r (show Repeated NextArgText rs _ ([] ++ rest) from hnext) gap_nil

/-- The name of a type alone is a parameter. -/
theorem paramText_nameChars (t : Scalar) (rest : List Char) : ParamText t (t.nameChars ++ rest) rest :=
  ParamText.mk t rest Blank.nil

/-- Types with commas between them are the parameters of a method. -/
theorem paramsText_commaSeparated (ts : List Scalar) (rest : List Char) :
    ParamsText ts (commaSeparated (ts.map Scalar.nameChars) ++ rest) rest := by
  cases ts with
  | nil => exact .nil rest
  | cons t ts =>
    have hnext : Repeated NextParamText ts ((ts.map Scalar.nameChars).flatMap (", ".toList ++ ·) ++ rest) rest := by
      induction ts with
      | nil => exact .nil rest
      | cons t ts ih =>
        rw [List.map_cons, List.flatMap_cons]
        simp only [List.append_assoc]
        exact .cons (NextParamText.mk blank_space (paramText_nameChars t _)) ih
    rw [List.map_cons, commaSeparated_cons, List.append_assoc]
    exact .cons (paramText_nameChars t _) hnext

end Grammar

/-! ## Programs -/

namespace Program

open Grammar Reader
open Source (Stmt BlockDecl MethodDecl)

variable {p : Program}

/-- A reference to a type is written as the type. -/
theorem typeChars_of_type? {t : TypeRef} {s : Scalar} (h : p.type? t = some s) : p.typeChars t = s.nameChars := by
  rw [typeChars, h]

/-- A reference to a method is written as the name of the method. -/
theorem methodChars_of_method? {m : MethodRef} {d : Method} (h : p.method? m = some d) :
    p.methodChars m = '%' :: d.name.toList := by
  rw [methodChars, h]

/-- The text of an instruction is a layout of the statement it realizes. -/
theorem WellFormed.stmtText (hp : p.WellFormed) {i : Instr} {st : Stmt} (h : p.RealizesStmt i st) (rest : List Char) :
    StmtText st.canonical (p.instrChars i ++ rest) rest := by
  have hspace : [' '] ≠ [] := List.cons_ne_nil _ _
  cases h with
  | add r a b =>
    simp only [instrChars, List.append_assoc]
    exact StmtText.assign r gap_space gap_space gap_space hspace (OperandsText.add a b rest gap_nil gap_space)
  | loadParam r i =>
    simp only [instrChars, List.append_assoc]
    exact StmtText.assign r gap_space gap_space gap_space hspace (OperandsText.loadParam i rest)
  | loadConst r c ht =>
    simp only [instrChars, typeChars_of_type? ht, List.append_assoc, List.cons_append]
    exact StmtText.assign r gap_space gap_space gap_space hspace (OperandsText.loadConst _ c rest gap_space hspace)
  | call r args hm =>
    simp only [instrChars, methodChars_of_method? hm, List.append_assoc, List.cons_append]
    exact StmtText.assign r gap_space gap_space gap_space hspace
      (OperandsText.call (hp.method hm).name gap_nil gap_nil (argsText_commaSeparated args _))
  | ret v =>
    cases v with
    | none => exact StmtText.ret rest
    | some r =>
      simp only [instrChars, List.append_assoc]
      exact StmtText.retValue r rest gap_space hspace

/-- The line of an instruction writes the statement it realizes. -/
theorem WellFormed.writes_instrLine (hp : p.WellFormed) {i : Instr} {st : Stmt} (h : p.RealizesStmt i st) :
    Writes LineText st.canonical (p.instrLine i) := by
  intro e rest he
  refine ⟨"        ".toList, p.instrChars i ++ ('\n' :: (e ++ rest)), ?_, blank_of_isSpace rfl, ?_⟩
  · unfold instrLine
    rw [List.append_assoc, List.append_assoc, List.singleton_append]
  · exact LineText.mk (hp.stmtText h _) he.line (.inl List.mem_cons_self)

/-- The lines of a block write the block it realizes. -/
theorem WellFormed.writes_blockLines (hp : p.WellFormed) {b : Block} {d : BlockDecl} (h : p.RealizesBlock b d)
    (hname : isIdentifier b.name.toList = true) : Writes BlockText d.canonical (p.blockLines b) := by
  intro e rest he
  obtain ⟨e', u, htail, he', hu⟩ := writes_flatMap h.instrs (fun _ _ _ hi => hp.writes_instrLine hi) e rest he
  refine ⟨"    ".toList, b.name.toList ++ (":\n".toList ++ (e' ++ u)), ?_, blank_of_isSpace rfl, ?_⟩
  · unfold blockLines
    rw [List.append_assoc, List.append_assoc, List.append_assoc, htail]
  · rw [h.name] at hname ⊢
    have htext : BlockText d.canonical _ rest := BlockText.mk hname gap_nil he'.line hu
    exact htext

/-- The parameters of a method are written as their types. -/
theorem map_typeChars {ts : List TypeRef} {ss : List Scalar} (h : List.Forall₂ (fun t s => p.type? t = some s) ts ss) :
    ts.map p.typeChars = ss.map Scalar.nameChars :=
  map_eq_of_forall₂ h fun _ _ => typeChars_of_type?

/-- The lines of a method write the method it realizes. -/
theorem WellFormed.writes_methodLines (hp : p.WellFormed) {m : Method} {d : MethodDecl} (h : p.RealizesMethod m d)
    (hm : p.MethodWellFormed m) : Writes MethodText d.canonical (p.methodLines m) := by
  intro e rest he
  have hindent : Blank "    ".toList := blank_of_isSpace rfl
  obtain ⟨e', u, htail, he', hu⟩ :=
    writes_flatMap h.blocks (fun b hb _ hbd => hp.writes_blockLines hbd (hm.blockNames b hb)) "    ".toList
      ('\x7d' :: ('\n' :: (e ++ rest))) hindent
  have hname := hm.name
  rw [h.name] at hname
  have htext : MethodText d.canonical _ rest :=
    MethodText.mk hname blank_space Blank.nil Blank.nil blank_space blank_space blank_space he'.line he.line
      (paramsText_commaSeparated d.params _) hu
  refine ⟨"\n    ".toList, _, ?_, blank_of_isSpace rfl, htext⟩
  have hhead : "\n    method %".toList = "\n    ".toList ++ ("method".toList ++ [' ', '%']) := rfl
  have harrow : ") -> ".toList = [')', ' '] ++ ("->".toList ++ [' ']) := rfl
  have hbrace : " \x7b\n".toList = [' ', '\x7b', '\n'] := rfl
  have hend : "    \x7d\n".toList = "    ".toList ++ ['\x7d', '\n'] := rfl
  unfold methodLines
  simp only [h.name, map_typeChars h.params, typeChars_of_type? h.returnType, hhead, harrow, hbrace, hend,
    List.append_assoc, List.cons_append, List.nil_append, htail]

/-- The entry of a program is realized by the entry of its tree. -/
theorem Realizes.entryText (hp : p.WellFormed) {s : Source} (h : p.Realizes s) {e : List Char} (he : Blank e) (rest : List Char) :
    ∃ e' u, '\n' :: (p.entryLine ++ (e ++ rest)) = e' ++ u ∧ Blank e' ∧ EntryText s.entry u rest := by
  have hentry := h.entry
  unfold entryLine
  generalize p.entry = pe at hentry
  generalize s.entry = se at hentry ⊢
  cases hentry with
  | none => exact ⟨'\n' :: e, rest, rfl, he.line, .none rest⟩
  | some hm =>
    obtain ⟨d, hm, rfl⟩ := hm
    have htext : EntryText (some d.name) _ rest :=
      EntryText.some rest (hp.method hm).name Blank.nil blank_space he.line (.inl (List.cons_ne_nil _ _))
    refine ⟨"\n    ".toList, _, ?_, blank_of_isSpace rfl, htext⟩
    have hhead : "    entry: ".toList = "    ".toList ++ ("entry".toList ++ [':', ' ']) := rfl
    simp only [methodChars_of_method? hm, hhead, List.append_assoc, List.cons_append, List.nil_append]
    rfl

/-- The text of a well-formed program is a layout of the tree it realizes. -/
theorem WellFormed.programText (hp : p.WellFormed) {s : Source} (h : p.Realizes s) : ProgramText s.canonical p.chars := by
  obtain ⟨e, u, hmethods, he, hu⟩ :=
    writes_flatMap h.methods (fun m hm _ hmd => hp.writes_methodLines hmd (hp.methods m hm)) [] ('\x7d' :: ['\n']) Blank.nil
  obtain ⟨e', v, hentry, he', hv⟩ := h.entryText hp he u
  have htext : ProgramText s.canonical _ := ProgramText.mk Blank.nil blank_space he' Blank.nil.line hv hu
  have hchars : p.chars = "program".toList ++ ([' '] ++ '\x7b' :: (e' ++ v)) := by
    have hhead : "program \x7b\n".toList = "program".toList ++ ([' '] ++ ['\x7b', '\n']) := rfl
    have hend : "\x7d\n".toList = [] ++ '\x7d' :: ['\n'] := rfl
    unfold chars
    rw [hhead, hend]
    simp only [List.append_assoc, List.cons_append, List.nil_append] at *
    rw [hmethods, hentry]
  rw [hchars]
  exact htext

end Program

end Straightline
