import Straightline.Proofs.ReadTrees
import Straightline.Proofs.RoundTrip

/-!
# Writing and reading a program that was read

A program that was read from a text is read back from its own text exactly, with the same types in the same order and the same
constants (`Program.parse_text_of_parse`). Nothing needs to be known of the order in which elaboration enters types: the program
realizes the tree it was elaborated from, that tree is in canonical form since it was read, so that the text of the program is a
layout of the very same tree.

The program is known to be small, and elaboration could only fail to number things apart if the tree were not. So the first part
is that elaboration adds all that a tree names to the program, and a small program comes from a small tree only
(`Source.small_of_elaborate`).
-/

namespace Straightline

/-! ## What an extension has more of -/

/-- A list with something at each place where another one has something is at least as long. -/
theorem length_le_of_getElem? {α β : Type} {R : α → β → Prop} {l : List α} {k : List β}
    (h : ∀ (j : Nat) (a : α), l[j]? = some a → ∃ b, k[j]? = some b ∧ R a b) : l.length ≤ k.length := by
  by_contra hlt
  have hj : k.length < l.length := Nat.lt_of_not_le hlt
  obtain ⟨b, hb, -⟩ := h k.length l[k.length] (List.getElem?_eq_getElem hj)
  rw [List.getElem?_eq_none (Nat.le_refl _)] at hb
  cases hb

namespace Program

variable {p q : Program}

/-- The number of blocks of a method, or zero if there is no such method. -/
def blockCount (p : Program) (m : MethodRef) : Nat := ((p.method? m).map fun d => d.blocks.length).getD 0

theorem blockCount_of_method? {m : MethodRef} {d : Method} (h : p.method? m = some d) : p.blockCount m = d.blocks.length := by
  rw [blockCount, h]
  rfl

namespace Extends

theorem mem_types (h : p.Extends q) {t : Scalar} (ht : t ∈ p.types) : t ∈ q.types := h.types.subset ht

theorem length_methods_le (h : p.Extends q) : p.methods.length ≤ q.methods.length := length_le_of_getElem? h.methods

theorem blockCount_le (h : p.Extends q) (m : MethodRef) : p.blockCount m ≤ q.blockCount m := by
  cases hm : p.method? m with
  | none =>
    rw [blockCount, hm]
    exact Nat.zero_le _
  | some d =>
    obtain ⟨e, he, hde⟩ := h.method? hm
    rw [blockCount_of_method? hm, blockCount_of_method? he]
    exact length_le_of_getElem? hde.blocks

end Extends

/-- A type that was entered is in the table. -/
theorem mem_types_intern_self (p : Program) (t : Scalar) : t ∈ (p.intern t).2.types := by
  rcases intern_cases p t with ⟨j, hj, h⟩ | ⟨-, h⟩
  · rw [h]
    exact List.mem_of_getElem? hj
  · rw [h]
    exact List.mem_append_right _ List.mem_cons_self

/-- Types that were entered are in the table, and nothing else has changed. -/
theorem internAll_gains (p : Program) (ts : List Scalar) :
    p.Extends (p.internAll ts).2 ∧ (p.internAll ts).2.methods = p.methods ∧ ∀ t ∈ ts, t ∈ (p.internAll ts).2.types := by
  induction ts generalizing p with
  | nil => exact ⟨Extends.refl p, rfl, fun t ht => (nomatch ht)⟩
  | cons t ts ih =>
    obtain ⟨he, hmethods, hts⟩ := ih (p.intern t).2
    refine ⟨(p.extends_intern t).trans he, hmethods.trans ?_, List.forall_mem_cons.2 ⟨?_, hts⟩⟩
    · rw [intern_eq]
    · exact he.mem_types (p.mem_types_intern_self t)

end Program

/-! ## What elaboration adds -/

namespace Source

variable {p q : Program}

section Loops

variable {α : Type} {f : Program → α → Except BuildError Program} {l : List α}

/-- A loop whose rounds extend the program extends it, and what each round brings about lasts. -/
theorem foldlM_gains {F : α → Program → Prop} (hmono : ∀ a p q, p.Extends q → F a p → F a q)
    (hstep : ∀ a ∈ l, ∀ p q, f p a = .ok q → p.Extends q ∧ F a q) (h : l.foldlM f p = .ok q) :
    p.Extends q ∧ ∀ a ∈ l, F a q := by
  induction l generalizing p with
  | nil =>
    cases h
    exact ⟨Program.Extends.refl _, fun a ha => (nomatch ha)⟩
  | cons a l ih =>
    rw [List.foldlM_cons, bind_eq_ok_iff] at h
    obtain ⟨r, hr, hl⟩ := h
    obtain ⟨he, ha⟩ := hstep a List.mem_cons_self p r hr
    obtain ⟨he', hrest⟩ := ih (fun b hb => hstep b (List.mem_cons_of_mem a hb)) hl
    exact ⟨he.trans he', List.forall_mem_cons.2 ⟨hmono a r q he' ha, hrest⟩⟩

/-- A loop that adds something in each round has added as much as it had rounds. -/
theorem foldlM_count {c : Program → Nat} (hstep : ∀ p a q, f p a = .ok q → c p + 1 ≤ c q)
    (h : l.foldlM f p = .ok q) : c p + l.length ≤ c q := by
  induction l generalizing p with
  | nil =>
    cases h
    exact Nat.le_refl _
  | cons a l ih =>
    rw [List.foldlM_cons, bind_eq_ok_iff] at h
    obtain ⟨r, hr, hl⟩ := h
    have hfirst := hstep p a r hr
    have hrest := ih hl
    rw [List.length_cons]
    omega

end Loops

/-- Declaring a method adds it, and the types of its head. -/
theorem declare_gains {d : MethodDecl} (h : MethodDecl.declare p d = .ok q) :
    p.methods.length + 1 ≤ q.methods.length ∧ p.Extends q ∧ ∀ t ∈ d.returnType :: d.params, t ∈ q.types := by
  have hext₁ := p.extends_intern d.returnType
  have hreturn := p.mem_types_intern_self d.returnType
  have hmethods₁ : (p.intern d.returnType).2.methods = p.methods := by rw [Program.intern_eq]
  unfold MethodDecl.declare at h
  generalize p.intern d.returnType = r₁ at *
  obtain ⟨returnType, p₁⟩ := r₁
  obtain ⟨hext₂, hmethods₂, hparams⟩ := p₁.internAll_gains d.params
  dsimp only at h hext₁ hreturn hmethods₁
  generalize p₁.internAll d.params = r₂ at *
  obtain ⟨params, p₂⟩ := r₂
  obtain ⟨r, hr, hq⟩ := bind_eq_ok_iff.1 h
  obtain ⟨-, -, -, rfl⟩ := Program.declareMethod_eq_ok_iff.1 hr
  cases hq
  have hext₃ := p₂.extends_addMethod { name := d.name, returnType, params }
  refine ⟨?_, (hext₁.trans hext₂).trans hext₃, List.forall_mem_cons.2 ⟨hext₂.mem_types hreturn, hparams⟩⟩
  refine Nat.le_of_eq (Eq.symm ?_)
  show (p₂.methods ++ [_]).length = p.methods.length + 1
  rw [List.length_append, List.length_singleton, hmethods₂, hmethods₁]

/-- Resolving a statement adds the type it names. -/
theorem resolve_gains {st : Stmt} {i : Instr} (h : st.resolve p = .ok (i, q)) : p.Extends q ∧ ∀ t ∈ st.types, t ∈ q.types := by
  cases st with
  | loadConst r t c =>
    cases h
    refine ⟨p.extends_intern t, fun t' ht' => ?_⟩
    rw [List.mem_singleton.1 ht']
    exact p.mem_types_intern_self t
  | call r callee args =>
    obtain ⟨m, -, hq⟩ := bind_eq_ok_iff.1 h
    cases hq
    exact ⟨Program.Extends.refl p, fun t ht => (nomatch ht)⟩
  | _ =>
    cases h
    exact ⟨Program.Extends.refl p, fun t ht => (nomatch ht)⟩

/-- Adding a statement adds the type it names. -/
theorem emit_gains {m : MethodRef} {b : BlockRef} {st : Stmt} (h : st.emit m b p = .ok q) :
    p.Extends q ∧ ∀ t ∈ st.types, t ∈ q.types := by
  rw [Stmt.emit_eq_resolve] at h
  obtain ⟨⟨i, r⟩, hr, hq⟩ := bind_eq_ok_iff.1 h
  obtain ⟨he, htypes⟩ := resolve_gains hr
  obtain ⟨-, -, -, j, -, -, rfl⟩ := Program.emit_eq_ok_iff.1 hq
  have he' : r.Extends (r.push m b j) := r.extends_edit m fun d => d.extends_push b j
  exact ⟨he.trans he', fun t ht => he'.mem_types (htypes t ht)⟩

/-- Adding a block adds it, and the types its statements name. -/
theorem defineBlock_gains {m : MethodRef} {b : BlockDecl} (h : b.define m p = .ok q) :
    p.blockCount m + 1 ≤ q.blockCount m ∧ p.Extends q ∧ ∀ st ∈ b.stmts, ∀ t ∈ st.types, t ∈ q.types := by
  obtain ⟨⟨ref, r⟩, hr, hq⟩ := bind_eq_ok_iff.1 h
  obtain ⟨-, d, hd, -, hrp⟩ := Program.declareBlock_eq_ok_iff.1 hr
  cases hrp
  have hext := p.extends_edit m fun d => d.extends_addBlock b.name
  have hd' : (p.edit m fun d => (d.addBlock b.name).2).method? m = some (d.addBlock b.name).2 := by
    rw [Program.method?, Program.getElem?_edit, show p.methods[m.index]? = some d from hd, Option.map_some, if_pos rfl]
  obtain ⟨hext', htypes⟩ := foldlM_gains (F := fun (st : Stmt) q => ∀ t ∈ st.types, t ∈ q.types)
    (fun st p q he hst t ht => he.mem_types (hst t ht)) (fun st _ p q => emit_gains) hq
  refine ⟨?_, hext.trans hext', htypes⟩
  have hle := hext'.blockCount_le m
  rw [Program.blockCount_of_method? hd', Method.addBlock, List.length_append, List.length_singleton] at hle
  rw [Program.blockCount_of_method? hd]
  exact hle

/-- The types that the statements of a method name. -/
def MethodDecl.bodyTypes (d : MethodDecl) : List Scalar := d.blocks.flatMap fun b => b.stmts.flatMap Stmt.types

/-- Adding the blocks of a method adds as many, and the types their statements name. -/
theorem define_gains {d : MethodDecl} (h : MethodDecl.define p d = .ok q) :
    p.Extends q ∧ (∃ m, d.blocks.length ≤ q.blockCount m) ∧ ∀ t ∈ d.bodyTypes, t ∈ q.types := by
  obtain ⟨m, -, hq⟩ := bind_eq_ok_iff.1 h
  obtain ⟨hext, htypes⟩ := foldlM_gains (F := fun (b : BlockDecl) q => ∀ st ∈ b.stmts, ∀ t ∈ st.types, t ∈ q.types)
    (fun b p q he hb st hst t ht => he.mem_types (hb st hst t ht)) (fun b _ p q hb => (defineBlock_gains hb).2) hq
  have hcount := foldlM_count (c := fun p => p.blockCount m) (fun p b q hb => (defineBlock_gains hb).1) hq
  refine ⟨hext, ⟨m, Nat.le_trans (Nat.le_add_left _ _) hcount⟩, fun t ht => ?_⟩
  obtain ⟨b, hb, ht⟩ := List.mem_flatMap.1 ht
  obtain ⟨st, hst, ht⟩ := List.mem_flatMap.1 ht
  exact htypes b hb st hst t ht

/-- Elaborating a tree adds all its methods, with as many blocks and with the types they name. -/
theorem elaborate_gains {s : Source} (h : s.elaborate = .ok p) :
    s.methods.length ≤ p.methods.length ∧
      ∀ d ∈ s.methods, (∃ m, d.blocks.length ≤ p.blockCount m) ∧ ∀ t ∈ d.types, t ∈ p.types := by
  obtain ⟨p₁, h₁, h⟩ := bind_eq_ok_iff.1 h
  obtain ⟨p₂, h₂, h⟩ := bind_eq_ok_iff.1 h
  have hentry : p₂.Extends p := by
    cases he : s.entry with
    | none =>
      rw [he] at h
      cases h
      exact Program.Extends.refl _
    | some name =>
      rw [he] at h
      obtain ⟨m, -, h⟩ := bind_eq_ok_iff.1 h
      obtain ⟨-, -, hm, rfl⟩ := Program.setEntry_eq_ok_iff.1 h
      exact Program.extends_setEntry hm
  have hcount := foldlM_count (c := fun p => p.methods.length) (fun p d q hd => (declare_gains hd).1) h₁
  obtain ⟨-, hheads⟩ := foldlM_gains (F := fun (d : MethodDecl) q => ∀ t ∈ d.returnType :: d.params, t ∈ q.types)
    (fun d p q he hd t ht => he.mem_types (hd t ht)) (fun d _ p q hd => (declare_gains hd).2) h₁
  obtain ⟨hext, hbodies⟩ := foldlM_gains
    (F := fun (d : MethodDecl) q => (∃ m, d.blocks.length ≤ q.blockCount m) ∧ ∀ t ∈ d.bodyTypes, t ∈ q.types)
    (fun d p q he hd => ⟨hd.1.imp fun m hm => Nat.le_trans hm (he.blockCount_le m), fun t ht => he.mem_types (hd.2 t ht)⟩)
    (fun d _ p q hd => define_gains hd) h₂
  have hall := hext.trans hentry
  refine ⟨?_, fun d hd => ?_⟩
  · exact Nat.le_trans (Nat.le_trans (Nat.le_add_left _ _) hcount) hall.length_methods_le
  · obtain ⟨⟨m, hm⟩, hbody⟩ := hbodies d hd
    refine ⟨⟨m, Nat.le_trans hm (hentry.blockCount_le m)⟩, fun t ht => ?_⟩
    rcases List.mem_append.1 ht with ht | ht
    · exact hall.mem_types (hheads d hd t ht)
    · exact hentry.mem_types (hbody t ht)

/-- A tree that is elaborated to a program with few methods, few blocks in each and types of a short list is small. -/
theorem small_of_elaborate_of_subset {s : Source} {ts : List Scalar} (h : s.elaborate = .ok p)
    (hlength : p.methods.length < UInt32.size) (hblocks : ∀ d ∈ p.methods, d.blocks.length < UInt32.size) (hsub : p.types ⊆ ts)
    (hts : ts.length < UInt32.size) : s.Small := by
  obtain ⟨hmethods, hgains⟩ := elaborate_gains h
  refine ⟨Nat.lt_of_le_of_lt hmethods hlength, fun d hd => ?_, ?_⟩
  · obtain ⟨⟨m, hm⟩, -⟩ := hgains d hd
    refine Nat.lt_of_le_of_lt hm ?_
    cases hx : p.method? m with
    | none =>
      rw [Program.blockCount, hx]
      decide
    | some x =>
      rw [Program.blockCount_of_method? hx]
      exact hblocks x (List.mem_of_getElem? hx)
  · have hdedup : s.types.dedup ⊆ ts := by
      intro t ht
      obtain ⟨d, hd, ht⟩ := List.mem_flatMap.1 (List.mem_dedup.1 ht)
      exact hsub ((hgains d hd).2 t ht)
    exact Nat.lt_of_le_of_lt (s.types.nodup_dedup.subperm hdedup).length_le hts

/-- A tree that is elaborated to a small program is small. -/
theorem small_of_elaborate {s : Source} (h : s.elaborate = .ok p) (hp : p.Small) : s.Small :=
  small_of_elaborate_of_subset h hp.methods hp.blocks (fun _ ht => ht) hp.types

/-- The tree of a text is what the grammar reads from it when nothing is left. -/
theorem parse_eq_ok_iff {cs : List Char} {s : Source} : Source.parse cs = .ok s ↔ Grammar.program cs = .done s [] := by
  unfold Source.parse
  split
  · next tree hdone => simp [hdone]
  · next tree rest hrest hdone =>
    refine ⟨fun h => (by cases h), fun h => ?_⟩
    rw [hdone] at h
    cases h
    exact absurd rfl hrest
  · next rest hfail =>
    refine ⟨fun h => (by cases h), fun h => ?_⟩
    rw [hfail] at h
    cases h

end Source

namespace Program

/-- A program that was read from a text, however the text is laid out and its numbers are written, is read back from its own text
as the very same program: the same types in the same order, the same methods, blocks and instructions, the same constants and the
same entry. -/
theorem parse_text_of_parse (t : String) (p : Program) (h : Program.parse t = .ok p) (hsmall : p.Small) :
    Program.parse p.text = .ok p := by
  obtain ⟨s, hs, helab⟩ := bind_eq_ok_iff.1 h
  rw [mapError_eq_ok_iff] at helab
  obtain ⟨hnamed, hcanonical⟩ := Grammar.program_yields _ _ _ (Source.parse_eq_ok_iff.1 hs)
  obtain ⟨hrealizes, hwf⟩ := (Source.elaborate_ends hnamed (Source.small_of_elaborate helab hsmall)).of_ok helab
  have htext : Grammar.ProgramText s p.chars := by
    rw [← hcanonical]
    exact hwf.programText hrealizes
  refine bind_eq_ok_iff.2 ⟨s, ?_, mapError_eq_ok_iff.2 helab⟩
  rw [text, String.toList_ofList, Source.parse_eq_ok_iff]
  exact Grammar.program_of_text htext

/-- Numbers with zeros in front, a zero with a minus sign, a `bool` by another name, a constant above the signed range, a comment,
a call of a method further down and hardly any white space. -/
def looseText : String :=
  "program\x7b ; heads come first\n entry : %g method %f(u01)->bool\x7bret:r00 = ld_const i08 -0\n\tr1=call %g()ret r0\x7d\n" ++
    "method %g ( ) -> u64 \x7b a : r0=ld_const u64 018446744073709551615 ret r0 \x7d \x7d"

/-- The types of both heads come before the type that only a body names. -/
def loose : Program where
  types := [⟨false, 1⟩, ⟨false, 64⟩, ⟨true, 8⟩]
  methods :=
    [{ name := "f", returnType := ⟨0⟩, params := [⟨0⟩]
       blocks := [{ name := "ret", instrs := [.loadConst 0 ⟨2⟩ (.int 0), .call 1 ⟨1⟩ [], .ret (some 0)] }] },
     { name := "g", returnType := ⟨1⟩, params := []
       blocks := [{ name := "a", instrs := [.loadConst 0 ⟨1⟩ (.uint 0xFFFFFFFFFFFFFFFF), .ret (some 0)] }] }]
  entry := some ⟨1⟩

theorem parse_text_loose : Program.parse looseText = .ok loose ∧ loose.Small ∧ Program.parse loose.text = .ok loose := by
  have hparse : Program.parse looseText = .ok loose := eq_ok_of_toOption (by decide +kernel)
  have hsmall : loose.Small := by
    refine ⟨?_, ?_, ?_⟩ <;> decide +kernel
  exact ⟨hparse, hsmall, parse_text_of_parse looseText loose hparse hsmall⟩

end Program

end Straightline
