import Straightline.Proofs.Elaborate
import Straightline.Proofs.Mirrors
import Straightline.Source.Parse

/-!
# Writing a program and reading it

The text of a program that calls build is read back as a program that mirrors it (`Program.parse_text_built`): a well-formed
program realizes some source tree (`Program.WellFormed.exists_source`), its text is a layout of the canonical form of the tree and
so is read as that, and the canonical form is well formed, so that it elaborates to a program that realizes it.
-/

namespace Straightline

open Source (Stmt BlockDecl MethodDecl)

/-! ## Canonical forms -/

namespace Source

variable {s : Source}

/-- A method of the canonical form is the canonical form of a method. -/
theorem mem_canonical {d : MethodDecl} : d ∈ s.canonical.methods ↔ ∃ e ∈ s.methods, e.canonical = d := List.mem_map

/-- A statement and its canonical form name the same types. -/
theorem Stmt.types_canonical (st : Stmt) : st.canonical.types = st.types := by
  cases st <;> rfl

/-- A method and its canonical form name the same types. -/
theorem MethodDecl.types_canonical (d : MethodDecl) : d.canonical.types = d.types := by
  simp only [types, canonical, BlockDecl.canonical, List.flatMap_map, Stmt.types_canonical]

/-- A tree and its canonical form name the same types. -/
theorem types_canonical (s : Source) : s.canonical.types = s.types := by
  simp only [types, canonical, List.flatMap_map, MethodDecl.types_canonical]

/-- The canonical form has identifiers for names. -/
theorem Named.canonical (h : s.Named) : s.canonical.Named := by
  refine ⟨fun d hd => ?_, fun d hd b hb => ?_⟩
  · obtain ⟨e, he, rfl⟩ := mem_canonical.1 hd
    exact h.methods e he
  · obtain ⟨e, he, rfl⟩ := mem_canonical.1 hd
    obtain ⟨c, hc, rfl⟩ := List.mem_map.1 hb
    exact h.blocks e he c hc

/-- The canonical form is as small as the tree. -/
theorem Small.canonical (h : s.Small) : s.canonical.Small := by
  refine ⟨?_, fun d hd => ?_, ?_⟩
  · rw [Source.canonical, List.length_map]
    exact h.methods
  · obtain ⟨e, he, rfl⟩ := mem_canonical.1 hd
    rw [MethodDecl.canonical, List.length_map]
    exact h.blocks e he
  · rw [types_canonical]
    exact h.types

/-- The canonical form of a meaningful statement is meaningful. -/
theorem Allows.canonical {d : MethodDecl} {st : Stmt} (h : s.Allows d st) : s.canonical.Allows d.canonical st.canonical := by
  cases st with
  | add r a b => exact trivial
  | loadParam r i => exact h
  | loadConst r t c => exact Constant.admits_canonical.2 h
  | call r callee args =>
    obtain ⟨e, he, rfl, hargs⟩ := h
    exact ⟨e.canonical, mem_canonical.2 ⟨e, he, rfl⟩, rfl, hargs⟩
  | ret v => exact trivial

/-- The canonical form of a well-formed tree is well formed. -/
theorem WellFormed.canonical (h : s.WellFormed) : s.canonical.WellFormed := by
  refine ⟨?_, fun d hd => ?_, fun d hd b hb st hst => ?_, fun name hname => ?_⟩
  · rw [map_name_canonical]
    exact h.methodsDistinct
  · obtain ⟨e, he, rfl⟩ := mem_canonical.1 hd
    rw [MethodDecl.canonical, List.map_map]
    exact h.blocksDistinct e he
  · obtain ⟨e, he, rfl⟩ := mem_canonical.1 hd
    obtain ⟨c, hc, rfl⟩ := List.mem_map.1 hb
    obtain ⟨st', hst', rfl⟩ := List.mem_map.1 hst
    exact (h.stmts e he c hc st' hst').canonical
  · obtain ⟨d, hd, rfl⟩ := h.entry name hname
    exact ⟨d.canonical, mem_canonical.2 ⟨d, hd, rfl⟩, rfl⟩

end Source

/-! ## The tree of a program -/

/-- Items that are each related to something make up a list that is related to a list. -/
theorem exists_forall₂ {α β : Type} {R : α → β → Prop} {l : List α} (h : ∀ a ∈ l, ∃ b, R a b) : ∃ k, List.Forall₂ R l k := by
  induction l with
  | nil => exact ⟨[], .nil⟩
  | cons a l ih =>
    obtain ⟨ha, hl⟩ := List.forall_mem_cons.1 h
    obtain ⟨b, hb⟩ := ha
    obtain ⟨k, hk⟩ := ih hl
    exact ⟨b :: k, .cons hb hk⟩

namespace Program

variable {p : Program} {s : Source}

/-- A meaningful instruction realizes some statement. -/
theorem exists_realizesStmt {d : Method} {i : Instr} (h : p.Allows d i) : ∃ st, p.RealizesStmt i st := by
  cases i with
  | add r a b => exact ⟨_, .add r a b⟩
  | loadParam r i => exact ⟨_, .loadParam r i⟩
  | loadConst r t c =>
    obtain ⟨s, hs, -⟩ := h
    exact ⟨_, .loadConst r c hs⟩
  | call r m args =>
    obtain ⟨callee, hm, -⟩ := h
    exact ⟨_, .call r args hm⟩
  | ret v => exact ⟨_, .ret v⟩

/-- A well-formed method realizes some method of a tree. -/
theorem MethodWellFormed.exists_realizesMethod {m : Method} (h : p.MethodWellFormed m) : ∃ d, p.RealizesMethod m d := by
  obtain ⟨returnType, hreturn⟩ := h.types m.returnType List.mem_cons_self
  obtain ⟨params, hparams⟩ := exists_forall₂ fun t ht => h.types t (List.mem_cons_of_mem _ ht)
  have hblock : ∀ b ∈ m.blocks, ∃ d, p.RealizesBlock b d := by
    intro b hb
    obtain ⟨stmts, hstmts⟩ := exists_forall₂ fun i hi => exists_realizesStmt (h.instrs b hb i hi)
    exact ⟨⟨b.name, stmts⟩, rfl, hstmts⟩
  obtain ⟨blocks, hblocks⟩ := exists_forall₂ hblock
  exact ⟨⟨m.name, params, returnType, blocks⟩, rfl, hreturn, hparams, hblocks⟩

/-- A well-formed program realizes some tree. -/
theorem WellFormed.exists_source (hp : p.WellFormed) : ∃ s, p.Realizes s := by
  obtain ⟨methods, hmethods⟩ := exists_forall₂ fun m hm => (hp.methods m hm).exists_realizesMethod
  cases hentry : p.entry with
  | none =>
    refine ⟨⟨none, methods⟩, hmethods, ?_⟩
    rw [hentry]
    exact .none
  | some m =>
    obtain ⟨d, hm⟩ := hp.entry m hentry
    refine ⟨⟨some d.name, methods⟩, hmethods, ?_⟩
    rw [hentry]
    exact .some ⟨d, hm, rfl⟩

/-- The names of a tree that a well-formed program realizes are identifiers. -/
theorem WellFormed.named (hp : p.WellFormed) (h : p.Realizes s) : s.Named := by
  refine ⟨fun d hd => ?_, fun d hd b hb => ?_⟩
  · obtain ⟨m, hm, hmd⟩ := exists_left_of_forall₂ h.methods hd
    rw [← hmd.name]
    exact (hp.methods m hm).name
  · obtain ⟨m, hm, hmd⟩ := exists_left_of_forall₂ h.methods hd
    obtain ⟨c, hc, hcb⟩ := exists_left_of_forall₂ hmd.blocks hb
    rw [← hcb.name]
    exact (hp.methods m hm).blockNames c hc

/-- A type that a realized method names is in the table. -/
theorem RealizesMethod.mem_types {m : Method} {d : MethodDecl} (h : p.RealizesMethod m d) {t : Scalar} (ht : t ∈ d.types) :
    t ∈ p.types := by
  rcases List.mem_append.1 ht with ht | ht
  · rcases List.mem_cons.1 ht with rfl | ht
    · exact List.mem_of_getElem? h.returnType
    · obtain ⟨r, -, hr⟩ := exists_left_of_forall₂ h.params ht
      exact List.mem_of_getElem? hr
  · obtain ⟨b, hb, ht⟩ := List.mem_flatMap.1 ht
    obtain ⟨st, hst, ht⟩ := List.mem_flatMap.1 ht
    obtain ⟨c, -, hc⟩ := exists_left_of_forall₂ h.blocks hb
    obtain ⟨i, -, hi⟩ := exists_left_of_forall₂ hc.instrs hst
    cases hi with
    | loadConst r c hr =>
      rw [List.mem_singleton.1 ht]
      exact List.mem_of_getElem? hr
    | _ => nomatch ht

/-- A program has few enough types, methods and blocks in each method for references to tell them apart. -/
structure Small (p : Program) : Prop where
  types : p.types.length < UInt32.size
  methods : p.methods.length < UInt32.size
  blocks : ∀ m ∈ p.methods, m.blocks.length < UInt32.size

/-- A tree that a small program realizes is small. -/
theorem Small.source (hp : p.Small) (h : p.Realizes s) : s.Small := by
  refine ⟨?_, fun d hd => ?_, ?_⟩
  · rw [← h.methods.length_eq]
    exact hp.methods
  · obtain ⟨m, hm, hmd⟩ := exists_left_of_forall₂ h.methods hd
    rw [← hmd.blocks.length_eq]
    exact hp.blocks m hm
  · have hsub : s.types.dedup ⊆ p.types := by
      intro t ht
      obtain ⟨d, hd, ht⟩ := List.mem_flatMap.1 (List.mem_dedup.1 ht)
      obtain ⟨m, -, hmd⟩ := exists_left_of_forall₂ h.methods hd
      exact hmd.mem_types ht
    exact Nat.lt_of_le_of_lt (s.types.nodup_dedup.subperm hsub).length_le hp.types

/-! ## The text read back -/

/-- The text of a small well-formed program is read as a well-formed program that mirrors it. -/
theorem WellFormed.parse_text (hp : p.WellFormed) (hsmall : p.Small) :
    ∃ q, Program.parse p.text = .ok q ∧ q.WellFormed ∧ p.Mirrors q := by
  obtain ⟨s, hs⟩ := hp.exists_source
  have hends := Source.elaborate_ends (hp.named hs).canonical (hsmall.source hs).canonical
  obtain ⟨q, hq, hreal, hwf⟩ := hends.exists_ok fun e he => he.2 (hp.source hs).canonical
  have htree : Source.parse p.text.toList = .ok s.canonical := by
    rw [text, String.toList_ofList, Source.parse, Grammar.program_of_text (hp.programText hs)]
  refine ⟨q, ?_, hwf, hp.mirrors hs hreal⟩
  exact bind_eq_ok_iff.2 ⟨s.canonical, htree, mapError_eq_ok_iff.2 hq⟩

/-- Whatever calls build, its text is read back: as a program with the same text, the same entry and, method by method and block
by block, the same instructions, up to the numbering of the types and to unsigned constants that become signed ones of the same
number. -/
theorem parse_text_built (cs : List Call) (hsmall : (built cs).Small) :
    ∃ q, Program.parse (built cs).text = .ok q ∧ q.text = (built cs).text ∧ (built cs).Mirrors q := by
  have hwf : (built cs).WellFormed := wellFormed_empty.after cs
  obtain ⟨q, hq, -, hmirrors⟩ := hwf.parse_text hsmall
  exact ⟨q, hq, hmirrors.text, hmirrors⟩

/-- Labels like keywords and registers, a call before the callee's declaration is complete, constants on both sides of the signed
range, a type that nothing uses and a refused declaration. -/
def keywordLabels : List Call :=
  [.resolveType ⟨true, 7⟩, .resolveType ⟨false, 64⟩, .declareMethod "method" ⟨1⟩ [], .declareMethod "entry" ⟨1⟩ [⟨1⟩, ⟨1⟩],
    .declareMethod "entry" ⟨1⟩ [], .declareBlock ⟨0⟩ "ret", .emit ⟨0⟩ ⟨0⟩ "ret" [.absent], .declareBlock ⟨0⟩ "r0",
    .emit ⟨0⟩ ⟨1⟩ "ld_const" [.register 0, .type ⟨1⟩, .const (.uint 5)],
    .emit ⟨0⟩ ⟨1⟩ "ld_const" [.register 1, .type ⟨1⟩, .const (.uint 0xFFFFFFFFFFFFFFFF)],
    .emit ⟨0⟩ ⟨1⟩ "call" [.register 2, .method ⟨1⟩, .registers [0, 1]], .declareBlock ⟨0⟩ "program", .declareBlock ⟨1⟩ "ret",
    .emit ⟨1⟩ ⟨0⟩ "ret" [.absent], .setEntry ⟨1⟩]

/-- Such a program is small, has all these blocks and instructions, and is read back. -/
theorem parse_text_keywordLabels :
    (built keywordLabels).Small ∧
      (built keywordLabels).methods.map (fun m => m.blocks.map (·.instrs.length)) = [[1, 3, 0], [1]] ∧
      ∃ q, Program.parse (built keywordLabels).text = .ok q ∧ q.text = (built keywordLabels).text ∧
        (built keywordLabels).Mirrors q := by
  have hsmall : (built keywordLabels).Small := by
    refine ⟨?_, ?_, ?_⟩ <;> decide +kernel
  refine ⟨hsmall, ?_, parse_text_built keywordLabels hsmall⟩
  decide +kernel

end Program

end Straightline
