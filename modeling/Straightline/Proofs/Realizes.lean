import Mathlib.Data.List.Dedup
import Mathlib.Data.List.Forall2
import Straightline.Proofs.WellFormed
import Straightline.Source

/-!
# Programs and source trees

A source tree calls methods by name and has its types where they are written; a program refers to both by number. A program
realizes a tree if it has the same methods, blocks and statements in the same order, with every name and every type of the tree in
the place of a reference that leads to it (`Program.Realizes`). Well-formedness of a tree is said without regard to any order
(`Source.WellFormed`); main statement: a tree that a well-formed program realizes is well formed (`Program.WellFormed.source`).
-/

namespace Straightline

/-! ## Related lists -/

section Lists

variable {α β γ : Type} {R : α → β → Prop} {l : List α} {k : List β}

/-- A function and its counterpart take related lists to the same list. -/
theorem map_eq_of_forall₂ {f : α → γ} {g : β → γ} (h : List.Forall₂ R l k) (hfg : ∀ a b, R a b → f a = g b) :
    l.map f = k.map g := by
  induction h with
  | nil => rfl
  | cons hab _ ih => rw [List.map_cons, List.map_cons, hfg _ _ hab, ih]

/-- Each item on the right is related to one on the left. -/
theorem exists_left_of_forall₂ (h : List.Forall₂ R l k) {b : β} (hb : b ∈ k) : ∃ a ∈ l, R a b := by
  induction h with
  | nil => nomatch hb
  | @cons a b' l k hab _ ih =>
    rcases List.mem_cons.1 hb with rfl | hb
    · exact ⟨a, List.mem_cons_self, hab⟩
    · obtain ⟨a', ha', hab'⟩ := ih hb
      exact ⟨a', List.mem_cons_of_mem a ha', hab'⟩

/-- Each item on the left is related to one on the right. -/
theorem exists_right_of_forall₂ (h : List.Forall₂ R l k) {a : α} (ha : a ∈ l) : ∃ b ∈ k, R a b :=
  exists_left_of_forall₂ h.flip ha

/-- Each item on the left is related to the one at its place on the right. -/
theorem getElem?_right_of_forall₂ (h : List.Forall₂ R l k) {j : Nat} {a : α} (ha : l[j]? = some a) :
    ∃ b, k[j]? = some b ∧ R a b := by
  induction h generalizing j with
  | nil => nomatch ha
  | @cons a' b l k hab _ ih =>
    cases j with
    | zero =>
      cases ha
      exact ⟨b, rfl, hab⟩
    | succ j => exact ih ha

/-- A list that is related to one with an item in its middle has a related item there. -/
theorem exists_middle_of_forall₂ {k₁ k₂ : List β} {b : β} (h : List.Forall₂ R l (k₁ ++ b :: k₂)) :
    ∃ l₁ a l₂, l = l₁ ++ a :: l₂ ∧ l[k₁.length]? = some a ∧ List.Forall₂ R l₁ k₁ ∧ R a b ∧ List.Forall₂ R l₂ k₂ := by
  induction k₁ generalizing l with
  | nil =>
    obtain ⟨a, l₂, hab, hl₂, rfl⟩ := List.forall₂_cons_right_iff.1 h
    exact ⟨[], a, l₂, rfl, rfl, .nil, hab, hl₂⟩
  | cons b' k₁ ih =>
    obtain ⟨a', l', hab', hl', rfl⟩ := List.forall₂_cons_right_iff.1 h
    obtain ⟨l₁, a, l₂, rfl, ha, hl₁, hab, hl₂⟩ := ih hl'
    exact ⟨a' :: l₁, a, l₂, rfl, ha, .cons hab' hl₁, hab, hl₂⟩

/-- Where names are distinct, equal names stand at equal places. -/
theorem index_eq_of_name_eq {name : α → String} (hl : (l.map name).Nodup) {i j : Nat} {a b : α}
    (ha : l[i]? = some a) (hb : l[j]? = some b) (hab : name a = name b) : i = j := by
  have hi : i < (l.map name).length := by
    rw [List.length_map]
    exact (List.getElem?_eq_some_iff.1 ha).1
  apply (List.getElem?_inj hi hl).1
  rw [List.getElem?_map, List.getElem?_map, ha, hb, Option.map_some, Option.map_some, hab]

/-- Where names are distinct, no item in front of another one has its name. -/
theorem name_not_mem_of_nodup {name : α → String} {k : List α} {a : α} (h : ((l ++ a :: k).map name).Nodup) :
    name a ∉ l.map name := by
  rw [List.map_append, List.map_cons, List.nodup_append] at h
  exact fun hmem => h.2.2 _ hmem _ List.mem_cons_self rfl

end Lists

/-! ## Well-formed source trees -/

namespace Source

/-- The types that a statement names. -/
def Stmt.types : Stmt → List Scalar
  | .loadConst _ t _ => [t]
  | _ => []

/-- The types that a method names, in its head or in its statements. -/
def MethodDecl.types (d : MethodDecl) : List Scalar :=
  d.returnType :: d.params ++ d.blocks.flatMap fun b => b.stmts.flatMap Stmt.types

/-- The types that a tree names. -/
def types (s : Source) : List Scalar := s.methods.flatMap MethodDecl.types

/-- The methods and blocks of a tree have identifiers for names. -/
structure Named (s : Source) : Prop where
  methods : ∀ d ∈ s.methods, isIdentifier d.name.toList = true
  blocks : ∀ d ∈ s.methods, ∀ b ∈ d.blocks, isIdentifier b.name.toList = true

/-- A tree has few enough methods, blocks in each method and distinct types for references to tell them apart. -/
structure Small (s : Source) : Prop where
  methods : s.methods.length < UInt32.size
  blocks : ∀ d ∈ s.methods, d.blocks.length < UInt32.size
  types : s.types.dedup.length < UInt32.size

/-- A statement is meaningful in a method of a tree: a parameter it loads exists, a constant it loads is admitted by its type, and
a method it calls is one of the tree, before or after it, that takes as many arguments as it is given. -/
def Allows (s : Source) (d : MethodDecl) : Stmt → Prop
  | .add .. => True
  | .loadParam _ i => i.toNat < d.params.length
  | .loadConst _ t c => t.Admits c
  | .call _ callee args => ∃ e ∈ s.methods, e.name = callee ∧ args.length = e.params.length
  | .ret _ => True

/-- A tree is well formed: the methods have distinct names, and so have the blocks of each; the statements are meaningful; and the
entry is a method. -/
structure WellFormed (s : Source) : Prop where
  methodsDistinct : (s.methods.map (·.name)).Nodup
  blocksDistinct : ∀ d ∈ s.methods, (d.blocks.map (·.name)).Nodup
  stmts : ∀ d ∈ s.methods, ∀ b ∈ d.blocks, ∀ st ∈ b.stmts, s.Allows d st
  entry : ∀ name, s.entry = some name → ∃ d ∈ s.methods, d.name = name

end Source

/-! ## Realization -/

namespace Program

open Source (Stmt BlockDecl MethodDecl)

/-- An instruction of a program says what a statement says. -/
inductive RealizesStmt (p : Program) : Instr → Stmt → Prop where
  | add (r a b : Register) : RealizesStmt p (.add r a b) (.add r a b)
  | loadParam (r : Register) (i : UInt32) : RealizesStmt p (.loadParam r i) (.loadParam r i)
  | loadConst (r : Register) {t : TypeRef} {s : Scalar} (c : Constant) (ht : p.type? t = some s) :
      RealizesStmt p (.loadConst r t c) (.loadConst r s c)
  | call (r : Register) {m : MethodRef} {d : Method} (args : List Register) (hm : p.method? m = some d) :
      RealizesStmt p (.call r m args) (.call r d.name args)
  | ret (v : Option Register) : RealizesStmt p (.ret v) (.ret v)

/-- A block of a program says what a block of a tree says. -/
structure RealizesBlock (p : Program) (b : Block) (d : BlockDecl) : Prop where
  name : b.name = d.name
  instrs : List.Forall₂ p.RealizesStmt b.instrs d.stmts

/-- A method of a program says what a method of a tree says. -/
structure RealizesMethod (p : Program) (m : Method) (d : MethodDecl) : Prop where
  name : m.name = d.name
  returnType : p.type? m.returnType = some d.returnType
  params : List.Forall₂ (fun t s => p.type? t = some s) m.params d.params
  blocks : List.Forall₂ p.RealizesBlock m.blocks d.blocks

/-- A program says what a tree says: the methods, blocks and statements of both stand in the same order, names of methods are
resolved to methods of that name, and types to references to them. -/
structure Realizes (p : Program) (s : Source) : Prop where
  methods : List.Forall₂ p.RealizesMethod p.methods s.methods
  entry : Option.Rel (fun m name => ∃ d, p.method? m = some d ∧ d.name = name) p.entry s.entry

/-! ### Extensions keep what is realized -/

theorem RealizesStmt.mono {p q : Program} (he : p.Extends q) {i : Instr} {st : Stmt} (h : p.RealizesStmt i st) :
    q.RealizesStmt i st := by
  cases h with
  | add r a b => exact .add r a b
  | loadParam r i => exact .loadParam r i
  | loadConst r c ht => exact .loadConst r c (he.type? ht)
  | call r args hm =>
    obtain ⟨d', hd', hdd'⟩ := he.method? hm
    rw [← hdd'.name]
    exact .call r args hd'
  | ret v => exact .ret v

theorem RealizesBlock.mono {p q : Program} (he : p.Extends q) {b : Block} {d : BlockDecl} (h : p.RealizesBlock b d) :
    q.RealizesBlock b d :=
  ⟨h.name, h.instrs.imp fun _ _ hi => hi.mono he⟩

theorem RealizesMethod.mono {p q : Program} (he : p.Extends q) {m : Method} {d : MethodDecl} (h : p.RealizesMethod m d) :
    q.RealizesMethod m d :=
  ⟨h.name, he.type? h.returnType, h.params.imp fun _ _ ht => he.type? ht, h.blocks.imp fun _ _ hb => hb.mono he⟩

/-! ### What a realized tree has in common with the program -/

variable {p : Program} {s : Source}

/-- The methods have the names of the tree's methods. -/
theorem Realizes.map_name (h : p.Realizes s) : p.methods.map (·.name) = s.methods.map (·.name) :=
  map_eq_of_forall₂ h.methods fun _ _ hm => hm.name

/-- The blocks have the names of the tree's blocks. -/
theorem RealizesMethod.map_name {m : Method} {d : MethodDecl} (h : p.RealizesMethod m d) :
    m.blocks.map (·.name) = d.blocks.map (·.name) :=
  map_eq_of_forall₂ h.blocks fun _ _ hb => hb.name

/-- A method that exists realizes a method of the tree, the one at its place. -/
theorem Realizes.method (h : p.Realizes s) {m : MethodRef} {d : Method} (hm : p.method? m = some d) :
    ∃ e, s.methods[m.index]? = some e ∧ p.RealizesMethod d e :=
  getElem?_right_of_forall₂ h.methods hm

/-- A meaningful instruction realizes a meaningful statement. -/
theorem Realizes.allows (h : p.Realizes s) {m : Method} {d : MethodDecl} (hmd : p.RealizesMethod m d) {i : Instr} {st : Stmt}
    (hi : p.RealizesStmt i st) (ha : p.Allows m i) : s.Allows d st := by
  cases hi with
  | add r a b => exact trivial
  | loadParam r i =>
    show i.toNat < d.params.length
    rw [← hmd.params.length_eq]
    exact ha
  | loadConst r c ht =>
    obtain ⟨t, ht', hc⟩ := ha
    cases ht.symm.trans ht'
    exact hc
  | call r args hm =>
    obtain ⟨callee, hm', hargs⟩ := ha
    cases hm.symm.trans hm'
    obtain ⟨e, he, hce⟩ := h.method hm
    exact ⟨e, List.mem_of_getElem? he, hce.name.symm, by rw [hargs, hce.params.length_eq]⟩
  | ret v => exact trivial

/-- A tree that a well-formed program realizes is well formed. -/
theorem WellFormed.source (hp : p.WellFormed) (h : p.Realizes s) : s.WellFormed := by
  refine ⟨?_, fun d hd => ?_, fun d hd b hb st hst => ?_, fun name hname => ?_⟩
  · rw [← h.map_name]
    exact hp.methodsDistinct
  · obtain ⟨m, hm, hmd⟩ := exists_left_of_forall₂ h.methods hd
    rw [← hmd.map_name]
    exact (hp.methods m hm).blocksDistinct
  · obtain ⟨m, hm, hmd⟩ := exists_left_of_forall₂ h.methods hd
    obtain ⟨b', hb', hbb'⟩ := exists_left_of_forall₂ hmd.blocks hb
    obtain ⟨i, hi, hist⟩ := exists_left_of_forall₂ hbb'.instrs hst
    exact h.allows hmd hist ((hp.methods m hm).instrs b' hb' i hi)
  · have he := h.entry
    rw [hname] at he
    cases hpe : p.entry with
    | none =>
      rw [hpe] at he
      nomatch he
    | some m =>
      rw [hpe] at he
      cases he with
      | some hm =>
        obtain ⟨d, hm, rfl⟩ := hm
        obtain ⟨e, he, hde⟩ := h.method hm
        exact ⟨e, List.mem_of_getElem? he, hde.name.symm⟩

end Program

end Straightline
