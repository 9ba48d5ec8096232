import Straightline.Proofs.Calls

/-!
# Programs only grow

Building adds at the end and changes nothing that is there: types keep their places, methods keep their places and signatures,
blocks keep their places and names, instructions keep their places, and an entry that is set stays (`Program.Extends`). Every run
of calls extends the program it starts from (`Program.extends_after`), so that what a reference leads to, and what is meaningful,
stays so.
-/

namespace Straightline

/-! ## Extensions -/

/-- A block has gained instructions at its end. -/
structure Block.Extends (b c : Block) : Prop where
  name : c.name = b.name
  instrs : b.instrs <+: c.instrs

/-- A method has gained blocks, or instructions in its blocks. -/
structure Method.Extends (m n : Method) : Prop where
  name : n.name = m.name
  returnType : n.returnType = m.returnType
  params : n.params = m.params
  blocks : ∀ (j : Nat) (b : Block), m.blocks[j]? = some b → ∃ c, n.blocks[j]? = some c ∧ b.Extends c

/-- A program has gained types, methods, parts of its methods, or an entry. -/
structure Program.Extends (p q : Program) : Prop where
  types : p.types <+: q.types
  methods : ∀ (j : Nat) (m : Method), p.methods[j]? = some m → ∃ n, q.methods[j]? = some n ∧ m.Extends n
  entry : ∀ m, p.entry = some m → q.entry = some m

theorem Block.Extends.refl (b : Block) : b.Extends b := ⟨rfl, List.prefix_refl _⟩

theorem Block.Extends.trans {a b c : Block} (h : a.Extends b) (h' : b.Extends c) : a.Extends c :=
  ⟨h'.name.trans h.name, h.instrs.trans h'.instrs⟩

theorem Method.Extends.refl (m : Method) : m.Extends m := ⟨rfl, rfl, rfl, fun _ b hb => ⟨b, hb, Block.Extends.refl b⟩⟩

theorem Method.Extends.trans {l m n : Method} (h : l.Extends m) (h' : m.Extends n) : l.Extends n := by
  refine ⟨h'.name.trans h.name, h'.returnType.trans h.returnType, h'.params.trans h.params, ?_⟩
  intro j b hb
  obtain ⟨c, hc, hbc⟩ := h.blocks j b hb
  obtain ⟨d, hd, hcd⟩ := h'.blocks j c hc
  exact ⟨d, hd, hbc.trans hcd⟩

theorem Program.Extends.refl (p : Program) : p.Extends p :=
  ⟨List.prefix_refl _, fun _ m hm => ⟨m, hm, Method.Extends.refl m⟩, fun _ h => h⟩

theorem Program.Extends.trans {p q r : Program} (h : p.Extends q) (h' : q.Extends r) : p.Extends r := by
  refine ⟨h.types.trans h'.types, ?_, fun m hm => h'.entry m (h.entry m hm)⟩
  intro j l hl
  obtain ⟨m, hm, hlm⟩ := h.methods j l hl
  obtain ⟨n, hn, hmn⟩ := h'.methods j m hm
  exact ⟨n, hn, hlm.trans hmn⟩

/-! ## What an extension keeps -/

/-- What stands in a prefix stands at the same place in the whole. -/
theorem getElem?_of_prefix {α : Type} {l l' : List α} (h : l <+: l') {j : Nat} {a : α} (ha : l[j]? = some a) :
    l'[j]? = some a := by
  obtain ⟨hj, rfl⟩ := List.getElem?_eq_some_iff.1 ha
  exact List.prefix_iff_getElem?.1 h j hj

namespace Program.Extends

variable {p q : Program}

/-- A type reference keeps its type. -/
theorem type? (h : p.Extends q) {t : TypeRef} {s : Scalar} (ht : p.type? t = some s) : q.type? t = some s :=
  getElem?_of_prefix h.types ht

/-- A method reference keeps its method, up to what the method has gained. -/
theorem method? (h : p.Extends q) {m : MethodRef} {d : Method} (hm : p.method? m = some d) :
    ∃ d', q.method? m = some d' ∧ d.Extends d' :=
  h.methods m.index d hm

/-- What is meaningful stays so, also after its method has gained. -/
theorem allows (h : p.Extends q) {d d' : Method} (hd : d.Extends d') {i : Instr} (hi : p.Allows d i) : q.Allows d' i := by
  cases i with
  | add r a b => exact trivial
  | loadParam r i =>
    show i.toNat < d'.params.length
    rw [hd.params]
    exact hi
  | loadConst r t c =>
    obtain ⟨s, hs, hc⟩ := hi
    exact ⟨s, h.type? hs, hc⟩
  | call r m args =>
    obtain ⟨callee, hm, hargs⟩ := hi
    obtain ⟨callee', hm', he⟩ := h.method? hm
    exact ⟨callee', hm', by rw [he.params]; exact hargs⟩
  | ret v => exact trivial

end Program.Extends

/-! ## Every call extends the program -/

/-- A new block at the end extends the method. -/
theorem Method.extends_addBlock (d : Method) (name : String) : d.Extends (d.addBlock name).2 := by
  refine ⟨rfl, rfl, rfl, fun j b hb => ⟨b, ?_, Block.Extends.refl b⟩⟩
  exact getElem?_of_prefix (List.prefix_append _ _) hb

/-- A new instruction at the end of a block extends the method. -/
theorem Method.extends_push (d : Method) (b : BlockRef) (i : Instr) : d.Extends (d.push b i) := by
  refine ⟨rfl, rfl, rfl, fun j c hc => ?_⟩
  have hj : (d.push b i).blocks[j]? = some (if b.index = j then c.push i else c) := by
    rw [Method.push, List.getElem?_modify, hc]
    rfl
  refine ⟨_, hj, ?_⟩
  by_cases h : b.index = j
  · rw [if_pos h]
    exact ⟨rfl, List.prefix_append _ _⟩
  · rw [if_neg h]
    exact Block.Extends.refl c

namespace Program

/-- A method after a change of one method. -/
theorem getElem?_edit (p : Program) (m : MethodRef) (f : Method → Method) (j : Nat) :
    (p.edit m f).methods[j]? = (p.methods[j]?).map fun d => if m.index = j then f d else d := by
  rw [edit, List.getElem?_modify]
  rfl

/-- A change that extends each method extends the program. -/
theorem extends_edit (p : Program) (m : MethodRef) {f : Method → Method} (hf : ∀ d : Method, d.Extends (f d)) :
    p.Extends (p.edit m f) := by
  refine ⟨List.prefix_refl _, fun j d hd => ?_, fun _ h => h⟩
  refine ⟨if m.index = j then f d else d, by rw [getElem?_edit, hd]; rfl, ?_⟩
  by_cases h : m.index = j
  · rw [if_pos h]
    exact hf d
  · rw [if_neg h]
    exact Method.Extends.refl d

/-- A type that is entered into the table extends the program. -/
theorem extends_intern (p : Program) (t : Scalar) : p.Extends (p.intern t).2 := by
  rcases intern_cases p t with ⟨j, -, h⟩ | ⟨-, h⟩
  · rw [h]
    exact Extends.refl p
  · rw [h]
    exact ⟨List.prefix_append _ _, fun _ m hm => ⟨m, hm, Method.Extends.refl m⟩, fun _ h => h⟩

/-- A new method at the end extends the program. -/
theorem extends_addMethod (p : Program) (d : Method) : p.Extends { p with methods := p.methods ++ [d] } :=
  ⟨List.prefix_refl _, fun _ m hm => ⟨m, getElem?_of_prefix (List.prefix_append _ _) hm, Method.Extends.refl m⟩, fun _ h => h⟩

/-- An entry that is set anew extends the program. -/
theorem extends_setEntry {p : Program} {m : MethodRef} (he : p.entry = none ∨ p.entry = some m) :
    p.Extends { p with entry := some m } := by
  refine ⟨List.prefix_refl _, fun _ d hd => ⟨d, hd, Method.Extends.refl d⟩, fun m' hm' => ?_⟩
  rcases he with he | he
  · rw [he] at hm'
    nomatch hm'
  · rw [he] at hm'
    exact hm'

/-- An accepted call extends the program. -/
theorem Accepted.extends {p q : Program} {c : Call} {a : Answer} (h : Accepted p c a q) : p.Extends q := by
  cases h with
  | resolveType t => exact extends_intern p t
  | declareMethod hname hnew htypes => exact extends_addMethod p _
  | declareBlock hname hm hnew => exact extends_edit p _ fun d => d.extends_addBlock _
  | emit hm hb hi hok => exact extends_edit p _ fun d => d.extends_push _ _
  | setEntry hm he => exact extends_setEntry he

/-- A run of calls extends the program it starts from. -/
theorem extends_after (p : Program) (cs : List Call) : p.Extends (p.after cs) :=
  after_induction (fun _ _ _ _ hq h => h.trans hq.extends) (Extends.refl p) cs

end Program

end Straightline
