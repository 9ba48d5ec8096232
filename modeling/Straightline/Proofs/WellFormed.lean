import Mathlib.Data.List.Nodup
import Straightline.Proofs.Growth

/-!
# Well-formed programs

A program is well formed if its names are identifiers and distinct, its references lead to something, and its instructions are
meaningful where they stand (`Program.WellFormed`). Main statement: a program that calls build from nothing is well formed, in
whatever order the calls come and whichever of them are refused (`Program.wellFormed_built`). An instruction is looked at once,
when it is added; that it stays meaningful afterwards is `Program.Extends.allows`.
-/

namespace Straightline

namespace Program

/-- A method is well formed in a program: it has an identifier for a name and known types, its blocks have distinct identifiers
for names, and its instructions are meaningful. -/
structure MethodWellFormed (p : Program) (d : Method) : Prop where
  name : isIdentifier d.name.toList = true
  types : ∀ t ∈ d.returnType :: d.params, ∃ s, p.type? t = some s
  blockNames : ∀ b ∈ d.blocks, isIdentifier b.name.toList = true
  blocksDistinct : (d.blocks.map (·.name)).Nodup
  instrs : ∀ b ∈ d.blocks, ∀ i ∈ b.instrs, p.Allows d i

/-- A program is well formed: no type stands in the table twice, the methods have distinct names and are well formed, and the
entry is a method. -/
structure WellFormed (p : Program) : Prop where
  typesDistinct : p.types.Nodup
  methodsDistinct : (p.methods.map (·.name)).Nodup
  methods : ∀ d ∈ p.methods, p.MethodWellFormed d
  entry : ∀ m, p.entry = some m → ∃ d, p.method? m = some d

/-- A method that exists is well formed. -/
theorem WellFormed.method {p : Program} (h : p.WellFormed) {m : MethodRef} {d : Method} (hm : p.method? m = some d) :
    p.MethodWellFormed d :=
  h.methods d (List.mem_of_getElem? hm)

/-! ## What keeps a method well formed -/

/-- An extension of the program keeps its methods well formed. -/
theorem MethodWellFormed.mono {p q : Program} {d : Method} (h : p.MethodWellFormed d) (he : p.Extends q) :
    q.MethodWellFormed d := by
  refine ⟨h.name, fun t ht => ?_, h.blockNames, h.blocksDistinct, fun b hb i hi => ?_⟩
  · obtain ⟨s, hs⟩ := h.types t ht
    exact ⟨s, he.type? hs⟩
  · exact he.allows (Method.Extends.refl d) (h.instrs b hb i hi)

/-- A new block under a new identifier keeps a method well formed. -/
theorem MethodWellFormed.addBlock {p : Program} {d : Method} {name : String} (h : p.MethodWellFormed d)
    (hname : isIdentifier name.toList = true) (hnew : name ∉ d.blocks.map (·.name)) :
    p.MethodWellFormed (d.addBlock name).2 := by
  refine ⟨h.name, h.types, fun b hb => ?_, ?_, fun b hb i hi => ?_⟩
  · rcases List.mem_append.1 hb with hb | hb
    · exact h.blockNames b hb
    · rw [List.mem_singleton] at hb
      subst hb
      exact hname
  · rw [Method.addBlock, List.map_append, List.map_singleton, ← List.concat_eq_append]
    exact h.blocksDistinct.concat hnew
  · -- the new block is empty, so that the instruction stands in an old one
    rcases List.mem_append.1 hb with hb | hb
    · exact (Extends.refl p).allows (d.extends_addBlock name) (h.instrs b hb i hi)
    · rw [List.mem_singleton] at hb
      subst hb
      nomatch hi

/-- The blocks of a method after an instruction was added are the old ones, but for the one that has gained the instruction. -/
theorem mem_blocks_push {d : Method} {b : BlockRef} {i : Instr} {c : Block} (h : c ∈ (d.push b i).blocks) :
    c ∈ d.blocks ∨ ∃ c' ∈ d.blocks, c = c'.push i := by
  obtain ⟨j, hj⟩ := List.mem_iff_getElem?.1 h
  rw [Method.push, List.getElem?_modify] at hj
  obtain ⟨c', hc', rfl⟩ := Option.map_eq_some_iff.1 hj
  have hmem : c' ∈ d.blocks := List.mem_of_getElem? hc'
  by_cases hb : b.index = j
  · rw [if_pos hb]
    exact Or.inr ⟨c', hmem, rfl⟩
  · rw [if_neg hb]
    exact Or.inl hmem

/-- A change of one item that keeps what is looked at keeps the list of what is looked at. -/
theorem map_modify_of_eq {α β : Type} {g : α → β} {f : α → α} (h : ∀ a, g (f a) = g a) (l : List α) (j : Nat) :
    (l.modify j f).map g = l.map g := by
  apply List.ext_getElem?
  intro k
  rw [List.getElem?_map, List.getElem?_map, List.getElem?_modify]
  cases l[k]? with
  | none => rfl
  | some a => by_cases hj : j = k <;> simp [hj, h]

/-- Adding an instruction keeps the names of the blocks. -/
theorem map_name_push (d : Method) (b : BlockRef) (i : Instr) : (d.push b i).blocks.map (·.name) = d.blocks.map (·.name) :=
  map_modify_of_eq (g := fun c : Block => c.name) (f := fun c => c.push i) (fun _ => rfl) d.blocks b.index

/-- A meaningful instruction at the end of a block keeps a method well formed. -/
theorem MethodWellFormed.push {p : Program} {d : Method} {i : Instr} (h : p.MethodWellFormed d) (b : BlockRef)
    (hi : p.Allows d i) : p.MethodWellFormed (d.push b i) := by
  refine ⟨h.name, h.types, fun c hc => ?_, ?_, fun c hc j hj => ?_⟩
  · rcases mem_blocks_push hc with hc | ⟨c', hc', rfl⟩
    · exact h.blockNames c hc
    · exact h.blockNames c' hc'
  · rw [map_name_push]
    exact h.blocksDistinct
  · have hold : p.Allows d j := by
      rcases mem_blocks_push hc with hc | ⟨c', hc', rfl⟩
      · exact h.instrs c hc j hj
      · rcases List.mem_append.1 hj with hj | hj
        · exact h.instrs c' hc' j hj
        · rw [List.mem_singleton] at hj
          subst hj
          exact hi
    exact (Extends.refl p).allows (d.extends_push b i) hold

/-! ## What keeps a program well formed -/

/-- The empty program is well formed. -/
theorem wellFormed_empty : ({} : Program).WellFormed :=
  ⟨List.nodup_nil, List.nodup_nil, fun _ hd => (nomatch hd), fun _ hm => (nomatch hm)⟩

/-- The type table after a type was entered holds it once. -/
theorem nodup_types_intern {p : Program} (h : p.types.Nodup) (t : Scalar) : (p.intern t).2.types.Nodup := by
  rcases intern_cases p t with ⟨j, -, hi⟩ | ⟨hnew, hi⟩
  · rw [hi]
    exact h
  · rw [hi, ← List.concat_eq_append]
    exact h.concat hnew

/-- Entering a type changes the type table only. -/
theorem intern_eq (p : Program) (t : Scalar) : (p.intern t).2 = { p with types := (p.intern t).2.types } := by
  rcases intern_cases p t with ⟨j, -, h⟩ | ⟨-, h⟩
  · rw [h]
  · rw [h]

/-- A program whose methods are the same, or have gained, keeps its entry. -/
theorem entry_of_extends {p q : Program} (he : p.Extends q) (hq : q.entry = p.entry)
    (h : ∀ m, p.entry = some m → ∃ d, p.method? m = some d) : ∀ m, q.entry = some m → ∃ d, q.method? m = some d := by
  intro m hm
  rw [hq] at hm
  obtain ⟨d, hd⟩ := h m hm
  obtain ⟨d', hd', -⟩ := he.method? hd
  exact ⟨d', hd'⟩

/-- Entering a type keeps a program well formed. -/
theorem WellFormed.intern {p : Program} (h : p.WellFormed) (t : Scalar) : (p.intern t).2.WellFormed := by
  have he := extends_intern p t
  have hmethods : (p.intern t).2.methods = p.methods := by rw [intern_eq]
  have hentry : (p.intern t).2.entry = p.entry := by rw [intern_eq]
  refine ⟨nodup_types_intern h.typesDistinct t, ?_, ?_, entry_of_extends he hentry h.entry⟩
  · rw [hmethods]
    exact h.methodsDistinct
  · rw [hmethods]
    exact fun d hd => (h.methods d hd).mono he

/-- A new method under a new identifier and with known types keeps a program well formed. -/
theorem WellFormed.addMethod {p : Program} {name : String} {returnType : TypeRef} {params : List TypeRef} (h : p.WellFormed)
    (hname : isIdentifier name.toList = true) (hnew : name ∉ p.methods.map (·.name))
    (htypes : ∀ t ∈ returnType :: params, ∃ s, p.type? t = some s) :
    ({ p with methods := p.methods ++ [{ name, returnType, params }] } : Program).WellFormed := by
  have he := extends_addMethod p { name, returnType, params }
  refine ⟨h.typesDistinct, ?_, fun d hd => ?_, entry_of_extends he rfl h.entry⟩
  · rw [List.map_append, List.map_singleton, ← List.concat_eq_append]
    exact h.methodsDistinct.concat hnew
  · rcases List.mem_append.1 hd with hd | hd
    · exact (h.methods d hd).mono he
    · rw [List.mem_singleton] at hd
      subst hd
      exact ⟨hname, htypes, fun b hb => (nomatch hb), List.nodup_nil, fun b hb => (nomatch hb)⟩

/-- A change of one method that extends it and keeps it well formed keeps the program well formed. -/
theorem WellFormed.edit {p : Program} {m : MethodRef} {d : Method} {f : Method → Method} (h : p.WellFormed)
    (hm : p.method? m = some d) (hf : ∀ d : Method, d.Extends (f d)) (hd : p.MethodWellFormed (f d)) :
    (p.edit m f).WellFormed := by
  have he := extends_edit p m hf
  have hnames : (p.edit m f).methods.map (·.name) = p.methods.map (·.name) :=
    map_modify_of_eq (g := fun d : Method => d.name) (fun d => (hf d).name) p.methods m.index
  refine ⟨h.typesDistinct, ?_, fun d' hd' => ?_, entry_of_extends he rfl h.entry⟩
  · rw [hnames]
    exact h.methodsDistinct
  · obtain ⟨j, hj⟩ := List.mem_iff_getElem?.1 hd'
    rw [getElem?_edit] at hj
    obtain ⟨d'', hd'', rfl⟩ := Option.map_eq_some_iff.1 hj
    by_cases hmj : m.index = j
    · subst hmj
      have hdd : d'' = d := Option.some.inj (hd''.symm.trans hm)
      rw [if_pos rfl, hdd]
      exact hd.mono he
    · rw [if_neg hmj]
      exact (h.methods d'' (List.mem_of_getElem? hd'')).mono he

/-- An accepted call keeps a program well formed. -/
theorem WellFormed.accepted {p q : Program} {c : Call} {a : Answer} (h : p.WellFormed) (hc : Accepted p c a q) :
    q.WellFormed := by
  cases hc with
  | resolveType t => exact h.intern t
  | declareMethod hname hnew htypes => exact h.addMethod hname hnew htypes
  | declareBlock hname hm hnew => exact h.edit hm (fun d => d.extends_addBlock _) ((h.method hm).addBlock hname hnew)
  | emit hm hb hi hok => exact h.edit hm (fun d => d.extends_push _ _) ((h.method hm).push _ hok)
  | setEntry hm he =>
    refine ⟨h.typesDistinct, h.methodsDistinct, fun d hd => (h.methods d hd).mono (extends_setEntry he), fun m' hm' => ?_⟩
    cases hm'
    exact ⟨_, hm⟩

/-- A run of calls keeps a program well formed. -/
theorem WellFormed.after {p : Program} (h : p.WellFormed) (cs : List Call) : (p.after cs).WellFormed :=
  after_induction (fun _ _ _ _ hc hp => hp.accepted hc) h cs

/-- Whatever calls are made, in whatever order and whether they are accepted or refused, the program they build is well formed. -/
theorem wellFormed_built (cs : List Call) : (built cs).WellFormed :=
  wellFormed_empty.after cs

end Program

end Straightline
