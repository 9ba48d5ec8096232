import Mathlib.Data.List.Perm.Subperm
import Straightline.Proofs.Decoding
import Straightline.Proofs.Realizes

/-!
# Elaboration

Elaborating a source tree with identifiers for names succeeds exactly if the tree is well formed, and the program it comes to
realizes the tree; a tree that is refused is refused for a fault of its own (`BuildError.OfSource`). Main statement:
`Source.elaborate_spec`.

Elaboration is a loop of loops. At each point of it the program realizes a part of the tree, namely the methods declared so far
with what their blocks hold so far; `Source.Elaborated` says so, and each round of each loop either takes that part one step
further or ends with an error that shows the tree not to be well formed.
-/

namespace Straightline

/-- The errors that a tree with identifiers for names can be refused with. -/
def BuildError.OfSource : BuildError → Prop
  | .duplicateMethod _ => True
  | .duplicateBlock .. => True
  | .undefinedMethod _ => True
  | .paramOutOfRange .. => True
  | .constantOutOfRange .. => True
  | .arityMismatch .. => True
  | .invalidName _ => False
  | .unknownType _ => False
  | .unknownMethod _ => False
  | .unknownBlock .. => False
  | .decode _ => False
  | .entryAlreadySet .. => False

/-- A condition that does not hold gives its error. -/
theorem ensure_of_not {ε : Type} {c : Prop} [Decidable c] {e : ε} (h : ¬c) : ensure c e = .error e := if_neg h

/-- A condition holds, or gives its error. -/
theorem ensure_ends {ε : Type} {c : Prop} [Decidable c] {e : ε} {P : Unit → Prop} {Q : ε → Prop} (hP : c → P ()) (hQ : ¬c → Q e) :
    Ends P Q (ensure c e) := by
  by_cases hc : c
  · rw [ensure_eq_ok_iff.2 hc]
    exact hP hc
  · rw [ensure_of_not hc]
    exact hQ hc

/-! ## References that elaboration makes -/

namespace Program

/-- The reference to a type that was entered leads to the type, as long as references can tell the types apart. -/
theorem type?_intern {p : Program} {t : Scalar} (h : (p.intern t).2.types.length ≤ UInt32.size) :
    (p.intern t).2.type? (p.intern t).1 = some t := by
  rcases intern_cases p t with ⟨j, hj, hi⟩ | ⟨-, hi⟩
  · rw [hi] at h ⊢
    have hlt : j < p.types.length := (List.getElem?_eq_some_iff.1 hj).1
    rw [type?, Ref.index_ofIndex (Nat.lt_of_lt_of_le hlt h)]
    exact hj
  · rw [hi] at h ⊢
    rw [List.length_append, List.length_singleton] at h
    rw [type?, Ref.index_ofIndex (by omega)]
    exact List.getElem?_concat_length

/-- The types after one was entered are the ones before and that one. -/
theorem mem_types_intern {p : Program} {t x : Scalar} (h : x ∈ (p.intern t).2.types) : x ∈ p.types ∨ x = t := by
  rcases intern_cases p t with ⟨j, -, hi⟩ | ⟨-, hi⟩
  · rw [hi] at h
    exact Or.inl h
  · rw [hi, List.mem_append, List.mem_singleton] at h
    exact h

/-- A method that is found by name has that name, as long as references can tell the methods apart. -/
theorem method?_of_methodRef? {p : Program} (hp : p.methods.length ≤ UInt32.size) {name : String} {m : MethodRef}
    (h : p.methodRef? name = some m) : ∃ d, p.method? m = some d ∧ d.name = name := by
  obtain ⟨j, hj, rfl⟩ := Option.map_eq_some_iff.1 h
  obtain ⟨hlt, hname, -⟩ := List.findIdx?_eq_some_iff_getElem.1 hj
  refine ⟨p.methods[j], ?_, beq_iff_eq.1 hname⟩
  rw [method?, Ref.index_ofIndex (by omega)]
  exact List.getElem?_eq_getElem hlt

/-- A name that has been declared is refused. -/
theorem declareMethod_of_mem {p : Program} {name : String} {returnType : TypeRef} {params : List TypeRef}
    (hname : isIdentifier name.toList = true) (hmem : name ∈ p.methods.map (·.name)) :
    p.declareMethod name returnType params = .error (.duplicateMethod name) := by
  have hfound : ¬(p.methodRef? name).isNone := by
    rw [Option.isNone_iff_eq_none, methodRef?_eq_none_iff]
    exact fun hnew => hnew hmem
  rw [declareMethod_eq, checkName_eq_ok_iff.2 hname, ensure_of_not hfound]
  rfl

/-- In a program with distinct names, the method at a place is found by its name. -/
theorem findMethod_of_getElem? {p : Program} (hp : p.methods.length ≤ UInt32.size) (hnames : (p.methods.map (·.name)).Nodup)
    {j : Nat} {d : Method} (hd : p.methods[j]? = some d) : ∃ m, p.findMethod d.name = .ok m ∧ m.index = j := by
  unfold findMethod
  cases h : p.methodRef? d.name with
  | none =>
    have hmem : d.name ∈ p.methods.map (·.name) := List.mem_map_of_mem (List.mem_of_getElem? hd)
    exact absurd hmem (methodRef?_eq_none_iff.1 h)
  | some m =>
    obtain ⟨d', hd', hname⟩ := method?_of_methodRef? hp h
    exact ⟨m, rfl, index_eq_of_name_eq hnames hd' hd hname⟩

end Program

namespace Source

open Program (RealizesStmt RealizesBlock RealizesMethod)

/-! ## What has been elaborated -/

/-- The head of a method: the method without its blocks. -/
def MethodDecl.head (d : MethodDecl) : MethodDecl := { d with blocks := [] }

/-- In the elaboration of a tree, a program has got as far as some methods, with some of their blocks and statements. -/
structure Elaborated (s : Source) (ds : List MethodDecl) (p : Program) : Prop where
  realizes : p.Realizes { entry := none, methods := ds }
  wellFormed : p.WellFormed
  types : ∀ t ∈ p.types, t ∈ s.types

/-- An error that a tree is refused with, and which shows it not to be well formed. -/
def Refused (s : Source) (e : BuildError) : Prop := e.OfSource ∧ ¬s.WellFormed

namespace Elaborated

variable {s : Source} {ds : List MethodDecl} {p : Program}

/-- The types of a small tree can be told apart. -/
theorem types_length_lt (h : Elaborated s ds p) (hs : s.Small) : p.types.length < UInt32.size := by
  have hsub : p.types ⊆ s.types.dedup := fun t ht => List.mem_dedup.2 (h.types t ht)
  exact Nat.lt_of_le_of_lt (h.wellFormed.typesDistinct.subperm hsub).length_le hs.types

/-- The entry is not set before the end. -/
theorem entry (h : Elaborated s ds p) : p.entry = none := by
  have he := h.realizes.entry
  cases hp : p.entry with
  | none => rfl
  | some m =>
    rw [hp] at he
    nomatch he

/-- No entry is related to no entry. -/
theorem entry_rel (h : Elaborated s ds p) {R : MethodRef → String → Prop} : Option.Rel R p.entry none := by
  rw [h.entry]
  exact .none

/-- Entering a type of the tree keeps what has been elaborated, and yields a reference to the type. -/
theorem intern (h : Elaborated s ds p) (hs : s.Small) {t : Scalar} (ht : t ∈ s.types) :
    Elaborated s ds (p.intern t).2 ∧ (p.intern t).2.type? (p.intern t).1 = some t := by
  have he := p.extends_intern t
  have h₁ : Elaborated s ds (p.intern t).2 := by
    refine ⟨⟨?_, ?_⟩, h.wellFormed.intern t, fun x hx => ?_⟩
    · have hmethods : (p.intern t).2.methods = p.methods := by rw [Program.intern_eq]
      rw [hmethods]
      exact h.realizes.methods.imp fun _ _ hm => hm.mono he
    · have hentry : (p.intern t).2.entry = p.entry := by rw [Program.intern_eq]
      rw [hentry]
      exact h.entry_rel
    · rcases Program.mem_types_intern hx with hx | rfl
      · exact h.types x hx
      · exact ht
  exact ⟨h₁, Program.type?_intern (Nat.le_of_lt (h₁.types_length_lt hs))⟩

/-- Entering types of the tree keeps what has been elaborated, and yields references to the types. -/
theorem internAll (h : Elaborated s ds p) (hs : s.Small) {ts : List Scalar} (hts : ∀ t ∈ ts, t ∈ s.types) :
    Elaborated s ds (p.internAll ts).2 ∧ p.Extends (p.internAll ts).2 ∧
      List.Forall₂ (fun r t => (p.internAll ts).2.type? r = some t) (p.internAll ts).1 ts := by
  induction ts generalizing p with
  | nil => exact ⟨h, Program.Extends.refl p, .nil⟩
  | cons t ts ih =>
    obtain ⟨h₁, ht⟩ := h.intern hs (hts t List.mem_cons_self)
    obtain ⟨h₂, he, hrefs⟩ := ih h₁ fun t' ht' => hts t' (List.mem_cons_of_mem t ht')
    exact ⟨h₂, (p.extends_intern t).trans he, .cons (he.type? ht) hrefs⟩

/-- The methods of a program have the names of the methods it has got to. -/
theorem map_name (h : Elaborated s ds p) : p.methods.map (·.name) = ds.map (·.name) := h.realizes.map_name

/-- A program has as many methods as it has got to. -/
theorem length_methods (h : Elaborated s ds p) : p.methods.length = ds.length := h.realizes.methods.length_eq

end Elaborated

/-! ## Declaring the methods -/

/-- Declaring a method of the tree adds its head, unless its name has been declared before. -/
theorem Elaborated.declare {s : Source} {done todo : List MethodDecl} {d : MethodDecl} {p : Program} (hn : s.Named)
    (hs : s.Small) (hl : s.methods = done ++ d :: todo) (h : Elaborated s (done.map MethodDecl.head) p) :
    Ends (Elaborated s ((done ++ [d]).map MethodDecl.head)) s.Refused (MethodDecl.declare p d) := by
  have hd : d ∈ s.methods := hl ▸ List.mem_append_cons_self
  have htypes : ∀ t ∈ d.returnType :: d.params, t ∈ s.types := by
    intro t ht
    exact List.mem_flatMap.2 ⟨d, hd, List.mem_append_left _ ht⟩
  obtain ⟨h₁, hret⟩ := h.intern hs (htypes _ List.mem_cons_self)
  obtain ⟨h₂, he, hparams⟩ := h₁.internAll hs fun t ht => htypes t (List.mem_cons_of_mem _ ht)
  show Ends _ _ ((((p.intern d.returnType).2.internAll d.params).2.declareMethod d.name (p.intern d.returnType).1
    ((p.intern d.returnType).2.internAll d.params).1) >>= fun r => pure r.2)
  generalize ((p.intern d.returnType).2.internAll d.params).2 = q at h₂ he hparams ⊢
  generalize ((p.intern d.returnType).2.internAll d.params).1 = params at hparams ⊢
  have hret' := he.type? hret
  by_cases hnew : d.name ∈ q.methods.map (·.name)
  · -- the name has been declared, so that the methods of the tree do not have distinct names
    rw [Program.declareMethod_of_mem (hn.methods d hd) hnew]
    refine ⟨trivial, fun hwf => ?_⟩
    rw [h₂.map_name, List.map_map] at hnew
    exact name_not_mem_of_nodup (hl ▸ hwf.methodsDistinct) hnew
  · have hknown : ∀ t ∈ (p.intern d.returnType).1 :: params, ∃ x, q.type? t = some x := by
      intro t ht
      rcases List.mem_cons.1 ht with rfl | ht
      · exact ⟨_, hret'⟩
      · obtain ⟨x, hx, hxt⟩ := exists_right_of_forall₂ hparams ht
        exact ⟨x, hxt⟩
    rw [Program.declareMethod_eq_ok_iff.2 ⟨hn.methods d hd, hnew, hknown, rfl⟩]
    have he' := q.extends_addMethod { name := d.name, returnType := (p.intern d.returnType).1, params }
    refine ⟨⟨?_, ?_⟩, h₂.wellFormed.addMethod (hn.methods d hd) hnew hknown, h₂.types⟩
    · show List.Forall₂ _ (q.methods ++ [_]) ((done ++ [d]).map MethodDecl.head)
      rw [List.map_append]
      refine List.rel_append (h₂.realizes.methods.imp fun _ _ hm => hm.mono he') (.cons ?_ .nil)
      exact ⟨rfl, hret', hparams, .nil⟩
    · exact h₂.entry_rel

/-! ## Changing one method -/

/-- A change of the item after a front of a list. -/
theorem modify_middle {α : Type} (f : α → α) (l₁ l₂ : List α) (a : α) :
    (l₁ ++ a :: l₂).modify l₁.length f = l₁ ++ f a :: l₂ := by
  induction l₁ with
  | nil => rfl
  | cons b l₁ ih => rw [List.cons_append, List.length_cons, List.modify_succ_cons, ih, List.cons_append]

namespace Elaborated

variable {s : Source} {done todo : List MethodDecl} {d d' : MethodDecl} {p : Program} {m : MethodRef}

/-- The method that is being defined. -/
theorem method (h : Elaborated s (done ++ d :: todo) p) (hm : m.index = done.length) :
    ∃ x, p.method? m = some x ∧ p.RealizesMethod x d := by
  obtain ⟨l₁, x, l₂, -, hget, -, hx, -⟩ := exists_middle_of_forall₂ h.realizes.methods
  refine ⟨x, ?_, hx⟩
  rw [Program.method?, hm]
  exact hget

/-- A change of the method that is being defined, if what it says changes likewise. -/
theorem edit {f : Method → Method} (h : Elaborated s (done ++ d :: todo) p) (hm : m.index = done.length)
    (hf : ∀ x : Method, x.Extends (f x)) {x : Method} (hx : p.method? m = some x) (hwf : p.MethodWellFormed (f x))
    (hd : (p.edit m f).RealizesMethod (f x) d') : Elaborated s (done ++ d' :: todo) (p.edit m f) := by
  have he := p.extends_edit m hf
  obtain ⟨l₁, x', l₂, hl, hget, h₁, -, h₂⟩ := exists_middle_of_forall₂ h.realizes.methods
  have hxx' : x' = x := by
    rw [Program.method?, hm] at hx
    exact Option.some.inj (hget.symm.trans hx)
  subst hxx'
  refine ⟨⟨?_, ?_⟩, h.wellFormed.edit hx hf hwf, h.types⟩
  · show List.Forall₂ _ (p.methods.modify m.index f) (done ++ d' :: todo)
    rw [hl, hm, ← h₁.length_eq, modify_middle]
    exact List.rel_append (h₁.imp fun _ _ hr => hr.mono he) (.cons hd (h₂.imp fun _ _ hr => hr.mono he))
  · exact h.entry_rel

end Elaborated

/-! ## Declaring a block -/

/-- A block under a name that the method has is refused. -/
theorem declareBlock_of_mem {p : Program} {m : MethodRef} {name : String} {x : Method} (hname : isIdentifier name.toList = true)
    (hx : p.method? m = some x) (hmem : name ∈ x.blocks.map (·.name)) :
    p.declareBlock m name = .error (.duplicateBlock x.name name) := by
  have hfound : ¬(x.blockRef? name).isNone := by
    rw [Option.isNone_iff_eq_none, Program.blockRef?_eq_none_iff]
    exact fun hnew => hnew hmem
  rw [Program.declareBlock_eq, Program.checkName_eq_ok_iff.2 hname, Program.getMethod_eq_ok_iff.2 hx]
  show (ensure _ _ >>= _) = _
  rw [ensure_of_not hfound]
  rfl

/-- Declaring a block adds it to the method that is being defined, without statements, unless its name has been declared before.
-/
theorem Elaborated.declareBlock {s : Source} {done todo : List MethodDecl} {d : MethodDecl} {bs : List BlockDecl} {p : Program}
    {m : MethodRef} {name : String} (h : Elaborated s (done ++ { d with blocks := bs } :: todo) p) (hm : m.index = done.length)
    (hname : isIdentifier name.toList = true) :
    Ends (fun r => r.1 = .ofIndex bs.length ∧ Elaborated s (done ++ { d with blocks := bs ++ [⟨name, []⟩] } :: todo) r.2)
      (fun e => e.OfSource ∧ name ∈ bs.map (·.name)) (p.declareBlock m name) := by
  obtain ⟨x, hx, hxd⟩ := h.method hm
  by_cases hmem : name ∈ x.blocks.map (·.name)
  · rw [declareBlock_of_mem hname hx hmem]
    rw [hxd.map_name] at hmem
    exact ⟨trivial, hmem⟩
  · rw [Program.declareBlock_eq_ok_iff.2 ⟨hname, x, hx, hmem, rfl⟩]
    have hf := fun x : Method => x.extends_addBlock name
    have he := p.extends_edit m hf
    refine ⟨by rw [hxd.blocks.length_eq], h.edit hm hf hx ((h.wellFormed.method hx).addBlock hname hmem) ?_⟩
    have hxd' := hxd.mono he
    exact ⟨hxd'.name, hxd'.returnType, hxd'.params, List.rel_append hxd'.blocks (.cons ⟨rfl, .nil⟩ .nil)⟩

/-! ## Adding a statement -/

/-- The heads of the methods that elaboration has got to are those of the tree. -/
def SameHeads (s : Source) (ds : List MethodDecl) : Prop := ds.map MethodDecl.head = s.methods.map MethodDecl.head

namespace SameHeads

variable {s : Source} {ds : List MethodDecl}

theorem map_name (h : SameHeads s ds) : ds.map (·.name) = s.methods.map (·.name) := by
  have hmap := congrArg (List.map (·.name)) h
  rw [List.map_map, List.map_map] at hmap
  exact hmap

theorem length_eq (h : SameHeads s ds) : ds.length = s.methods.length := by
  have hmap := congrArg List.length h
  rw [List.length_map, List.length_map] at hmap
  exact hmap

/-- A method that elaboration has got to has its name and its parameters from a method of the tree. -/
theorem exists_of_mem (h : SameHeads s ds) {e : MethodDecl} (he : e ∈ ds) :
    ∃ e' ∈ s.methods, e'.name = e.name ∧ e'.params = e.params := by
  have hmem : e.head ∈ s.methods.map MethodDecl.head := by
    rw [← h]
    exact List.mem_map_of_mem he
  obtain ⟨e', he', hee'⟩ := List.mem_map.1 hmem
  have hname : e'.head.name = e.head.name := by rw [hee']
  have hparams : e'.head.params = e.head.params := by rw [hee']
  exact ⟨e', he', hname, hparams⟩

/-- The head of a method does not depend on its blocks. -/
theorem blocks {done todo : List MethodDecl} {d : MethodDecl} (h : SameHeads s (done ++ d :: todo)) (bs : List BlockDecl) :
    SameHeads s (done ++ { d with blocks := bs } :: todo) := by
  rw [SameHeads, List.map_append, List.map_cons] at h ⊢
  exact h

end SameHeads

/-- Resolving a statement of the tree yields an instruction that says the same, unless the statement calls a method that the tree
does not have. -/
theorem Elaborated.resolve {s : Source} {ds : List MethodDecl} {p : Program} (hs : s.Small) (hh : SameHeads s ds)
    (h : Elaborated s ds p) {d : MethodDecl} {st : Stmt} (hst : ∀ t ∈ st.types, t ∈ s.types) :
    Ends (fun r => Elaborated s ds r.2 ∧ r.2.RealizesStmt r.1 st) (fun e => e.OfSource ∧ ¬s.Allows d st) (st.resolve p) := by
  cases st with
  | add r a b => exact ⟨h, .add r a b⟩
  | loadParam r i => exact ⟨h, .loadParam r i⟩
  | loadConst r t c =>
    obtain ⟨h', ht⟩ := h.intern hs (hst t List.mem_cons_self)
    exact ⟨h', .loadConst r c ht⟩
  | call r callee args =>
    rw [Stmt.resolve]
    unfold Program.findMethod
    cases hc : p.methodRef? callee with
    | none =>
      refine ⟨trivial, fun hallows => ?_⟩
      obtain ⟨e, he, rfl, -⟩ := hallows
      apply Program.methodRef?_eq_none_iff.1 hc
      rw [h.map_name, hh.map_name]
      exact List.mem_map_of_mem he
    | some m =>
      have hlen : p.methods.length ≤ UInt32.size := by
        rw [h.length_methods, hh.length_eq]
        exact Nat.le_of_lt hs.methods
      obtain ⟨x, hx, rfl⟩ := Program.method?_of_methodRef? hlen hc
      exact ⟨h, .call r args hx⟩
  | ret v => exact ⟨h, .ret v⟩

/-- An instruction passes the check exactly if what it says is meaningful in the tree. -/
theorem Elaborated.check {s : Source} {ds : List MethodDecl} {p : Program} (hh : SameHeads s ds) (h : Elaborated s ds p)
    {x : Method} {d : MethodDecl} (hparams : x.params.length = d.params.length) {i : Instr} {st : Stmt}
    (hi : p.RealizesStmt i st) : Ends (fun _ => p.Allows x i) (fun e => e.OfSource ∧ ¬s.Allows d st) (p.checkInstr x i) := by
  cases hi with
  | add r a b => exact trivial
  | loadParam r i =>
    rw [Program.checkInstr]
    refine ensure_ends (fun hlt => hlt) fun hlt => ⟨trivial, fun hallows => hlt ?_⟩
    rw [hparams]
    exact hallows
  | loadConst r c ht =>
    simp only [Program.checkInstr, ht]
    exact ensure_ends (fun hc => ⟨_, ht, hc⟩) fun hc => ⟨trivial, hc⟩
  | @call r m callee args hm =>
    rw [Program.checkInstr, Program.getMethod_eq_ok_iff.2 hm]
    refine ensure_ends (fun hc => ?_) fun hargs => ⟨trivial, ?_⟩
    · exact ⟨callee, hm, hc⟩
    · -- the callee realizes a method of the tree, and by its name it is the only one that the statement can mean
      rintro ⟨e, he, hname, hlen⟩
      obtain ⟨e₁, he₁, hce₁⟩ := h.realizes.method hm
      obtain ⟨e₂, he₂, hname₂, hparams₂⟩ := hh.exists_of_mem (List.mem_of_getElem? he₁)
      have hnodup : (s.methods.map (·.name)).Nodup := by
        rw [← hh.map_name, ← h.map_name]
        exact h.wellFormed.methodsDistinct
      have hee₂ : e = e₂ := List.inj_on_of_nodup_map hnodup he he₂ (by rw [hname, hname₂, hce₁.name])
      apply hargs
      rw [hlen, hee₂, hparams₂, hce₁.params.length_eq]
  | ret v => exact trivial

/-- An instruction that is handed over under its own operands is checked and added. -/
theorem emit_operands {p : Program} {m : MethodRef} {b : BlockRef} {x : Method} {c : Block} (i : Instr)
    (hx : p.method? m = some x) (hc : x.block? b = some c) :
    p.emit m b i.opcode.mnemonic i.operands = (p.checkInstr x i >>= fun _ => pure (p.edit m fun y => y.push b i)) := by
  have hsome : ensure ((x.block? b).isSome) (BuildError.unknownBlock x.name b) = .ok () := by
    rw [ensure_eq_ok_iff, hc]
    rfl
  rw [Program.emit_eq, Program.getMethod_eq_ok_iff.2 hx, Instr.decode_operands]
  show (ensure _ _ >>= _) = _
  rw [hsome]
  rfl

/-- A statement of the tree is added to the block that is being defined, unless it is not meaningful. -/
theorem Elaborated.emit {s : Source} {done todo : List MethodDecl} {d : MethodDecl} {bs : List BlockDecl} {name : String}
    {ss : List Stmt} {st : Stmt} {p : Program} {m : MethodRef} {b : BlockRef} (hs : s.Small)
    (hh : SameHeads s (done ++ d :: todo)) (h : Elaborated s (done ++ { d with blocks := bs ++ [⟨name, ss⟩] } :: todo) p)
    (hm : m.index = done.length) (hb : b.index = bs.length) (hst : ∀ t ∈ st.types, t ∈ s.types) :
    Ends (Elaborated s (done ++ { d with blocks := bs ++ [⟨name, ss ++ [st]⟩] } :: todo)) (fun e => e.OfSource ∧ ¬s.Allows d st)
      (st.emit m b p) := by
  have hh' := hh.blocks (bs ++ [⟨name, ss⟩])
  rw [Stmt.emit_eq_resolve]
  refine (h.resolve (d := d) hs hh' hst).bind fun r hr => ?_
  obtain ⟨i, q⟩ := r
  obtain ⟨hq, hi⟩ := hr
  obtain ⟨x, hx, hxd⟩ := hq.method hm
  obtain ⟨cs, c, cs', hcs, hget, hcsbs, hc, hcs'⟩ := exists_middle_of_forall₂ hxd.blocks
  have hcb : x.block? b = some c := by
    rw [Method.block?, hb]
    exact hget
  show Ends _ _ (q.emit m b i.opcode.mnemonic i.operands)
  rw [emit_operands i hx hcb]
  refine (hq.check hh' (d := d) hxd.params.length_eq hi).bind fun _ hallows => ?_
  have hf := fun y : Method => y.extends_push b i
  have he := q.extends_edit m hf
  refine hq.edit hm hf hx ((hq.wellFormed.method hx).push b hallows) ?_
  have hxd' := hxd.mono he
  refine ⟨hxd'.name, hxd'.returnType, hxd'.params, ?_⟩
  show List.Forall₂ _ (x.blocks.modify b.index fun y => y.push i) (bs ++ [⟨name, ss ++ [st]⟩])
  rw [hcs, hb, ← hcsbs.length_eq, modify_middle]
  refine List.rel_append (hcsbs.imp fun _ _ hr => hr.mono he) (.cons ?_ (hcs'.imp fun _ _ hr => hr.mono he))
  have hc' := hc.mono he
  exact ⟨hc'.name, List.rel_append hc'.instrs (.cons (hi.mono he) .nil)⟩

/-! ## Defining blocks and methods -/

/-- A block of the tree is added, with its statements, to the method that is being defined. -/
theorem Elaborated.defineBlock {s : Source} {done todo : List MethodDecl} {d : MethodDecl} {bs rest : List BlockDecl}
    {b : BlockDecl} {p : Program} {m : MethodRef} (hn : s.Named) (hs : s.Small) (hd : d ∈ s.methods)
    (hbs : d.blocks = bs ++ b :: rest) (hh : SameHeads s (done ++ d :: todo))
    (h : Elaborated s (done ++ { d with blocks := bs } :: todo) p) (hm : m.index = done.length) :
    Ends (Elaborated s (done ++ { d with blocks := bs ++ [b] } :: todo)) s.Refused (b.define m p) := by
  have hb : b ∈ d.blocks := hbs ▸ List.mem_append_cons_self
  have hlen : bs.length < UInt32.size := by
    have hle := hs.blocks d hd
    rw [hbs, List.length_append] at hle
    omega
  -- a name that has been declared shows that the blocks of the method do not have distinct names
  have hrefused : ∀ e : BuildError, e.OfSource ∧ b.name ∈ bs.map (·.name) → s.Refused e := by
    rintro e ⟨he, hmem⟩
    exact ⟨he, fun hwf => name_not_mem_of_nodup (hbs ▸ hwf.blocksDistinct d hd) hmem⟩
  refine ((h.declareBlock hm (hn.blocks d hd b hb)).imp (fun _ hr => hr) hrefused).bind fun r hr => ?_
  obtain ⟨r, q⟩ := r
  obtain ⟨rfl, hq⟩ := hr
  refine Ends.foldlM (I := fun ss => Elaborated s (done ++ { d with blocks := bs ++ [⟨b.name, ss⟩] } :: todo)) hq ?_
  intro ss st ss' q hss hq
  have hst : st ∈ b.stmts := hss ▸ List.mem_append_cons_self
  have htypes : ∀ t ∈ st.types, t ∈ s.types := by
    intro t ht
    refine List.mem_flatMap.2 ⟨d, hd, List.mem_append_right _ ?_⟩
    exact List.mem_flatMap.2 ⟨b, hb, List.mem_flatMap.2 ⟨st, hst, ht⟩⟩
  refine (hq.emit hs hh hm (Ref.index_ofIndex hlen) htypes).imp (fun _ hq' => hq') fun e he => ⟨he.1, fun hwf => ?_⟩
  exact he.2 (hwf.stmts d hd b hb st hst)

/-- A method of the tree that has been declared is defined. -/
theorem Elaborated.define {s : Source} {done todo : List MethodDecl} {d : MethodDecl} {p : Program} (hn : s.Named) (hs : s.Small)
    (hl : s.methods = done ++ d :: todo) (h : Elaborated s (done ++ (d :: todo).map MethodDecl.head) p) :
    Ends (Elaborated s (done ++ [d] ++ todo.map MethodDecl.head)) s.Refused (MethodDecl.define p d) := by
  have hd : d ∈ s.methods := hl ▸ List.mem_append_cons_self
  have hh : SameHeads s (done ++ d :: todo.map MethodDecl.head) := by
    rw [SameHeads, hl, List.map_append, List.map_append, List.map_cons, List.map_cons, List.map_map]
    rfl
  have hlen : p.methods.length ≤ UInt32.size := by
    have hlt := hs.methods
    rw [h.length_methods, List.length_append, List.length_map]
    rw [hl, List.length_append] at hlt
    omega
  -- the method is found at its place among the methods declared
  obtain ⟨l₁, x, l₂, -, hget, -, hx, -⟩ := exists_middle_of_forall₂ h.realizes.methods
  obtain ⟨m, hfind, hm⟩ := Program.findMethod_of_getElem? hlen h.wellFormed.methodsDistinct hget
  rw [hx.name] at hfind
  rw [MethodDecl.define, show p.findMethod d.name = .ok m from hfind, List.append_assoc, List.singleton_append]
  refine Ends.foldlM (I := fun bs => Elaborated s (done ++ { d with blocks := bs } :: todo.map MethodDecl.head)) h ?_
  intro bs b rest q hbs hq
  exact hq.defineBlock hn hs hd hbs hh hm

/-! ## The whole tree -/

/-- All methods of the tree are declared. -/
theorem declareAll_ends {s : Source} (hn : s.Named) (hs : s.Small) :
    Ends (Elaborated s (s.methods.map MethodDecl.head)) s.Refused (s.methods.foldlM MethodDecl.declare {}) := by
  have h₀ : Elaborated s (([] : List MethodDecl).map MethodDecl.head) {} :=
    ⟨⟨.nil, .none⟩, Program.wellFormed_empty, fun _ ht => (nomatch ht)⟩
  refine Ends.foldlM (I := fun done => Elaborated s (done.map MethodDecl.head)) h₀ ?_
  intro done d todo p hl hp
  exact hp.declare hn hs hl

/-- All methods of the tree are defined. -/
theorem defineAll_ends {s : Source} {p : Program} (hn : s.Named) (hs : s.Small)
    (h : Elaborated s (s.methods.map MethodDecl.head) p) :
    Ends (Elaborated s s.methods) s.Refused (s.methods.foldlM MethodDecl.define p) := by
  have hends : Ends (Elaborated s (s.methods ++ (s.methods.drop s.methods.length).map MethodDecl.head)) s.Refused
      (s.methods.foldlM MethodDecl.define p) := by
    refine Ends.foldlM (I := fun done => Elaborated s (done ++ (s.methods.drop done.length).map MethodDecl.head)) h ?_
    intro done d todo q hl hq
    rw [hl, List.drop_left] at hq
    have hdrop : s.methods.drop (done ++ [d]).length = todo := by
      rw [hl, List.append_cons done d todo, List.drop_left]
    rw [hdrop]
    exact hq.define hn hs hl
  rw [List.drop_length, List.map_nil, List.append_nil] at hends
  exact hends

/-- Elaborating a tree ends with a well-formed program that realizes the tree, or with an error that shows the tree not to be well
formed. -/
theorem elaborate_ends {s : Source} (hn : s.Named) (hs : s.Small) :
    Ends (fun p => p.Realizes s ∧ p.WellFormed) s.Refused s.elaborate := by
  refine (declareAll_ends hn hs).bind fun q hq => ?_
  refine (defineAll_ends hn hs hq).bind fun p hp => ?_
  cases hentry : s.entry with
  | none =>
    refine ⟨⟨hp.realizes.methods, ?_⟩, hp.wellFormed⟩
    rw [hentry]
    exact hp.entry_rel
  | some name =>
    show Ends _ _ (p.findMethod name >>= fun m => p.setEntry m)
    unfold Program.findMethod
    cases hc : p.methodRef? name with
    | none =>
      refine ⟨trivial, fun hwf => ?_⟩
      obtain ⟨d, hd, rfl⟩ := hwf.entry name hentry
      apply Program.methodRef?_eq_none_iff.1 hc
      rw [hp.map_name]
      exact List.mem_map_of_mem hd
    | some m =>
      have hlen : p.methods.length ≤ UInt32.size := by
        rw [hp.length_methods]
        exact Nat.le_of_lt hs.methods
      obtain ⟨x, hx, hname⟩ := Program.method?_of_methodRef? hlen hc
      have hset := Program.setEntry_eq_ok_iff.2 ⟨x, hx, Or.inl hp.entry, rfl⟩
      have he := Program.extends_setEntry (m := m) (Or.inl hp.entry)
      show Ends _ _ (p.setEntry m)
      rw [hset]
      refine ⟨⟨hp.realizes.methods.imp fun _ _ hr => hr.mono he, ?_⟩, hp.wellFormed.accepted (.setEntry hx (Or.inl hp.entry))⟩
      rw [hentry]
      exact .some ⟨x, hx, hname⟩

/-- A tree with identifiers for names is elaborated exactly if it is well formed. The program it comes to has the methods, blocks
and instructions of the tree, each at its place, with names resolved to methods and types to references to them. A tree that is
refused is refused for a name that is declared twice or not at all, a parameter or constant out of range, or a wrong number of
arguments. -/
theorem elaborate_spec (s : Source) (hn : s.Named) (hs : s.Small) :
    ((∃ p, s.elaborate = .ok p) ↔ s.WellFormed) ∧
    (∀ p, s.elaborate = .ok p → p.Realizes s) ∧
    (∀ e, s.elaborate = .error e → e.OfSource) := by
  have hends := elaborate_ends hn hs
  refine ⟨⟨?_, fun hwf => ?_⟩, fun p hp => (hends.of_ok hp).1, fun e he => (hends.of_error he).1⟩
  · rintro ⟨p, hp⟩
    obtain ⟨hr, hpwf⟩ := hends.of_ok hp
    exact hpwf.source hr
  · obtain ⟨p, hp, -⟩ := hends.exists_ok fun e he => he.2 hwf
    exact ⟨p, hp⟩

/-- A tree whose entry calls a method that comes after it and has a block without statements. -/
def forwardCall : Source :=
  { entry := some "main"
    methods := [
      { name := "main", params := [⟨true, 8⟩], returnType := .bool
        blocks := [⟨"ret", [.loadParam 0 0, .call 1 "later" [0, 0], .ret (some 1)]⟩, ⟨"r0", []⟩] },
      { name := "later", params := [⟨true, 8⟩, ⟨false, 64⟩], returnType := ⟨true, 8⟩
        blocks := [⟨"start", [.loadConst 3 .bool (.bool true), .loadConst 3 ⟨false, 64⟩ (.uint 18446744073709551615),
          .ret none]⟩] }] }

/-- A call of a method that comes later is elaborated to a call by its reference. -/
theorem elaborate_forwardCall :
    (forwardCall.Named ∧ forwardCall.Small) ∧ forwardCall.WellFormed ∧
      ∃ p, forwardCall.elaborate = .ok p ∧ p.Realizes forwardCall ∧
        p.methods.map (fun d => d.blocks.map (·.instrs)) =
          [[[.loadParam 0 0, .call 1 ⟨1⟩ [0, 0], .ret (some 1)], []],
            [[.loadConst 3 ⟨0⟩ (.bool true), .loadConst 3 ⟨2⟩ (.uint 18446744073709551615), .ret none]]] := by
  have hn : forwardCall.Named := ⟨by decide +kernel, by decide +kernel⟩
  have hs : forwardCall.Small := ⟨by decide +kernel, by decide +kernel, by decide +kernel⟩
  obtain ⟨hiff, hrealizes, -⟩ := elaborate_spec forwardCall hn hs
  have hok : forwardCall.elaborate = .ok _ := rfl
  exact ⟨⟨hn, hs⟩, hiff.1 ⟨_, hok⟩, _, hok, hrealizes _ hok, rfl⟩

end Source

end Straightline
