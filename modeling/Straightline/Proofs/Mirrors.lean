import Straightline.Proofs.Printed

/-!
# Programs that mirror each other

A program mirrors another one if it is the same up to the numbering of the types and the form of constants: methods, blocks and
instructions stand in the same order under the same names, references to methods are the same, references to types lead to the
same types, and a constant is the one a literal is read as (`Program.Mirrors`). Main statements: a mirror has the same text
(`Program.Mirrors.text`), and a program that realizes the canonical form of a tree mirrors one that realizes the tree
(`Program.WellFormed.mirrors`).
-/

namespace Straightline

/-! ## Constants -/

namespace Constant

/-- The number of the signed constant of a small number. -/
theorem toInt_ofNat {v : UInt64} (h : v.toNat < 0x8000000000000000) : (Int64.ofNat v.toNat).toInt = v.toNat :=
  Int64.toInt_ofNat_of_lt h

/-- A constant is written like its canonical form. -/
theorem chars_canonical (c : Constant) : c.canonical.chars = c.chars := by
  cases c with
  | int v => rfl
  | uint v =>
    rw [canonical]
    split
    · next h =>
      rw [chars, chars, toInt_ofNat h]
      rfl
    · rfl
  | bool b => rfl

/-- A type admits a constant if it admits its canonical form, and the other way round. -/
theorem admits_canonical {t : Scalar} {c : Constant} : t.Admits c.canonical ↔ t.Admits c := by
  cases c with
  | int v => exact Iff.rfl
  | uint v =>
    rw [canonical]
    split
    · next h =>
      show t.Contains (Int64.ofNat v.toNat).toInt ↔ t.Contains v.toNat
      rw [toInt_ofNat h]
    · exact Iff.rfl
  | bool b => exact Iff.rfl

end Constant

namespace Program

/-! ## The relation -/

/-- References of two programs lead to the same type. -/
def SameType (p q : Program) (t u : TypeRef) : Prop := ∃ s, p.type? t = some s ∧ q.type? u = some s

/-- An instruction mirrors another one. -/
inductive MirrorsInstr (p q : Program) : Instr → Instr → Prop where
  | add (r a b : Register) : MirrorsInstr p q (.add r a b) (.add r a b)
  | loadParam (r : Register) (i : UInt32) : MirrorsInstr p q (.loadParam r i) (.loadParam r i)
  | loadConst (r : Register) {t u : TypeRef} (c : Constant) (h : p.SameType q t u) :
      MirrorsInstr p q (.loadConst r t c) (.loadConst r u c.canonical)
  | call (r : Register) (m : MethodRef) (args : List Register) : MirrorsInstr p q (.call r m args) (.call r m args)
  | ret (v : Option Register) : MirrorsInstr p q (.ret v) (.ret v)

/-- A block mirrors another one. -/
structure MirrorsBlock (p q : Program) (b c : Block) : Prop where
  name : c.name = b.name
  instrs : List.Forall₂ (p.MirrorsInstr q) b.instrs c.instrs

/-- A method mirrors another one. -/
structure MirrorsMethod (p q : Program) (m n : Method) : Prop where
  name : n.name = m.name
  returnType : p.SameType q m.returnType n.returnType
  params : List.Forall₂ (p.SameType q) m.params n.params
  blocks : List.Forall₂ (p.MirrorsBlock q) m.blocks n.blocks

/-- The program `q` mirrors `p`. -/
structure Mirrors (p q : Program) : Prop where
  entry : q.entry = p.entry
  methods : List.Forall₂ (p.MirrorsMethod q) p.methods q.methods

/-! ## The text of a mirror -/

variable {p q : Program}

/-- The same type is written alike. -/
theorem SameType.typeChars {t u : TypeRef} (h : p.SameType q t u) : p.typeChars t = q.typeChars u := by
  obtain ⟨s, hp, hq⟩ := h
  rw [typeChars_of_type? hp, typeChars_of_type? hq]

/-- The methods of a mirror have the same names. -/
theorem Mirrors.map_name (h : p.Mirrors q) : p.methods.map (·.name) = q.methods.map (·.name) :=
  map_eq_of_forall₂ h.methods fun _ _ hm => hm.name.symm

/-- A reference to a method is written alike. -/
theorem Mirrors.methodChars (h : p.Mirrors q) (m : MethodRef) : p.methodChars m = q.methodChars m := by
  have hname : (p.method? m).map (·.name) = (q.method? m).map (·.name) := by
    rw [method?, method?, ← List.getElem?_map, ← List.getElem?_map, h.map_name]
  unfold Program.methodChars
  cases hp : p.method? m with
  | none =>
    rw [hp, Option.map_none, eq_comm, Option.map_eq_none_iff] at hname
    rw [hname]
  | some d =>
    rw [hp, Option.map_some, eq_comm, Option.map_eq_some_iff] at hname
    obtain ⟨d', hq, hdd'⟩ := hname
    rw [hq]
    exact congrArg (fun name : String => '%' :: name.toList) hdd'.symm

/-- An instruction is written like its mirror. -/
theorem Mirrors.instrChars (h : p.Mirrors q) {i j : Instr} (hij : p.MirrorsInstr q i j) : p.instrChars i = q.instrChars j := by
  cases hij with
  | add r a b => rfl
  | loadParam r i => rfl
  | loadConst r c ht => simp only [Program.instrChars, ht.typeChars, c.chars_canonical]
  | call r m args => simp only [Program.instrChars, h.methodChars m]
  | ret v => cases v <;> rfl

/-- Related items have the same texts, one after the other. -/
theorem flatMap_eq_of_forall₂ {α β : Type} {R : α → β → Prop} {f : α → List Char} {g : β → List Char} {l : List α} {k : List β}
    (h : List.Forall₂ R l k) (hfg : ∀ a b, R a b → f a = g b) : l.flatMap f = k.flatMap g := by
  rw [List.flatMap_def, List.flatMap_def, map_eq_of_forall₂ h hfg]

/-- A block is written like its mirror. -/
theorem Mirrors.blockLines (h : p.Mirrors q) {b c : Block} (hbc : p.MirrorsBlock q b c) : p.blockLines b = q.blockLines c := by
  have hlines : b.instrs.flatMap p.instrLine = c.instrs.flatMap q.instrLine := by
    refine flatMap_eq_of_forall₂ hbc.instrs fun i j hij => ?_
    unfold instrLine
    rw [h.instrChars hij]
  unfold Program.blockLines
  rw [hlines, hbc.name]

/-- A method is written like its mirror. -/
theorem Mirrors.methodLines (h : p.Mirrors q) {m n : Method} (hmn : p.MirrorsMethod q m n) :
    p.methodLines m = q.methodLines n := by
  have hblocks : m.blocks.flatMap p.blockLines = n.blocks.flatMap q.blockLines :=
    flatMap_eq_of_forall₂ hmn.blocks fun _ _ => h.blockLines
  have hparams : m.params.map p.typeChars = n.params.map q.typeChars :=
    map_eq_of_forall₂ hmn.params fun _ _ => SameType.typeChars
  unfold Program.methodLines
  rw [hblocks, hparams, hmn.name, hmn.returnType.typeChars]

/-- The entry is written like that of the mirror. -/
theorem Mirrors.entryLine (h : p.Mirrors q) : p.entryLine = q.entryLine := by
  have hmethod : p.methodChars = q.methodChars := funext h.methodChars
  unfold Program.entryLine
  rw [h.entry, hmethod]

/-- A mirror has the same text. -/
theorem Mirrors.text (h : p.Mirrors q) : q.text = p.text := by
  have hmethods : p.methods.flatMap p.methodLines = q.methods.flatMap q.methodLines :=
    flatMap_eq_of_forall₂ h.methods fun _ _ => h.methodLines
  unfold Program.text Program.chars
  rw [hmethods, h.entryLine]

/-! ## Realizations of a tree and of its canonical form -/

open Source (Stmt BlockDecl MethodDecl)

variable {s : Source}

/-- A list that is related to another one, and a list that is related to the images of that one's items. -/
theorem forall₂_of_map {α β γ δ : Type} {R : α → β → Prop} {S : γ → δ → Prop} {T : α → γ → Prop} {g : β → δ} {l : List α}
    {m : List β} {k : List γ} (hl : List.Forall₂ R l m) (hk : List.Forall₂ S k (m.map g))
    (hT : ∀ a b c, R a b → S c (g b) → T a c) : List.Forall₂ T l k := by
  induction hl generalizing k with
  | nil =>
    cases hk
    exact .nil
  | @cons a b l m hab _ ih =>
    obtain ⟨c, k', hcb, hk', rfl⟩ := List.forall₂_cons_right_iff.1 hk
    exact .cons (hT a b c hab hcb) (ih hk')

/-- Methods of the same name have the same reference in both programs. -/
theorem WellFormed.methodRef_eq (hp : p.WellFormed) (hnames : p.methods.map (·.name) = q.methods.map (·.name)) {m n : MethodRef}
    {d e : Method} (hm : p.method? m = some d) (hn : q.method? n = some e) (hde : d.name = e.name) : n = m := by
  have hplace : (q.methods.map (·.name))[m.index]? = some d.name := by
    rw [← hnames, List.getElem?_map, show p.methods[m.index]? = some d from hm, Option.map_some]
  rw [List.getElem?_map, Option.map_eq_some_iff] at hplace
  obtain ⟨e', he', hname⟩ := hplace
  have hq : (q.methods.map (·.name)).Nodup := hnames ▸ hp.methodsDistinct
  have hindex : n.index = m.index := index_eq_of_name_eq hq hn he' (hde.symm.trans hname.symm)
  rw [← Ref.ofIndex_index n, hindex, Ref.ofIndex_index]

/-- An instruction that realizes the canonical form of a statement mirrors one that realizes the statement. -/
theorem WellFormed.mirrorsInstr (hp : p.WellFormed) (hnames : p.methods.map (·.name) = q.methods.map (·.name)) {i j : Instr}
    {st : Stmt} (hi : p.RealizesStmt i st) (hj : q.RealizesStmt j st.canonical) : p.MirrorsInstr q i j := by
  cases hi with
  | add r a b =>
    cases hj
    exact .add r a b
  | loadParam r i =>
    cases hj
    exact .loadParam r i
  | loadConst r c ht =>
    cases hj with
    | loadConst _ _ hu => exact .loadConst r c ⟨_, ht, hu⟩
  | @call r m d args hm =>
    generalize hst : (Stmt.call r d.name args).canonical = st at hj
    cases hj with
    | @call r' n e args' hn =>
      obtain ⟨rfl, hname, rfl⟩ := Stmt.call.inj hst
      rw [hp.methodRef_eq hnames hm hn hname]
      exact .call r m args
    | _ => nomatch hst
  | ret v =>
    cases hj
    exact .ret v

/-- A program that realizes the canonical form of a tree mirrors one that realizes the tree. -/
theorem WellFormed.mirrors (hp : p.WellFormed) (h : p.Realizes s) (hq : q.Realizes s.canonical) : p.Mirrors q := by
  have hnames : p.methods.map (·.name) = q.methods.map (·.name) := by
    rw [h.map_name, hq.map_name, s.map_name_canonical]
  refine ⟨?_, forall₂_of_map h.methods hq.methods fun m d n hm hn => ?_⟩
  · have hpe := h.entry
    have hqe : Option.Rel _ q.entry s.entry := hq.entry
    generalize p.entry = pe at hpe ⊢
    generalize q.entry = qe at hqe ⊢
    generalize s.entry = se at hpe hqe
    cases hpe with
    | none =>
      cases hqe
      rfl
    | some hm =>
      obtain ⟨d, hm, rfl⟩ := hm
      cases hqe with
      | some hn =>
        obtain ⟨e, hn, hname⟩ := hn
        rw [hp.methodRef_eq hnames hm hn hname.symm]
  · refine ⟨hn.name.trans hm.name.symm, ⟨_, hm.returnType, hn.returnType⟩, ?_, ?_⟩
    · have hparams : List.Forall₂ (fun u t => q.type? u = some t) n.params (d.params.map id) := by
        rw [List.map_id]
        exact hn.params
      exact forall₂_of_map hm.params hparams fun _ t _ ht hu => ⟨t, ht, hu⟩
    · refine forall₂_of_map hm.blocks hn.blocks fun b c b' hb hb' => ?_
      exact ⟨hb'.name.trans hb.name.symm, forall₂_of_map hb.instrs hb'.instrs fun _ _ _ hi hj => hp.mirrorsInstr hnames hi hj⟩

end Program

end Straightline
