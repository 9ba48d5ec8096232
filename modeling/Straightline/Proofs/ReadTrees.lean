import Straightline.Proofs.Printed

/-!
# Trees that are read

Whatever text a tree is read from, its methods and blocks have identifiers for names, and its constants are in the form literals
are read in (`Grammar.program_yields`). Nothing is said here of the text: a property of what a reader is done with goes through
the ways of making readers (`Reader.Yields`).
-/

namespace Straightline

namespace Reader

variable {α β : Type} {P : α → Prop} {Q : β → Prop} {p q : Reader α}

/-- Whatever a reader is done with has a property. -/
def Yields (P : α → Prop) (p : Reader α) : Prop := ∀ s a r, p s = .done a r → P a

/-- A value alone has its property. -/
theorem yields_pure {a : α} (h : P a) : Yields P (pure a) := by
  intro s b r hb
  cases hb
  exact h

/-- A sequence has the property of its second reader, which may rest on that of the first one. -/
theorem Yields.bind {f : α → Reader β} (hp : Yields P p) (hf : ∀ a, P a → Yields Q (f a)) : Yields Q (p >>= f) := by
  intro s b t h
  obtain ⟨a, r, ha, hb⟩ := bind_eq_done_iff.1 h
  exact hf a (hp s a r ha) r b t hb

/-- A sequence has the property of its second reader, whatever the first one reads. -/
theorem yields_bind {f : α → Reader β} (hf : ∀ a, Yields Q (f a)) : Yields Q (p >>= f) :=
  Yields.bind (P := fun _ => True) (fun _ _ _ _ => trivial) fun a _ => hf a

/-- A choice has the property that both readers have. -/
theorem Yields.orElse (hp : Yields P p) (hq : Yields P q) : Yields P (orElse p q) := by
  intro s a r h
  rw [Reader.orElse] at h
  split at h
  · next a' r' hp' =>
    cases h
    exact hp s a r hp'
  · exact hq s a r h

/-- What a partial function makes of what is read. -/
theorem yields_filterMap {f : α → Option β} (hf : ∀ a b, f a = some b → Q b) : Yields Q (filterMap p f) := by
  intro s b r h
  obtain ⟨a, -, hab⟩ := exists_done_of_filterMap h
  exact hf a b hab

/-- All items of a repetition have the property of its reader. -/
theorem Yields.many (hp : Yields P p) : Yields (fun as => ∀ a ∈ as, P a) (many p) := by
  intro s as t h
  fun_induction Reader.many p s generalizing as t with
  | case1 s r hfail =>
    cases h
    exact fun a ha => (nomatch ha)
  | case2 s a r hdone hlt as' t' hmany ih =>
    cases h
    exact List.forall_mem_cons.2 ⟨hp s a r hdone, ih as' t' hmany⟩
  | case3 s a r hdone hlt t' hmany ih => nomatch h
  | case4 s a r hdone hlt => nomatch h

end Reader

/-- A list whose items are left as they are. -/
theorem map_eq_self {α : Type} {f : α → α} {l : List α} (h : ∀ a ∈ l, f a = a) : l.map f = l :=
  (List.map_congr_left h).trans (List.map_id l)

namespace Grammar

open Reader
open Source (Stmt BlockDecl MethodDecl)

/-! ## Words -/

/-- What is read as an identifier is one. -/
theorem identifier_yields : Yields (fun name => isIdentifier name.toList = true) identifier := by
  intro s name r h
  obtain ⟨c, t, hc, h⟩ := bind_eq_done_iff.1 h
  obtain ⟨cs, u, hcs, h⟩ := bind_eq_done_iff.1 h
  cases hcs
  cases h
  have hstart : isIdentStart c = true := (satisfy_eq_done_iff.1 hc).2
  rw [String.toList_ofList, isIdentifier, hstart, Bool.true_and]
  exact List.all_takeWhile

/-- What is read as the name of a method is an identifier. -/
theorem methodName_yields : Yields (fun name => isIdentifier name.toList = true) methodName :=
  yields_bind fun _ => identifier_yields

/-- A numeral is read as a constant in canonical form. -/
theorem canonical_of_numeralOf? {n : Option Unit × List Char} {c : Constant} (h : numeralOf? n = some c) : c.canonical = c := by
  obtain ⟨sign, ds⟩ := n
  cases sign with
  | none =>
    rw [numeralOf?, unsignedOf?] at h
    split at h
    · cases h
      rfl
    · next hlarge =>
      split at h
      · next hlt =>
        cases h
        rw [Constant.canonical, UInt64.toNat_ofNat_of_lt' hlt, if_neg hlarge]
      · cases h
  | some minus =>
    rw [numeralOf?, negativeOf?] at h
    split at h
    · cases h
      rfl
    · cases h

/-- What is read as a literal is in canonical form. -/
theorem literal_yields : Yields (fun c => c.canonical = c) literal := by
  refine Yields.orElse (yields_bind fun _ => yields_pure rfl) ?_
  refine Yields.orElse (yields_bind fun _ => yields_pure rfl) ?_
  exact yields_filterMap fun _ _ => canonical_of_numeralOf?

/-! ## Statements -/

/-- An operation is read with its constant in canonical form. -/
theorem operation_yields (result : Register) (op : Operation) : Yields (fun st => st.canonical = st) (operation result op) := by
  cases op with
  | add => exact yields_bind fun a => yields_bind fun _ => yields_bind fun b => yields_pure rfl
  | loadParam => exact yields_bind fun index => yields_pure rfl
  | loadConst =>
    refine yields_bind fun type => yields_bind fun _ => literal_yields.bind fun value hvalue => yields_pure ?_
    rw [Stmt.canonical, hvalue]
  | call =>
    refine yields_bind fun callee => yields_bind fun _ => yields_bind fun _ => yields_bind fun _ => ?_
    exact yields_bind fun args => yields_bind fun _ => yields_bind fun _ => yields_pure rfl

/-- A statement is read with its constant in canonical form. -/
theorem stmt_yields : Yields (fun st => st.canonical = st) stmt := by
  refine Yields.orElse ?_ ?_
  · exact yields_bind fun _ => yields_bind fun _ => yields_bind fun value => yields_pure rfl
  · refine yields_bind fun result => yields_bind fun _ => yields_bind fun _ => yields_bind fun _ => ?_
    exact yields_bind fun op => operation_yields result op

/-! ## Declarations -/

/-- A block is read with an identifier for its name and its constants in canonical form. -/
theorem block_yields : Yields (fun b => isIdentifier b.name.toList = true ∧ b.canonical = b) block := by
  have hline : Yields (fun st => st.canonical = st) (do let i ← stmt; blank; return i : Reader Stmt) :=
    stmt_yields.bind fun st hst => yields_bind fun _ => yields_pure hst
  refine identifier_yields.bind fun name hname => yields_bind fun _ => yields_bind fun _ => yields_bind fun _ => ?_
  refine hline.many.bind fun stmts hstmts => yields_pure ⟨hname, ?_⟩
  rw [BlockDecl.canonical, map_eq_self hstmts]

/-- A method is read with identifiers for its name and those of its blocks, and its constants in canonical form. -/
theorem method_yields :
    Yields (fun d => isIdentifier d.name.toList = true ∧ (∀ b ∈ d.blocks, isIdentifier b.name.toList = true) ∧ d.canonical = d)
      method := by
  refine yields_bind fun _ => yields_bind fun _ => methodName_yields.bind fun name hname => yields_bind fun _ => ?_
  refine yields_bind fun params => yields_bind fun _ => yields_bind fun _ => yields_bind fun returnType => ?_
  refine yields_bind fun _ => yields_bind fun _ => yields_bind fun _ => block_yields.many.bind fun blocks hblocks => ?_
  refine yields_bind fun _ => yields_bind fun _ => yields_pure ⟨hname, fun b hb => (hblocks b hb).1, ?_⟩
  rw [MethodDecl.canonical, map_eq_self fun b hb => (hblocks b hb).2]

/-- A tree is read with identifiers for its names and its constants in canonical form. -/
theorem program_yields : Yields (fun tree => tree.Named ∧ tree.canonical = tree) program := by
  refine yields_bind fun _ => yields_bind fun _ => yields_bind fun _ => yields_bind fun _ => yields_bind fun _ => ?_
  refine yields_bind fun entry => method_yields.many.bind fun methods hmethods => ?_
  refine yields_bind fun _ => yields_bind fun _ => yields_pure ⟨⟨?_, ?_⟩, ?_⟩
  · exact fun d hd => (hmethods d hd).1
  · exact fun d hd => (hmethods d hd).2.1
  · rw [Source.canonical, map_eq_self fun d hd => (hmethods d hd).2.2]

end Grammar

end Straightline
