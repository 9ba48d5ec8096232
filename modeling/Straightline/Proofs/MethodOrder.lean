import Straightline.Proofs.Elaborate
import Straightline.Proofs.MirrorRuns

/-!
# The order of methods

The methods of a source tree may stand in any order (`Source.Reordered`). Elaboration then numbers methods and types differently,
but a name leads to a method that does the same: two programs that realize reordered trees follow each other, where a method of
one goes with the method of the same name of the other (`Program.Realizes.follows`). Main statement: `Source.elaborate_reordered`.
-/

namespace Straightline

/-! ## Reordered trees -/

namespace Source

/-- The same tree but for the order of its methods. -/
structure Reordered (s s' : Source) : Prop where
  entry : s'.entry = s.entry
  methods : s.methods.Perm s'.methods

namespace Reordered

variable {s s' : Source}

theorem symm (h : Reordered s s') : Reordered s' s := ⟨h.entry.symm, h.methods.symm⟩

/-- Names are identifiers in whatever order. -/
theorem named (h : Reordered s s') (hn : s.Named) : s'.Named := by
  refine ⟨?_, ?_⟩
  · intro d hd
    exact hn.methods d (h.methods.mem_iff.2 hd)
  · intro d hd
    exact hn.blocks d (h.methods.mem_iff.2 hd)

/-- Reordered trees name the same types, so that neither names more of them. -/
theorem small (h : Reordered s s') (hs : s.Small) : s'.Small := by
  have htypes : s.types.dedup.Perm s'.types.dedup := (h.methods.flatMap_right MethodDecl.types).dedup
  refine ⟨?_, ?_, ?_⟩
  · rw [← h.methods.length_eq]
    exact hs.methods
  · intro d hd
    exact hs.blocks d (h.methods.mem_iff.2 hd)
  · rw [← htypes.length_eq]
    exact hs.types

/-- A statement is meaningful in whatever order. -/
theorem allows (h : Reordered s s') {d : MethodDecl} {st : Stmt} (ha : s.Allows d st) : s'.Allows d st := by
  cases st with
  | call r callee args =>
    obtain ⟨e, he, hname, hargs⟩ := ha
    exact ⟨e, h.methods.mem_iff.1 he, hname, hargs⟩
  | add | loadParam | loadConst | ret => exact ha

/-- A tree is well formed in whatever order. -/
theorem wellFormed (h : Reordered s s') (hwf : s.WellFormed) : s'.WellFormed := by
  refine ⟨?_, ?_, ?_, ?_⟩
  · exact (h.methods.map _).nodup_iff.1 hwf.methodsDistinct
  · intro d hd
    exact hwf.blocksDistinct d (h.methods.mem_iff.2 hd)
  · intro d hd b hb st hst
    exact h.allows (hwf.stmts d (h.methods.mem_iff.2 hd) b hb st hst)
  · intro name hname
    rw [h.entry] at hname
    obtain ⟨d, hd, rfl⟩ := hwf.entry name hname
    exact ⟨d, h.methods.mem_iff.1 hd, rfl⟩

end Reordered

end Source

/-! ## Programs that realize the same methods -/

namespace Program

open Source (Stmt BlockDecl MethodDecl)

variable {p q : Program} {s s' : Source}

/-- Two references lead to methods of the same name. -/
def SameName (p q : Program) (m n : MethodRef) : Prop := ∃ d e, p.method? m = some d ∧ q.method? n = some e ∧ e.name = d.name

/-- Two lists that are related to the same list are related to each other. -/
theorem forall₂_of_common {α β γ : Type} {R : α → β → Prop} {S : γ → β → Prop} {T : α → γ → Prop} {l : List α} {m : List β}
    {k : List γ} (hl : List.Forall₂ R l m) (hk : List.Forall₂ S k m) (hT : ∀ a b c, R a b → S c b → T a c) :
    List.Forall₂ T l k := by
  have hk' : List.Forall₂ S k (m.map id) := by rwa [List.map_id]
  exact forall₂_of_map hl hk' hT

/-- Instructions that say the same do the same, whichever methods of the names they call stand behind their references. -/
theorem sameCode_of_realizes {more : Prop} {is js : List Instr} {sts : List Stmt} (hi : List.Forall₂ p.RealizesStmt is sts)
    (hj : List.Forall₂ q.RealizesStmt js sts) : SameCode p q (p.SameName q) more is js := by
  have hij : List.Forall₂ (fun i j => ∃ st, p.RealizesStmt i st ∧ q.RealizesStmt j st) is js :=
    forall₂_of_common hi hj fun _ st _ h h' => ⟨st, h, h'⟩
  clear hi hj
  induction hij with
  | nil => exact .nil
  | cons h _ ih =>
    obtain ⟨st, hi, hj⟩ := h
    cases hi with
    | add r a b =>
      cases hj
      exact .add r a b ih
    | loadParam r i =>
      cases hj
      exact .loadParam r i ih
    | loadConst r c ht =>
      cases hj with
      | loadConst _ _ hu => exact .loadConst r (SameType.wrap_eq ⟨_, ht, hu⟩ c.toWord) ih
    | @call r m d args hm =>
      generalize hst : Stmt.call r d.name args = st at hj
      cases hj with
      | @call r' n e args' hn =>
        obtain ⟨rfl, hname, rfl⟩ := Stmt.call.inj hst
        exact .call r args ⟨d, e, hm, hn, hname.symm⟩ ih
      | _ => nomatch hst
    | ret v =>
      cases hj
      exact .ret v _ _

/-- Methods that say the same follow each other. -/
theorem RealizesMethod.follows {Open : Fault → Prop} {x y : Method} {d : MethodDecl} (hx : p.RealizesMethod x d)
    (hy : q.RealizesMethod y d) : FollowsMethod p q (p.SameName q) Open x y := by
  have hblocks : List.Forall₂ (fun b c => ∃ e, p.RealizesBlock b e ∧ q.RealizesBlock c e) x.blocks y.blocks :=
    forall₂_of_common hx.blocks hy.blocks fun _ e _ h h' => ⟨e, h, h'⟩
  refine ⟨hy.name.trans hx.name.symm, SameType.wrap_eq ⟨_, hx.returnType, hy.returnType⟩, ?_, ?_, ?_⟩
  · exact forall₂_of_common hx.params hy.params fun _ t _ ht hu => SameType.wrap_eq ⟨t, ht, hu⟩
  · intro hnone
    unfold Method.entryBlock? at hnone ⊢
    rw [List.head?_eq_none_iff] at hnone
    rw [hnone, List.forall₂_nil_left_iff] at hblocks
    rw [hblocks]
    exact Or.inr rfl
  · intro b hb
    unfold Method.entryBlock? at hb ⊢
    obtain ⟨bs, hbs⟩ := List.head?_eq_some_iff.1 hb
    rw [hbs] at hblocks
    obtain ⟨c, cs, ⟨e, hbe, hce⟩, -, hcs⟩ := List.forall₂_cons_left_iff.1 hblocks
    exact ⟨c, by rw [hcs, List.head?_cons], sameCode_of_realizes hbe.instrs hce.instrs⟩

/-- Programs that realize reordered trees follow each other: methods of the same name realize the same method. -/
theorem Realizes.follows (hp : p.Realizes s) (hq : q.Realizes s') (hs : (s.methods.map (·.name)).Nodup) (h : s.Reordered s') :
    Follows p q (p.SameName q) (fun _ => False) := by
  refine ⟨?_, ?_⟩
  · rintro m n ⟨d, e, hm, -⟩ hnone
    rw [hm] at hnone
    nomatch hnone
  · rintro m n x ⟨d, e, hm, hn, hname⟩ hx
    cases hm.symm.trans hx
    obtain ⟨a, ha, hxa⟩ := hp.method hm
    obtain ⟨b, hb, heb⟩ := hq.method hn
    have hab : a = b := by
      refine List.inj_on_of_nodup_map hs (List.mem_of_getElem? ha) (h.methods.mem_iff.2 (List.mem_of_getElem? hb)) ?_
      rw [← hxa.name, ← heb.name, hname]
    subst hab
    exact ⟨e, hn, hxa.follows heb⟩

/-- The entries of programs that realize reordered trees have the same name, if there are any. -/
theorem Realizes.entry_rel (hp : p.Realizes s) (hq : q.Realizes s') (h : s.Reordered s') :
    Option.Rel (p.SameName q) p.entry q.entry := by
  have hpe := hp.entry
  have hqe := hq.entry
  rw [h.entry] at hqe
  generalize p.entry = m at hpe ⊢
  generalize q.entry = n at hqe ⊢
  generalize s.entry = name at hpe hqe
  cases hpe with
  | none =>
    cases hqe
    exact .none
  | some hm =>
    cases hqe with
    | some hn =>
      obtain ⟨d, hd, hdname⟩ := hm
      obtain ⟨e, he, hename⟩ := hn
      exact .some ⟨d, e, hd, he, hename.trans hdname.symm⟩

/-- A name leads to methods of that name in both programs or to a method in neither, as long as references can tell the methods
apart. -/
theorem Realizes.methodRef?_rel (hp : p.Realizes s) (hq : q.Realizes s') (hs : s.methods.length ≤ UInt32.size)
    (h : s.Reordered s') (name : String) : Option.Rel (p.SameName q) (p.methodRef? name) (q.methodRef? name) := by
  have hnames : (p.methods.map (·.name)).Perm (q.methods.map (·.name)) := by
    rw [hp.map_name, hq.map_name]
    exact h.methods.map _
  have hplen : p.methods.length ≤ UInt32.size := hp.methods.length_eq ▸ hs
  have hqlen : q.methods.length ≤ UInt32.size := by
    rw [hq.methods.length_eq, ← h.methods.length_eq]
    exact hs
  have hnone : p.methodRef? name = none ↔ q.methodRef? name = none := by
    rw [methodRef?_eq_none_iff, methodRef?_eq_none_iff, hnames.mem_iff]
  cases hm : p.methodRef? name with
  | none =>
    rw [hnone.1 hm]
    exact .none
  | some m =>
    cases hn : q.methodRef? name with
    | none =>
      rw [hnone.2 hn] at hm
      nomatch hm
    | some n =>
      obtain ⟨d, hd, hdname⟩ := method?_of_methodRef? hplen hm
      obtain ⟨e, he, hename⟩ := method?_of_methodRef? hqlen hn
      exact .some ⟨d, e, hd, he, hename.trans hdname.symm⟩

/-- Methods of the same name come to the same results. -/
theorem Follows.run_eq_of_sameName (h : Follows p q (p.SameName q) (fun _ => False)) {m n : MethodRef} (hmn : p.SameName q m n)
    (args : List Int64) (limit : Nat) : q.run n args limit = p.run m args limit :=
  (h.run_keeps hmn args limit).eq fun _ _ => not_false

end Program

/-! ## Elaboration -/

namespace Source

/-- A tree is elaborated if a reordering of it is. -/
theorem Reordered.elaborates {s s' : Source} (h : s.Reordered s') (hn : s.Named) (hs : s.Small) (hp : ∃ p, s.elaborate = .ok p) :
    ∃ q, s'.elaborate = .ok q := by
  obtain ⟨p, hp⟩ := hp
  obtain ⟨hr, hwf⟩ := (elaborate_ends hn hs).of_ok hp
  have hwf' : s'.WellFormed := h.wellFormed (hwf.source hr)
  obtain ⟨q, hq, -⟩ := (elaborate_ends (h.named hn) (h.small hs)).exists_ok fun e he => he.2 hwf'
  exact ⟨q, hq⟩

/-- The order of methods does not matter: a tree with identifiers for names is elaborated exactly if each of its reorderings is.
Then the method of any name comes to the same result, with any arguments and any limit of nested calls, or neither program has a
method of that name, and the entries come to the same result. -/
theorem elaborate_reordered (s s' : Source) (hn : s.Named) (hs : s.Small) (h : s.Reordered s') :
    ((∃ p, s.elaborate = .ok p) ↔ ∃ q, s'.elaborate = .ok q) ∧
    ∀ p q, s.elaborate = .ok p → s'.elaborate = .ok q →
      (∀ (name : String) (args : List Int64) (limit : Nat),
        (q.methodRef? name).map (q.run · args limit) = (p.methodRef? name).map (p.run · args limit)) ∧
      ∀ (args : List Int64) (limit : Nat), q.runEntry args limit = p.runEntry args limit := by
  have hn' := h.named hn
  have hs' := h.small hs
  refine ⟨⟨h.elaborates hn hs, h.symm.elaborates hn' hs'⟩, ?_⟩
  intro p q hp hq
  obtain ⟨hpr, hpwf⟩ := (elaborate_ends hn hs).of_ok hp
  obtain ⟨hqr, -⟩ := (elaborate_ends hn' hs').of_ok hq
  have hfollows := hpr.follows hqr (hpwf.source hpr).methodsDistinct h
  refine ⟨?_, ?_⟩
  · intro name args limit
    have hrel := hpr.methodRef?_rel hqr (Nat.le_of_lt hs.methods) h name
    generalize p.methodRef? name = m at hrel ⊢
    generalize q.methodRef? name = n at hrel ⊢
    cases hrel with
    | none => rfl
    | some hmn => exact congrArg some (hfollows.run_eq_of_sameName hmn args limit)
  · intro args limit
    have hrel := hpr.entry_rel hqr h
    unfold Program.runEntry
    generalize p.entry = m at hrel ⊢
    generalize q.entry = n at hrel ⊢
    cases hrel with
    | none => rfl
    | some hmn => exact hfollows.run_eq_of_sameName hmn args limit

/-- A tree whose entry calls a method that stands before it and narrows its argument, and two methods that call each other. -/
def crossCalls : Source :=
  { entry := some "main"
    methods := [
      { name := "ping", params := [], returnType := .bool, blocks := [⟨"start", [.call 0 "pong" [], .ret (some 0)]⟩] },
      { name := "low", params := [⟨false, 8⟩], returnType := ⟨false, 8⟩, blocks := [⟨"start", [.loadParam 4 0, .ret (some 4)]⟩] },
      { name := "main", params := [⟨true, 16⟩], returnType := ⟨true, 64⟩
        blocks := [⟨"start", [.loadParam 0 0, .loadConst 1 ⟨true, 64⟩ (.int 1000), .call 2 "low" [1], .add 3 2 0,
          .ret (some 3)]⟩] },
      { name := "pong", params := [], returnType := .bool, blocks := [⟨"start", [.call 0 "ping" [], .ret none]⟩] }] }

/-- The methods may come the other way round: the entry still comes to its sum, and the calls of each other to a fault. -/
theorem elaborate_crossCalls_reverse :
    (crossCalls.Named ∧ crossCalls.Small ∧ crossCalls.Reordered { crossCalls with methods := crossCalls.methods.reverse }) ∧
    ∃ q, Source.elaborate { crossCalls with methods := crossCalls.methods.reverse } = .ok q ∧
      q.runEntry [7] 1 = .ok (some 239) ∧
      (q.methodRef? "ping").map (q.run · [] 5) = some (.error (.depthExceeded 5)) ∧
      (q.methodRef? "pung").map (q.run · [] 5) = none := by
  have hn : crossCalls.Named := ⟨by decide +kernel, by decide +kernel⟩
  have hs : crossCalls.Small := ⟨by decide +kernel, by decide +kernel, by decide +kernel⟩
  have h : crossCalls.Reordered { crossCalls with methods := crossCalls.methods.reverse } := ⟨rfl, (List.reverse_perm _).symm⟩
  obtain ⟨hiff, hruns⟩ := elaborate_reordered _ _ hn hs h
  obtain ⟨q, hq⟩ := hiff.1 ⟨_, rfl⟩
  obtain ⟨hrun, hentry⟩ := hruns _ q rfl hq
  refine ⟨⟨hn, hs, h⟩, q, hq, ?_, ?_, ?_⟩
  · rw [hentry]
    rfl
  · rw [hrun]
    rfl
  · rw [hrun]
    rfl

end Source

end Straightline
