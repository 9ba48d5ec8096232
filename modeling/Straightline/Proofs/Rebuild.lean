import Straightline.Proofs.MirrorRuns
import Straightline.Proofs.Reread
import Straightline.Proofs.Writing

/-!
# Building a program that was read

A program that was read has its types in the order in which its text names them; a program that the builder has built has the
common types in the order of the catalogue, whether they are used or not. Apart from that nothing tells them apart: a program over
common types, with the references of the catalogue in the place of its own (`Program.standard`), says what it said before, and a
script that writes the one writes the other. Main statement: `Program.build_of_parse`.
-/

namespace Straightline

/-! ## Other references to the same types -/

/-- The reference of the catalogue to a common type. -/
def Catalogue.ref (t : Scalar) : TypeRef := .ofIndex (scalars.idxOf t)

theorem Catalogue.getElem?_ref {t : Scalar} (h : t ∈ scalars) : scalars[(ref t).index]? = some t := by
  have hall : ∀ t ∈ scalars, scalars[(ref t).index]? = some t := by decide +kernel
  exact hall t h

/-- The instruction with other references to types. -/
def Instr.retype (f : TypeRef → TypeRef) : Instr → Instr
  | .loadConst r t c => .loadConst r (f t) c
  | i => i

/-- The block with other references to types. -/
def Block.retype (f : TypeRef → TypeRef) (b : Block) : Block := { b with instrs := b.instrs.map (Instr.retype f) }

/-- The method with other references to types. -/
def Method.retype (f : TypeRef → TypeRef) (d : Method) : Method where
  name := d.name
  returnType := f d.returnType
  params := d.params.map f
  blocks := d.blocks.map (Block.retype f)

namespace Program

/-- The reference of the catalogue to the type that a reference leads to. -/
def common (p : Program) (t : TypeRef) : TypeRef := ((p.type? t).map Catalogue.ref).getD t

/-- The program with the types of the catalogue. -/
def standard (p : Program) : Program where
  types := Catalogue.scalars
  methods := p.methods.map (Method.retype p.common)
  entry := p.entry

variable {p : Program}

/-- The reference of the catalogue leads to the same type. -/
theorem type?_common (hp : p.types ⊆ Catalogue.scalars) {t : TypeRef} {s : Scalar} (h : p.type? t = some s) :
    p.standard.type? (p.common t) = some s := by
  rw [common, h]
  exact Catalogue.getElem?_ref (hp (List.mem_of_getElem? h))

/-- A reference leads to the same method, with the types of the catalogue. -/
theorem method?_standard {m : MethodRef} {d : Method} (h : p.method? m = some d) :
    p.standard.method? m = some (d.retype p.common) := by
  show (p.methods.map (Method.retype p.common))[m.index]? = _
  rw [List.getElem?_map, show p.methods[m.index]? = some d from h, Option.map_some]

/-! ## What stays the same -/

/-- A meaningful instruction stays meaningful. -/
theorem Allows.standard (hp : p.types ⊆ Catalogue.scalars) {d : Method} {i : Instr} (h : p.Allows d i) :
    p.standard.Allows (d.retype p.common) (i.retype p.common) := by
  cases i with
  | add r a b => exact trivial
  | loadParam r i =>
    show i.toNat < (d.params.map p.common).length
    rw [List.length_map]
    exact h
  | loadConst r t c =>
    obtain ⟨s, hs, hc⟩ := h
    exact ⟨s, type?_common hp hs, hc⟩
  | call r m args =>
    obtain ⟨callee, hm, hargs⟩ := h
    refine ⟨callee.retype p.common, method?_standard hm, ?_⟩
    show args.length = (callee.params.map p.common).length
    rw [List.length_map]
    exact hargs
  | ret v => exact trivial

/-- A well-formed method stays well formed. -/
theorem MethodWellFormed.standard (hp : p.types ⊆ Catalogue.scalars) {d : Method} (h : p.MethodWellFormed d) :
    p.standard.MethodWellFormed (d.retype p.common) := by
  refine ⟨h.name, fun t ht => ?_, fun b hb => ?_, ?_, fun b hb i hi => ?_⟩
  · have ht' : t ∈ (d.returnType :: d.params).map p.common := ht
    obtain ⟨u, hu, rfl⟩ := List.mem_map.1 ht'
    obtain ⟨s, hs⟩ := h.types u hu
    exact ⟨s, type?_common hp hs⟩
  · obtain ⟨c, hc, rfl⟩ := List.mem_map.1 hb
    exact h.blockNames c hc
  · rw [Method.retype, List.map_map]
    exact h.blocksDistinct
  · obtain ⟨c, hc, rfl⟩ := List.mem_map.1 hb
    obtain ⟨j, hj, rfl⟩ := List.mem_map.1 hi
    exact (h.instrs c hc j hj).standard hp

/-- A well-formed program stays well formed. -/
theorem WellFormed.standard (hp : p.types ⊆ Catalogue.scalars) (h : p.WellFormed) : p.standard.WellFormed := by
  have hdistinct : Catalogue.scalars.Nodup := by decide
  refine ⟨hdistinct, ?_, fun d hd => ?_, fun m hm => ?_⟩
  · rw [Program.standard, List.map_map]
    exact h.methodsDistinct
  · obtain ⟨e, he, rfl⟩ := List.mem_map.1 hd
    exact (h.methods e he).standard hp
  · obtain ⟨d, hd⟩ := h.entry m hm
    exact ⟨_, method?_standard hd⟩

/-- An instruction says the same as before. -/
theorem RealizesStmt.standard (hp : p.types ⊆ Catalogue.scalars) {i : Instr} {st : Source.Stmt} (h : p.RealizesStmt i st) :
    p.standard.RealizesStmt (i.retype p.common) st := by
  cases h with
  | add r a b => exact .add r a b
  | loadParam r i => exact .loadParam r i
  | loadConst r c ht => exact .loadConst r c (type?_common hp ht)
  | @call r m d args hm => exact .call r (d := d.retype p.common) args (method?_standard hm)
  | ret v => exact .ret v

/-- A method says the same as before. -/
theorem RealizesMethod.standard (hp : p.types ⊆ Catalogue.scalars) {m : Method} {d : Source.MethodDecl}
    (h : p.RealizesMethod m d) : p.standard.RealizesMethod (m.retype p.common) d := by
  refine ⟨h.name, type?_common hp h.returnType, ?_, ?_⟩
  · exact List.forall₂_map_left_iff.2 (h.params.imp fun _ _ ht => type?_common hp ht)
  · refine List.forall₂_map_left_iff.2 (h.blocks.imp fun b c hbc => ⟨hbc.name, ?_⟩)
    exact List.forall₂_map_left_iff.2 (hbc.instrs.imp fun _ _ hi => hi.standard hp)

/-- A program says the same as before. -/
theorem Realizes.standard (hp : p.types ⊆ Catalogue.scalars) {s : Source} (h : p.Realizes s) : p.standard.Realizes s := by
  refine ⟨List.forall₂_map_left_iff.2 (h.methods.imp fun _ _ hm => hm.standard hp), ?_⟩
  have hentry := h.entry
  show Option.Rel _ p.entry s.entry
  generalize p.entry = pe at hentry ⊢
  generalize s.entry = se at hentry ⊢
  cases hentry with
  | none => exact .none
  | some hm =>
    obtain ⟨d, hd, rfl⟩ := hm
    exact .some ⟨d.retype p.common, method?_standard hd, rfl⟩

end Program

/-! ## Scripts -/

namespace Script

variable {p : Program} {labels labels' : Labels}

theorem NamesType.standard (hp : p.types ⊆ Catalogue.scalars) {arg : TypeArg} {t : TypeRef} (h : NamesType p arg t) :
    NamesType p.standard arg (p.common t) := by
  cases h with
  | named hs => exact .named (Program.type?_common hp hs)

theorem NamesTarget.standard {arg : TargetArg} {m : MethodRef} (h : NamesTarget p labels arg m) :
    NamesTarget p.standard labels arg m := by
  cases h with
  | @method m d hm => exact .method (d := d.retype p.common) (Program.method?_standard hm)
  | block hs => exact .block hs

theorem WritesInstr.standard (hp : p.types ⊆ Catalogue.scalars) {e : Emission} {i : Instr} (h : WritesInstr p labels e i) :
    WritesInstr p.standard labels e (i.retype p.common) := by
  cases h with
  | add r a b => exact .add r a b
  | ldParam r i => exact .ldParam r i
  | ldConst r c ht => exact .ldConst r c (ht.standard hp)
  | call r args ht => exact .call r args ht.standard
  | ret v => exact .ret v

theorem WritesHead.standard (hp : p.types ⊆ Catalogue.scalars) {step : Step} {d : Method} (h : WritesHead p step d) :
    WritesHead p.standard step (d.retype p.common) := by
  cases h with
  | method hreturn hparams =>
    refine .method (d := d.retype p.common) (hreturn.standard hp) ?_
    exact List.forall₂_map_right_iff.2 (hparams.imp fun _ _ ht => ht.standard hp)

theorem WritesBlocks.standard (hp : p.types ⊆ Catalogue.scalars) {owner : String} {m : MethodRef} {j : Nat} {steps : List Step}
    {bs : List Block} (h : WritesBlocks p owner m labels j steps bs labels') :
    WritesBlocks p.standard owner m labels j steps (bs.map (Block.retype p.common)) labels' := by
  induction h with
  | nil labels j => exact .nil labels j
  | @cons labels labels' j b bs es steps label hes _ ih =>
    refine .cons (b := b.retype p.common) label ?_ ih
    exact List.forall₂_map_right_iff.2 (hes.imp fun _ _ he => he.standard hp)

theorem WritesBodies.standard (hp : p.types ⊆ Catalogue.scalars) {j : Nat} {steps : List Step} {ds : List Method}
    (h : WritesBodies p labels j steps ds labels') :
    WritesBodies p.standard labels j steps (ds.map (Method.retype p.common)) labels' := by
  induction h with
  | nil labels j => exact .nil labels j
  | @cons labels labels' labels'' j d ds steps steps' hblocks _ ih =>
    exact .cons (d := d.retype p.common) (hblocks.standard hp) ih

/-- A script that writes a program writes it with the types of the catalogue too. -/
theorem Writes.standard (hp : p.types ⊆ Catalogue.scalars) {steps : List Step} (h : Writes p steps) :
    Writes p.standard steps := by
  cases h with
  | mk hheads hbodies hentry =>
    refine .mk (List.forall₂_map_right_iff.2 (hheads.imp fun _ _ hd => hd.standard hp)) (hbodies.standard hp) ?_
    show WritesEntry p.standard _ _ p.entry
    generalize p.entry = entry at hentry ⊢
    cases hentry with
    | none => exact .none
    | some ht => exact .some ht.standard

end Script

/-! ## Reading and building -/

namespace Program

/-- A program that was read and uses only some types of a short list is well formed, and realizes a tree in canonical form. -/
theorem exists_source_of_parse {t : String} {p : Program} {ts : List Scalar} (h : Program.parse t = .ok p)
    (hmethods : p.methods.length < UInt32.size) (hblocks : ∀ d ∈ p.methods, d.blocks.length < UInt32.size) (hsub : p.types ⊆ ts)
    (hts : ts.length < UInt32.size) : p.WellFormed ∧ ∃ s : Source, p.Realizes s ∧ s.canonical = s := by
  obtain ⟨s, hs, helab⟩ := bind_eq_ok_iff.1 h
  rw [mapError_eq_ok_iff] at helab
  obtain ⟨hnamed, hcanonical⟩ := Grammar.program_yields _ _ _ (Source.parse_eq_ok_iff.1 hs)
  have hsmall := Source.small_of_elaborate_of_subset helab hmethods hblocks hsub hts
  obtain ⟨hrealizes, hwf⟩ := (Source.elaborate_ends hnamed hsmall).of_ok helab
  exact ⟨hwf, s, hrealizes, hcanonical⟩

/-- A program that was read from a text and uses only common types is written by some script. Every script that writes it, whether
it calls and enters methods by themselves or by their blocks, succeeds at every step, and builds a program with the same text and
the same results: of any reference to a method, existing or not, with any arguments and any limit of nested calls, and from the
entry. -/
theorem build_of_parse (t : String) (p : Program) (h : Program.parse t = .ok p) (htypes : ∀ s ∈ p.types, s ∈ Catalogue.scalars)
    (hmethods : p.methods.length < UInt32.size) (hblocks : ∀ d ∈ p.methods, d.blocks.length < UInt32.size) :
    (∃ steps, Script.Writes p steps) ∧
      ∀ steps, Script.Writes p steps →
        (∀ r ∈ (Script.build ({} : Program) steps).1, r.succeeds = true) ∧
        (Script.build ({} : Program) steps).2.2.text = p.text ∧
        (∀ (m : MethodRef) (args : List Int64) (limit : Nat),
          (Script.build ({} : Program) steps).2.2.run m args limit = p.run m args limit) ∧
        ∀ (args : List Int64) (limit : Nat),
          (Script.build ({} : Program) steps).2.2.runEntry args limit = p.runEntry args limit := by
  obtain ⟨hwf, s, hrealizes, hcanonical⟩ := exists_source_of_parse h hmethods hblocks htypes (by decide)
  refine ⟨Script.exists_writes hwf, fun steps hsteps => ?_⟩
  have hmirrors : p.Mirrors p.standard := by
    refine hwf.mirrors hrealizes ?_
    rw [hcanonical]
    exact hrealizes.standard htypes
  have hlength : p.standard.methods.length < UInt32.size := by
    rw [standard, List.length_map]
    exact hmethods
  have hbodies : ∀ d ∈ p.standard.methods, d.blocks.length < UInt32.size := by
    intro d hd
    obtain ⟨e, he, rfl⟩ := List.mem_map.1 hd
    rw [Method.retype, List.length_map]
    exact hblocks e he
  obtain ⟨env, replies, hrun, hok⟩ := (hsteps.standard htypes).succeeds (hwf.standard htypes) rfl hlength hbodies
  have hbuild : Script.build ({} : Program) steps = (replies, env, p.standard) := hrun
  rw [hbuild]
  exact ⟨hok, hmirrors.text, hmirrors.run_eq, hmirrors.runEntry_eq⟩

/-- The text of a method that calls another one; its types are not in the order of the catalogue. -/
def doubledText : String :=
  "program\x7bentry:%main\nmethod %twice(u8)->u8\x7bstart:r0=ld_param 0 r1=add r0,r0 ret r1\x7d\n" ++
    "method %main()->i32\x7bfirst:r0=ld_const u8 200 r1=call %twice(r0)ret r1\nrest:\x7d\x7d"

/-- The program that is read from it. -/
def doubled : Program where
  types := [⟨false, 8⟩, ⟨true, 32⟩]
  methods :=
    [{ name := "twice", returnType := ⟨0⟩, params := [⟨0⟩]
       blocks := [{ name := "start", instrs := [.loadParam 0 0, .add 1 0 0, .ret (some 1)] }] },
     { name := "main", returnType := ⟨1⟩, params := []
       blocks := [{ name := "first", instrs := [.loadConst 0 ⟨0⟩ (.int 200), .call 1 ⟨0⟩ [0], .ret (some 1)] },
         { name := "rest" }] }]
  entry := some ⟨1⟩

/-- A script for it that calls and enters methods by their blocks. -/
def doubledSteps : List Script.Step :=
  [.method "twice" "twice" (.named "u8") [.named "u8"], .method "main" "main" (.named "i32") [],
    .block "body" "twice" "start", .emit "body" (.ldParam 0 0), .emit "body" (.add 1 0 0), .emit "body" (.ret (some 1)),
    .block "first" "main" "first", .emit "first" (.ldConst 0 (.named "u8") (.int 200)),
    .emit "first" (.call 1 (.block "body") [0]), .emit "first" (.ret (some 1)), .block "rest" "main" "rest",
    .setMain (.block "rest")]

theorem writes_doubledSteps : Script.Writes doubled doubledSteps := by
  have hu8 : Script.NamesType doubled (.named "u8") ⟨0⟩ := by
    rw [show "u8" = Scalar.name ⟨false, 8⟩ by decide +kernel]
    exact .named rfl
  have hi32 : Script.NamesType doubled (.named "i32") ⟨1⟩ := by
    rw [show "i32" = Scalar.name ⟨true, 32⟩ by decide +kernel]
    exact .named rfl
  have hcallee : Script.NamesTarget doubled [("first", ⟨⟨1⟩, ⟨0⟩⟩), ("body", ⟨⟨0⟩, ⟨0⟩⟩)] (.block "body") ⟨0⟩ :=
    .block (s := ⟨⟨0⟩, ⟨0⟩⟩) rfl
  have hentry : Script.NamesTarget doubled [("rest", ⟨⟨1⟩, ⟨1⟩⟩), ("first", ⟨⟨1⟩, ⟨0⟩⟩), ("body", ⟨⟨0⟩, ⟨0⟩⟩)]
      (.block "rest") ⟨1⟩ :=
    .block (s := ⟨⟨1⟩, ⟨1⟩⟩) rfl
  exact .mk (.cons (.method hu8 (.cons hu8 .nil)) (.cons (.method hi32 .nil) .nil))
    (.cons (.cons "body" (.cons (.ldParam 0 0) (.cons (.add 1 0 0) (.cons (.ret (some 1)) .nil))) (.nil _ _))
      (.cons (.cons "first" (.cons (.ldConst 0 _ hu8) (.cons (.call 1 _ hcallee) (.cons (.ret (some 1)) .nil)))
        (.cons "rest" .nil (.nil _ _))) (.nil _ _)))
    (.some hentry)

/-- The program that the script builds has the text and the result of the one that was read. -/
theorem build_of_parse_doubled :
    (Program.parse doubledText = .ok doubled ∧ Script.Writes doubled doubledSteps) ∧
      (∀ r ∈ (Script.build ({} : Program) doubledSteps).1, r.succeeds = true) ∧
      (Script.build ({} : Program) doubledSteps).2.2.text = doubled.text ∧
      (Script.build ({} : Program) doubledSteps).2.2.runEntry [] 1 = .ok (some 144) := by
  have hparse : Program.parse doubledText = .ok doubled := eq_ok_of_toOption (by decide +kernel)
  have htypes : ∀ s ∈ doubled.types, s ∈ Catalogue.scalars := by decide
  have hblocks : ∀ d ∈ doubled.methods, d.blocks.length < UInt32.size := by decide +kernel
  obtain ⟨-, hbuild⟩ := build_of_parse doubledText doubled hparse htypes (by decide +kernel) hblocks
  obtain ⟨hok, htext, -, hentry⟩ := hbuild doubledSteps writes_doubledSteps
  refine ⟨⟨hparse, writes_doubledSteps⟩, hok, htext, ?_⟩
  rw [hentry]
  rfl

end Program

end Straightline
