import Straightline.Proofs.Ends

/-!
# What a building call does

A program that accepts a call meets the call's conditions and passes into one other program (`Program.Accepted`). A call makes all
its checks before it writes (`Program.atomic_perform`), so a program that refuses it stays as it is. Hence whatever every accepted
call keeps is kept by every run of calls (`Program.after_induction`), and `Program.built` names the programs that calls build from
nothing.
-/

namespace Straightline

namespace Program

/-! ## Runs of calls -/

/-- What a program answers to a call. -/
def reply (p : Program) (c : Call) : Except BuildError Answer := ((Backend.perform c).run.run p).1

/-- The program after a call, accepted or refused. -/
def next (p : Program) (c : Call) : Program := ((Backend.perform c).run.run p).2

/-- The program after some calls, accepted or refused. -/
def after (p : Program) (cs : List Call) : Program := (Backend.performAll p cs).2

/-- The program that some calls build from nothing. -/
def built (cs : List Call) : Program := ({} : Program).after cs

@[simp] theorem after_cons (p : Program) (c : Call) (cs : List Call) : p.after (c :: cs) = (p.next c).after cs := rfl

/-- A run of calls may be cut anywhere. -/
theorem after_append (p : Program) (cs ds : List Call) : p.after (cs ++ ds) = (p.after cs).after ds := by
  induction cs generalizing p with
  | nil => rfl
  | cons c cs ih =>
    rw [List.cons_append, after_cons, after_cons]
    exact ih (p.next c)

/-! ## Conditions -/

/-- An instruction is meaningful in a method of a program: a parameter it loads exists, a constant it loads has a type that admits
it, and a method it calls exists and takes as many arguments as it is given. -/
def Allows (p : Program) (method : Method) : Instr → Prop
  | .add .. => True
  | .loadParam _ i => i.toNat < method.params.length
  | .loadConst _ t c => ∃ scalar, p.type? t = some scalar ∧ scalar.Admits c
  | .call _ m args => ∃ callee, p.method? m = some callee ∧ args.length = callee.params.length
  | .ret _ => True

/-- A name may be declared exactly if it is an identifier. -/
theorem checkName_eq_ok_iff {name : String} : checkName name = .ok () ↔ isIdentifier name.toList = true := ensure_eq_ok_iff

/-- A type reference passes exactly if it leads to a type. -/
theorem checkType_eq_ok_iff {p : Program} {t : TypeRef} : p.checkType t = .ok () ↔ ∃ s, p.type? t = some s := by
  rw [checkType, ensure_eq_ok_iff, Option.isSome_iff_exists]

/-- A method is found exactly if it exists. -/
theorem getMethod_eq_ok_iff {p : Program} {m : MethodRef} {d : Method} : p.getMethod m = .ok d ↔ p.method? m = some d := by
  unfold getMethod
  cases p.method? m with
  | some d' => exact ⟨fun h => congrArg some (Except.ok.inj h), fun h => congrArg Except.ok (Option.some.inj h)⟩
  | none => exact ⟨fun h => (nomatch h), fun h => (nomatch h)⟩

/-- No method is found under a name that no method has. -/
theorem methodRef?_eq_none_iff {p : Program} {name : String} :
    p.methodRef? name = none ↔ name ∉ p.methods.map (·.name) := by
  simp only [methodRef?, Option.map_eq_none_iff, List.findIdx?_eq_none_iff, beq_eq_false_iff_ne, List.mem_map, not_exists,
    not_and]

/-- No block is found under a name that no block has. -/
theorem blockRef?_eq_none_iff {d : Method} {name : String} : d.blockRef? name = none ↔ name ∉ d.blocks.map (·.name) := by
  simp only [Method.blockRef?, Option.map_eq_none_iff, List.findIdx?_eq_none_iff, beq_eq_false_iff_ne, List.mem_map, not_exists,
    not_and]

/-- An instruction passes exactly if it is meaningful. -/
theorem checkInstr_eq_ok_iff {p : Program} {method : Method} {i : Instr} :
    p.checkInstr method i = .ok () ↔ p.Allows method i := by
  cases i with
  | add r a b => exact ⟨fun _ => trivial, fun _ => rfl⟩
  | loadParam r i => exact ensure_eq_ok_iff
  | loadConst r t c =>
    simp only [checkInstr, Allows]
    cases p.type? t with
    | none =>
      refine ⟨fun h => (by cases h), ?_⟩
      rintro ⟨s, h, -⟩
      cases h
    | some s =>
      refine ensure_eq_ok_iff.trans ⟨fun h => ⟨s, rfl, h⟩, ?_⟩
      rintro ⟨s', hs, h⟩
      cases hs
      exact h
  | call r m args =>
    simp only [checkInstr, Allows, bind_eq_ok_iff, getMethod_eq_ok_iff, ensure_eq_ok_iff]
  | ret v => exact ⟨fun _ => trivial, fun _ => rfl⟩

/-- A method may be the entry exactly if no other one is. -/
theorem checkEntry_eq_ok_iff {p : Program} {m : MethodRef} {requested : Method} :
    p.checkEntry m requested = .ok () ↔ p.entry = none ∨ p.entry = some m := by
  unfold checkEntry
  cases p.entry with
  | none => simp
  | some current => simp [ensure_eq_ok_iff]

/-! ## Effects -/

/-- A type that is entered into the table is in it already, or is added at its end. -/
theorem intern_cases (p : Program) (t : Scalar) :
    (∃ j, p.types[j]? = some t ∧ p.intern t = (.ofIndex j, p)) ∨
      (t ∉ p.types ∧ p.intern t = (.ofIndex p.types.length, { p with types := p.types ++ [t] })) := by
  unfold intern
  cases h : p.types.idxOf? t with
  | some j =>
    obtain ⟨hj, hget, -⟩ := List.idxOf?_eq_some_iff.1 h
    exact Or.inl ⟨j, List.getElem?_eq_some_iff.2 ⟨hj, hget⟩, rfl⟩
  | none => exact Or.inr ⟨List.idxOf?_eq_none_iff.1 h, rfl⟩

/-- The program with one method changed. -/
def edit (p : Program) (m : MethodRef) (f : Method → Method) : Program :=
  { p with methods := p.methods.modify m.index f }

/-- Setting a method that exists to what a function makes of it is a change by that function. -/
theorem setMethod_eq_edit {p : Program} {m : MethodRef} {d : Method} (f : Method → Method) (h : p.method? m = some d) :
    p.setMethod m (f d) = p.edit m f := by
  have hl : p.methods.set m.index (f d) = p.methods.modify m.index f := by
    apply List.ext_getElem?
    intro j
    rw [List.getElem?_set, List.getElem?_modify]
    by_cases hj : m.index = j
    · subst hj
      have hm : p.methods[m.index]? = some d := h
      obtain ⟨hlt, hd⟩ := List.getElem?_eq_some_iff.1 hm
      simp [hlt, hd]
    · simp [hj]
  rw [setMethod, edit, hl]

/-- Declaring a method, check by check. -/
theorem declareMethod_eq (p : Program) (name : String) (returnType : TypeRef) (params : List TypeRef) :
    p.declareMethod name returnType params = do
      checkName name
      ensure ((p.methodRef? name).isNone) (.duplicateMethod name)
      p.checkTypes (returnType :: params)
      return p.addMethod { name, returnType, params } := by
  simp only [declareMethod, Backend.declareMethod, BuildM.outcome_check_bind, BuildM.outcome_get_bind]
  rfl

/-- Declaring a block, check by check. -/
theorem declareBlock_eq (p : Program) (m : MethodRef) (name : String) :
    p.declareBlock m name = do
      checkName name
      let method ← p.getMethod m
      ensure ((method.blockRef? name).isNone) (.duplicateBlock method.name name)
      return ((method.addBlock name).1, p.setMethod m (method.addBlock name).2) := by
  simp only [declareBlock, Backend.declareBlock, BuildM.outcome_check_bind, BuildM.outcome_get_bind]
  rfl

/-- Adding an instruction, check by check. -/
theorem emit_eq (p : Program) (m : MethodRef) (b : BlockRef) (mnemonic : String) (operands : List Operand) :
    p.emit m b mnemonic operands = do
      let method ← p.getMethod m
      ensure ((method.block? b).isSome) (.unknownBlock method.name b)
      let i ← (Instr.decode mnemonic operands).mapError .decode
      p.checkInstr method i
      return p.push m b i := by
  simp only [emit, Backend.emit, BuildM.outcome_check_bind, BuildM.outcome_get_bind, map_bind]
  rfl

/-- Setting the entry, check by check. -/
theorem setEntry_eq (p : Program) (m : MethodRef) :
    p.setEntry m = do
      let method ← p.getMethod m
      p.checkEntry m method
      return { p with entry := some m } := by
  simp only [setEntry, Backend.setEntry, BuildM.outcome_check_bind, BuildM.outcome_get_bind, map_bind]
  rfl

/-- A method is declared exactly under a new identifier and with known types, and then stands at the end. -/
theorem declareMethod_eq_ok_iff {p : Program} {name : String} {returnType : TypeRef} {params : List TypeRef}
    {r : MethodRef × Program} :
    p.declareMethod name returnType params = .ok r ↔
      isIdentifier name.toList = true ∧ name ∉ p.methods.map (·.name) ∧
        (∀ t ∈ returnType :: params, ∃ s, p.type? t = some s) ∧ p.addMethod { name, returnType, params } = r := by
  rw [declareMethod_eq, check_bind_eq_ok_iff, checkName_eq_ok_iff, check_bind_eq_ok_iff, ensure_eq_ok_iff, check_bind_eq_ok_iff,
    checkTypes, forM_eq_ok_iff, Option.isNone_iff_eq_none, methodRef?_eq_none_iff]
  simp only [checkType_eq_ok_iff, pure, Except.pure, Except.ok.injEq]

/-- A block is declared exactly in a method that exists and under a new identifier, and then stands at the end. -/
theorem declareBlock_eq_ok_iff {p : Program} {m : MethodRef} {name : String} {r : BlockRef × Program} :
    p.declareBlock m name = .ok r ↔
      isIdentifier name.toList = true ∧ ∃ method, p.method? m = some method ∧ name ∉ method.blocks.map (·.name) ∧
        (.ofIndex method.blocks.length, p.edit m fun d => (d.addBlock name).2) = r := by
  rw [declareBlock_eq, check_bind_eq_ok_iff, checkName_eq_ok_iff, bind_eq_ok_iff]
  refine and_congr_right fun _ => exists_congr fun method => ?_
  rw [getMethod_eq_ok_iff, check_bind_eq_ok_iff, ensure_eq_ok_iff, Option.isNone_iff_eq_none, blockRef?_eq_none_iff]
  refine and_congr_right fun hm => and_congr_right fun _ => ?_
  rw [setMethod_eq_edit (fun d => (d.addBlock name).2) hm]
  exact ⟨Except.ok.inj, congrArg Except.ok⟩

/-- An instruction is added exactly to a block that exists, if it can be decoded and is meaningful. -/
theorem emit_eq_ok_iff {p q : Program} {m : MethodRef} {b : BlockRef} {mnemonic : String} {operands : List Operand} :
    p.emit m b mnemonic operands = .ok q ↔
      ∃ method, p.method? m = some method ∧ (∃ block, method.block? b = some block) ∧
        ∃ i, Instr.decode mnemonic operands = .ok i ∧ p.Allows method i ∧ p.push m b i = q := by
  rw [emit_eq, bind_eq_ok_iff]
  refine exists_congr fun method => ?_
  rw [getMethod_eq_ok_iff, check_bind_eq_ok_iff, ensure_eq_ok_iff, Option.isSome_iff_exists, bind_eq_ok_iff]
  refine and_congr_right fun _ => and_congr_right fun _ => exists_congr fun i => ?_
  rw [mapError_eq_ok_iff, check_bind_eq_ok_iff, checkInstr_eq_ok_iff]
  refine and_congr_right fun _ => and_congr_right fun _ => ?_
  exact ⟨Except.ok.inj, congrArg Except.ok⟩

/-- The entry is set exactly to a method that exists, where no other one is the entry. -/
theorem setEntry_eq_ok_iff {p q : Program} {m : MethodRef} :
    p.setEntry m = .ok q ↔
      ∃ method, p.method? m = some method ∧ (p.entry = none ∨ p.entry = some m) ∧ { p with entry := some m } = q := by
  rw [setEntry_eq, bind_eq_ok_iff]
  refine exists_congr fun method => ?_
  rw [getMethod_eq_ok_iff, check_bind_eq_ok_iff, checkEntry_eq_ok_iff]
  refine and_congr_right fun _ => and_congr_right fun _ => ?_
  exact ⟨Except.ok.inj, congrArg Except.ok⟩

/-! ## Accepted and refused calls -/

/-- A program accepts a call, answers it and passes into another program. -/
inductive Accepted (p : Program) : Call → Answer → Program → Prop where
  | resolveType (t : Scalar) : Accepted p (.resolveType t) (.type (p.intern t).1) (p.intern t).2
  | declareMethod {name : String} {returnType : TypeRef} {params : List TypeRef} (hname : isIdentifier name.toList = true)
      (hnew : name ∉ p.methods.map (·.name)) (htypes : ∀ t ∈ returnType :: params, ∃ s, p.type? t = some s) :
      Accepted p (.declareMethod name returnType params) (.method (.ofIndex p.methods.length))
        { p with methods := p.methods ++ [{ name, returnType, params }] }
  | declareBlock {m : MethodRef} {name : String} {method : Method} (hname : isIdentifier name.toList = true)
      (hm : p.method? m = some method) (hnew : name ∉ method.blocks.map (·.name)) :
      Accepted p (.declareBlock m name) (.block (.ofIndex method.blocks.length)) (p.edit m fun d => (d.addBlock name).2)
  | emit {m : MethodRef} {b : BlockRef} {mnemonic : String} {operands : List Operand} {method : Method} {block : Block}
      {i : Instr} (hm : p.method? m = some method) (hb : method.block? b = some block)
      (hi : Instr.decode mnemonic operands = .ok i) (hok : p.Allows method i) :
      Accepted p (.emit m b mnemonic operands) .done (p.edit m fun d => d.push b i)
  | setEntry {m : MethodRef} {method : Method} (hm : p.method? m = some method) (he : p.entry = none ∨ p.entry = some m) :
      Accepted p (.setEntry m) .done { p with entry := some m }

/-- A call that is answered with nothing but that it is done is accepted exactly if it has an outcome. -/
theorem run_done_eq_ok_iff {x : BuildM Program BuildError Unit} {p q : Program} {a : Answer} :
    ((fun _ => .done) <$> x : BuildM Program BuildError Answer).run.run p = (.ok a, q) ↔
      Prod.snd <$> x.outcome p = .ok q ∧ .done = a := by
  rw [BuildM.run_map_eq_ok_iff, map_eq_ok_iff]
  constructor
  · rintro ⟨b, hb, ha⟩
    exact ⟨⟨(b, q), hb, rfl⟩, ha⟩
  · rintro ⟨⟨⟨b, _⟩, hb, rfl⟩, ha⟩
    exact ⟨b, hb, ha⟩

/-- What a program accepts is what it does not refuse. -/
theorem accepted_iff {p q : Program} {c : Call} {a : Answer} : Accepted p c a q ↔ p.reply c = .ok a ∧ p.next c = q := by
  have hpair : p.reply c = .ok a ∧ p.next c = q ↔ (Backend.perform c).run.run p = (.ok a, q) := by
    rw [Prod.ext_iff]
    rfl
  rw [hpair]
  cases c with
  | resolveType t =>
    rw [show (Backend.perform (.resolveType t)).run.run p = (.ok (.type (p.intern t).1), (p.intern t).2) from rfl, Prod.mk.injEq]
    refine ⟨?_, ?_⟩
    · rintro ⟨⟩
      exact ⟨rfl, rfl⟩
    · rintro ⟨ha, rfl⟩
      cases ha
      exact .resolveType t
  | declareMethod name returnType params =>
    refine Iff.trans ?_ BuildM.run_map_eq_ok_iff.symm
    refine ⟨?_, ?_⟩
    · intro h
      cases h with
      | declareMethod hname hnew htypes => exact ⟨_, declareMethod_eq_ok_iff.2 ⟨hname, hnew, htypes, rfl⟩, rfl⟩
    · rintro ⟨x, h, rfl⟩
      obtain ⟨hname, hnew, htypes, hr⟩ := declareMethod_eq_ok_iff.1 h
      cases hr
      exact .declareMethod hname hnew htypes
  | declareBlock m name =>
    refine Iff.trans ?_ BuildM.run_map_eq_ok_iff.symm
    refine ⟨?_, ?_⟩
    · intro h
      cases h with
      | declareBlock hname hm hnew => exact ⟨_, declareBlock_eq_ok_iff.2 ⟨hname, _, hm, hnew, rfl⟩, rfl⟩
    · rintro ⟨x, h, rfl⟩
      obtain ⟨hname, method, hm, hnew, hr⟩ := declareBlock_eq_ok_iff.1 h
      cases hr
      exact .declareBlock hname hm hnew
  | emit m b mnemonic operands =>
    refine Iff.trans ?_ run_done_eq_ok_iff.symm
    refine ⟨?_, ?_⟩
    · intro h
      cases h with
      | emit hm hb hi hok => exact ⟨emit_eq_ok_iff.2 ⟨_, hm, ⟨_, hb⟩, _, hi, hok, rfl⟩, rfl⟩
    · rintro ⟨h, rfl⟩
      obtain ⟨method, hm, ⟨block, hb⟩, i, hi, hok, rfl⟩ := emit_eq_ok_iff.1 h
      exact .emit hm hb hi hok
  | setEntry m =>
    refine Iff.trans ?_ run_done_eq_ok_iff.symm
    refine ⟨?_, ?_⟩
    · intro h
      cases h with
      | setEntry hm he => exact ⟨setEntry_eq_ok_iff.2 ⟨_, hm, he, rfl⟩, rfl⟩
    · rintro ⟨h, rfl⟩
      obtain ⟨method, hm, he, rfl⟩ := setEntry_eq_ok_iff.1 h
      exact .setEntry hm he

/-- No refusal of a call has changed the program, since a call makes all its checks before its one write. -/
theorem atomic_perform (c : Call) : BuildM.Atomic (Backend.perform c : BuildM Program BuildError Answer) := by
  cases c with
  | resolveType t =>
    intro p e h
    cases h
  | declareMethod name returnType params =>
    exact .map (.check_bind fun _ => .get_bind fun p => .check_bind fun _ => .check_bind fun _ => .write _) _
  | declareBlock m name =>
    exact .map (.check_bind fun _ => .get_bind fun p => .check_bind fun method => .check_bind fun _ => .write _) _
  | emit m b mnemonic operands =>
    refine .map (.get_bind fun p => .check_bind fun method => .check_bind fun _ => ?_) _
    exact .check_bind fun i => .check_bind fun _ => .write _
  | setEntry m => exact .map (.get_bind fun p => .check_bind fun method => .check_bind fun _ => .write _) _

/-- A refused call leaves the program as it is. -/
theorem next_eq_self_of_reply_error {p : Program} {c : Call} {e : BuildError} (h : p.reply c = .error e) : p.next c = p :=
  atomic_perform c p e h

/-- A call is accepted, or it leaves the program as it is. -/
theorem accepted_or_next_eq_self (p : Program) (c : Call) : (∃ a, Accepted p c a (p.next c)) ∨ p.next c = p := by
  cases h : p.reply c with
  | ok a => exact Or.inl ⟨a, accepted_iff.2 ⟨h, rfl⟩⟩
  | error e => exact Or.inr (next_eq_self_of_reply_error h)

/-- What every accepted call keeps, every run of calls keeps. -/
theorem after_induction {I : Program → Prop} (hstep : ∀ p c a q, Accepted p c a q → I p → I q) {p : Program} (h : I p)
    (cs : List Call) : I (p.after cs) := by
  induction cs generalizing p with
  | nil => exact h
  | cons c cs ih =>
    rw [after_cons]
    apply ih
    rcases accepted_or_next_eq_self p c with ⟨a, ha⟩ | hp
    · exact hstep p c a _ ha h
    · rw [hp]
      exact h

end Program

end Straightline
