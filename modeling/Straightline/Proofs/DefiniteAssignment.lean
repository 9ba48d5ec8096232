import Straightline.Proofs.LiveCode
import Straightline.Proofs.Runs

/-!
# Definite assignment

A check of the text of a program that rules faults out: every method has a return in its first block, and every register that a
live instruction reads is the result of an earlier one that is sure to write it (`Program.DefinitelyAssigned`). A call is sure to
write its result only if the method it calls returns a value. Main statement: a program that calls have built and that passes the
check never fails but for the limit of nested calls, and each of its methods has a value or none as its first return says
(`Program.run_built_of_assigned`).
-/

namespace Straightline

namespace Program

/-! ## The check -/

/-- A call of a method has a value: the method returns a register. -/
def returnsValue (p : Program) (m : MethodRef) : Bool :=
  match (p.method? m).bind Method.returned? with
  | some (some _) => true
  | _ => false

/-- An instruction is sure to write its result. -/
def WritesResult (p : Program) : Instr → Prop
  | .add .. => True
  | .loadParam .. => True
  | .loadConst .. => True
  | .call _ m _ => p.returnsValue m = true
  | .ret _ => False

instance (p : Program) : (i : Instr) → Decidable (p.WritesResult i)
  | .add .. => .isTrue trivial
  | .loadParam .. => .isTrue trivial
  | .loadConst .. => .isTrue trivial
  | .call _ m _ => inferInstanceAs (Decidable (p.returnsValue m = true))
  | .ret _ => .isFalse id

/-- Each register that one of the instructions `is` reads is the result of an instruction before it, among those of `is` or among
`before`, that is sure to write it. -/
def Assigned (p : Program) (before is : List Instr) : Prop :=
  ∀ k (_ : k < is.length), ∀ r ∈ is[k].uses, ∃ j ∈ before ++ is.take k, j.result? = some r ∧ p.WritesResult j

-- The registers are those of a list: the instance that would run through all of them must not be found.
instance (p : Program) (before is : List Instr) : Decidable (p.Assigned before is) :=
  @Nat.decidableBallLT is.length (fun k _ => ∀ r ∈ is[k].uses, ∃ j ∈ before ++ is.take k, j.result? = some r ∧ p.WritesResult j)
    fun _ _ => List.decidableBAll _ _

/-- In each method there is a first block with a return in it, and the live instructions read only registers that are sure to have
been written. -/
structure DefinitelyAssigned (p : Program) : Prop where
  returns : ∀ d ∈ p.methods, d.returned?.isSome = true
  assigned : ∀ d ∈ p.methods, p.Assigned [] d.live

instance (p : Program) : Decidable p.DefinitelyAssigned :=
  decidable_of_iff ((∀ d ∈ p.methods, d.returned?.isSome = true) ∧ ∀ d ∈ p.methods, p.Assigned [] d.live)
    ⟨fun h => ⟨h.1, h.2⟩, fun h => ⟨h.returns, h.assigned⟩⟩

variable {p : Program}

/-- What is known of the first instruction, and of the others after it. -/
theorem assigned_cons {before is : List Instr} {i : Instr} (h : p.Assigned before (i :: is)) :
    (∀ r ∈ i.uses, ∃ j ∈ before, j.result? = some r ∧ p.WritesResult j) ∧ p.Assigned (before ++ [i]) is := by
  refine ⟨?_, ?_⟩
  · intro r hr
    simpa using h 0 (Nat.succ_pos _) r hr
  · intro k hk r hr
    simpa using h (k + 1) (Nat.succ_lt_succ hk) r hr

/-! ## Registers that have been written -/

/-- The results of the instructions that are sure to write them have been written. -/
def Written (p : Program) (before : List Instr) (regs : Registers) : Prop :=
  ∀ j ∈ before, p.WritesResult j → ∀ r, j.result? = some r → ∃ v, regs.get? r = some v

namespace Written

variable {before : List Instr} {regs : Registers} {i : Instr} {r : Register}

/-- The result of an instruction is written. -/
theorem set (h : p.Written before regs) (hi : i.result? = some r) (v : Int64) : p.Written (before ++ [i]) (regs.set r v) := by
  intro j hj hw r' hr'
  by_cases hrr : r' = r
  · subst hrr
    exact ⟨v, regs.get?_set_self r' v⟩
  · rw [regs.get?_set_of_ne v hrr]
    rcases List.mem_append.1 hj with hj | hj
    · exact h j hj hw r' hr'
    · rw [List.mem_singleton.1 hj, hi] at hr'
      exact absurd (Option.some.inj hr').symm hrr

/-- An instruction that need not write its result does not. -/
theorem skip (h : p.Written before regs) (hi : ¬p.WritesResult i) : p.Written (before ++ [i]) regs := by
  intro j hj hw r' hr'
  rcases List.mem_append.1 hj with hj | hj
  · exact h j hj hw r' hr'
  · rw [List.mem_singleton.1 hj] at hw
    exact absurd hw hi

/-- A register that is sure to have been written is read. -/
theorem read_ends (h : p.Written before regs) (hr : ∃ j ∈ before, j.result? = some r ∧ p.WritesResult j) (f : Activation)
    {Q : Fault → Prop} : Ends (fun _ => True) Q (f.read regs r) := by
  obtain ⟨j, hj, hjr, hw⟩ := hr
  obtain ⟨v, hv⟩ := h j hj hw r hjr
  simp only [Activation.read, hv]
  trivial

end Written

/-! ## Runs -/

/-- A parameter of the method is loaded if the method was given as many arguments as it takes. -/
theorem exists_argument (p : Program) {f : Activation} (hf : f.args.length = f.method.params.length) {i : UInt32}
    (hi : i.toNat < f.method.params.length) : ∃ v, p.argument f i = .ok v := by
  have hargs : i.toNat < f.args.length := by omega
  simp [argument, hargs, hi]

/-- Meaningful instructions that read only what is sure to have been written end with their first return if the calls they make
end with a value or without one as the methods called say, or the limit is reached. -/
theorem exec_ends_of_assigned {limit : Nat} {call : MethodRef → List Int64 → RunResult}
    (hcall : ∀ m d args, p.method? m = some d → args.length = d.params.length →
      Ends (fun v => v.isSome = p.returnsValue m) (· = .depthExceeded limit) (call m args))
    {f : Activation} (hf : f.args.length = f.method.params.length) {is : List Instr} (his : ∀ i ∈ is, p.Allows f.method i)
    {before : List Instr} (h : p.Assigned before is) {regs : Registers} (hregs : p.Written before regs) {v : Option Register}
    (hv : firstReturn? is = some v) :
    Ends (fun x => x.isSome = v.isSome) (· = .depthExceeded limit) (p.exec call f regs is) := by
  induction is generalizing before regs with
  | nil => nomatch hv
  | cons i is ih =>
    obtain ⟨hi, hallows⟩ := List.forall_mem_cons.1 his
    obtain ⟨huses, hrest⟩ := assigned_cons h
    have hread : ∀ r ∈ i.uses, Ends (fun _ => True) (· = .depthExceeded limit) (f.read regs r) :=
      fun r hr => hregs.read_ends (huses r hr) f
    cases i with
    | add r a b =>
      rw [exec]
      refine (hread a (by simp [Instr.uses])).bind fun x _ => (hread b (by simp [Instr.uses])).bind fun y _ => ?_
      exact ih hallows hrest (hregs.set rfl _) hv
    | loadParam r i =>
      obtain ⟨x, hx⟩ := p.exists_argument hf hi
      rw [exec, hx]
      exact ih hallows hrest (hregs.set rfl x) hv
    | loadConst r t c =>
      rw [exec]
      exact ih hallows hrest (hregs.set rfl _) hv
    | call r m args =>
      obtain ⟨callee, hm, hargs⟩ := hi
      rw [exec]
      refine (Ends.mapM (l := args) hread).bind fun values hvalues => ?_
      refine (hcall m callee values hm (by rw [hvalues, hargs])).bind fun x hx => ?_
      cases x with
      | some x => exact ih hallows hrest (hregs.set rfl x) hv
      | none =>
        have hvoid : ¬p.WritesResult (.call r m args) := by
          simp only [WritesResult, ← hx]
          simp
        exact ih hallows hrest (hregs.skip hvoid) hv
    | ret u =>
      cases hv
      cases v with
      | none => exact rfl
      | some r =>
        rw [exec]
        exact (hread r (by simp [Instr.uses])).bind fun x _ => rfl

/-- A method returns a value exactly if it returns a register. -/
theorem returnsValue_eq {m : MethodRef} {d : Method} {v : Option Register} (hm : p.method? m = some d)
    (hv : d.returned? = some v) : p.returnsValue m = v.isSome := by
  simp only [returnsValue, hm, Option.bind_some, hv]
  cases v <;> rfl

/-- In a well-formed program that passes the check, a call with as many arguments as the method takes ends as the method says, or
at the limit. The induction is on the calls that may still be nested, and within a call on the live instructions. -/
theorem WellFormed.call_ends_of_assigned (hp : p.WellFormed) (h : p.DefinitelyAssigned) (limit nested : Nat) {m : MethodRef}
    {d : Method} {args : List Int64} (hm : p.method? m = some d) (hargs : args.length = d.params.length) :
    Ends (fun v => v.isSome = p.returnsValue m) (· = .depthExceeded limit) (p.call limit nested m args) := by
  induction nested generalizing m d args with
  | zero => exact rfl
  | succ nested ih =>
    have hd : d ∈ p.methods := List.mem_of_getElem? hm
    obtain ⟨v, hv⟩ := Option.isSome_iff_exists.1 (h.returns d hd)
    have hassigned := h.assigned d hd
    rw [returnsValue_eq hm hv]
    unfold Method.returned? at hv
    unfold Method.live at hassigned
    refine call_ends_of_block hm (fun hne => absurd hargs hne) (fun hb => ?_) fun b hb _ => ?_
    · rw [hb] at hv
      cases hv
    · rw [hb] at hv hassigned
      have hallows : ∀ i ∈ upToReturn b.instrs, p.Allows d i := fun i hi =>
        (hp.method hm).instrs b (List.mem_of_mem_head? hb) i (mem_of_mem_upToReturn hi)
      have hwritten : p.Written [] [] := by
        intro j hj
        cases hj
      rw [← exec_upToReturn]
      exact exec_ends_of_assigned (fun _ _ _ hm' hargs' => ih hm' hargs') hargs hallows hassigned hwritten
        ((firstReturn?_upToReturn _).trans hv)

/-- In a program that calls have built and that passes the check, a run of any method with as many arguments as it takes comes to
the limit of nested calls or succeeds, and it yields a value exactly if the first return of the method has one. -/
theorem run_built_of_assigned (cs : List Call) (h : (built cs).DefinitelyAssigned) (m : MethodRef) (d : Method)
    (args : List Int64) (limit : Nat) (hm : (built cs).method? m = some d) (hargs : args.length = d.params.length) :
    (built cs).run m args limit = .error (.depthExceeded limit) ∨
      ∃ v, (built cs).run m args limit = .ok v ∧ (v.isSome = true ↔ ∃ r, d.returned? = some (some r)) := by
  have hwf : (built cs).WellFormed := wellFormed_empty.after cs
  have hends := hwf.call_ends_of_assigned h limit (limit + 1) hm hargs
  obtain ⟨u, hu⟩ := Option.isSome_iff_exists.1 (h.returns d (List.mem_of_getElem? hm))
  rw [returnsValue_eq hm hu] at hends
  cases hrun : (built cs).run m args limit with
  | error e => exact Or.inl (congrArg Except.error (hends.of_error hrun))
  | ok v =>
    refine Or.inr ⟨v, rfl, ?_⟩
    rw [hends.of_ok hrun, hu, Option.isSome_iff_exists]
    simp

/-- A method that calls one without a value and one with a value and has an instruction behind its return that reads what nothing
writes, and a method that calls itself without end. -/
def assignedCalls : List Call :=
  [.resolveType ⟨true, 8⟩, .declareMethod "main" ⟨0⟩ [], .declareMethod "note" ⟨0⟩ [⟨0⟩], .declareMethod "twice" ⟨0⟩ [⟨0⟩],
    .declareMethod "spin" ⟨0⟩ [], .declareBlock ⟨0⟩ "start", .declareBlock ⟨1⟩ "start", .declareBlock ⟨2⟩ "start",
    .declareBlock ⟨3⟩ "start", .emit ⟨0⟩ ⟨0⟩ "ld_const" [.register 0, .type ⟨0⟩, .const (.int 5)],
    .emit ⟨0⟩ ⟨0⟩ "call" [.register 1, .method ⟨1⟩, .registers [0]],
    .emit ⟨0⟩ ⟨0⟩ "call" [.register 1, .method ⟨2⟩, .registers [0]],
    .emit ⟨0⟩ ⟨0⟩ "add" [.register 1, .register 1, .register 0], .emit ⟨0⟩ ⟨0⟩ "ret" [.register 1],
    .emit ⟨0⟩ ⟨0⟩ "add" [.register 9, .register 8, .register 8], .emit ⟨1⟩ ⟨0⟩ "ret" [.absent],
    .emit ⟨2⟩ ⟨0⟩ "ld_param" [.register 0, .index 0], .emit ⟨2⟩ ⟨0⟩ "add" [.register 1, .register 0, .register 0],
    .emit ⟨2⟩ ⟨0⟩ "ret" [.register 1], .emit ⟨3⟩ ⟨0⟩ "call" [.register 0, .method ⟨3⟩, .registers []],
    .emit ⟨3⟩ ⟨0⟩ "ret" [.register 0]]

/-- All of them pass the check: the first one has a value, the second one has none, and the last one comes to the limit. -/
theorem run_assignedCalls :
    (built assignedCalls).DefinitelyAssigned ∧ (built assignedCalls).run ⟨0⟩ [] 1 = .ok (some 15) ∧
      (built assignedCalls).run ⟨1⟩ [7] 0 = .ok none ∧ (built assignedCalls).run ⟨3⟩ [] 7 = .error (.depthExceeded 7) := by
  have h : (built assignedCalls).DefinitelyAssigned := by decide +kernel
  refine ⟨h, ?_, ?_, ?_⟩
  · rcases run_built_of_assigned assignedCalls h ⟨0⟩ _ [] 1 rfl rfl with hlimit | ⟨v, hv, hiff⟩
    · nomatch hlimit
    · obtain ⟨x, rfl⟩ := Option.isSome_iff_exists.1 (hiff.2 ⟨1, rfl⟩)
      cases hv
      rfl
  · rcases run_built_of_assigned assignedCalls h ⟨1⟩ _ [7] 0 rfl rfl with hlimit | ⟨v, hv, hiff⟩
    · nomatch hlimit
    · cases v with
      | none => exact hv
      | some x =>
        obtain ⟨r, hr⟩ := hiff.1 rfl
        nomatch hr
  · rcases run_built_of_assigned assignedCalls h ⟨3⟩ _ [] 7 rfl rfl with hlimit | ⟨v, hv, -⟩
    · exact hlimit
    · nomatch hv

end Program

end Straightline
