import Straightline.Interpreter
import Straightline.Proofs.WellFormed

/-!
# Runs of well-formed programs

The checks of the building calls are enough for a run: in a well-formed program every method that is called exists, gets as many
arguments as it takes and loads only parameters that it has, at every depth of nested calls. What can still go wrong is left to
the run (`Fault.Unchecked`). How a call ends is put together from its first block (`Program.call_ends_of_block`), and how a block
ends from what its instructions ask for (`Program.exec_ends_of_steps`). Main statement: `Program.run_built_ends`.
-/

namespace Straightline

/-- A fault that no building call looks out for: a method without blocks, a register that is read before it is written, a block
without a return, or calls nested too deeply. -/
def Fault.Unchecked : Fault → Prop
  | .noEntry => False
  | .unknownMethod _ => False
  | .emptyMethod _ => True
  | .argumentCount .. => False
  | .undefinedRegister .. => True
  | .missingReturn _ => True
  | .depthExceeded _ => True

/-- Reading a register yields its word, or the register has not been written. -/
theorem Activation.read_ends (f : Activation) {Q : Fault → Prop} (hQ : ∀ r, Q (.undefinedRegister f.method.name r))
    (regs : Registers) (r : Register) : Ends (fun _ => True) Q (f.read regs r) := by
  unfold Activation.read
  cases regs.get? r with
  | some v => exact trivial
  | none => exact hQ r

namespace Program

/-- A parameter of the method has an argument if the method was given as many arguments as it takes. -/
theorem argument_ends (p : Program) {f : Activation} (hf : f.args.length = f.method.params.length) {i : UInt32}
    (hi : i.toNat < f.method.params.length) : Ends (fun _ => True) Fault.Unchecked (p.argument f i) := by
  have hargs : i.toNat < f.args.length := by omega
  unfold argument
  rw [List.getElem?_eq_getElem hargs, List.getElem?_eq_getElem hi]
  exact trivial

/-- What an instruction asks for from outside its registers, an argument or a call, ends with a fault of `Q` if it fails. -/
def StepEnds (p : Program) (call : MethodRef → List Int64 → RunResult) (f : Activation) (Q : Fault → Prop) : Instr → Prop
  | .loadParam _ i => Ends (fun _ => True) Q (p.argument f i)
  | .call _ m args => ∀ values, values.length = args.length → Ends (fun _ => True) Q (call m values)
  | _ => True

/-- Instructions end with a result of `P` or a fault of `Q`, where `P` holds of the results of a return, `Q` holds of the faults
of registers and of a missing return, and what each instruction asks for ends so. -/
theorem exec_ends_of_steps {p : Program} {call : MethodRef → List Int64 → RunResult} {f : Activation} {P : Option Int64 → Prop}
    {Q : Fault → Prop} (hnone : P none) (hsome : ∀ v, P (some (p.wrap f.method.returnType v)))
    (hread : ∀ r, Q (.undefinedRegister f.method.name r)) (hreturn : Q (.missingReturn f.method.name)) {instrs : List Instr}
    (hsteps : ∀ i ∈ instrs, p.StepEnds call f Q i) (regs : Registers) : Ends P Q (p.exec call f regs instrs) := by
  have hregs := f.read_ends hread
  induction instrs generalizing regs with
  | nil => exact hreturn
  | cons i rest ih =>
    obtain ⟨hi, hsteps⟩ := List.forall_mem_cons.1 hsteps
    have hrest := ih hsteps
    cases i with
    | add r a b =>
      rw [exec]
      exact (hregs regs a).bind fun x _ => (hregs regs b).bind fun y _ => hrest _
    | loadParam r i =>
      rw [exec]
      exact hi.bind fun v _ => hrest _
    | loadConst r t c =>
      rw [exec]
      exact hrest _
    | call r m args =>
      rw [exec]
      refine (Ends.mapM fun a _ => hregs regs a).bind fun values hvalues => ?_
      refine (hi values hvalues).bind fun v _ => ?_
      cases v with
      | some v => exact hrest _
      | none => exact hrest _
    | ret v =>
      cases v with
      | none => exact hnone
      | some r =>
        rw [exec]
        exact (hregs regs r).bind fun v _ => hsome v

/-- A call of a method that exists ends as its first block does, unless it has no block or was given another number of arguments
than it takes. -/
theorem call_ends_of_block {p : Program} {m : MethodRef} {d : Method} (hm : p.method? m = some d) {args : List Int64}
    {P : Option Int64 → Prop} {Q : Fault → Prop} {limit nested : Nat}
    (hcount : args.length ≠ d.params.length → Q (.argumentCount d.name d.params.length args.length))
    (hempty : d.entryBlock? = none → Q (.emptyMethod d.name))
    (hblock : ∀ b, d.entryBlock? = some b → args.length = d.params.length →
      Ends P Q (p.exec (p.call limit nested) ⟨d, args⟩ [] b.instrs)) :
    Ends P Q (p.call limit (nested + 1) m args) := by
  rw [call, hm]
  simp only
  split
  · next hne => exact hcount hne
  · next hargs =>
    cases hb : d.entryBlock? with
    | none => exact hempty hb
    | some b => exact hblock b hb (not_not.1 hargs)

/-- Instructions that are meaningful in the running method end well if the calls they make do. -/
theorem exec_ends (p : Program) {call : MethodRef → List Int64 → RunResult}
    (hcall : ∀ m d args, p.method? m = some d → args.length = d.params.length →
      Ends (fun _ => True) Fault.Unchecked (call m args))
    {f : Activation} (hf : f.args.length = f.method.params.length) (instrs : List Instr)
    (hinstrs : ∀ i ∈ instrs, p.Allows f.method i) (regs : Registers) :
    Ends (fun _ => True) Fault.Unchecked (p.exec call f regs instrs) := by
  refine exec_ends_of_steps trivial (fun _ => trivial) (fun _ => trivial) trivial (fun i hi => ?_) regs
  have hallows := hinstrs i hi
  cases i with
  | loadParam r i => exact p.argument_ends hf hallows
  | call r m args =>
    obtain ⟨callee, hm, hargs⟩ := hallows
    intro values hvalues
    exact hcall m callee values hm (by rw [hvalues, hargs])
  | _ => exact trivial

/-- A call of a method that exists, with as many arguments as it takes, ends well in a well-formed program, however many calls may
still be nested. -/
theorem WellFormed.call_ends {p : Program} (h : p.WellFormed) (limit nested : Nat) {m : MethodRef} {d : Method}
    {args : List Int64} (hm : p.method? m = some d) (hargs : args.length = d.params.length) :
    Ends (fun _ => True) Fault.Unchecked (p.call limit nested m args) := by
  induction nested generalizing m d args with
  | zero => exact trivial
  | succ nested ih =>
    refine call_ends_of_block hm (fun hne => absurd hargs hne) (fun _ => trivial) fun b hb _ => ?_
    have hmem : b ∈ d.blocks := List.mem_of_mem_head? hb
    exact exec_ends p (fun _ _ _ hm' hargs' => ih hm' hargs') hargs b.instrs ((h.method hm).instrs b hmem) []

/-- An accepted entry is set. -/
theorem Accepted.entry_setEntry {p q : Program} {m : MethodRef} {a : Answer} (h : Accepted p (.setEntry m) a q) :
    q.entry = some m := by
  cases h with
  | setEntry hm he => rfl

/-- An entry that was accepted is the entry of every program built from there on. -/
theorem entry_after_setEntry {p : Program} {m : MethodRef} {a : Answer} (h : p.reply (.setEntry m) = .ok a) (cs : List Call) :
    (p.after (.setEntry m :: cs)).entry = some m := by
  have hset : (p.next (.setEntry m)).entry = some m := (accepted_iff.2 ⟨h, rfl⟩).entry_setEntry
  exact (extends_after (p.next (.setEntry m)) cs).entry m hset

/-- A call of a method that exists ends well in a well-formed program, or it was given another number of arguments than the method
takes. -/
theorem WellFormed.call_ends_of_method {p : Program} (h : p.WellFormed) (limit nested : Nat) {m : MethodRef} {d : Method}
    (hm : p.method? m = some d) (args : List Int64) :
    Ends (fun _ => True)
      (fun e => e.Unchecked ∨ args.length ≠ d.params.length ∧ e = .argumentCount d.name d.params.length args.length)
      (p.call limit nested m args) := by
  by_cases hargs : args.length = d.params.length
  · exact (h.call_ends limit nested hm hargs).imp (fun _ hv => hv) fun _ he => Or.inl he
  · cases nested with
    | zero => exact Or.inl trivial
    | succ nested =>
      rw [call, hm]
      simp only [ne_eq, hargs, not_false_eq_true, if_true]
      exact Or.inr ⟨trivial, rfl⟩

/-- In a program that calls have built, a run of a method that exists, with as many arguments as it takes, comes to a result or to
a fault that no building call looks out for, and so does every call below it, at whatever depth. Once an entry was accepted, it
stays and is a method, and a run of it with any arguments can besides only have been given the wrong number of them. -/
theorem run_built_ends (cs : List Call) (limit : Nat) :
    (∀ (m : MethodRef) (d : Method) (args : List Int64), (built cs).method? m = some d → args.length = d.params.length →
      Ends (fun _ => True) Fault.Unchecked ((built cs).run m args limit) ∧
        ∀ nested, Ends (fun _ => True) Fault.Unchecked ((built cs).call limit nested m args)) ∧
    (∀ (before after : List Call) (m : MethodRef) (a : Answer), cs = before ++ .setEntry m :: after →
      (built before).reply (.setEntry m) = .ok a → ∃ d, (built cs).entry = some m ∧ (built cs).method? m = some d ∧
        ∀ args : List Int64, Ends (fun _ => True)
          (fun e => e.Unchecked ∨ args.length ≠ d.params.length ∧ e = .argumentCount d.name d.params.length args.length)
          ((built cs).runEntry args limit)) := by
  have hwf : (built cs).WellFormed := wellFormed_empty.after cs
  refine ⟨fun m d args hm hargs => ?_, ?_⟩
  · exact ⟨hwf.call_ends limit (limit + 1) hm hargs, fun nested => hwf.call_ends limit nested hm hargs⟩
  · rintro before after m a rfl ha
    have hentry : (built (before ++ .setEntry m :: after)).entry = some m := by
      rw [built, after_append]
      exact entry_after_setEntry ha after
    obtain ⟨d, hm⟩ := hwf.entry m hentry
    refine ⟨d, hentry, hm, fun args => ?_⟩
    rw [runEntry, hentry]
    exact hwf.call_ends_of_method limit (limit + 1) hm args

/-- Two methods that call each other, one of them before it has a block, the other one as the entry. -/
def mutualCalls : List Call :=
  [.resolveType ⟨true, 32⟩, .declareMethod "even" ⟨0⟩ [⟨0⟩], .declareMethod "odd" ⟨0⟩ [⟨0⟩], .declareBlock ⟨0⟩ "start",
    .emit ⟨0⟩ ⟨0⟩ "ld_param" [.register 0, .index 0], .emit ⟨0⟩ ⟨0⟩ "call" [.register 1, .method ⟨1⟩, .registers [0]],
    .emit ⟨0⟩ ⟨0⟩ "ret" [.register 1], .declareBlock ⟨1⟩ "start", .emit ⟨1⟩ ⟨0⟩ "ld_param" [.register 7, .index 0],
    .emit ⟨1⟩ ⟨0⟩ "call" [.register 3, .method ⟨0⟩, .registers [7]], .setEntry ⟨0⟩]

/-- A run of methods that call each other without end comes to the limit, from either of them. A run of the entry without its
argument does not come that far. -/
theorem run_mutualCalls_ends :
    (∃ d, (built mutualCalls).method? ⟨1⟩ = some d ∧ [(5 : Int64)].length = d.params.length) ∧
      Ends (fun _ => True) Fault.Unchecked ((built mutualCalls).run ⟨1⟩ [5] 20) ∧
      (built mutualCalls).run ⟨1⟩ [5] 20 = .error (.depthExceeded 20) ∧
      ∃ d, (built mutualCalls).entry = some ⟨0⟩ ∧ (built mutualCalls).method? ⟨0⟩ = some d ∧
        Ends (fun _ => True) (fun e => e.Unchecked ∨ 0 ≠ d.params.length ∧ e = .argumentCount d.name d.params.length 0)
          ((built mutualCalls).runEntry [] 20) ∧
        (built mutualCalls).runEntry [5] 20 = .error (.depthExceeded 20) ∧
        (built mutualCalls).runEntry [] 20 = .error (.argumentCount "even" 1 0) := by
  have hm : ∃ d, (built mutualCalls).method? ⟨1⟩ = some d ∧ [(5 : Int64)].length = d.params.length := by
    refine ⟨_, rfl, ?_⟩
    decide +kernel
  refine ⟨hm, ?_, rfl, ?_⟩
  · obtain ⟨d, hd, hargs⟩ := hm
    exact ((run_built_ends mutualCalls 20).1 ⟨1⟩ d [5] hd hargs).1
  · obtain ⟨d, hentry, hd, hruns⟩ := (run_built_ends mutualCalls 20).2 (mutualCalls.take 10) [] ⟨0⟩ .done rfl rfl
    exact ⟨d, hentry, hd, hruns [], rfl, rfl⟩

end Program

end Straightline
