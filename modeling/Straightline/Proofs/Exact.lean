import Mathlib.Logic.Function.Basic
import Straightline.Interpreter
import Straightline.Proofs.Reduction
import Straightline.Proofs.WellFormed

/-!
# Exact runs

A run over registers that hold integers of any size: sums are exact, a constant stands for its own number, and an integer is
reduced only where a parameter or a constant is loaded and where a value is returned (`Exact.run`). Main statement: a program that
calls have built comes to the same in an exact run as in a run over 64-bit words (`Program.run_built_exact`), so that nobody can
tell where a word has wrapped around. The registers of the two runs differ after a sum that does not fit; what they keep in common
is that each word is the one its integer is taken to modulo `2 ^ 64` (`Exact.Holds`).
-/

namespace Straightline

/-! ## Running over integers -/

namespace Exact

/-- Registers that hold integers of any size. -/
abbrev Registers := Register → Option Int

/-- What an exact run comes to: a value, no value, or a fault. -/
abbrev Result := Except Fault (Option Int)

/-- An activation of a method: the method and the integers it was called with. -/
structure Activation where
  method : Method
  args : List Int

/-- The integer in a register, which must have been written. -/
def Activation.read (f : Activation) (regs : Registers) (r : Register) : Except Fault Int :=
  match regs r with
  | some x => .ok x
  | none => .error (.undefinedRegister f.method.name r)

/-- An integer reduced to the type of a reference, or as it is if there is no such type. -/
def reduce (p : Program) (t : TypeRef) (x : Int) : Int :=
  match p.type? t with
  | some scalar => scalar.reduce x
  | none => x

/-- The argument at an index, reduced to the type of its parameter. -/
def argument (p : Program) (f : Activation) (i : UInt32) : Except Fault Int :=
  match f.args[i.toNat]?, f.method.params[i.toNat]? with
  | some x, some t => .ok (reduce p t x)
  | _, _ => .error (.argumentCount f.method.name (i.toNat + 1) f.args.length)

/-- Runs instructions up to the first return; `call` is how a method is called from here. -/
def exec (p : Program) (call : MethodRef → List Int → Result) (f : Activation) : Registers → List Instr → Result
  | _, [] => .error (.missingReturn f.method.name)
  | regs, .add r a b :: rest => do
    let x ← f.read regs a
    let y ← f.read regs b
    exec p call f (Function.update regs r (some (x + y))) rest
  | regs, .loadParam r i :: rest => do
    let x ← argument p f i
    exec p call f (Function.update regs r (some x)) rest
  | regs, .loadConst r t c :: rest => exec p call f (Function.update regs r (some (reduce p t c.toInt))) rest
  | regs, .call r m args :: rest => do
    let values ← args.mapM (f.read regs)
    match ← call m values with
    | some x => exec p call f (Function.update regs r (some x)) rest
    | none => exec p call f regs rest
  | _, .ret none :: _ => .ok none
  | regs, .ret (some r) :: _ => do
    let x ← f.read regs r
    return some (reduce p f.method.returnType x)

/-- Calls a method where at most `nested` calls, this one included, may still be nested; `limit` is reported if that is none. -/
def call (p : Program) (limit : Nat) (nested : Nat) (m : MethodRef) (args : List Int) : Result :=
  match nested with
  | 0 => .error (.depthExceeded limit)
  | nested + 1 =>
    match p.method? m with
    | none => .error (.unknownMethod m)
    | some method =>
      if args.length ≠ method.params.length then
        .error (.argumentCount method.name method.params.length args.length)
      else
        match method.entryBlock? with
        | none => .error (.emptyMethod method.name)
        | some block => exec p (call p limit nested) ⟨method, args⟩ (fun _ => none) block.instrs

/-- Runs a method; below it, calls may be nested up to the limit. -/
def run (p : Program) (m : MethodRef) (args : List Int) (limit : Nat) : Result := call p limit (limit + 1) m args

end Exact

/-! ## Results taken over -/

section Results

variable {ε α β γ δ : Type}

/-- A step after a value was taken over is a step on the value. -/
theorem map_bind {x : Except ε α} {g : α → β} {f : β → Except ε γ} : (x.map g >>= f) = (x >>= fun a => f (g a)) := by
  cases x with
  | ok a => rfl
  | error e => rfl

/-- Steps that come to the same after taking over do so after a first step. -/
theorem bind_eq_map {x : Except ε α} {f : α → Except ε γ} {g : α → Except ε β} {h : β → γ} (hfg : ∀ a, f a = (g a).map h) :
    (x >>= f) = (x >>= g).map h := by
  cases x with
  | ok a => exact hfg a
  | error e => rfl

/-- A step on each item of a list comes to the values taken over if it does on each item. -/
theorem mapM_eq_map {f : α → Except ε γ} {g : α → Except ε β} {h : β → γ} (hfg : ∀ a, f a = (g a).map h) (l : List α) :
    l.mapM f = (l.mapM g).map (List.map h) := by
  induction l with
  | nil => rfl
  | cons a l ih =>
    rw [List.mapM_cons, List.mapM_cons, hfg, ih, map_bind]
    refine bind_eq_map fun b => ?_
    rw [map_bind]
    exact bind_eq_map fun bs => rfl

end Results

/-- The word that holds a constant is the one its number is taken to. -/
theorem Constant.toWord_eq_ofInt (c : Constant) : c.toWord = Int64.ofInt c.toInt := by
  cases c with
  | int v => exact v.ofInt_toInt.symm
  | uint v =>
    show v.toInt64 = Int64.ofInt v.toNat
    rw [Int64.ofInt_eq_ofNat, ← UInt64.toInt64_ofNat', UInt64.ofNat_toNat]
  | bool b => cases b <;> rfl

/-! ## Words and integers side by side -/

namespace Exact

variable {p : Program} {d : Method} {regs : Straightline.Registers} {exact : Registers}

/-- Each register of a run holds the word that the integer of the exact run is taken to. -/
def Holds (regs : Straightline.Registers) (exact : Registers) : Prop := ∀ r, regs.get? r = (exact r).map Int64.ofInt

/-- A write of a word, and of an integer that is taken to it. -/
theorem Holds.set (h : Holds regs exact) (r : Register) {v : Int64} {x : Int} (hv : v = Int64.ofInt x) :
    Holds (regs.set r v) (Function.update exact r (some x)) := by
  intro r'
  by_cases hr : r' = r
  · subst hr
    rw [Registers.get?_set_self, Function.update_self, hv]
    rfl
  · rw [Registers.get?_set_of_ne regs v hr, Function.update_of_ne hr]
    exact h r'

/-- A register is read as the word its integer is taken to. -/
theorem Holds.read (h : Holds regs exact) (xs : List Int) (r : Register) :
    Straightline.Activation.read ⟨d, xs.map Int64.ofInt⟩ regs r = (Activation.read ⟨d, xs⟩ exact r).map Int64.ofInt := by
  unfold Straightline.Activation.read Activation.read
  rw [h r]
  cases exact r with
  | none => rfl
  | some x => rfl

/-- The word that an integer is taken to is reduced like the integer, where the type is there. -/
theorem toInt_wrap {t : TypeRef} (ht : ∃ s, p.type? t = some s) (x : Int) : (p.wrap t (Int64.ofInt x)).toInt = reduce p t x := by
  obtain ⟨s, hs⟩ := ht
  rw [Program.wrap, reduce, hs]
  exact s.toInt_wrap_ofInt x

theorem wrap_eq_ofInt {t : TypeRef} (ht : ∃ s, p.type? t = some s) (x : Int) :
    p.wrap t (Int64.ofInt x) = Int64.ofInt (reduce p t x) := by
  rw [← toInt_wrap ht, Int64.ofInt_toInt]

/-- An argument is loaded as the word its integer is taken to. -/
theorem argument_eq (hd : p.MethodWellFormed d) (xs : List Int) (i : UInt32) :
    p.argument ⟨d, xs.map Int64.ofInt⟩ i = (argument p ⟨d, xs⟩ i).map Int64.ofInt := by
  simp only [Program.argument, argument, List.getElem?_map, List.length_map]
  cases xs[i.toNat]? with
  | none => rfl
  | some x =>
    cases ht : d.params[i.toNat]? with
    | none => rfl
    | some t =>
      have hknown := hd.types t (List.mem_cons_of_mem _ (List.mem_of_getElem? ht))
      exact congrArg Except.ok (wrap_eq_ofInt hknown x)

/-- What a run comes to, with its word read as an integer. -/
def toResult (x : RunResult) : Result := x.map (Option.map Int64.toInt)

/-- Meaningful instructions come to the same if the calls they make do. -/
theorem exec_eq (hd : p.MethodWellFormed d) {call : MethodRef → List Int64 → RunResult} {call' : MethodRef → List Int → Result}
    (hcall : ∀ m xs, call' m xs = toResult (call m (xs.map Int64.ofInt))) (xs : List Int) {is : List Instr}
    (his : ∀ i ∈ is, p.Allows d i) (hregs : Holds regs exact) :
    exec p call' ⟨d, xs⟩ exact is = toResult (p.exec call ⟨d, xs.map Int64.ofInt⟩ regs is) := by
  induction is generalizing regs exact with
  | nil => rfl
  | cons i is ih =>
    obtain ⟨hi, his⟩ := List.forall_mem_cons.1 his
    have hrest := fun {regs exact} => @ih regs exact his
    cases i with
    | add r a b =>
      rw [exec, Program.exec, hregs.read, map_bind]
      refine bind_eq_map fun x => ?_
      rw [hregs.read, map_bind]
      refine bind_eq_map fun y => ?_
      exact hrest (hregs.set r (Int64.ofInt_add x y).symm)
    | loadParam r i =>
      rw [exec, Program.exec, argument_eq hd, map_bind]
      exact bind_eq_map fun x => hrest (hregs.set r rfl)
    | loadConst r t c =>
      obtain ⟨s, hs, -⟩ := hi
      rw [exec, Program.exec, c.toWord_eq_ofInt]
      exact hrest (hregs.set r (wrap_eq_ofInt ⟨s, hs⟩ c.toInt))
    | call r m args =>
      rw [exec, Program.exec, mapM_eq_map (hregs.read xs), map_bind]
      refine bind_eq_map fun values => ?_
      rw [hcall, toResult, map_bind]
      refine bind_eq_map fun result => ?_
      cases result with
      | none => exact hrest hregs
      | some v => exact hrest (hregs.set r v.ofInt_toInt.symm)
    | ret v =>
      cases v with
      | none => rfl
      | some r =>
        rw [exec, Program.exec, hregs.read, map_bind]
        refine bind_eq_map fun x => ?_
        rw [← toInt_wrap (hd.types d.returnType List.mem_cons_self)]
        rfl

/-- A call in a well-formed program comes to the same, with the arguments taken to words. -/
theorem call_eq (hp : p.WellFormed) (limit nested : Nat) (m : MethodRef) (xs : List Int) :
    call p limit nested m xs = toResult (p.call limit nested m (xs.map Int64.ofInt)) := by
  induction nested generalizing m xs with
  | zero => rfl
  | succ nested ih =>
    rw [call, Program.call, List.length_map]
    cases hm : p.method? m with
    | none => rfl
    | some d =>
      have hd := hp.method hm
      simp only
      split
      · rfl
      · cases hb : d.entryBlock? with
        | none => rfl
        | some block => exact exec_eq hd ih xs (hd.instrs block (List.mem_of_mem_head? hb)) fun r => rfl

end Exact

namespace Program

/-- A program that calls have built comes to the same in every run as it does over integers of any size, which are added exactly
and reduced only where a parameter or a constant is loaded and where a value is returned: to the same value, to no value or to the
same fault. -/
theorem run_built_exact (cs : List Call) (m : MethodRef) (args : List Int64) (limit : Nat) :
    ((built cs).run m args limit).map (Option.map Int64.toInt) = Exact.run (built cs) m (args.map Int64.toInt) limit := by
  have hargs : (args.map Int64.toInt).map Int64.ofInt = args := by
    rw [List.map_map, show Int64.ofInt ∘ Int64.toInt = id from funext Int64.ofInt_toInt, List.map_id]
  have hcall := Exact.call_eq (wellFormed_empty.after cs) limit (limit + 1) m (args.map Int64.toInt)
  rw [hargs] at hcall
  exact hcall.symm

end Program

end Straightline
