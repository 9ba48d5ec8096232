import Mathlib.Data.List.Forall2
import Straightline.Interpreter
import Straightline.Proofs.Ends

/-!
# Programs that run alike

Two programs are run side by side, on the same registers and to the same depth of nested calls. The second one follows the first
one if its methods have the same names, reduce words alike and do the same up to their first return (`Program.Follows`). It need
not do so beyond a point where the first one ends with a fault that is left open, such as the end of a block that may still gain
instructions; where running into the limit is left open, the second one may also nest calls more deeply. Main statement: a program
that follows another one comes to the same result, unless the first one comes to an open fault (`Program.Follows.run_keeps`).
-/

namespace Straightline

/-! ## Computations that come to the same -/

section Keeps

variable {ε α β : Type} {Open : ε → Prop} {x y : Except ε α}

/-- The second computation comes to what the first one comes to, unless that is an error of `Open`. -/
def Keeps (Open : ε → Prop) (x y : Except ε α) : Prop :=
  Ends (fun a => y = .ok a) (fun e => Open e ∨ y = .error e) x

namespace Keeps

theorem refl (x : Except ε α) : Keeps Open x x := by
  cases x with
  | ok a => exact rfl
  | error e => exact Or.inr rfl

/-- A first computation that comes to something else comes to an open error. -/
theorem open_of_ne (h : Keeps Open x y) (hne : y ≠ x) : ∃ e, x = .error e ∧ Open e := by
  cases x with
  | ok a => exact absurd h hne
  | error e => exact ⟨e, rfl, h.resolve_right hne⟩

/-- Where the first computation does not come to an open error, both come to the same. -/
theorem eq (h : Keeps Open x y) (hopen : ∀ e, x = .error e → ¬Open e) : y = x := by
  by_contra hne
  obtain ⟨e, hx, he⟩ := h.open_of_ne hne
  exact hopen e hx he

/-- Steps in a row are kept one by one. -/
theorem bind {f g : α → Except ε β} (h : Keeps Open x y) (hfg : ∀ a, Keeps Open (f a) (g a)) :
    Keeps Open (x >>= f) (y >>= g) := by
  cases x with
  | ok a =>
    have hy : y = .ok a := h
    rw [hy]
    exact hfg a
  | error e =>
    rcases h with hopen | hy
    · exact Or.inl hopen
    · rw [hy]
      exact Or.inr rfl

end Keeps

end Keeps

namespace Program

/-! ## Code -/

/-- The code of `q` does what the code of `p` does, up to the first return. Methods are called by related references, and code
that ends without a return may go on in `q` only if `more` holds. -/
inductive SameCode (p q : Program) (refs : MethodRef → MethodRef → Prop) (more : Prop) : List Instr → List Instr → Prop where
  | nil : SameCode p q refs more [] []
  | more (h : more) (js : List Instr) : SameCode p q refs more [] js
  | add (r a b : Register) {is js : List Instr} (rest : SameCode p q refs more is js) :
      SameCode p q refs more (.add r a b :: is) (.add r a b :: js)
  | loadParam (r : Register) (i : UInt32) {is js : List Instr} (rest : SameCode p q refs more is js) :
      SameCode p q refs more (.loadParam r i :: is) (.loadParam r i :: js)
  | loadConst (r : Register) {t u : TypeRef} {c c' : Constant} (hword : q.wrap u c'.toWord = p.wrap t c.toWord)
      {is js : List Instr} (rest : SameCode p q refs more is js) :
      SameCode p q refs more (.loadConst r t c :: is) (.loadConst r u c' :: js)
  | call (r : Register) {m n : MethodRef} (args : List Register) (hmn : refs m n) {is js : List Instr}
      (rest : SameCode p q refs more is js) : SameCode p q refs more (.call r m args :: is) (.call r n args :: js)
  | ret (v : Option Register) (is js : List Instr) : SameCode p q refs more (.ret v :: is) (.ret v :: js)

/-- An activation in `q` looks to its code like one in `p`: it has the same name for its faults, the same arguments to load and
returns the same words. -/
structure Alike (p q : Program) (f g : Activation) : Prop where
  name : g.method.name = f.method.name
  argument : ∀ i, q.argument g i = p.argument f i
  result : ∀ v, q.wrap g.method.returnType v = p.wrap f.method.returnType v

variable {p q : Program} {refs : MethodRef → MethodRef → Prop} {Open : Fault → Prop}

/-- Registers are read alike. -/
theorem Alike.read {f g : Activation} (h : Alike p q f g) (regs : Registers) (r : Register) : g.read regs r = f.read regs r := by
  unfold Activation.read
  rw [h.name]

/-- The same code comes to the same if the calls it makes do. -/
theorem SameCode.exec_keeps {call call' : MethodRef → List Int64 → RunResult}
    (hcall : ∀ m n args, refs m n → Keeps Open (call m args) (call' n args)) {f g : Activation} (hfg : Alike p q f g)
    {is js : List Instr} (h : SameCode p q refs (Open (.missingReturn f.method.name)) is js) (regs : Registers) :
    Keeps Open (p.exec call f regs is) (q.exec call' g regs js) := by
  have hread : g.read = f.read := funext fun regs => funext fun r => hfg.read regs r
  induction h generalizing regs with
  | nil =>
    rw [exec, exec, hfg.name]
    exact Keeps.refl _
  | more hopen js => exact Or.inl hopen
  | add r a b rest ih =>
    rw [exec, exec, hread]
    exact (Keeps.refl _).bind fun x => (Keeps.refl _).bind fun y => ih _
  | loadParam r i rest ih =>
    rw [exec, exec, hfg.argument]
    exact (Keeps.refl _).bind fun v => ih _
  | loadConst r hword rest ih =>
    rw [exec, exec, hword]
    exact ih _
  | call r args hmn rest ih =>
    rw [exec, exec, hread]
    refine (Keeps.refl _).bind fun values => (hcall _ _ values hmn).bind fun result => ?_
    cases result with
    | some v => exact ih _
    | none => exact ih _
  | ret v is js =>
    cases v with
    | none => exact rfl
    | some r =>
      rw [exec, exec, hread]
      simp only [hfg.result]
      exact Keeps.refl _

/-! ## Methods and programs -/

/-- A method of `q` follows a method of `p`: it has the same name and as many parameters, reduces words alike and, unless a fault
is left open, has the same code. -/
structure FollowsMethod (p q : Program) (refs : MethodRef → MethodRef → Prop) (Open : Fault → Prop) (d e : Method) : Prop where
  name : e.name = d.name
  result : ∀ v, q.wrap e.returnType v = p.wrap d.returnType v
  params : List.Forall₂ (fun t u => ∀ v, q.wrap u v = p.wrap t v) d.params e.params
  empty : d.entryBlock? = none → Open (.emptyMethod d.name) ∨ e.entryBlock? = none
  code : ∀ b, d.entryBlock? = some b →
    ∃ c, e.entryBlock? = some c ∧ SameCode p q refs (Open (.missingReturn d.name)) b.instrs c.instrs

/-- The program `q` follows `p`, where its methods have related references, up to the faults that are left open. -/
structure Follows (p q : Program) (refs : MethodRef → MethodRef → Prop) (Open : Fault → Prop) : Prop where
  unknown : ∀ m n, refs m n → p.method? m = none → Open (.unknownMethod m) ∨ n = m ∧ q.method? n = none
  method : ∀ m n d, refs m n → p.method? m = some d → ∃ e, q.method? n = some e ∧ FollowsMethod p q refs Open d e

/-- The same arguments are loaded alike. -/
theorem FollowsMethod.alike {d e : Method} (h : FollowsMethod p q refs Open d e) (args : List Int64) :
    Alike p q ⟨d, args⟩ ⟨e, args⟩ := by
  refine ⟨h.name, fun i => ?_, h.result⟩
  have hparam := List.forall₂_iff_get.1 h.params
  simp only [argument, h.name]
  cases args[i.toNat]? with
  | none => rfl
  | some v =>
    by_cases hi : i.toNat < d.params.length
    · have hi' : i.toNat < e.params.length := by
        rw [← hparam.1]
        exact hi
      rw [List.getElem?_eq_getElem hi, List.getElem?_eq_getElem hi']
      exact congrArg Except.ok (hparam.2 i.toNat hi hi' v)
    · have hi' : ¬i.toNat < e.params.length := by
        rw [← hparam.1]
        exact hi
      rw [List.getElem?_eq_none (Nat.le_of_not_lt hi), List.getElem?_eq_none (Nat.le_of_not_lt hi')]

/-- A program that follows another one comes to the same in a call, unless the other one comes to an open fault. It may nest more
calls only where running into the limit is such a fault. The induction is on the calls that the first program may still nest. -/
theorem Follows.call_keeps_of_le (h : Follows p q refs Open) {limit limit' nested nested' : Nat} (hle : nested ≤ nested')
    (hlimit : Open (.depthExceeded limit) ∨ limit' = limit ∧ nested' = nested) {m n : MethodRef} (hmn : refs m n)
    (args : List Int64) : Keeps Open (p.call limit nested m args) (q.call limit' nested' n args) := by
  induction nested generalizing nested' m n args with
  | zero =>
    rcases hlimit with hopen | ⟨rfl, rfl⟩
    · exact Or.inl hopen
    · exact Or.inr rfl
  | succ nested ih =>
    obtain ⟨deeper, rfl⟩ : ∃ deeper, nested' = deeper + 1 := ⟨nested' - 1, by omega⟩
    have hcall : ∀ m n args, refs m n → Keeps Open (p.call limit nested m args) (q.call limit' deeper n args) := by
      intro m n args hmn
      exact ih (by omega) (hlimit.imp_right fun ⟨hl, hn⟩ => ⟨hl, by omega⟩) hmn args
    rw [call, call]
    cases hd : p.method? m with
    | none =>
      rcases h.unknown m n hmn hd with hopen | ⟨rfl, hn⟩
      · exact Or.inl hopen
      · rw [hn]
        exact Keeps.refl _
    | some d =>
      obtain ⟨e, he, hde⟩ := h.method m n d hmn hd
      simp only [he, hde.name, ← hde.params.length_eq]
      by_cases hargs : args.length = d.params.length
      · rw [if_neg (not_not_intro hargs), if_neg (not_not_intro hargs)]
        cases hb : d.entryBlock? with
        | none =>
          rcases hde.empty hb with hopen | hc
          · exact Or.inl hopen
          · rw [hc]
            exact Keeps.refl _
        | some b =>
          obtain ⟨c, hc, hcode⟩ := hde.code b hb
          rw [hc]
          exact hcode.exec_keeps hcall (hde.alike args) []
      · rw [if_pos hargs, if_pos hargs]
        exact Keeps.refl _

/-- A program that follows another one comes to the same in a run, unless the other one comes to an open fault. -/
theorem Follows.run_keeps (h : Follows p q refs Open) {m n : MethodRef} (hmn : refs m n) (args : List Int64) (limit : Nat) :
    Keeps Open (p.run m args limit) (q.run n args limit) :=
  h.call_keeps_of_le (Nat.le_refl _) (.inr ⟨rfl, rfl⟩) hmn args

end Program

end Straightline
