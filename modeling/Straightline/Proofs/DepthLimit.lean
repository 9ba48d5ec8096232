import Straightline.Proofs.Simulation

/-!
# The limit of nested calls

The limit cuts runs off and has no other effect. A program follows itself at every larger limit, since running into the limit is
all that a larger one can change (`Program.follows_self`). Main statement: `Program.run_eq_of_le`.
-/

namespace Straightline

namespace Program

variable {p : Program} {more : Prop} {Open : Fault → Prop}

/-- Code does what it does. -/
theorem SameCode.refl (is : List Instr) : SameCode p p Eq more is is := by
  induction is with
  | nil => exact .nil
  | cons i is ih =>
    cases i with
    | add r a b => exact .add r a b ih
    | loadParam r i => exact .loadParam r i ih
    | loadConst r t c => exact .loadConst r rfl ih
    | call r m args => exact .call r args rfl ih
    | ret v => exact .ret v is is

/-- A program follows itself, whichever faults are left open. -/
theorem follows_self (p : Program) : Follows p p Eq Open := by
  refine ⟨?_, ?_⟩
  · rintro m _ rfl hm
    exact Or.inr ⟨rfl, hm⟩
  · rintro m _ d rfl hm
    refine ⟨d, hm, rfl, fun _ => rfl, List.forall₂_same.2 fun _ _ _ => rfl, Or.inr, fun b hb => ⟨b, hb, SameCode.refl b.instrs⟩⟩

/-- The limit only cuts off: what a run comes to without running into its limit, it comes to under every larger limit, be it a
value, no value or another fault. The program need not be well formed. -/
theorem run_eq_of_le (p : Program) (m : MethodRef) (args : List Int64) {limit limit' : Nat} (hle : limit ≤ limit')
    (h : p.run m args limit ≠ .error (.depthExceeded limit)) : p.run m args limit' = p.run m args limit := by
  have hfollows : Follows p p Eq (· = .depthExceeded limit) := follows_self p
  have hkeeps : Keeps (· = .depthExceeded limit) (p.run m args limit) (p.run m args limit') :=
    hfollows.call_keeps_of_le (Nat.succ_le_succ hle) (.inl rfl) rfl args
  refine hkeeps.eq fun e he hopen => h ?_
  rw [he, hopen]

/-- A program that no checked calls build: a method calls one whose callee does not exist. -/
def danglingCall : Program where
  types := [⟨true, 8⟩]
  methods := [
    { name := "main", returnType := ⟨0⟩, params := [], blocks := [⟨"start", [.call 0 ⟨1⟩ [], .ret (some 0)]⟩] },
    { name := "lost", returnType := ⟨0⟩, params := [], blocks := [⟨"start", [.call 0 ⟨9⟩ [], .ret none]⟩] }]

/-- The limit hides the missing method below two nested calls, and from there on no limit does. -/
theorem run_danglingCall :
    danglingCall.run ⟨0⟩ [] 1 = .error (.depthExceeded 1) ∧ danglingCall.run ⟨0⟩ [] 2 ≠ .error (.depthExceeded 2) ∧
      danglingCall.run ⟨0⟩ [] 1000 = .error (.unknownMethod ⟨9⟩) := by
  have hrun : danglingCall.run ⟨0⟩ [] 2 = .error (.unknownMethod ⟨9⟩) := rfl
  have hne : danglingCall.run ⟨0⟩ [] 2 ≠ .error (.depthExceeded 2) := by
    rw [hrun]
    simp
  refine ⟨rfl, hne, ?_⟩
  rw [run_eq_of_le danglingCall ⟨0⟩ [] (by decide) hne, hrun]

end Program

end Straightline
