import Straightline.Proofs.LiveCode
import Straightline.Proofs.Simulation

/-!
# Removing dead code

A program may be cut down to its live code: of every method the first block is kept, up to its first return (`Program.pruned`).
All methods are cut at once, so that each call of a run leads from one method that has been cut to another. Main statement:
whatever the program, also one that no checked calls build, every run comes to the same, be it a value, no value or a fault
(`Program.run_pruned`).
-/

namespace Straightline

/-- The block without the instructions behind its first return. -/
def Block.pruned (b : Block) : Block := { b with instrs := upToReturn b.instrs }

/-- The method with its first block alone, without the instructions behind the first return. -/
def Method.pruned (d : Method) : Method := { d with blocks := (d.blocks.take 1).map Block.pruned }

/-- The program with the live code of its methods alone. -/
def Program.pruned (p : Program) : Program := { p with methods := p.methods.map Method.pruned }

/-- The first block of a method that has been cut down. -/
theorem Method.entryBlock?_pruned (d : Method) : d.pruned.entryBlock? = d.entryBlock?.map Block.pruned := by
  unfold entryBlock? pruned
  cases d.blocks with
  | nil => rfl
  | cons b bs => rfl

/-- What is left of a method is its live code. -/
theorem Method.flatMap_instrs_pruned (d : Method) : d.pruned.blocks.flatMap (·.instrs) = d.live := by
  unfold live entryBlock? pruned
  cases d.blocks with
  | nil => rfl
  | cons b bs => simp [Block.pruned]

namespace Program

/-- A method that has been cut down stands where it stood. -/
theorem method?_pruned (p : Program) (m : MethodRef) : p.pruned.method? m = (p.method? m).map Method.pruned :=
  List.getElem?_map

/-- Code does the same without what is behind its first return. -/
theorem sameCode_upToReturn (p : Program) {more : Prop} (is : List Instr) : SameCode p p.pruned Eq more is (upToReturn is) := by
  induction is with
  | nil => exact .nil
  | cons i is ih =>
    cases i with
    | add r a b => exact .add r a b ih
    | loadParam r k => exact .loadParam r k ih
    | loadConst r t c =>
      have hword : p.pruned.wrap t c.toWord = p.wrap t c.toWord := rfl
      exact .loadConst r hword ih
    | call r m args => exact .call r args rfl ih
    | ret v => exact .ret v is []

/-- A method that has been cut down follows the whole one, and no fault is left open. -/
theorem followsMethod_pruned (p : Program) (d : Method) : FollowsMethod p p.pruned Eq (fun _ => False) d d.pruned := by
  have hentry := d.entryBlock?_pruned
  refine ⟨rfl, fun _ => rfl, List.forall₂_same.2 fun _ _ _ => rfl, fun hb => ?_, fun b hb => ?_⟩
  · rw [hb] at hentry
    exact Or.inr hentry
  · rw [hb] at hentry
    exact ⟨b.pruned, hentry, p.sameCode_upToReturn b.instrs⟩

/-- A program that has been cut down follows the whole one. -/
theorem follows_pruned (p : Program) : Follows p p.pruned Eq fun _ => False := by
  refine ⟨?_, ?_⟩
  · rintro m _ rfl hm
    refine Or.inr ⟨rfl, ?_⟩
    rw [method?_pruned, hm]
    rfl
  · rintro m _ d rfl hm
    refine ⟨d.pruned, ?_, p.followsMethod_pruned d⟩
    rw [method?_pruned, hm]
    rfl

/-- Dead code has no effect: a program that is cut down to the live code of its methods comes to the same in every run, whichever
method, arguments and limit it is given. -/
theorem run_pruned (p : Program) :
    p.pruned.methods.map (fun d => d.blocks.flatMap (·.instrs)) = p.methods.map Method.live ∧
      ∀ (m : MethodRef) (args : List Int64) (limit : Nat), p.pruned.run m args limit = p.run m args limit := by
  refine ⟨?_, fun m args limit => ?_⟩
  · rw [pruned, List.map_map]
    exact List.map_congr_left fun d _ => d.flatMap_instrs_pruned
  · have hkeeps := p.follows_pruned.run_keeps (Eq.refl m) args limit
    exact hkeeps.eq fun _ _ => id

/-- A method that calls another one. Behind the return of either there are instructions that would fault, and the first one has
another block. -/
def idleFaults : Program where
  types := [⟨false, 8⟩]
  methods :=
    [{ name := "main", returnType := ⟨0⟩, params := [],
       blocks := [⟨"start", [.call 0 ⟨1⟩ [], .ret (some 0), .add 1 7 7]⟩, ⟨"rest", [.ret (some 9)]⟩] },
     { name := "seven", returnType := ⟨0⟩, params := [],
       blocks := [⟨"start", [.loadConst 2 ⟨0⟩ (.int 7), .ret (some 2), .call 3 ⟨4⟩ []]⟩] }]

/-- Cut down, the program keeps two instructions in each method, returns the same value and comes to the same limit. -/
theorem run_pruned_idleFaults :
    idleFaults.pruned.methods.map (fun d => d.blocks.map (·.instrs)) =
        [[[.call 0 ⟨1⟩ [], .ret (some 0)]], [[.loadConst 2 ⟨0⟩ (.int 7), .ret (some 2)]]] ∧
      (idleFaults.run ⟨0⟩ [] 5 = .ok (some 7) ∧ idleFaults.pruned.run ⟨0⟩ [] 5 = .ok (some 7)) ∧
      idleFaults.run ⟨0⟩ [] 0 = .error (.depthExceeded 0) ∧ idleFaults.pruned.run ⟨0⟩ [] 0 = .error (.depthExceeded 0) := by
  obtain ⟨-, hsame⟩ := run_pruned idleFaults
  refine ⟨by decide, ⟨rfl, ?_⟩, rfl, ?_⟩
  · rw [hsame]
    rfl
  · rw [hsame]
    rfl

end Program

end Straightline
