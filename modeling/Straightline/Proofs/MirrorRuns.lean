import Straightline.Proofs.RoundTrip
import Straightline.Proofs.Simulation

/-!
# Writing and reading keep the meaning

A program and its mirror run alike, since words are reduced to the same types and a constant is held by the same word in each of
its forms (`Program.Mirrors.run_eq`). So a program that is read back from its text comes to the same results, whichever method is
run, with whatever arguments and limit (`Program.run_parse_text_built`).
-/

namespace Straightline

/-- A constant and its canonical form are held by the same word. -/
theorem Constant.toWord_canonical (c : Constant) : c.canonical.toWord = c.toWord := by
  cases c with
  | int v => rfl
  | uint v =>
    rw [canonical]
    split
    · show Int64.ofNat v.toNat = v.toInt64
      rw [← UInt64.toInt64_ofNat', UInt64.ofNat_toNat]
    · rfl
  | bool b => rfl

namespace Program

variable {p q : Program}

/-- References to the same type reduce words alike. -/
theorem SameType.wrap_eq {t u : TypeRef} (h : p.SameType q t u) (v : Int64) : q.wrap u v = p.wrap t v := by
  obtain ⟨s, hp, hq⟩ := h
  rw [wrap, wrap, hp, hq]

/-- Instructions do what their mirrors do. -/
theorem sameCode_of_mirrors {more : Prop} {is js : List Instr} (h : List.Forall₂ (p.MirrorsInstr q) is js) :
    SameCode p q Eq more is js := by
  induction h with
  | nil => exact .nil
  | cons hij hrest ih =>
    cases hij with
    | add r a b => exact .add r a b ih
    | loadParam r i => exact .loadParam r i ih
    | loadConst r c ht =>
      refine .loadConst r ?_ ih
      rw [c.toWord_canonical]
      exact ht.wrap_eq c.toWord
    | call r m args => exact .call r args rfl ih
    | ret v => exact .ret v _ _

/-- The first blocks of a method and its mirror mirror each other, if there are any. -/
theorem MirrorsMethod.entryBlock? {d e : Method} (h : p.MirrorsMethod q d e) :
    Option.Rel (p.MirrorsBlock q) d.entryBlock? e.entryBlock? := by
  have hblocks := h.blocks
  unfold Method.entryBlock?
  generalize d.blocks = bs at hblocks ⊢
  generalize e.blocks = cs at hblocks ⊢
  cases hblocks with
  | nil => exact .none
  | cons hb hrest => exact .some hb

/-- A method of the mirror follows the method. -/
theorem MirrorsMethod.follows {d e : Method} (h : p.MirrorsMethod q d e) : FollowsMethod p q Eq (fun _ => False) d e := by
  have hentry := h.entryBlock?
  refine ⟨h.name, h.returnType.wrap_eq, h.params.imp fun t u htu => htu.wrap_eq, fun hd => ?_, fun b hd => ?_⟩
  · rw [hd] at hentry
    generalize e.entryBlock? = o at hentry ⊢
    cases hentry
    exact Or.inr rfl
  · rw [hd] at hentry
    generalize e.entryBlock? = o at hentry ⊢
    cases hentry with
    | some hbc => exact ⟨_, rfl, sameCode_of_mirrors hbc.instrs⟩

/-- A mirror follows the program, with no fault left open. -/
theorem Mirrors.follows (h : p.Mirrors q) : Follows p q Eq (fun _ => False) := by
  refine ⟨?_, ?_⟩
  · rintro m _ rfl hm
    refine Or.inr ⟨rfl, ?_⟩
    rw [method?, List.getElem?_eq_none_iff] at hm ⊢
    rw [← h.methods.length_eq]
    exact hm
  · rintro m _ d rfl hm
    obtain ⟨e, he, hde⟩ := getElem?_right_of_forall₂ h.methods hm
    exact ⟨e, he, hde.follows⟩

/-- A mirror comes to the same results. -/
theorem Mirrors.run_eq (h : p.Mirrors q) (m : MethodRef) (args : List Int64) (limit : Nat) :
    q.run m args limit = p.run m args limit :=
  (h.follows.run_keeps rfl args limit).eq fun _ _ => not_false

/-- A mirror comes to the same results from its entry. -/
theorem Mirrors.runEntry_eq (h : p.Mirrors q) (args : List Int64) (limit : Nat) :
    q.runEntry args limit = p.runEntry args limit := by
  unfold runEntry
  rw [h.entry]
  cases p.entry with
  | none => rfl
  | some m => exact h.run_eq m args limit

/-- Whatever calls build, the program that is read back from its text comes to the same value, to no value or to the same fault in
every run: of any reference to a method, existing or not, with any arguments and any limit of nested calls, and likewise from the
entry. -/
theorem run_parse_text_built (cs : List Call) (hsmall : (built cs).Small) :
    ∃ q, Program.parse (built cs).text = .ok q ∧
      (∀ (m : MethodRef) (args : List Int64) (limit : Nat), q.run m args limit = (built cs).run m args limit) ∧
      ∀ (args : List Int64) (limit : Nat), q.runEntry args limit = (built cs).runEntry args limit := by
  have hwf : (built cs).WellFormed := wellFormed_empty.after cs
  obtain ⟨q, hq, -, hmirrors⟩ := hwf.parse_text hsmall
  exact ⟨q, hq, hmirrors.run_eq, hmirrors.runEntry_eq⟩

/-- A method of a narrow type that is called with a sum of unsigned constants, one of each form a literal is read in. The type
that comes first in the table is not used, so that reading the text renumbers the others. -/
def unusedType : List Call :=
  [.resolveType ⟨true, 7⟩, .resolveType ⟨false, 64⟩, .resolveType ⟨false, 8⟩, .declareMethod "low" ⟨2⟩ [⟨2⟩],
    .declareMethod "main" ⟨1⟩ [], .declareBlock ⟨0⟩ "start", .emit ⟨0⟩ ⟨0⟩ "ld_param" [.register 4, .index 0],
    .emit ⟨0⟩ ⟨0⟩ "ret" [.register 4], .declareBlock ⟨1⟩ "start",
    .emit ⟨1⟩ ⟨0⟩ "ld_const" [.register 0, .type ⟨1⟩, .const (.uint 7)],
    .emit ⟨1⟩ ⟨0⟩ "ld_const" [.register 1, .type ⟨1⟩, .const (.uint 0xFFFFFFFFFFFFFFFE)],
    .emit ⟨1⟩ ⟨0⟩ "add" [.register 2, .register 1, .register 1],
    .emit ⟨1⟩ ⟨0⟩ "call" [.register 3, .method ⟨0⟩, .registers [2]],
    .emit ⟨1⟩ ⟨0⟩ "add" [.register 3, .register 3, .register 0], .emit ⟨1⟩ ⟨0⟩ "ret" [.register 3], .setEntry ⟨1⟩]

/-- Its result, and its fault where no call may be nested, are those of the program read back. -/
theorem run_parse_text_unusedType :
    (built unusedType).Small ∧ ∃ q, Program.parse (built unusedType).text = .ok q ∧
      q.runEntry [] 1 = .ok (some 259) ∧ q.run ⟨1⟩ [] 0 = .error (.depthExceeded 0) := by
  have hsmall : (built unusedType).Small := by
    refine ⟨?_, ?_, ?_⟩ <;> decide +kernel
  obtain ⟨q, hq, hrun, hentry⟩ := run_parse_text_built unusedType hsmall
  refine ⟨hsmall, q, hq, ?_, ?_⟩
  · rw [hentry]
    rfl
  · rw [hrun]
    rfl

end Program

end Straightline
