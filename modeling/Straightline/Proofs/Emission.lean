import Straightline.Proofs.Calls

/-!
# Adding an instruction

A program that accepts an instruction has it at the end of one block and is otherwise as it was. This is said here by what is
found under each reference before and after (`Program.Gains`): two lists differ in one place (`DifferAt`), which for the methods
of a program is a method whose blocks differ in one place again. The program that has gained the instruction is the one that is
reached by pushing it, if the block exists (`Program.gains_iff`). Main statement: an instruction is accepted exactly under its
conditions, and a call that is refused leaves the program as it is (`Program.emit_exact`).
-/

namespace Straightline

/-! ## Lists that differ in one place -/

section DifferAt

variable {α : Type} {n : Nat} {R : α → α → Prop} {l l' : List α}

/-- Two lists have related items in one place and the same items everywhere else. -/
def DifferAt (n : Nat) (R : α → α → Prop) (l l' : List α) : Prop :=
  (∃ a a', l[n]? = some a ∧ l'[n]? = some a' ∧ R a a') ∧ ∀ j, j ≠ n → l'[j]? = l[j]?

/-- If the related item is the image of the item under a function, the second list is the first one with that place changed by it.
The function may be defined on some items only, and then the item has to be one of them. -/
theorem differAt_iff {P : α → Prop} {f : α → α} (hR : ∀ a a', R a a' ↔ P a ∧ a' = f a) :
    DifferAt n R l l' ↔ (∃ a, l[n]? = some a ∧ P a) ∧ l' = l.modify n f := by
  constructor
  · rintro ⟨⟨a, a', ha, ha', hrel⟩, hothers⟩
    obtain ⟨hP, rfl⟩ := (hR a a').1 hrel
    refine ⟨⟨a, ha, hP⟩, List.ext_getElem? fun j => ?_⟩
    by_cases hj : j = n
    · subst hj
      rw [ha', List.getElem?_modify_eq, ha]
      rfl
    · rw [hothers j hj, List.getElem?_modify_ne f l (Ne.symm hj)]
  · rintro ⟨⟨a, ha, hP⟩, rfl⟩
    refine ⟨⟨a, f a, ha, ?_, (hR a (f a)).2 ⟨hP, rfl⟩⟩, fun j hj => List.getElem?_modify_ne f l (Ne.symm hj)⟩
    rw [List.getElem?_modify_eq, ha]
    rfl

end DifferAt

/-! ## Programs that have gained an instruction -/

/-- A block has gained an instruction at its end. -/
structure Block.Gains (i : Instr) (b c : Block) : Prop where
  name : c.name = b.name
  instrs : c.instrs = b.instrs ++ [i]

/-- A method has gained an instruction at the end of one of its blocks. -/
structure Method.Gains (r : BlockRef) (i : Instr) (d e : Method) : Prop where
  name : e.name = d.name
  returnType : e.returnType = d.returnType
  params : e.params = d.params
  blocks : DifferAt r.index (Block.Gains i) d.blocks e.blocks

/-- A program has gained an instruction at the end of a block of one of its methods. -/
structure Program.Gains (m : MethodRef) (r : BlockRef) (i : Instr) (p q : Program) : Prop where
  types : q.types = p.types
  entry : q.entry = p.entry
  methods : DifferAt m.index (Method.Gains r i) p.methods q.methods

theorem Block.gains_iff {i : Instr} {b c : Block} : b.Gains i c ↔ c = b.push i := by
  constructor
  · rintro ⟨hname, hinstrs⟩
    cases c
    exact congr (congrArg Block.mk hname) hinstrs
  · rintro rfl
    exact ⟨rfl, rfl⟩

theorem Method.gains_iff {r : BlockRef} {i : Instr} {d e : Method} :
    d.Gains r i e ↔ (∃ b, d.block? r = some b) ∧ e = d.push r i := by
  have hblocks : ∀ bs, DifferAt r.index (Block.Gains i) d.blocks bs ↔
      (∃ b, d.block? r = some b ∧ True) ∧ bs = d.blocks.modify r.index fun b => b.push i :=
    fun bs => differAt_iff fun b c => Block.gains_iff.trans (iff_of_eq (true_and _)).symm
  simp only [and_true] at hblocks
  constructor
  · rintro ⟨hname, hreturn, hparams, hdiffer⟩
    obtain ⟨hb, hpush⟩ := (hblocks e.blocks).1 hdiffer
    cases e
    exact ⟨hb, congr (congr (congr (congrArg Method.mk hname) hreturn) hparams) hpush⟩
  · rintro ⟨hb, rfl⟩
    exact ⟨rfl, rfl, rfl, (hblocks _).2 ⟨hb, rfl⟩⟩

namespace Program

variable {p q : Program} {m : MethodRef} {r : BlockRef} {i : Instr} {mnemonic : String} {operands : List Operand}

/-- The program that has gained an instruction in a block is the one that is reached by pushing it, and there is one exactly if
the method and the block exist. -/
theorem gains_iff : p.Gains m r i q ↔ (∃ d, p.method? m = some d ∧ ∃ b, d.block? r = some b) ∧ q = p.push m r i := by
  have hmethods : ∀ ms, DifferAt m.index (Method.Gains r i) p.methods ms ↔
      (∃ d, p.method? m = some d ∧ ∃ b, d.block? r = some b) ∧ ms = p.methods.modify m.index fun d => d.push r i :=
    fun ms => differAt_iff fun d e => Method.gains_iff
  constructor
  · rintro ⟨htypes, hentry, hdiffer⟩
    obtain ⟨hm, hpush⟩ := (hmethods q.methods).1 hdiffer
    cases q
    exact ⟨hm, congr (congr (congrArg Program.mk htypes) hpush) hentry⟩
  · rintro ⟨hm, rfl⟩
    exact ⟨rfl, rfl, (hmethods _).2 ⟨hm, rfl⟩⟩

/-- There is one program that has gained an instruction in a block. -/
theorem Gains.unique {q' : Program} (h : p.Gains m r i q) (h' : p.Gains m r i q') : q = q' := by
  obtain ⟨-, hq⟩ := gains_iff.1 h
  obtain ⟨-, hq'⟩ := gains_iff.1 h'
  rw [hq, hq']

/-! ## Instructions that are accepted -/

/-- A call that adds an instruction is accepted exactly if the method and the block exist, the mnemonic and the operands are an
instruction, and it is meaningful in the method; and it leads to the program that has gained the instruction. -/
theorem accepted_emit_iff {a : Answer} :
    Accepted p (.emit m r mnemonic operands) a q ↔ a = .done ∧
      ∃ d i, p.method? m = some d ∧ (∃ b, d.block? r = some b) ∧ Instr.decode mnemonic operands = .ok i ∧ p.Allows d i ∧
        p.Gains m r i q := by
  constructor
  · intro h
    cases h with
    | @emit _ _ _ _ d b i hm hb hi hok => exact ⟨rfl, d, i, hm, ⟨b, hb⟩, hi, hok, gains_iff.2 ⟨⟨d, hm, b, hb⟩, rfl⟩⟩
  · rintro ⟨rfl, d, i, hm, ⟨b, hb⟩, hi, hok, hgains⟩
    obtain ⟨-, rfl⟩ := gains_iff.1 hgains
    exact .emit hm hb hi hok

/-- Adding an instruction is exact, and building is atomic. A call that adds an instruction is accepted exactly if the method
exists, the block exists in it, the mnemonic and the operands are an instruction, and that is meaningful in the method; the
program then is the one that has gained this instruction at the end of this block, with all else as it was. A call of any kind
that is refused leaves the program as it is. -/
theorem emit_exact (p : Program) (m : MethodRef) (r : BlockRef) (mnemonic : String) (operands : List Operand) :
    ((∃ a, p.reply (.emit m r mnemonic operands) = .ok a) ↔
      ∃ d i, p.method? m = some d ∧ (∃ b, d.block? r = some b) ∧ Instr.decode mnemonic operands = .ok i ∧ p.Allows d i) ∧
    (∀ a, p.reply (.emit m r mnemonic operands) = .ok a →
      ∃ i, Instr.decode mnemonic operands = .ok i ∧ ∀ q, p.next (.emit m r mnemonic operands) = q ↔ p.Gains m r i q) ∧
    (∀ (c : Call) (e : BuildError), p.reply c = .error e → p.next c = p) := by
  refine ⟨⟨?_, ?_⟩, ?_, fun c e => next_eq_self_of_reply_error⟩
  · rintro ⟨a, ha⟩
    obtain ⟨-, d, i, hm, hb, hi, hok, -⟩ := accepted_emit_iff.1 (accepted_iff.2 ⟨ha, rfl⟩)
    exact ⟨d, i, hm, hb, hi, hok⟩
  · rintro ⟨d, i, hm, hb, hi, hok⟩
    have hgains : p.Gains m r i (p.push m r i) := gains_iff.2 ⟨⟨d, hm, hb⟩, rfl⟩
    have haccepted := accepted_emit_iff.2 ⟨rfl, d, i, hm, hb, hi, hok, hgains⟩
    exact ⟨.done, (accepted_iff.1 haccepted).1⟩
  · intro a ha
    obtain ⟨-, d, i, -, -, hi, -, hgains⟩ := accepted_emit_iff.1 (accepted_iff.2 ⟨ha, rfl⟩)
    refine ⟨i, hi, fun q => ⟨?_, hgains.unique⟩⟩
    rintro rfl
    exact hgains

end Program

end Straightline
