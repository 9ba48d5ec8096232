import Mathlib.Data.List.Basic
import Straightline.Builder
import Straightline.Proofs.Ends
import Straightline.Recorder
import Straightline.Source.Elaborate

/-!
# Exact decoding

Each operation has a slot for each of its operands (`Opcode.slots`). Decoding reads the slots from left to right: it yields the
one instruction that has these operands, or the error that says what is wrong first (`DecodeError.Explains`). The operations of
the builder and the statements of a source tree have operand lists of their own (`Site.IsOperation`, `Stmt.lower`), which are
those of the instructions they stand for. Main statement: `Instr.decode_spec`.
-/

namespace Straightline

/-! ## Slots -/

/-- What an operation takes at a position. -/
inductive Slot where
  /-- An operand of one kind. -/
  | one (kind : Operand.Kind)
  /-- A register or nothing. -/
  | optional
  /-- A list of registers. -/
  | registers
  deriving DecidableEq, Repr

/-- What is wrong with an operand: the kind that is expected and the kind that is found. -/
structure Misfit where
  expected : Operand.Kind
  found : Operand.Kind
  deriving DecidableEq, Repr

/-- What is wrong with an operand in a slot. In a list it is the first item that is no register. -/
def Slot.misfit? : Slot → Operand → Option Misfit
  | .one kind, o => if o.kind = kind then none else some ⟨kind, o.kind⟩
  | .optional, o => if o.kind = .absent ∨ o.kind = .register then none else some ⟨.register, o.kind⟩
  | .registers, .list items => (items.find? fun o => o.kind ≠ .register).map fun o => ⟨.register, o.kind⟩
  | .registers, o => some ⟨.list, o.kind⟩

namespace Opcode

/-- The slots of an operation. -/
def slots : Opcode → List Slot
  | .add => [.one .register, .one .register, .one .register]
  | .ldParam => [.one .register, .one .index]
  | .ldConst => [.one .register, .one .type, .one .constant]
  | .call => [.one .register, .one .method, .registers]
  | .ret => [.optional]

/-- What is wrong with each of the operands. -/
def misfits (op : Opcode) (operands : List Operand) : List (Option Misfit) := List.zipWith Slot.misfit? op.slots operands

/-- The first operand with which something is wrong, and what that is. -/
def FirstMisfit (op : Opcode) (operands : List Operand) (position : Nat) (x : Misfit) : Prop :=
  (op.misfits operands)[position]? = some (some x) ∧ ∀ j < position, (op.misfits operands)[j]? = some none

instance (op : Opcode) (operands : List Operand) (position : Nat) (x : Misfit) : Decidable (op.FirstMisfit operands position x) :=
  inferInstanceAs (Decidable (_ ∧ _))

/-- Only one operand is the first with which something is wrong. -/
theorem FirstMisfit.unique {op : Opcode} {operands : List Operand} {j k : Nat} {x y : Misfit} (h : op.FirstMisfit operands j x)
    (h' : op.FirstMisfit operands k y) : j = k ∧ x = y := by
  have hjk : j = k := by
    rcases Nat.lt_trichotomy j k with hlt | heq | hgt
    · have hj := h'.2 j hlt
      rw [h.1] at hj
      cases hj
    · exact heq
    · have hk := h.2 k hgt
      rw [h'.1] at hk
      cases hk
  subst hjk
  have hxy := h.1.symm.trans h'.1
  cases hxy
  exact ⟨rfl, rfl⟩

/-- Operations have different mnemonics. -/
theorem mnemonic_inj {op op' : Opcode} (h : op.mnemonic = op'.mnemonic) : op = op' := by
  have hop := ofMnemonic?_mnemonic op
  rw [h, ofMnemonic?_mnemonic] at hop
  exact (Option.some.inj hop).symm

/-- A mnemonic is that of the operation it leads to. -/
theorem ofMnemonic?_eq_some_iff {mnemonic : String} {op : Opcode} : ofMnemonic? mnemonic = some op ↔ op.mnemonic = mnemonic := by
  constructor
  · intro h
    have hfound := List.find?_some (p := fun op : Opcode => op.mnemonic == mnemonic) h
    exact beq_iff_eq.1 hfound
  · rintro rfl
    exact ofMnemonic?_mnemonic op

end Opcode

/-- An error says what is wrong with a mnemonic and operands: the mnemonic is that of no operation; or the operation takes another
number of operands; or their number is right, and the error names the first operand of a wrong kind. -/
def DecodeError.Explains (mnemonic : String) (operands : List Operand) : DecodeError → Prop
  | .unknownMnemonic unknown => unknown = mnemonic ∧ ∀ op : Opcode, op.mnemonic ≠ mnemonic
  | .operandCount op found => op.mnemonic = mnemonic ∧ found = operands.length ∧ found ≠ op.operandCount
  | .operandKind op position expected found =>
    op.mnemonic = mnemonic ∧ operands.length = op.operandCount ∧ op.FirstMisfit operands position ⟨expected, found⟩

/-- One error at most says what is wrong. -/
theorem DecodeError.Explains.unique {mnemonic : String} {operands : List Operand} {e e' : DecodeError}
    (h : e.Explains mnemonic operands) (h' : e'.Explains mnemonic operands) : e = e' := by
  cases e with
  | unknownMnemonic unknown =>
    obtain ⟨rfl, hnone⟩ := h
    cases e' with
    | unknownMnemonic unknown' => rw [h'.1]
    | operandCount op' found' => exact absurd h'.1 (hnone op')
    | operandKind op' position' expected' found' => exact absurd h'.1 (hnone op')
  | operandCount op found =>
    obtain ⟨rfl, rfl, hcount⟩ := h
    cases e' with
    | unknownMnemonic unknown' => exact absurd rfl (h'.2 op)
    | operandCount op' found' =>
      obtain ⟨hop, rfl, -⟩ := h'
      rw [Opcode.mnemonic_inj hop]
    | operandKind op' position' expected' found' =>
      obtain ⟨hop, hcount', -⟩ := h'
      rw [Opcode.mnemonic_inj hop] at hcount'
      exact absurd hcount' hcount
  | operandKind op position expected found =>
    obtain ⟨rfl, hcount, hfirst⟩ := h
    cases e' with
    | unknownMnemonic unknown' => exact absurd rfl (h'.2 op)
    | operandCount op' found' =>
      obtain ⟨hop, rfl, hcount'⟩ := h'
      rw [Opcode.mnemonic_inj hop] at hcount'
      exact absurd hcount hcount'
    | operandKind op' position' expected' found' =>
      obtain ⟨hop, -, hfirst'⟩ := h'
      rw [Opcode.mnemonic_inj hop] at hfirst' ⊢
      obtain ⟨rfl, hkinds⟩ := hfirst.unique hfirst'
      cases hkinds
      rfl

/-! ## Reading slots -/

/-- A slot is read: the operand is that of the value, and fits; or it does not fit, and the error says so. -/
def Slot.Reads (slot : Slot) {α : Type} (operand : α → Operand) (op : Opcode) (position : Nat) (o : Operand)
    (c : Except DecodeError α) : Prop :=
  Ends (fun a => o = operand a ∧ slot.misfit? o = none)
    (fun e => ∃ x, slot.misfit? o = some x ∧ e = .operandKind op position x.expected x.found) c

namespace Opcode

variable (op : Opcode) (position : Nat) (o : Operand)

theorem expectRegister_reads : Slot.Reads (.one .register) .register op position o (op.expectRegister position o) := by
  cases o with
  | register r => exact ⟨rfl, rfl⟩
  | _ => exact ⟨_, rfl, rfl⟩

theorem expectIndex_reads : Slot.Reads (.one .index) .index op position o (op.expectIndex position o) := by
  cases o with
  | index i => exact ⟨rfl, rfl⟩
  | _ => exact ⟨_, rfl, rfl⟩

theorem expectType_reads : Slot.Reads (.one .type) .type op position o (op.expectType position o) := by
  cases o with
  | type t => exact ⟨rfl, rfl⟩
  | _ => exact ⟨_, rfl, rfl⟩

theorem expectConst_reads : Slot.Reads (.one .constant) .const op position o (op.expectConst position o) := by
  cases o with
  | const c => exact ⟨rfl, rfl⟩
  | _ => exact ⟨_, rfl, rfl⟩

theorem expectMethod_reads : Slot.Reads (.one .method) .method op position o (op.expectMethod position o) := by
  cases o with
  | method m => exact ⟨rfl, rfl⟩
  | _ => exact ⟨_, rfl, rfl⟩

/-- The items of a list are read up to the first one that is no register. -/
theorem mapM_expectRegister_ends (items : List Operand) :
    Ends (fun rs => items = rs.map .register ∧ Slot.misfit? .registers (.list items) = none)
      (fun e => ∃ x, Slot.misfit? .registers (.list items) = some x ∧ e = .operandKind op position x.expected x.found)
      (items.mapM (op.expectRegister position)) := by
  induction items with
  | nil => exact ⟨rfl, rfl⟩
  | cons o items ih =>
    rw [List.mapM_cons]
    cases o with
    | register r =>
      -- a register is passed over in the search for an item that is none
      refine ih.bind fun rs hrs => ?_
      obtain ⟨hitems, hfits⟩ := hrs
      exact ⟨congrArg (Operand.register r :: ·) hitems, hfits⟩
    | _ => exact ⟨_, rfl, rfl⟩

theorem expectRegisters_reads : Slot.Reads .registers .registers op position o (op.expectRegisters position o) := by
  cases o with
  | list items =>
    refine (op.mapM_expectRegister_ends position items).imp (fun rs hrs => ?_) fun _ he => he
    obtain ⟨hitems, hfits⟩ := hrs
    exact ⟨congrArg Operand.list hitems, hfits⟩
  | _ => exact ⟨_, rfl, rfl⟩

theorem expectRegister?_reads :
    Slot.Reads .optional (fun v => (v.map Operand.register).getD .absent) op position o (op.expectRegister? position o) := by
  cases o with
  | absent => exact ⟨rfl, rfl⟩
  | register r => exact ⟨rfl, rfl⟩
  | _ => exact ⟨_, rfl, rfl⟩

end Opcode

/-- The error names the first operand that does not fit. -/
def DecodeError.AtFirst (op : Opcode) (operands : List Operand) (e : DecodeError) : Prop :=
  ∃ position x, e = .operandKind op position x.expected x.found ∧ op.FirstMisfit operands position x

/-- A slot is read after those before it, whose operands fit, and before those behind it. -/
theorem Slot.Reads.bind {slot : Slot} {α β : Type} {operand : α → Operand} {op : Opcode} {position : Nat} {o : Operand}
    {c : Except DecodeError α} {f : α → Except DecodeError β} {P : β → Prop} {operands : List Operand}
    (h : slot.Reads operand op position o c) (hslot : (op.misfits operands)[position]? = some (slot.misfit? o))
    (hbefore : ∀ j < position, (op.misfits operands)[j]? = some none)
    (hf : ∀ a, o = operand a → (∀ j < position + 1, (op.misfits operands)[j]? = some none) →
      Ends P (DecodeError.AtFirst op operands) (f a)) :
    Ends P (DecodeError.AtFirst op operands) (c >>= f) := by
  cases c with
  | ok a =>
    obtain ⟨ho, hfits⟩ := h
    refine hf a ho fun j hj => ?_
    rcases Nat.lt_succ_iff_lt_or_eq.1 hj with hlt | rfl
    · exact hbefore j hlt
    · rw [hslot, hfits]
  | error e =>
    obtain ⟨x, hx, rfl⟩ := h
    exact ⟨position, x, rfl, by rw [hslot, hx], hbefore⟩

namespace Opcode

/-- No position is before the first one. -/
theorem fits_before_zero {op : Opcode} {operands : List Operand} : ∀ j < 0, (op.misfits operands)[j]? = some none :=
  fun j hj => absurd hj (Nat.not_lt_zero j)

/-- As many operands as an operation takes are assembled to the instruction that has them, if all of them fit, and else to an
error that names the first one that does not. -/
theorem assemble_ends (op : Opcode) {operands : List Operand} (h : operands.length = op.operandCount) :
    Ends (fun i => i.opcode = op ∧ i.operands = operands ∧ ∀ j < op.operandCount, (op.misfits operands)[j]? = some none)
      (DecodeError.AtFirst op operands) (op.assemble operands) := by
  cases op with
  | add =>
    obtain ⟨r, a, b, rfl⟩ := List.length_eq_three.1 h
    refine (expectRegister_reads _ 0 r).bind rfl fits_before_zero fun r hr h₁ => ?_
    refine (expectRegister_reads _ 1 a).bind rfl h₁ fun a ha h₂ => ?_
    refine (expectRegister_reads _ 2 b).bind rfl h₂ fun b hb h₃ => ?_
    subst hr ha hb
    exact ⟨rfl, rfl, h₃⟩
  | ldParam =>
    obtain ⟨r, k, rfl⟩ := List.length_eq_two.1 h
    refine (expectRegister_reads _ 0 r).bind rfl fits_before_zero fun r hr h₁ => ?_
    refine (expectIndex_reads _ 1 k).bind rfl h₁ fun k hk h₂ => ?_
    subst hr hk
    exact ⟨rfl, rfl, h₂⟩
  | ldConst =>
    obtain ⟨r, t, c, rfl⟩ := List.length_eq_three.1 h
    refine (expectRegister_reads _ 0 r).bind rfl fits_before_zero fun r hr h₁ => ?_
    refine (expectType_reads _ 1 t).bind rfl h₁ fun t ht h₂ => ?_
    refine (expectConst_reads _ 2 c).bind rfl h₂ fun c hc h₃ => ?_
    subst hr ht hc
    exact ⟨rfl, rfl, h₃⟩
  | call =>
    obtain ⟨r, m, args, rfl⟩ := List.length_eq_three.1 h
    refine (expectRegister_reads _ 0 r).bind rfl fits_before_zero fun r hr h₁ => ?_
    refine (expectMethod_reads _ 1 m).bind rfl h₁ fun m hm h₂ => ?_
    refine (expectRegisters_reads _ 2 args).bind rfl h₂ fun args hargs h₃ => ?_
    subst hr hm hargs
    exact ⟨rfl, rfl, h₃⟩
  | ret =>
    obtain ⟨v, rfl⟩ := List.length_eq_one_iff.1 h
    refine (expectRegister?_reads _ 0 v).bind rfl fits_before_zero fun v hv h₁ => ?_
    subst hv
    exact ⟨rfl, rfl, h₁⟩

/-- Another number of operands is refused. -/
theorem assemble_of_ne {op : Opcode} {operands : List Operand} (h : operands.length ≠ op.operandCount) :
    op.assemble operands = .error (.operandCount op operands.length) := by
  unfold assemble
  -- each case but the last has operands in the right number
  split <;> first | exact absurd rfl h | rfl

end Opcode

/-! ## Decoding -/

namespace Instr

/-- Decoding yields the instruction that has the mnemonic and the operands, with which nothing is wrong, or an error that says
what is. -/
theorem decode_ends (mnemonic : String) (operands : List Operand) :
    Ends (fun i => mnemonic = i.opcode.mnemonic ∧ operands = i.operands ∧ ∀ e : DecodeError, ¬e.Explains mnemonic operands)
      (fun e => e.Explains mnemonic operands) (decode mnemonic operands) := by
  unfold decode
  cases hop : Opcode.ofMnemonic? mnemonic with
  | none =>
    refine ⟨rfl, fun op h => ?_⟩
    rw [← h, Opcode.ofMnemonic?_mnemonic] at hop
    cases hop
  | some op =>
    rw [Opcode.ofMnemonic?_eq_some_iff] at hop
    subst hop
    by_cases hcount : operands.length = op.operandCount
    · refine (op.assemble_ends hcount).imp ?_ ?_
      · rintro i ⟨rfl, rfl, hfits⟩
        refine ⟨rfl, rfl, fun e he => ?_⟩
        cases e with
        | unknownMnemonic unknown => exact he.2 i.opcode rfl
        | operandCount op' found =>
          obtain ⟨hop', rfl, hne⟩ := he
          rw [Opcode.mnemonic_inj hop'] at hne
          exact hne hcount
        | operandKind op' position expected found =>
          obtain ⟨hop', -, hfirst, -⟩ := he
          rw [Opcode.mnemonic_inj hop'] at hfirst
          -- the misfit is among as many as there are slots, and none of these is one
          have hlt : position < i.opcode.operandCount := by
            rw [← hcount]
            obtain ⟨hlt, -⟩ := List.getElem?_eq_some_iff.1 hfirst
            rw [Opcode.misfits, List.length_zipWith] at hlt
            omega
          rw [hfits position hlt] at hfirst
          cases hfirst
      · rintro e ⟨position, x, rfl, hfirst⟩
        exact ⟨rfl, hcount, hfirst⟩
    · show Ends _ _ (op.assemble operands)
      rw [Opcode.assemble_of_ne hcount]
      exact ⟨rfl, rfl, hcount⟩

/-- An instruction is decoded exactly from its own mnemonic and operands. -/
theorem decode_eq_ok_iff {mnemonic : String} {operands : List Operand} {i : Instr} :
    decode mnemonic operands = .ok i ↔ mnemonic = i.opcode.mnemonic ∧ operands = i.operands := by
  constructor
  · intro h
    obtain ⟨hmnemonic, hoperands, -⟩ := (decode_ends mnemonic operands).of_ok h
    exact ⟨hmnemonic, hoperands⟩
  · rintro ⟨rfl, rfl⟩
    exact i.decode_operands

/-- Decoding fails exactly with the error that says what is wrong. -/
theorem decode_eq_error_iff {mnemonic : String} {operands : List Operand} {e : DecodeError} :
    decode mnemonic operands = .error e ↔ e.Explains mnemonic operands := by
  have hends := decode_ends mnemonic operands
  constructor
  · exact hends.of_error
  · intro he
    cases h : decode mnemonic operands with
    | ok i => exact absurd he ((hends.of_ok h).2.2 e)
    | error e' => rw [(hends.of_error h).unique he]

end Instr

/-! ## Handing over -/

/-- A computation over a backend is the operation of the builder that writes an instruction at a site. A call may be given its
target as a method or as a block. -/
inductive Site.IsOperation {σ ε : Type} [Backend σ ε] (s : Site) : Instr → BuildM σ ε Site → Prop where
  | add (r a b : Register) : IsOperation s (.add r a b) (s.add r a b)
  | ldParam (r : Register) (i : UInt32) : IsOperation s (.loadParam r i) (s.ldParam r i)
  | ldConst (r : Register) (t : TypeRef) (c : Constant) : IsOperation s (.loadConst r t c) (s.ldConst r t c)
  | call (r : Register) (target : Target) (args : List Register) : IsOperation s (.call r target.ref args) (s.call r target args)
  | ret (v : Option Register) : IsOperation s (.ret v) (s.ret v)

/-- The operation of the builder emits the instruction under its own operands. -/
theorem Site.IsOperation.eq_emit {σ ε : Type} [Backend σ ε] {s : Site} {i : Instr} {x : BuildM σ ε Site} (h : s.IsOperation i x) :
    x = s.emit i.opcode i.operands := by
  cases h with
  | ret v => cases v <;> rfl
  | _ => rfl

/-- A fresh recorder keeps the one call that the operation of the builder makes. -/
theorem Site.IsOperation.calls_eq {s : Site} {i : Instr} {x : BuildM Recorder Rejected Site} (h : s.IsOperation i x) :
    (x.run.run {}).2.calls = [.emit s.method s.block i.opcode.mnemonic i.operands] := by
  rw [h.eq_emit]
  rfl

namespace Source

/-- The instruction that a statement stands for, with its type entered into the type table or its callee looked up. -/
def Stmt.resolve (p : Program) : Stmt → Except BuildError (Instr × Program)
  | .add r a b => .ok (.add r a b, p)
  | .loadParam r i => .ok (.loadParam r i, p)
  | .loadConst r t c => .ok (.loadConst r (p.intern t).1 c, (p.intern t).2)
  | .call r callee args => do
    let m ← p.findMethod callee
    return (.call r m args, p)
  | .ret value => .ok (.ret value, p)

/-- A statement is handed over as the instruction that it resolves to. -/
theorem Stmt.lower_eq (p : Program) (st : Stmt) :
    st.lower p = (st.resolve p).map fun x => ((x.1.opcode, x.1.operands), x.2) := by
  cases st with
  | call r callee args =>
    rw [lower, resolve]
    cases p.findMethod callee <;> rfl
  | ret v => cases v <;> rfl
  | _ => rfl

/-- A statement is added to a block as the instruction that it resolves to. -/
theorem Stmt.emit_eq_resolve (m : MethodRef) (b : BlockRef) (p : Program) (st : Stmt) :
    st.emit m b p = (st.resolve p >>= fun x => x.2.emit m b x.1.opcode.mnemonic x.1.operands) := by
  rw [emit, lower_eq]
  cases st.resolve p <;> rfl

end Source

namespace Instr

open Source (Stmt)

/-- Decoding matches operand lists with instructions one to one. A mnemonic and operands are decoded to an instruction exactly if
they are its own; if they are what the operation of the builder for it hands to a backend; and if they are what a statement that
resolves to it is handed over under when it is elaborated. All else is refused, with the one error that says what is wrong first.
-/
theorem decode_spec (mnemonic : String) (operands : List Operand) :
    (∀ i, decode mnemonic operands = .ok i ↔ mnemonic = i.opcode.mnemonic ∧ operands = i.operands) ∧
    (∀ (i : Instr) (s : Site) (x : BuildM Recorder Rejected Site), s.IsOperation i x →
      (decode mnemonic operands = .ok i ↔ (x.run.run {}).2.calls = [.emit s.method s.block mnemonic operands])) ∧
    (∀ (p : Program) (st : Stmt),
      (∀ i q, st.resolve p = .ok (i, q) →
        (decode mnemonic operands = .ok i ↔ ∃ op : Opcode, op.mnemonic = mnemonic ∧ st.lower p = .ok ((op, operands), q))) ∧
      ∀ m b, st.emit m b p = (st.lower p >>= fun x => x.2.emit m b x.1.1.mnemonic x.1.2)) ∧
    (∀ e : DecodeError, decode mnemonic operands = .error e ↔ e.Explains mnemonic operands) := by
  refine ⟨fun i => decode_eq_ok_iff, ?_, ?_, fun e => decode_eq_error_iff⟩
  · intro i s x hx
    rw [hx.calls_eq, decode_eq_ok_iff]
    simp [eq_comm]
  · intro p st
    refine ⟨?_, fun m b => rfl⟩
    intro i q hi
    rw [Stmt.lower_eq, hi, decode_eq_ok_iff]
    constructor
    · rintro ⟨rfl, rfl⟩
      exact ⟨i.opcode, rfl, rfl⟩
    · rintro ⟨op, rfl, h⟩
      cases h
      exact ⟨rfl, rfl⟩

/-- A program with one method, that takes no arguments. -/
def loneMethod : Program where
  methods := [{ name := "main", returnType := ⟨0⟩, params := [] }]

/-- A call is decoded from the operands that the builder hands over, here with a block of the callee for the target, and that a
statement with the callee's name is handed over under. With anything else among its arguments it is refused for the first that is
no register. -/
theorem decode_call :
    decode "call" [.register 1, .method ⟨0⟩, .list [.register 4, .register 2]] = .ok (.call 1 ⟨0⟩ [4, 2]) ∧
      ((Site.call ⟨⟨3⟩, ⟨1⟩⟩ 1 (.site ⟨⟨0⟩, ⟨5⟩⟩) [4, 2] : BuildM Recorder Rejected Site).run.run {}).2.calls =
        [.emit ⟨3⟩ ⟨1⟩ "call" [.register 1, .method ⟨0⟩, .list [.register 4, .register 2]]] ∧
      (∃ op : Opcode, op.mnemonic = "call" ∧ (Stmt.call 1 "main" [4, 2]).lower loneMethod =
        .ok ((op, [.register 1, .method ⟨0⟩, .list [.register 4, .register 2]]), loneMethod)) ∧
      decode "call" [.register 1, .method ⟨0⟩, .list [.register 4, .absent, .index 7]] =
        .error (.operandKind .call 2 .register .absent) := by
  obtain ⟨hok, hbuilder, hsource, -⟩ := decode_spec "call" [.register 1, .method ⟨0⟩, .list [.register 4, .register 2]]
  obtain ⟨-, -, -, herror⟩ := decode_spec "call" [.register 1, .method ⟨0⟩, .list [.register 4, .absent, .index 7]]
  have hcall := (hok (.call 1 ⟨0⟩ [4, 2])).2 ⟨rfl, rfl⟩
  refine ⟨hcall, ?_, ?_, ?_⟩
  · exact (hbuilder _ ⟨⟨3⟩, ⟨1⟩⟩ _ (.call 1 (.site ⟨⟨0⟩, ⟨5⟩⟩) [4, 2])).1 hcall
  · exact ((hsource loneMethod (.call 1 "main" [4, 2])).1 (.call 1 ⟨0⟩ [4, 2]) loneMethod rfl).1 hcall
  · exact (herror _).2 ⟨rfl, rfl, by decide⟩

end Instr

end Straightline
