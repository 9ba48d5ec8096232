import Straightline.Proofs.Growth

/-!
# Interleaved building

The bodies of several methods may be built in turns. A call that adds to a body, or that sets the entry, belongs to a strand
(`Call.strand?`), and it looks at no more than the heads of the methods and what its own strand has made: its answer and its
effect are the same in two programs that agree on that (`Program.AgreeOn.reply`, `Program.AgreeOn.next`), and it changes nothing
that another strand looks at (`Program.agreeOn_next_of_ne`). So each strand of a run goes as if it were alone
(`Program.AgreeOn.alone`). Main statement: two runs that have the same strands give each call the same answer and end in the same
program (`Program.after_interleaved`).
-/

namespace Straightline

/-! ## Strands -/

/-- What a call adds to, where it does not declare a method or resolve a type: the body of a method, or the choice of the entry.
-/
inductive Strand where
  | body (m : MethodRef)
  | entry
  deriving DecidableEq, Repr

/-- The strand of a call. -/
def Call.strand? : Call → Option Strand
  | .declareBlock m _ => some (.body m)
  | .emit m _ _ _ => some (.body m)
  | .setEntry _ => some .entry
  | .resolveType _ => none
  | .declareMethod _ _ _ => none

/-- A run of calls is an interleaving of some sequences of calls, one for each strand: it consists of their calls, and those of a
strand stand in the order of its sequence. -/
structure Interleaves (seqs : Strand → List Call) (cs : List Call) : Prop where
  strands : ∀ c ∈ cs, ∃ k, c.strand? = some k
  order : ∀ k, cs.filter (fun c => c.strand? = some k) = seqs k

/-- A method without its body. -/
def Method.head (d : Method) : Method := { d with blocks := [] }

namespace Program

/-- The calls of a run, each with the answer it is given. -/
def exchange (p : Program) (cs : List Call) : List (Call × Except BuildError Answer) := cs.zip (Backend.performAll p cs).1

theorem exchange_cons (p : Program) (c : Call) (cs : List Call) :
    p.exchange (c :: cs) = (c, p.reply c) :: (p.next c).exchange cs := rfl

/-! ## Agreement -/

/-- Two programs have the same types and the same methods up to their bodies. -/
structure SameHeads (p q : Program) : Prop where
  types : p.types = q.types
  methods : p.methods.map Method.head = q.methods.map Method.head

/-- Two programs have the same of what a strand adds to. -/
def SamePart (p q : Program) : Strand → Prop
  | .body m => p.method? m = q.method? m
  | .entry => p.entry = q.entry

/-- Two programs agree on all that the calls of a strand look at. -/
structure AgreeOn (k : Strand) (p q : Program) : Prop where
  heads : p.SameHeads q
  part : p.SamePart q k

variable {p q r : Program} {k : Strand} {c : Call}

theorem SameHeads.refl (p : Program) : p.SameHeads p := ⟨rfl, rfl⟩

theorem SameHeads.symm (h : p.SameHeads q) : q.SameHeads p := ⟨h.types.symm, h.methods.symm⟩

theorem SameHeads.trans (h : p.SameHeads q) (h' : q.SameHeads r) : p.SameHeads r :=
  ⟨h.types.trans h'.types, h.methods.trans h'.methods⟩

theorem AgreeOn.refl (k : Strand) (p : Program) : AgreeOn k p p := by
  refine ⟨SameHeads.refl p, ?_⟩
  cases k <;> exact rfl

theorem AgreeOn.symm (h : AgreeOn k p q) : AgreeOn k q p := by
  refine ⟨h.heads.symm, ?_⟩
  have hpart := h.part
  cases k <;> exact Eq.symm hpart

theorem AgreeOn.trans (h : AgreeOn k p q) (h' : AgreeOn k q r) : AgreeOn k p r := by
  refine ⟨h.heads.trans h'.heads, ?_⟩
  have hpart := h.part
  have hpart' := h'.part
  cases k <;> exact Eq.trans hpart hpart'

/-- Where the heads are the same, a reference leads to methods with the same head, or to none. -/
theorem SameHeads.method? (h : p.SameHeads q) (m : MethodRef) :
    (p.method? m).map Method.head = (q.method? m).map Method.head := by
  rw [Program.method?, Program.method?, ← List.getElem?_map, ← List.getElem?_map, h.methods]

/-- Where the heads are the same, a method that one program has is in the other with the same name and parameters. -/
theorem SameHeads.exists_method? (h : p.SameHeads q) {m : MethodRef} {d : Method} (hm : p.method? m = some d) :
    ∃ e, q.method? m = some e ∧ e.name = d.name ∧ e.params = d.params := by
  have hhead := h.method? m
  rw [hm] at hhead
  obtain ⟨e, he, hed⟩ := Option.map_eq_some_iff.1 hhead.symm
  have hname : e.head.name = d.head.name := congrArg Method.name hed
  have hparams : e.head.params = d.head.params := congrArg Method.params hed
  exact ⟨e, he, hname, hparams⟩

/-- Where the heads are the same, a method that one program does not have is not in the other. -/
theorem SameHeads.method?_eq_none (h : p.SameHeads q) {m : MethodRef} (hm : p.method? m = none) : q.method? m = none := by
  have hhead := h.method? m
  rw [hm] at hhead
  exact Option.map_eq_none_iff.1 hhead.symm

/-! ## What a call changes -/

/-- A change of the body of one method keeps the heads. -/
theorem sameHeads_edit (p : Program) (m : MethodRef) {f : Method → Method} (hf : ∀ d : Method, (f d).head = d.head) :
    p.SameHeads (p.edit m f) := by
  refine ⟨rfl, List.ext_getElem? fun j => ?_⟩
  rw [List.getElem?_map, List.getElem?_map, getElem?_edit, Option.map_map]
  cases p.methods[j]? with
  | none => rfl
  | some d =>
    by_cases hj : m.index = j
    · simp [hj, hf]
    · simp [hj]

/-- What an accepted call of a strand makes of a program: it changes the body of the method it is about, or it sets the entry. -/
inductive Effect : Strand → (Program → Program) → Prop where
  | body (m : MethodRef) {f : Method → Method} (hf : ∀ d : Method, (f d).head = d.head) : Effect (.body m) fun p => p.edit m f
  | entry (m : MethodRef) : Effect .entry fun p => { p with entry := some m }

theorem accepted_next {a : Answer} (h : p.reply c = .ok a) : Accepted p c a (p.next c) := accepted_iff.2 ⟨h, rfl⟩

/-- A call of a strand has one effect wherever it is accepted. -/
theorem exists_effect (hc : c.strand? = some k) :
    ∃ e, Effect k e ∧ ∀ (p : Program) (a : Answer), p.reply c = .ok a → p.next c = e p := by
  cases c with
  | resolveType t => cases hc
  | declareMethod name returnType params => cases hc
  | declareBlock m name =>
    cases hc
    refine ⟨_, .body m (f := fun d => (d.addBlock name).2) fun d => rfl, fun p a h => ?_⟩
    have ha := accepted_next h
    generalize p.next (.declareBlock m name) = q at ha
    cases ha
    rfl
  | emit m b mnemonic operands =>
    cases hc
    cases hi : Instr.decode mnemonic operands with
    | ok i =>
      refine ⟨_, .body m (f := fun d => d.push b i) fun d => rfl, fun p a h => ?_⟩
      have ha := accepted_next h
      generalize p.next (.emit m b mnemonic operands) = q at ha
      cases ha with
      | emit hm hb hi' hok =>
        rw [hi] at hi'
        cases hi'
        rfl
    | error e =>
      -- the call is accepted nowhere
      refine ⟨_, .body m (f := id) fun d => rfl, fun p a h => ?_⟩
      have ha := accepted_next h
      generalize p.next (.emit m b mnemonic operands) = q at ha
      cases ha with
      | emit hm hb hi' hok =>
        rw [hi] at hi'
        cases hi'
  | setEntry m =>
    cases hc
    refine ⟨_, .entry m, fun p a h => ?_⟩
    have ha := accepted_next h
    generalize p.next (.setEntry m) = q at ha
    cases ha
    rfl

/-- A call of a strand is refused or has the effect it has elsewhere. -/
theorem next_cases (hc : c.strand? = some k) : p.next c = p ∨ ∃ e, Effect k e ∧ p.next c = e p := by
  obtain ⟨e, he, hnext⟩ := exists_effect hc
  cases h : p.reply c with
  | error err => exact .inl (next_eq_self_of_reply_error h)
  | ok a => exact .inr ⟨e, he, hnext p a h⟩

/-- A call of a strand keeps the heads. -/
theorem sameHeads_next (hc : c.strand? = some k) : p.SameHeads (p.next c) := by
  rcases next_cases (p := p) hc with h | ⟨e, he, h⟩
  · rw [h]
    exact SameHeads.refl p
  · rw [h]
    cases he with
    | body m hf => exact sameHeads_edit p m hf
    | entry m => exact ⟨rfl, rfl⟩

/-- A call changes no method but the one whose body it adds to. -/
theorem getElem?_next (hc : c.strand? = some k) {j : Nat} (hj : ∀ m, k = .body m → m.index ≠ j) :
    (p.next c).methods[j]? = p.methods[j]? := by
  rcases next_cases (p := p) hc with h | ⟨e, he, h⟩
  · rw [h]
  · rw [h]
    cases he with
    | body m hf =>
      rw [getElem?_edit]
      simp [hj m rfl]
    | entry m => rfl

/-- A call changes nothing that another strand looks at. -/
theorem agreeOn_next_of_ne {k' : Strand} (hc : c.strand? = some k') (hne : k' ≠ k) : AgreeOn k p (p.next c) := by
  refine ⟨sameHeads_next hc, ?_⟩
  cases k with
  | body m =>
    refine (getElem?_next hc fun m' hm' hindex => hne ?_).symm
    rw [hm', show m' = m by rw [← Ref.ofIndex_index m', hindex, Ref.ofIndex_index]]
  | entry =>
    show p.entry = (p.next c).entry
    rcases next_cases (p := p) hc with h | ⟨e, he, h⟩
    · rw [h]
    · rw [h]
      cases he with
      | body m hf => rfl
      | entry m => exact absurd rfl hne

/-! ## What a call looks at -/

/-- Where the heads are the same, the same instructions are meaningful and others are refused for the same reason. -/
theorem SameHeads.checkInstr (h : p.SameHeads q) (d : Method) (i : Instr) : p.checkInstr d i = q.checkInstr d i := by
  cases i with
  | loadConst r t c =>
    have htype : p.type? t = q.type? t := by rw [type?, type?, h.types]
    simp only [Program.checkInstr, htype]
  | call r m args =>
    cases hm : p.method? m with
    | none =>
      have hm' := h.method?_eq_none hm
      simp only [Program.checkInstr, getMethod, hm, hm']
    | some e =>
      obtain ⟨e', he', hname, hparams⟩ := h.exists_method? hm
      simp only [Program.checkInstr, getMethod, hm, he']
      show ensure _ _ = ensure _ _
      rw [hname, hparams]
  | add r a b => rfl
  | loadParam r i => rfl
  | ret v => rfl

/-- Where the heads are the same, methods are called by the same name in errors. -/
theorem SameHeads.methodLabel (h : p.SameHeads q) (m : MethodRef) : p.methodLabel m = q.methodLabel m := by
  cases hm : p.method? m with
  | none => simp only [Program.methodLabel, hm, h.method?_eq_none hm]
  | some d =>
    obtain ⟨e, he, hname, -⟩ := h.exists_method? hm
    simp only [Program.methodLabel, hm, he, hname]

/-- Where the heads and the entry are the same, a method may or may not be the entry. -/
theorem SameHeads.checkEntry (h : p.SameHeads q) (he : p.entry = q.entry) {m : MethodRef} {d e : Method}
    (hname : e.name = d.name) : p.checkEntry m d = q.checkEntry m e := by
  unfold Program.checkEntry
  rw [he, hname]
  cases q.entry with
  | none => rfl
  | some current => simp only [h.methodLabel]

/-- Only whether there is an outcome shows in an answer that is always the same. -/
theorem map_snd_map {ε α β γ : Type} (x : Except ε (α × β)) (c : γ) : (Prod.snd <$> x).map (fun _ => c) = x.map fun _ => c := by
  cases x <;> rfl

theorem reply_declareBlock (p : Program) (m : MethodRef) (name : String) :
    p.reply (.declareBlock m name) = (p.declareBlock m name).map fun x => .block x.1 :=
  BuildM.fst_run_map _ _ p

theorem reply_emit (p : Program) (m : MethodRef) (b : BlockRef) (mnemonic : String) (operands : List Operand) :
    p.reply (.emit m b mnemonic operands) = (p.emit m b mnemonic operands).map fun _ => .done :=
  (BuildM.fst_run_map _ _ p).trans (map_snd_map _ Answer.done).symm

theorem reply_setEntry (p : Program) (m : MethodRef) : p.reply (.setEntry m) = (p.setEntry m).map fun _ => .done :=
  (BuildM.fst_run_map _ _ p).trans (map_snd_map _ Answer.done).symm

/-- Two sequences with the same first step show the same if their second steps do. -/
theorem map_bind_congr {ε α β γ : Type} {x : Except ε α} {f f' : α → Except ε β} {g : β → γ}
    (h : ∀ a, (f a).map g = (f' a).map g) : (x >>= f).map g = (x >>= f').map g := by
  cases x with
  | error e => rfl
  | ok a => exact h a

/-- Programs that agree on the body of a method find the same method. -/
theorem AgreeOn.getMethod_eq {m : MethodRef} (h : AgreeOn (.body m) p q) : p.getMethod m = q.getMethod m := by
  have hm : p.method? m = q.method? m := h.part
  rw [getMethod, getMethod, hm]

/-- Programs that agree on what a strand looks at give its calls the same answers. -/
theorem AgreeOn.reply (h : AgreeOn k p q) (hc : c.strand? = some k) : p.reply c = q.reply c := by
  cases c with
  | resolveType t => cases hc
  | declareMethod name returnType params => cases hc
  | declareBlock m name =>
    cases hc
    rw [reply_declareBlock, reply_declareBlock, declareBlock_eq, declareBlock_eq, h.getMethod_eq]
    exact map_bind_congr fun _ => map_bind_congr fun d => map_bind_congr fun _ => rfl
  | emit m b mnemonic operands =>
    cases hc
    rw [reply_emit, reply_emit, emit_eq, emit_eq, h.getMethod_eq]
    refine map_bind_congr fun d => map_bind_congr fun _ => map_bind_congr fun i => ?_
    rw [h.heads.checkInstr]
    exact map_bind_congr fun _ => rfl
  | setEntry m =>
    cases hc
    have hentry : p.entry = q.entry := h.part
    rw [reply_setEntry, reply_setEntry, setEntry_eq, setEntry_eq]
    cases hm : p.method? m with
    | none => simp only [getMethod, hm, h.heads.method?_eq_none hm, bind, Except.bind, Except.map]
    | some d =>
      obtain ⟨e, he, hname, -⟩ := h.heads.exists_method? hm
      rw [getMethod_eq_ok_iff.2 hm, getMethod_eq_ok_iff.2 he]
      show ((p.checkEntry m d >>= _).map _) = (q.checkEntry m e >>= _).map _
      rw [h.heads.checkEntry hentry hname]
      exact map_bind_congr fun _ => rfl

/-- Programs that agree on what a strand looks at still do so after one of its calls. -/
theorem AgreeOn.next (h : AgreeOn k p q) (hc : c.strand? = some k) : AgreeOn k (p.next c) (q.next c) := by
  refine ⟨(sameHeads_next hc).symm.trans (h.heads.trans (sameHeads_next hc)), ?_⟩
  have hreply := h.reply hc
  cases hq : q.reply c with
  | error e =>
    rw [next_eq_self_of_reply_error (hreply.trans hq), next_eq_self_of_reply_error hq]
    exact h.part
  | ok a =>
    obtain ⟨e, he, hnext⟩ := exists_effect hc
    rw [hnext p a (hreply.trans hq), hnext q a hq]
    cases he with
    | body m hf =>
      have hm : p.methods[m.index]? = q.methods[m.index]? := h.part
      show (p.edit m _).methods[m.index]? = (q.edit m _).methods[m.index]?
      rw [getElem?_edit, getElem?_edit, hm]
    | entry m => rfl

/-! ## Runs -/

/-- Each strand of a run goes as if it were alone: its calls are given the answers they are given without the others, and they
leave what they would leave. -/
theorem AgreeOn.alone (h : AgreeOn k p q) {cs : List Call} (hcs : ∀ c ∈ cs, ∃ k', c.strand? = some k') :
    (p.exchange cs).filter (fun x => x.1.strand? = some k) = q.exchange (cs.filter fun c => c.strand? = some k) ∧
      AgreeOn k (p.after cs) (q.after (cs.filter fun c => c.strand? = some k)) := by
  induction cs generalizing p q with
  | nil => exact ⟨rfl, h⟩
  | cons c cs ih =>
    obtain ⟨⟨k', hc⟩, hcs⟩ := List.forall_mem_cons.1 hcs
    by_cases hk : k' = k
    · subst hk
      obtain ⟨hexchange, hagree⟩ := ih (h.next hc) hcs
      simp only [exchange_cons, List.filter_cons, hc, decide_true, if_true, after_cons, h.reply hc, hexchange]
      exact ⟨trivial, hagree⟩
    · have hne : ¬(c.strand? = some k) := by simp [hc, hk]
      obtain ⟨hexchange, hagree⟩ := ih ((agreeOn_next_of_ne hc hk).symm.trans h) hcs
      simp only [exchange_cons, List.filter_cons, hne, decide_false, after_cons]
      exact ⟨hexchange, hagree⟩

/-- A method that no reference leads to is never changed. -/
theorem getElem?_after {cs : List Call} (hcs : ∀ c ∈ cs, ∃ k', c.strand? = some k') {j : Nat}
    (hj : ∀ m : MethodRef, m.index ≠ j) : (p.after cs).methods[j]? = p.methods[j]? := by
  induction cs generalizing p with
  | nil => rfl
  | cons c cs ih =>
    obtain ⟨⟨k, hc⟩, hcs⟩ := List.forall_mem_cons.1 hcs
    rw [after_cons, ih hcs, getElem?_next hc fun m _ => hj m]

/-- Two runs that interleave the same sequences of calls, each with those of its strand in their order, give each call the same
answer, be it a reference or an error, and end in the same program. This holds from any program on. -/
theorem after_interleaved (p : Program) {seqs : Strand → List Call} {cs ds : List Call} (hcs : Interleaves seqs cs)
    (hds : Interleaves seqs ds) :
    (∀ k, (p.exchange cs).filter (fun x => x.1.strand? = some k) = (p.exchange ds).filter (fun x => x.1.strand? = some k)) ∧
      p.after cs = p.after ds := by
  have hleft := fun k => (AgreeOn.refl k p).alone hcs.strands
  have hright := fun k => (AgreeOn.refl k p).alone hds.strands
  have hagree : ∀ k, AgreeOn k (p.after cs) (p.after ds) := by
    intro k
    have h := (hleft k).2
    rw [hcs.order, ← hds.order] at h
    exact h.trans (hright k).2.symm
  refine ⟨fun k => ?_, ?_⟩
  · rw [(hleft k).1, (hright k).1, hcs.order, hds.order]
  · have hmethods : (p.after cs).methods = (p.after ds).methods := by
      refine List.ext_getElem? fun j => ?_
      by_cases hj : ∃ m : MethodRef, m.index = j
      · obtain ⟨m, rfl⟩ := hj
        exact (hagree (.body m)).part
      · have hj' : ∀ m : MethodRef, m.index ≠ j := fun m hm => hj ⟨m, hm⟩
        rw [getElem?_after hcs.strands hj', getElem?_after hds.strands hj']
    have htypes := (hagree .entry).heads.types
    have hentry : (p.after cs).entry = (p.after ds).entry := (hagree .entry).part
    generalize p.after cs = p₁ at *
    generalize p.after ds = p₂ at *
    cases p₁
    cases p₂
    cases hmethods
    cases htypes
    cases hentry
    rfl

/-- Two methods without a body. -/
def twoHeads : Program := built [.resolveType ⟨true, 8⟩, .declareMethod "f" ⟨0⟩ [⟨0⟩], .declareMethod "g" ⟨0⟩ []]

/-- Both methods are built in turns. The first one calls the second one, a block is declared twice and the entry is set twice. -/
def inTurns : List Call :=
  [.declareBlock ⟨0⟩ "a", .declareBlock ⟨1⟩ "a", .emit ⟨0⟩ ⟨0⟩ "call" [.register 0, .method ⟨1⟩, .registers []], .setEntry ⟨0⟩,
    .emit ⟨1⟩ ⟨0⟩ "ret" [.absent], .declareBlock ⟨0⟩ "a", .setEntry ⟨1⟩]

/-- The same calls, strand by strand. -/
def oneByOne : List Call :=
  [.setEntry ⟨0⟩, .setEntry ⟨1⟩, .declareBlock ⟨1⟩ "a", .emit ⟨1⟩ ⟨0⟩ "ret" [.absent], .declareBlock ⟨0⟩ "a",
    .emit ⟨0⟩ ⟨0⟩ "call" [.register 0, .method ⟨1⟩, .registers []], .declareBlock ⟨0⟩ "a"]

/-- Both orders interleave the same three strands, two of the calls are refused in either, and the programs are the same: each
method has its one block with its one instruction, and the first setting of the entry holds. -/
theorem after_inTurns_eq_oneByOne :
    (Interleaves (fun k => inTurns.filter fun c => c.strand? = some k) inTurns ∧
        Interleaves (fun k => inTurns.filter fun c => c.strand? = some k) oneByOne) ∧
      ((twoHeads.exchange oneByOne).filter fun x => !x.2.isOk).length = 2 ∧ twoHeads.after inTurns = twoHeads.after oneByOne ∧
      (twoHeads.after inTurns).methods.map (fun d => d.blocks.map fun b => (b.name, b.instrs)) =
        [[("a", [.call 0 ⟨1⟩ []])], [("a", [.ret none])]] ∧
      (twoHeads.after inTurns).entry = some ⟨0⟩ := by
  have hstrands : ∀ cs ∈ [inTurns, oneByOne], ∀ c ∈ cs, ∃ k, c.strand? = some k := by
    simp [inTurns, oneByOne, Call.strand?]
  have horder : ∀ k, oneByOne.filter (fun c => c.strand? = some k) = inTurns.filter fun c => c.strand? = some k := by
    intro k
    cases k with
    | entry => rfl
    | body m =>
      by_cases h₀ : (⟨0⟩ : MethodRef) = m
      · subst h₀
        rfl
      · by_cases h₁ : (⟨1⟩ : MethodRef) = m
        · subst h₁
          rfl
        · simp [inTurns, oneByOne, Call.strand?, h₀, h₁]
  have hturns : Interleaves (fun k => inTurns.filter fun c => c.strand? = some k) inTurns :=
    ⟨hstrands inTurns (by simp), fun k => rfl⟩
  have hone : Interleaves (fun k => inTurns.filter fun c => c.strand? = some k) oneByOne :=
    ⟨hstrands oneByOne (by simp), horder⟩
  refine ⟨⟨hturns, hone⟩, ?_, (after_interleaved twoHeads hturns hone).2, ?_, ?_⟩
  · decide +kernel
  · decide +kernel
  · decide +kernel

end Program

end Straightline
