import Straightline.Proofs.ReadTrees
import Straightline.Source.Parse

/-!
# Where a statement ends

Registers and keywords are read up to the end of a word: no character that may stand in an identifier follows them. A numeral, as
the index of a parameter or as a constant, is read up to its last digit only, and what follows may go on with the word: from
`ld_param 0abc:` the index `0` is read, and `abc` is left to be a label. What a reader leaves goes through the ways of making
readers (`Reader.Leaves`). Main statement: a statement that is no call ends where a word does, unless it ends in a numeral, and
then it is read before any text that does not start with a digit (`Grammar.stmt_word_end`).
-/

namespace Straightline

namespace Reader

variable {α β : Type} {P : List Char → Prop} {Q : α → List Char → Prop} {p q : Reader α}

/-- From a text of `P`, a reader that is done leaves a text of `Q`. -/
def Leaves (P : List Char → Prop) (p : Reader α) (Q : α → List Char → Prop) : Prop := ∀ s a r, P s → p s = .done a r → Q a r

/-- A value alone leaves the text as it is. -/
theorem leaves_pure {a : α} (h : ∀ s, P s → Q a s) : Leaves P (pure a) Q := by
  intro s b r hs hb
  cases hb
  exact h s hs

/-- The second of two readers starts from what the first one leaves. -/
theorem Leaves.bind {f : α → Reader β} {R : β → List Char → Prop} (hp : Leaves P p Q) (hf : ∀ a, Leaves (Q a) (f a) R) :
    Leaves P (p >>= f) R := by
  intro s b t hs h
  obtain ⟨a, r, ha, hb⟩ := bind_eq_done_iff.1 h
  exact hf a r b t (hp s a r hs ha) hb

/-- What the second of two readers leaves, whatever the first one does. -/
theorem leaves_bind {f : α → Reader β} {R : β → List Char → Prop} (hf : ∀ a, Leaves (fun _ => True) (f a) R) :
    Leaves P (p >>= f) R :=
  Leaves.bind (fun _ _ _ _ _ => trivial) hf

/-- A choice leaves what both readers leave. -/
theorem Leaves.orElse (hp : Leaves P p Q) (hq : Leaves P q Q) : Leaves P (orElse p q) Q := by
  intro s a r hs h
  rw [Reader.orElse] at h
  split at h
  · next a' r' hdone =>
    cases h
    exact hp s a r hs hdone
  · exact hq s a r hs h

/-- An attempt that is given up leaves the text as it is. -/
theorem Leaves.maybe {Q : Option α → List Char → Prop} (hp : Leaves P p fun a => Q (some a)) (hnone : ∀ s, P s → Q none s) :
    Leaves P (maybe p) Q := by
  intro s a r hs h
  rw [Reader.maybe] at h
  split at h
  · next a' r' hdone =>
    cases h
    exact hp s a' r hs hdone
  · cases h
    exact hnone s hs

/-- Looking ahead leaves the text as it is. -/
theorem leaves_notAhead : Leaves P (notAhead p) fun _ => P := by
  intro s a r hs h
  rw [notAhead] at h
  split at h
  · cases h
  · cases h
    exact hs

/-- A run of a class is read up to its end. -/
theorem leaves_run1 {k : Char → Bool} : Leaves P (run1 k) fun _ => Stops k := by
  intro s w r _ h
  exact (eq_append_of_run1 h).2.2

/-- What is left does not change with what a partial function makes of the value. -/
theorem Leaves.filterMap {f : α → Option β} {R : β → List Char → Prop} (hp : Leaves P p Q)
    (hf : ∀ a b r, f a = some b → Q a r → R b r) : Leaves P (filterMap p f) R := by
  intro s b r hs h
  obtain ⟨a, hdone, hab⟩ := exists_done_of_filterMap h
  exact hf a b r hab (hp s a r hs hdone)

/-- A text does not start with a character of the class without any. -/
theorem stops_none (s : List Char) : Stops (fun _ => false) s := by
  cases s with
  | nil => trivial
  | cons c cs => exact rfl

end Reader

open Reader
open Source (Stmt)

/-! ## What goes on with a statement -/

/-- The characters that go on with a constant as it is read: digits, or after a truth value all that may stand in an identifier.
-/
def Constant.goesOn : Constant → Char → Bool
  | .bool _ => isIdentRest
  | _ => Char.isDigit

namespace Source

/-- The characters that go on with the last word of a statement as it is read. A call ends in a mark, with which nothing goes on.
-/
def Stmt.goesOn : Stmt → Char → Bool
  | .loadParam .. => Char.isDigit
  | .loadConst _ _ c => c.goesOn
  | .call .. => fun _ => false
  | _ => isIdentRest

/-- A statement ends in a numeral: it loads a parameter, or a constant that is no truth value. -/
def Stmt.EndsInNumeral : Stmt → Prop
  | .loadParam .. => True
  | .loadConst _ _ (.bool _) => False
  | .loadConst .. => True
  | _ => False

theorem Stmt.goesOn_of_numeral {i : Stmt} (h : i.EndsInNumeral) : i.goesOn = Char.isDigit := by
  cases i with
  | loadParam r k => rfl
  | loadConst r t c =>
    cases c with
    | bool b => exact absurd h id
    | _ => rfl
  | _ => exact absurd h id

theorem Stmt.goesOn_of_word {i : Stmt} (h : ¬i.EndsInNumeral) (hcall : ∀ r callee args, i ≠ .call r callee args) :
    i.goesOn = isIdentRest := by
  cases i with
  | loadParam r k => exact absurd trivial h
  | loadConst r t c =>
    cases c with
    | bool b => rfl
    | _ => exact absurd trivial h
  | call r callee args => exact absurd rfl (hcall r callee args)
  | _ => rfl

end Source

namespace Grammar

variable {P : List Char → Prop} {s rest : List Char}

/-! ## Readers stop at the end of a word -/

theorem wordEnd_leaves : Leaves P wordEnd fun _ => Stops isIdentRest := by
  intro s a r _ h
  exact (stops_of_wordEnd h).2

theorem keyword_leaves (w : String) : Leaves P (keyword w) fun _ => Stops isIdentRest := leaves_bind fun _ => wordEnd_leaves

theorem register_leaves : Leaves P register fun _ => Stops isIdentRest :=
  leaves_bind fun _ => wordEnd_leaves.bind fun _ => leaves_pure fun _ => id

theorem word32_leaves : Leaves P word32 fun _ => Stops Char.isDigit := leaves_run1.filterMap fun _ _ _ _ => id

/-- A numeral stands for a number and no truth value. -/
theorem goesOn_of_numeralOf? {n : Option Unit × List Char} {c : Constant} (h : numeralOf? n = some c) :
    c.goesOn = Char.isDigit := by
  cases c with
  | bool b =>
    obtain ⟨sign, ds⟩ := n
    cases sign <;> simp only [numeralOf?, unsignedOf?, negativeOf?] at h <;> split at h <;> simp at h
  | _ => rfl

theorem literal_leaves : Leaves P literal fun c => Stops c.goesOn := by
  have hnumeral : Leaves P numeral fun _ => Stops Char.isDigit :=
    leaves_bind fun _ => leaves_run1.bind fun _ => leaves_pure fun _ => id
  refine Leaves.orElse ((keyword_leaves "true").bind fun _ => leaves_pure fun _ => id) ?_
  refine Leaves.orElse ((keyword_leaves "false").bind fun _ => leaves_pure fun _ => id) ?_
  refine hnumeral.filterMap fun n c r hc hr => ?_
  rw [goesOn_of_numeralOf? hc]
  exact hr

/-- A return without a value ends at the keyword, also where what follows was looked at. -/
theorem retStmt_leaves : Leaves P retStmt fun i => Stops i.goesOn := by
  have hvalue : Leaves (Stops isIdentRest) (maybe (do gap1; register)) fun _ => Stops isIdentRest :=
    Leaves.maybe (leaves_bind fun _ => register_leaves) fun _ => id
  exact (keyword_leaves "ret").bind fun _ => leaves_notAhead.bind fun _ => hvalue.bind fun _ => leaves_pure fun _ => id

theorem operation_leaves (result : Register) (op : Operation) : Leaves P (operation result op) fun i => Stops i.goesOn := by
  cases op with
  | add => exact leaves_bind fun a => leaves_bind fun _ => register_leaves.bind fun b => leaves_pure fun _ => id
  | loadParam => exact word32_leaves.bind fun index => leaves_pure fun _ => id
  | loadConst => exact leaves_bind fun type => leaves_bind fun _ => literal_leaves.bind fun value => leaves_pure fun _ => id
  | call =>
    refine leaves_bind fun callee => leaves_bind fun _ => leaves_bind fun _ => leaves_bind fun _ => ?_
    exact leaves_bind fun args => leaves_bind fun _ => leaves_bind fun _ => leaves_pure fun s _ => stops_none s

/-- What a statement leaves does not go on with its last word. -/
theorem stmt_leaves : Leaves P stmt fun i => Stops i.goesOn := by
  refine Leaves.orElse retStmt_leaves ?_
  refine leaves_bind fun result => leaves_bind fun _ => leaves_bind fun _ => leaves_bind fun _ => ?_
  exact leaves_bind fun op => operation_leaves result op

/-! ## Numerals stop at their last digit -/

/-- A constant is read before any text that does not go on with it. -/
theorem literal_of_stops {c : Constant} (hrest : Stops c.goesOn rest) : literal (c.chars ++ rest) = .done c.canonical rest := by
  cases c with
  | int v => exact literal_int v hrest
  | uint v => exact literal_of_numeral none hrest (unsignedOf?_digits v)
  | bool b => exact literal_append (.bool b) hrest

/-- A statement that ends in a numeral is read before any text that does not start with a digit. -/
theorem exists_read_of_numeral {i : Stmt} (hi : i.EndsInNumeral) (hcanonical : i.canonical = i)
    (hrest : Stops Char.isDigit rest) : ∃ s, stmt s = .done i rest := by
  rw [← Stmt.goesOn_of_numeral hi] at hrest
  cases i with
  | loadParam r k =>
    have hread : operation r .loadParam (Decimal.digits k.toNat ++ rest) = .done (.loadParam r k) rest :=
      bind_of_done (word32_append k hrest) rfl
    exact ⟨_, (OperandsText.loadParam k rest).read_assign ⟨_, rfl, hread⟩ gap_nil gap_nil gap_space (by simp)⟩
  | loadConst r t c =>
    have hread : operation r .loadConst (t.nameChars ++ ([' '] ++ (c.chars ++ rest))) =
        .done (.loadConst r t c.canonical) rest := by
      refine bind_of_done (typeName_append t (gap_space.stops_of_ne_nil (by simp))) ?_
      refine bind_of_done (gap1_append gap_space (by simp) (stops_constant c rest)) ?_
      exact bind_of_done (literal_of_stops hrest) rfl
    have hc : c.canonical = c := (Stmt.loadConst.inj hcanonical).2.2
    have htext := OperandsText.loadConst (r := r) t c rest gap_space (by simp)
    have hstmt := htext.read_assign ⟨_, rfl, hread⟩ gap_nil gap_nil gap_space (by simp)
    rw [hc] at hstmt
    exact ⟨_, hstmt⟩
  | _ => exact absurd hi id

/-- A statement that is no call and does not end in a numeral ends where a word does. One that ends in a numeral does not: what it
leaves may be any text that does not start with a digit, also one that goes on with the word. -/
theorem stmt_word_end {s rest : List Char} {i : Stmt} (h : stmt s = .done i rest)
    (hcall : ∀ r callee args, i ≠ .call r callee args) :
    (¬i.EndsInNumeral → Stops isIdentRest rest) ∧
      (i.EndsInNumeral → ∀ rest', (∃ s', stmt s' = .done i rest') ↔ Stops Char.isDigit rest') := by
  have hstops : ∀ s' rest', stmt s' = .done i rest' → Stops i.goesOn rest' :=
    fun s' rest' => stmt_leaves (P := fun _ => True) s' i rest' trivial
  refine ⟨fun hword => ?_, fun hi rest' => ⟨?_, exists_read_of_numeral hi (stmt_yields s i rest h)⟩⟩
  · rw [← Stmt.goesOn_of_word hword hcall]
    exact hstops s rest h
  · rintro ⟨s', hs'⟩
    rw [← Stmt.goesOn_of_numeral hi]
    exact hstops s' rest' hs'

/-- A return ends where its register does, and a parameter is loaded also before what starts like a label. -/
theorem stmt_word_end_ret :
    (stmt "ret r2\nabc:".toList = .done (.ret (some 2)) "\nabc:".toList ∧ Stops isIdentRest "\nabc:".toList) ∧
      stmt "r0 = ld_param 1".toList = .done (.loadParam 0 1) [] ∧ ∃ s, stmt s = .done (.loadParam 0 1) "abc:".toList := by
  have hret : stmt "ret r2\nabc:".toList = .done (.ret (some 2)) "\nabc:".toList := by decide +kernel
  have hload : stmt "r0 = ld_param 1".toList = .done (.loadParam 0 1) [] := by decide +kernel
  refine ⟨⟨hret, (stmt_word_end hret fun r callee args h => ?_).1 id⟩, hload, ?_⟩
  · cases h
  · refine ((stmt_word_end hload fun r callee args h => ?_).2 trivial "abc:".toList).2 rfl
    cases h

/-- A method with one label, and a word after an index that goes on like a second one. -/
def runOnIndex : String :=
  "program \x7b\n    method %f(i8) -> i8 \x7b\n    entry:\n        r0 = ld_param 0abc:\n        ret r0\n    \x7d\n\x7d\n"

/-- The index of a parameter is split off the front of a longer word, and the rest of the word becomes a label of its own. In the
place of the index, a register is not split off. -/
theorem stmt_splits_word :
    stmt "r0 = ld_param 0abc:".toList = .done (.loadParam 0 0) "abc:".toList ∧ ¬Stops isIdentRest "abc:".toList ∧
      Fails stmt "r1 = add r0, r0abc:".toList ∧
      (Program.parse runOnIndex).toOption.map (fun p => p.methods.map fun d => d.blocks.map (·.name)) =
        some [["entry", "abc"]] := by
  refine ⟨by decide +kernel, fun h => ?_, ⟨"abc:".toList, by decide +kernel⟩, by decide +kernel⟩
  cases h

end Grammar

end Straightline
