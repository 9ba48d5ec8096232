import Straightline.Program.Checked

/-!
# How a checked computation ends

A computation that may be refused ends with a value or with an error, and `Ends P Q x` says what is known of either. What is known
goes through sequences (`Ends.bind`) and through loops (`Ends.foldlM`): a loop carries an invariant of the items it has done. A
computation over a state comes to a state as well, and that has not changed in a refusal if all checks come before the first write
(`BuildM.Atomic`).
-/

namespace Straightline

variable {ε ε' α β : Type}

/-! ## Success -/

/-- A computation that has a value succeeds with it. -/
theorem eq_ok_of_toOption {x : Except ε α} {a : α} (h : x.toOption = some a) : x = .ok a := by
  cases x with
  | error e => cases h
  | ok b => exact congrArg Except.ok (Option.some.inj h)

/-- Two steps in a row succeed when the first one does and the second one does on its value. -/
theorem bind_eq_ok_iff {x : Except ε α} {f : α → Except ε β} {b : β} :
    x >>= f = .ok b ↔ ∃ a, x = .ok a ∧ f a = .ok b := by
  cases x with
  | ok a =>
    refine ⟨fun h => ⟨a, rfl, h⟩, ?_⟩
    rintro ⟨a', ha, h⟩
    cases ha
    exact h
  | error e =>
    refine ⟨fun h => ?_, ?_⟩
    · nomatch h
    · rintro ⟨a, ha, -⟩
      nomatch ha

/-- A check and a second step succeed when the check passes and the second step does. -/
theorem check_bind_eq_ok_iff {x : Except ε Unit} {f : Unit → Except ε β} {b : β} :
    x >>= f = .ok b ↔ x = .ok () ∧ f () = .ok b := by
  rw [bind_eq_ok_iff]
  refine ⟨?_, fun ⟨hx, hf⟩ => ⟨(), hx, hf⟩⟩
  rintro ⟨⟨⟩, hx, hf⟩
  exact ⟨hx, hf⟩

/-- A value that is mapped succeeds with the image of a value. -/
theorem map_eq_ok_iff {x : Except ε α} {f : α → β} {b : β} : f <$> x = .ok b ↔ ∃ a, x = .ok a ∧ f a = b := by
  cases x with
  | ok a =>
    refine ⟨fun h => ⟨a, rfl, Except.ok.inj h⟩, ?_⟩
    rintro ⟨a', ha, rfl⟩
    cases ha
    rfl
  | error e =>
    refine ⟨fun h => ?_, ?_⟩
    · nomatch h
    · rintro ⟨a, ha, -⟩
      nomatch ha

/-- Renaming an error changes no success. -/
theorem mapError_eq_ok_iff {x : Except ε α} {f : ε → ε'} {a : α} : x.mapError f = .ok a ↔ x = .ok a := by
  cases x with
  | ok a' => exact ⟨fun h => congrArg Except.ok (Except.ok.inj h), fun h => congrArg Except.ok (Except.ok.inj h)⟩
  | error e => exact ⟨fun h => (nomatch h), fun h => (nomatch h)⟩

/-- A check of every item of a list succeeds when it succeeds on each of them. -/
theorem forM_eq_ok_iff {f : α → Except ε Unit} {l : List α} : l.forM f = .ok () ↔ ∀ a ∈ l, f a = .ok () := by
  induction l with
  | nil => exact ⟨fun _ a ha => absurd ha List.not_mem_nil, fun _ => rfl⟩
  | cons a l ih =>
    rw [show (a :: l).forM f = (f a >>= fun _ => l.forM f) from rfl, check_bind_eq_ok_iff, ih, List.forall_mem_cons]

/-! ## Success and failure -/

/-- A computation ends with a value of `P` or with an error of `Q`. -/
def Ends (P : α → Prop) (Q : ε → Prop) : Except ε α → Prop
  | .ok a => P a
  | .error e => Q e

namespace Ends

variable {P P' : α → Prop} {Q Q' : ε → Prop} {x : Except ε α}

/-- What is known of a value that a computation ends with. -/
theorem of_ok {a : α} (h : Ends P Q x) (hx : x = .ok a) : P a := by
  subst hx
  exact h

/-- What is known of an error that a computation ends with. -/
theorem of_error {e : ε} (h : Ends P Q x) (hx : x = .error e) : Q e := by
  subst hx
  exact h

/-- A computation ends somehow. -/
theorem anyhow (x : Except ε α) : Ends (fun _ => True) (fun _ => True) x := by
  cases x with
  | ok a => exact trivial
  | error e => exact trivial

/-- A computation that ends with no error ends with a value. -/
theorem exists_ok (h : Ends P Q x) (hQ : ∀ e, ¬Q e) : ∃ a, x = .ok a ∧ P a := by
  cases x with
  | ok a => exact ⟨a, rfl, h⟩
  | error e => exact absurd h (hQ e)

/-- What is known may be weakened. -/
theorem imp (h : Ends P Q x) (hP : ∀ a, P a → P' a) (hQ : ∀ e, Q e → Q' e) : Ends P' Q' x := by
  cases x with
  | ok a => exact hP a h
  | error e => exact hQ e h

/-- The second of two steps starts from what is known of the first one. -/
theorem bind {R : β → Prop} {f : α → Except ε β} (h : Ends P Q x) (hf : ∀ a, P a → Ends R Q (f a)) :
    Ends R Q (x >>= f) := by
  cases x with
  | ok a => exact hf a h
  | error e => exact h

/-- A loop keeps an invariant `I` of the items done and the value reached if each round keeps it. -/
theorem foldlM {f : β → α → Except ε β} {I : List α → β → Prop} {l : List α} {b : β} (h₀ : I [] b)
    (hstep : ∀ done a todo b, l = done ++ a :: todo → I done b → Ends (I (done ++ [a])) Q (f b a)) :
    Ends (I l) Q (l.foldlM f b) := by
  -- the loop from its middle on, with the items done so far in front
  have go : ∀ (todo done : List α) (b : β), l = done ++ todo → I done b → Ends (I l) Q (todo.foldlM f b) := by
    intro todo
    induction todo with
    | nil =>
      intro done b hl hb
      rw [List.append_nil] at hl
      subst hl
      exact hb
    | cons a todo ih =>
      intro done b hl hb
      rw [List.foldlM_cons]
      refine (hstep done a todo b hl hb).bind fun b' hb' => ih (done ++ [a]) b' ?_ hb'
      rw [hl, List.append_assoc, List.singleton_append]
  exact go l [] b rfl h₀

/-- A computation on each item of a list ends with as many values if it ends with a value on each of them. -/
theorem mapM {f : α → Except ε β} {l : List α} (h : ∀ a ∈ l, Ends (fun _ => True) Q (f a)) :
    Ends (fun bs => bs.length = l.length) Q (l.mapM f) := by
  induction l with
  | nil => exact rfl
  | cons a l ih =>
    rw [List.mapM_cons]
    refine (h a List.mem_cons_self).bind fun b _ => ?_
    refine (ih fun a' ha' => h a' (List.mem_cons_of_mem a ha')).bind fun bs hbs => ?_
    show (b :: bs).length = (a :: l).length
    rw [List.length_cons, List.length_cons, hbs]

end Ends

/-! ## Computations over a state -/

namespace BuildM

variable {σ : Type} {x : BuildM σ ε α}

/-- What a computation comes to when its value is renamed. -/
theorem run_map (f : α → β) (x : BuildM σ ε α) (s : σ) :
    (f <$> x : BuildM σ ε β).run.run s = (f <$> (x.run.run s).1, (x.run.run s).2) := by
  simp only [Functor.map, ExceptT.map, ExceptT.run, ExceptT.mk, StateT.run, bind, StateT.bind]
  generalize x s = r
  obtain ⟨a, s'⟩ := r
  cases a <;> rfl

/-- The outcome has a value exactly if the computation does. -/
theorem outcome_eq_ok_iff {s t : σ} {a : α} : x.outcome s = .ok (a, t) ↔ x.run.run s = (.ok a, t) := by
  unfold outcome
  generalize x.run.run s = r
  obtain ⟨b, s'⟩ := r
  constructor
  · intro h
    cases b with
    | ok b =>
      cases h
      rfl
    | error e => cases h
  · intro h
    cases h
    rfl

/-- A computation whose value is renamed has a value exactly if it has an outcome, and then the name of it. -/
theorem run_map_eq_ok_iff {f : α → β} {s t : σ} {b : β} :
    (f <$> x : BuildM σ ε β).run.run s = (.ok b, t) ↔ ∃ a, x.outcome s = .ok (a, t) ∧ f a = b := by
  simp only [outcome_eq_ok_iff]
  rw [run_map]
  generalize x.run.run s = r
  obtain ⟨y, s'⟩ := r
  constructor
  · intro h
    cases y with
    | ok a =>
      cases h
      exact ⟨a, rfl, rfl⟩
    | error e => cases h
  · rintro ⟨a, ha, rfl⟩
    cases ha
    rfl

/-- What a computation is answered with, renamed, is that of its outcome. -/
theorem fst_run_map (f : α → β) (x : BuildM σ ε α) (s : σ) :
    ((f <$> x : BuildM σ ε β).run.run s).1 = (x.outcome s).map fun r => f r.1 := by
  rw [run_map, outcome]
  generalize x.run.run s = r
  obtain ⟨b, s'⟩ := r
  cases b <;> rfl

/-- A computation that looks at the state first. -/
theorem outcome_get_bind (f : σ → BuildM σ ε α) (s : σ) : outcome (get >>= f) s = outcome (f s) s := rfl

/-- A computation that makes a check first. -/
theorem outcome_check_bind (c : Except ε α) (f : α → BuildM σ ε β) (s : σ) :
    outcome (liftM c >>= f) s = c >>= fun a => outcome (f a) s := by
  cases c <;> rfl

/-- No refusal of a computation has changed the state. -/
def Atomic (x : BuildM σ ε α) : Prop := ∀ s e, (x.run.run s).1 = .error e → (x.run.run s).2 = s

namespace Atomic

/-- The state may be looked at first. -/
theorem get_bind {f : σ → BuildM σ ε α} (h : ∀ s, Atomic (f s)) : Atomic (get >>= f) := fun s => h s s

/-- A check may be made first. -/
theorem check_bind {c : Except ε α} {f : α → BuildM σ ε β} (h : ∀ a, Atomic (f a)) : Atomic (liftM c >>= f) := by
  cases c with
  | ok a => exact h a
  | error e => exact fun s e' _ => rfl

/-- A write that comes last is not refused any more. -/
theorem write (f : σ → α × σ) : Atomic (modifyGet f : BuildM σ ε α) := by
  intro s e h
  cases h

/-- A refusal after a write leaves it written. -/
example : (do modify (· + 1); throw () : BuildM Nat Unit Unit).run.run 0 = (.error (), 1) := rfl

/-- The value may be renamed. -/
theorem map (h : Atomic x) (f : α → β) : Atomic (f <$> x) := by
  intro s e he
  rw [run_map] at he ⊢
  refine h s e ?_
  cases hx : (x.run.run s).1 with
  | ok a =>
    rw [hx] at he
    cases he
  | error e' =>
    rw [hx] at he
    cases he
    rfl

end Atomic

end BuildM

end Straightline
