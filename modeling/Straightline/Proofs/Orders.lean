import Mathlib.Data.List.Forall2
import Straightline.Builder.Script
import Straightline.Proofs.Ends

/-!
# What a script asks of a backend

A step of a script looks its names up and then asks for calls: one call for each operation of the builder, in a chain one after
the other up to the first failure. `Step.order` is a step with its names looked up, `Order.calls` are the calls it asks for, and
`attemptAll` makes them. Main statement: this is all a step does, over any backend (`Step.perform_eq`). So two backends, or two
runs of one, are compared call by call, without regard to the kinds of steps.
-/

namespace Straightline

/-- The call that writes an instruction at a site. -/
def Site.writing (s : Site) (i : Instr) : Call := .emit s.method s.block i.opcode.mnemonic i.operands

namespace Script

/-! ## Look-ups

The look-up of a name fails alike over all backends, so that it can be said once, with errors that no backend has. -/

section Lookup

variable {ε α β : Type}

/-- A failed look-up as a failure over a backend. -/
def Error.lift : Error Empty → Error ε
  | .unbound name => .unbound name

/-- The value of a name is looked up alike over all backends. -/
theorem Env.lookup_lift (bindings : List (String × α)) (name : String) :
    (Env.lookup bindings name : Except (Error ε) α) = (Env.lookup bindings name).mapError Error.lift := by
  unfold Env.lookup
  cases bindings.lookup name <;> rfl

/-- A type is looked up alike over all backends. -/
theorem Env.type_lift (env : Env) (t : TypeArg) : (env.type t : Except (Error ε) TypeRef) = (env.type t).mapError Error.lift := by
  cases t with
  | named name => exact Env.lookup_lift _ _
  | ref t => rfl

/-- A target is looked up alike over all backends. -/
theorem Env.target_lift (env : Env) (t : TargetArg) :
    (env.target t : Except (Error ε) Target) = (env.target t).mapError Error.lift := by
  cases t with
  | method name =>
    rw [Env.target, Env.target, Env.lookup_lift]
    cases (Env.lookup env.methods name : Except (Error Empty) MethodRef) <;> rfl
  | block name =>
    rw [Env.target, Env.target, Env.lookup_lift]
    cases (Env.lookup env.blocks name : Except (Error Empty) Site) <;> rfl
  | ref m => rfl

/-- The types of a list are looked up alike over all backends. -/
theorem Env.types_lift (env : Env) (ts : List TypeArg) :
    (ts.mapM env.type : Except (Error ε) (List TypeRef)) = (ts.mapM env.type).mapError Error.lift := by
  induction ts with
  | nil => rfl
  | cons t ts ih =>
    rw [List.mapM_cons, List.mapM_cons, ih, Env.type_lift]
    cases (env.type t : Except (Error Empty) TypeRef) with
    | error e => rfl
    | ok r => cases (ts.mapM env.type : Except (Error Empty) (List TypeRef)) <;> rfl

/-- The types of a head are looked up alike over all backends. -/
theorem Env.signature_lift (env : Env) (returnType : TypeArg) (params : List TypeArg) :
    (env.signature returnType params : Except (Error ε) (TypeRef × List TypeRef)) =
      (env.signature returnType params).mapError Error.lift := by
  rw [Env.signature, Env.signature, Env.types_lift, Env.type_lift]
  cases (params.mapM env.type : Except (Error Empty) (List TypeRef)) with
  | error e => rfl
  | ok ps => cases (env.type returnType : Except (Error Empty) TypeRef) <;> rfl

end Lookup

/-! ## Orders -/

/-- The instruction that an emission writes. -/
def Emission.instr (env : Env) : Emission → Except (Error Empty) Instr
  | .add r a b => .ok (.add r a b)
  | .ldParam r i => .ok (.loadParam r i)
  | .ldConst r t c => (fun type => .loadConst r type c) <$> env.type t
  | .call r t args => (fun target => .call r target.ref args) <$> env.target t
  | .ret value => .ok (.ret value)

/-- A step with its names looked up. In a chain a name that is not bound only counts when its turn comes. -/
inductive Order where
  | method (bind name : String) (returnType : TypeRef) (params : List TypeRef)
  | block (bind : String) (method : MethodRef) (name : String)
  | emit (site : Site) (instr : Instr)
  | chain (site : Site) (instrs : List (Except (Error Empty) Instr))
  | setMain (method : MethodRef)

/-- A step with its names looked up, unless the step fails for one of them. -/
def Step.order (env : Env) : Step → Except (Error Empty) Order
  | .method bind name returnType params => (fun x => .method bind name x.1 x.2) <$> env.signature returnType params
  | .block bind owner name => (fun m => .block bind m name) <$> Env.lookup env.methods owner
  | .emit label e => do
    let s ← Env.lookup env.blocks label
    let i ← e.instr env
    return .emit s i
  | .chain label es => (fun s => .chain s (es.map fun e => e.instr env)) <$> Env.lookup env.blocks label
  | .setMain t => (fun target => .setMain target.ref) <$> env.target t

namespace Order

/-- The calls that a step asks for, one for each operation of the builder. -/
def calls : Order → List (Except (Error Empty) Call)
  | .method _ name returnType params => [.ok (.declareMethod name returnType params)]
  | .block _ m name => [.ok (.declareBlock m name)]
  | .emit s i => [.ok (s.writing i)]
  | .chain s is => is.map fun i => s.writing <$> i
  | .setMain m => [.ok (.setEntry m)]

variable {ε : Type}

/-- What a step comes to when its calls are answered. -/
def reply : Order → List Answer → Reply ε
  | .method .., [.method m] => .method m
  | .block _ m _, [.block b] => .site ⟨m, b⟩
  | .emit s _, _ => .site s
  | .chain s _, _ => .site s
  | _, _ => .done

/-- The names that are bound when the calls of a step are answered. -/
def bind (env : Env) : Order → List Answer → Env
  | .method name _ _ _, [.method m] => { env with methods := (name, m) :: env.methods }
  | .block name m _, [.block b] => { env with blocks := (name, ⟨m, b⟩) :: env.blocks }
  | _, _ => env

/-- What a step comes to when it fails after some answers. -/
def fail : Order → Nat → Error ε → Reply ε
  | .chain .., done, e => .broken done e
  | _, _, e => .failed e

/-- The builder resolves no types after its start. -/
theorem not_resolvesType {o : Order} {c : Call} (h : .ok c ∈ o.calls) : c.resolvesType = false := by
  cases o with
  | chain s is =>
    obtain ⟨x, -, hx⟩ := List.mem_map.1 h
    obtain ⟨i, -, rfl⟩ := map_eq_ok_iff.1 hx
    rfl
  | _ =>
    cases List.mem_singleton.1 h
    rfl

end Order

/-! ## Making the calls -/

section Running

variable {σ ε α : Type}

/-- What a builder operation comes to as part of a script. -/
theorem run_refusing (x : BuildM σ ε α) (st : σ) :
    (refusing x : BuildM σ (Error ε) α).run.run st = ((x.run.run st).1.mapError .refused, (x.run.run st).2) := rfl

end Running

variable {σ ε : Type} [Backend σ ε]

/-- Makes calls one after another, up to the first one that is refused or for which a name is not bound. -/
def attemptAll : List (Except (Error Empty) Call) → σ → (List Answer × Option (Error ε)) × σ
  | [], st => (([], none), st)
  | .error e :: _, st => (([], some e.lift), st)
  | .ok c :: cs, st =>
    match (Backend.perform c).run.run st with
    | (.error e, st') => (([], some (.refused e)), st')
    | (.ok a, st') => ((a :: (attemptAll cs st').1.1, (attemptAll cs st').1.2), (attemptAll cs st').2)

theorem attemptAll_of_ok {c : Call} {a : Answer} {st st' : σ} (h : (Backend.perform c).run.run st = (.ok a, st'))
    (cs : List (Except (Error Empty) Call)) :
    attemptAll (.ok c :: cs) st = ((a :: (attemptAll cs st').1.1, (attemptAll cs st').1.2), (attemptAll cs st').2) := by
  rw [attemptAll, h]

theorem attemptAll_of_error {c : Call} {e : ε} {st st' : σ} (h : (Backend.perform c).run.run st = (.error e, st'))
    (cs : List (Except (Error Empty) Call)) : attemptAll (.ok c :: cs) st = (([], some (.refused e)), st') := by
  rw [attemptAll, h]

/-- An operation of the builder at a site makes the one call that writes its instruction. -/
theorem run_refusing_emit (s : Site) (i : Instr) (st : σ) :
    (refusing (s.emit i.opcode i.operands) : BuildM σ (Error ε) Site).run.run st =
      (((fun _ => s) <$> ((Backend.perform (s.writing i)).run.run st).1).mapError .refused,
        ((Backend.perform (s.writing i)).run.run st).2) := by
  have hemit : (s.emit i.opcode i.operands : BuildM σ ε Site) =
      (fun _ => s) <$> Backend.emit s.method s.block i.opcode.mnemonic i.operands := rfl
  rw [run_refusing, hemit, BuildM.run_map, Site.writing, Backend.perform, BuildM.run_map]
  generalize ((Backend.emit s.method s.block i.opcode.mnemonic i.operands : BuildM σ ε Unit).run.run st).1 = a
  cases a <;> rfl

/-- Writing an instruction makes the one call that writes it, unless a name is not bound. -/
theorem Emission.perform_eq (env : Env) (s : Site) (e : Emission) (st : σ) :
    (e.perform env s : BuildM σ (Error ε) Site).run.run st =
      match e.instr env with
      | .error err => (.error err.lift, st)
      | .ok i =>
        (((fun _ => s) <$> ((Backend.perform (s.writing i)).run.run st).1).mapError .refused,
          ((Backend.perform (s.writing i)).run.run st).2) := by
  cases e with
  | add r a b => exact run_refusing_emit s (.add r a b) st
  | ldParam r i => exact run_refusing_emit s (.loadParam r i) st
  | ldConst r t c =>
    rw [Emission.instr, Emission.perform, Env.type_lift]
    cases (env.type t : Except (Error Empty) TypeRef) with
    | error err => rfl
    | ok type => exact run_refusing_emit s (.loadConst r type c) st
  | call r t args =>
    rw [Emission.instr, Emission.perform, Env.target_lift]
    cases (env.target t : Except (Error Empty) Target) with
    | error err => rfl
    | ok target => exact run_refusing_emit s (.call r target.ref args) st
  | ret value =>
    cases value with
    | none => exact run_refusing_emit s (.ret none) st
    | some r => exact run_refusing_emit s (.ret (some r)) st

/-- A chain makes the calls of its emissions. -/
theorem performChain_eq (env : Env) (s : Site) (es : List Emission) (done : Nat) (st : σ) :
    performChain env s done es st =
      match attemptAll (Order.chain s (es.map fun e => e.instr env)).calls st with
      | ((_, none), st') => (.site s, st')
      | ((as, some err), st') => (.broken (done + as.length) err, st') := by
  induction es generalizing done st with
  | nil => rfl
  | cons e es ih =>
    rw [performChain, Emission.perform_eq]
    simp only [Order.calls, List.map_cons] at ih ⊢
    cases e.instr env with
    | error err => rfl
    | ok i =>
      simp only [show s.writing <$> (Except.ok i : Except (Error Empty) Instr) = .ok (s.writing i) from rfl]
      cases h : (Backend.perform (s.writing i)).run.run st with
      | mk x st' =>
        cases x with
        | error err =>
          rw [attemptAll_of_error h]
          rfl
        | ok a =>
          rw [attemptAll_of_ok h]
          simp only [Functor.map, Except.map, Except.mapError, ih]
          generalize attemptAll _ st' = out
          obtain ⟨⟨as, failure⟩, st''⟩ := out
          cases failure with
          | none => rfl
          | some err => simp only [List.length_cons, Nat.add_assoc, Nat.add_comm 1]

/-- A single call, made by a computation over the backend that answers it. -/
theorem attemptAll_singleton {α : Type} {c : Call} {f : α → Answer} {x : BuildM σ ε α} (h : Backend.perform c = f <$> x)
    (st : σ) :
    attemptAll [.ok c] st =
      match x.run.run st with
      | (.error e, st') => (([], some (.refused e)), st')
      | (.ok a, st') => (([f a], none), st') := by
  rw [attemptAll, h, BuildM.run_map]
  generalize x.run.run st = out
  obtain ⟨a, st'⟩ := out
  cases a <;> rfl

/-- A step looks its names up, makes the calls it asks for up to the first failure, and comes to what they are answered with. -/
theorem Step.perform_eq (step : Step) (env : Env) (st : σ) :
    step.perform env st =
      match step.order env with
      | .error err => (.failed err.lift, env, st)
      | .ok o =>
        match attemptAll o.calls st with
        | ((as, none), st') => (o.reply as, o.bind env as, st')
        | ((as, some err), st') => (o.fail as.length err, env, st') := by
  cases step with
  | method bind name returnType params =>
    rw [Step.perform, Step.order, Env.signature_lift]
    cases (env.signature returnType params : Except (Error Empty) (TypeRef × List TypeRef)) with
    | error err => rfl
    | ok x =>
      have hcall : (Backend.perform (.declareMethod name x.1 x.2) : BuildM σ ε Answer) =
          .method <$> Builder.method name x.1 x.2 := rfl
      simp only [Except.mapError, Functor.map, Except.map, Order.calls, attemptAll_singleton hcall]
      generalize (Builder.method name x.1 x.2 : BuildM σ ε MethodRef).run.run st = out
      obtain ⟨a, st'⟩ := out
      cases a <;> rfl
  | block bind owner name =>
    rw [Step.perform, Step.order, Env.lookup]
    cases env.methods.lookup owner with
    | none => rfl
    | some m =>
      have hcall : (Backend.perform (.declareBlock m name) : BuildM σ ε Answer) = .block <$> Backend.declareBlock m name := rfl
      have hblock : (Builder.block m name : BuildM σ ε Site) = (fun b => ⟨m, b⟩) <$> Backend.declareBlock m name := rfl
      simp only [hblock, BuildM.run_map]
      simp only [Functor.map, Except.map, Order.calls, attemptAll_singleton hcall]
      generalize (Backend.declareBlock m name : BuildM σ ε BlockRef).run.run st = out
      obtain ⟨a, st'⟩ := out
      cases a <;> rfl
  | emit label e =>
    rw [Step.perform, Step.order, Env.lookup]
    cases env.blocks.lookup label with
    | none => rfl
    | some s =>
      simp only [Emission.perform_eq]
      cases e.instr env with
      | error err => rfl
      | ok i =>
        show _ = match attemptAll [.ok (s.writing i)] st with | ((as, none), st') => _ | ((as, some err), st') => _
        simp only [attemptAll]
        generalize (Backend.perform (s.writing i)).run.run st = out
        obtain ⟨a, st'⟩ := out
        cases a <;> rfl
  | chain label es =>
    rw [Step.perform, Step.order, Env.lookup]
    cases env.blocks.lookup label with
    | none => rfl
    | some s =>
      simp only [performChain_eq, Functor.map, Except.map]
      generalize attemptAll _ st = out
      obtain ⟨⟨as, failure⟩, st'⟩ := out
      cases failure with
      | none => rfl
      | some err => simp only [Nat.zero_add, Order.fail]
  | setMain t =>
    rw [Step.perform, Step.order, Env.target_lift]
    cases (env.target t : Except (Error Empty) Target) with
    | error err => rfl
    | ok target =>
      have hcall : (Backend.perform (.setEntry target.ref) : BuildM σ ε Answer) =
          (fun _ => .done) <$> Builder.setMain target := rfl
      simp only [Except.mapError, Functor.map, Except.map, Order.calls, attemptAll_singleton hcall]
      generalize (Builder.setMain target : BuildM σ ε Unit).run.run st = out
      obtain ⟨a, st'⟩ := out
      cases a <;> rfl

/-! ## Runs of scripts -/

/-- Performs a script over a fresh backend: the common types are resolved, then the steps are performed. -/
def build (st : σ) (steps : List Step) : List (Reply ε) × Env × σ := run (start st).1 (start st).2 steps

theorem run_cons (env : Env) (st : σ) (step : Step) (steps : List Step) :
    run env st (step :: steps) =
      ((step.perform env st).1 :: (run (step.perform env st).2.1 (step.perform env st).2.2 steps).1,
        (run (step.perform env st).2.1 (step.perform env st).2.2 steps).2) := rfl

/-- A run of a script may be cut anywhere. -/
theorem run_append (env : Env) (st : σ) (steps steps' : List Step) :
    run env st (steps ++ steps') =
      ((run env st steps).1 ++ (run (run env st steps).2.1 (run env st steps).2.2 steps').1,
        (run (run env st steps).2.1 (run env st steps).2.2 steps').2) := by
  induction steps generalizing env st with
  | nil => rfl
  | cons step steps ih => rw [List.cons_append, run_cons, ih, run_cons, List.cons_append]

/-- Whether a step has come to what it asked for. -/
def Reply.succeeds {ε : Type} : Reply ε → Bool
  | .method _ => true
  | .site _ => true
  | .done => true
  | .failed _ => false
  | .broken .. => false

theorem Order.succeeds_reply {ε : Type} (o : Order) (as : List Answer) : (o.reply as : Reply ε).succeeds = true := by
  unfold Order.reply
  split <;> rfl

theorem Order.succeeds_fail {ε : Type} (o : Order) (done : Nat) (e : Error ε) : (o.fail done e).succeeds = false := by
  cases o <;> rfl

/-- A step that succeeds has found its names, and all its calls were answered. -/
theorem Step.perform_of_succeeds {step : Step} {env : Env} {st : σ} (h : (step.perform env st).1.succeeds = true) :
    ∃ o as st', step.order env = .ok o ∧ attemptAll o.calls st = ((as, none), st') ∧
      step.perform env st = (o.reply as, o.bind env as, st') := by
  rw [Step.perform_eq] at h ⊢
  cases ho : step.order env with
  | error e =>
    rw [ho] at h
    cases h
  | ok o =>
    simp only [ho] at h ⊢
    generalize hout : attemptAll o.calls st = out at h ⊢
    obtain ⟨⟨as, failure⟩, st'⟩ := out
    cases failure with
    | none => exact ⟨o, as, st', rfl, hout, rfl⟩
    | some e =>
      rw [show _ = false from o.succeeds_fail as.length e] at h
      cases h

/-- A step whose names are found and whose calls are answered succeeds. -/
theorem Step.perform_of_answers {step : Step} {env : Env} {st st' : σ} {o : Order} {as : List Answer}
    (ho : step.order env = .ok o) (h : attemptAll o.calls st = ((as, none), st')) :
    step.perform env st = (o.reply as, o.bind env as, st') := by
  rw [Step.perform_eq]
  simp only [ho, h]

/-! ## One backend that imitates another -/

section Imitation

variable {σ' ε' : Type} [Backend σ' ε'] {R : σ → σ' → Prop}

/-- Whatever call a first backend accepts, the resolution of types apart, a second one in a related state accepts with the same
answer, and the states stay related. -/
def Imitates (R : σ → σ' → Prop) : Prop :=
  ∀ (s t : σ) (s' : σ') (c : Call) (a : Answer), R s s' → c.resolvesType = false → (Backend.perform c).run.run s = (.ok a, t) →
    ∃ t', (Backend.perform c).run.run s' = (.ok a, t') ∧ R t t'

/-- Calls that are all answered are answered alike by a backend that imitates. -/
theorem Imitates.attemptAll (hR : Imitates R) {cs : List (Except (Error Empty) Call)}
    (hcs : ∀ c, .ok c ∈ cs → c.resolvesType = false) {s t : σ} {s' : σ'} (hs : R s s') {as : List Answer}
    (h : Script.attemptAll cs s = ((as, none), t)) : ∃ t', Script.attemptAll cs s' = ((as, none), t') ∧ R t t' := by
  induction cs generalizing s s' as with
  | nil =>
    cases h
    exact ⟨s', rfl, hs⟩
  | cons c cs ih =>
    cases c with
    | error e => cases h
    | ok c =>
      cases hc : (Backend.perform c).run.run s with
      | mk x s₁ =>
        cases x with
        | error e =>
          rw [attemptAll_of_error hc] at h
          cases h
        | ok a =>
          obtain ⟨s₁', hc', hs₁⟩ := hR s s₁ s' c a hs (hcs c List.mem_cons_self) hc
          rw [attemptAll_of_ok hc] at h
          generalize hrest : Script.attemptAll cs s₁ = out at h
          obtain ⟨⟨as', failure⟩, t'⟩ := out
          cases h
          obtain ⟨t', ht', ht⟩ := ih (fun c hc => hcs c (List.mem_cons_of_mem _ hc)) hs₁ hrest
          exact ⟨t', by rw [attemptAll_of_ok hc', ht'], ht⟩

/-- Two replies over different backends are the same success. -/
inductive Reply.Same : Reply ε → Reply ε' → Prop where
  | method (m : MethodRef) : Same (.method m) (.method m)
  | site (s : Site) : Same (.site s) (.site s)
  | done : Same .done .done

theorem Order.reply_same {ε ε' : Type} (o : Order) (as : List Answer) :
    Reply.Same (o.reply as : Reply ε) (o.reply as : Reply ε') := by
  unfold Order.reply
  split
  · exact .method _
  · exact .site _
  · exact .site _
  · exact .site _
  · exact .done

/-- A script that succeeds over a backend succeeds over one that imitates it: each step has the same reply, and the same names are
bound to the same references. -/
theorem Imitates.run (hR : Imitates R) {env : Env} {s : σ} {s' : σ'} (hs : R s s') {steps : List Step}
    (h : ∀ r ∈ (Script.run env s steps).1, r.succeeds = true) :
    List.Forall₂ Reply.Same (Script.run env s steps).1 (Script.run env s' steps).1 ∧
      (Script.run env s' steps).2.1 = (Script.run env s steps).2.1 ∧
      R (Script.run env s steps).2.2 (Script.run env s' steps).2.2 := by
  induction steps generalizing env s s' with
  | nil => exact ⟨.nil, rfl, hs⟩
  | cons step steps ih =>
    rw [run_cons] at h ⊢
    obtain ⟨hstep, hsteps⟩ := List.forall_mem_cons.1 h
    obtain ⟨o, as, t, ho, has, hperform⟩ := Step.perform_of_succeeds hstep
    obtain ⟨t', has', ht⟩ := hR.attemptAll (fun c => Order.not_resolvesType) hs has
    rw [hperform] at hsteps ⊢
    rw [run_cons, Step.perform_of_answers ho has']
    obtain ⟨hreplies, henv, hstates⟩ := ih ht hsteps
    exact ⟨.cons (o.reply_same as) hreplies, henv, hstates⟩

end Imitation

end Script

end Straightline
