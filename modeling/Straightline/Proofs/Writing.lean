import Straightline.Proofs.Interleaving
import Straightline.Proofs.Orders
import Straightline.Proofs.RoundTrip

/-!
# Scripts that write a program

A script writes a program if it declares the methods in their order, then method by method the blocks with their instructions, and
sets the entry at last (`Script.Writes`). Types are given by name, and what is called or entered by the method or by a block of it
that has been declared; labels are free. Main statements: each well-formed program is written by some script
(`Script.exists_writes`), and a script that writes a program over the common types succeeds and builds that very program
(`Script.Writes.succeeds`). The program grows in the order of its methods, so that at each point it is the front of the program
that is written, with the heads of the methods that follow (`Script.stage`).
-/

namespace Straightline

/-- The common types, in the order in which they are resolved. -/
def Catalogue.scalars : List Scalar :=
  [.bool, ⟨true, 8⟩, ⟨true, 16⟩, ⟨true, 32⟩, ⟨true, 64⟩, ⟨false, 8⟩, ⟨false, 16⟩, ⟨false, 32⟩, ⟨false, 64⟩]

namespace Script

open Program (Accepted SameHeads)

/-! ## Writing -/

/-- What the labels of a script are bound to, the latest first. -/
abbrev Labels := List (String × Site)

/-- An argument names a type of a program. -/
inductive NamesType (p : Program) : TypeArg → TypeRef → Prop where
  | named {t : TypeRef} {s : Scalar} (h : p.type? t = some s) : NamesType p (.named s.name) t

/-- An argument names a method of a program, by its name or by the label of a block of it. -/
inductive NamesTarget (p : Program) (labels : Labels) : TargetArg → MethodRef → Prop where
  | method {m : MethodRef} {d : Method} (h : p.method? m = some d) : NamesTarget p labels (.method d.name) m
  | block {label : String} {s : Site} (h : labels.lookup label = some s) : NamesTarget p labels (.block label) s.method

/-- An emission writes an instruction of a program. -/
inductive WritesInstr (p : Program) (labels : Labels) : Emission → Instr → Prop where
  | add (r a b : Register) : WritesInstr p labels (.add r a b) (.add r a b)
  | ldParam (r : Register) (i : UInt32) : WritesInstr p labels (.ldParam r i) (.loadParam r i)
  | ldConst (r : Register) {t : TypeArg} {type : TypeRef} (c : Constant) (h : NamesType p t type) :
      WritesInstr p labels (.ldConst r t c) (.loadConst r type c)
  | call (r : Register) {t : TargetArg} {m : MethodRef} (args : List Register) (h : NamesTarget p labels t m) :
      WritesInstr p labels (.call r t args) (.call r m args)
  | ret (v : Option Register) : WritesInstr p labels (.ret v) (.ret v)

/-- A step declares a method of a program, and binds it to its own name. -/
inductive WritesHead (p : Program) : Step → Method → Prop where
  | method {d : Method} {r : TypeArg} {ps : List TypeArg} (hreturn : NamesType p r d.returnType)
      (hparams : List.Forall₂ (NamesType p) ps d.params) : WritesHead p (.method d.name d.name r ps) d

/-- Steps declare the blocks of a method from the one numbered `j` on, under any labels, each with its instructions. The labels
before and after the steps are kept along. -/
inductive WritesBlocks (p : Program) (owner : String) (m : MethodRef) :
    Labels → Nat → List Step → List Block → Labels → Prop where
  | nil (labels : Labels) (j : Nat) : WritesBlocks p owner m labels j [] [] labels
  | cons {labels labels' : Labels} {j : Nat} {b : Block} {bs : List Block} {es : List Emission} {steps : List Step}
      (label : String) (instrs : List.Forall₂ (WritesInstr p ((label, ⟨m, .ofIndex j⟩) :: labels)) es b.instrs)
      (rest : WritesBlocks p owner m ((label, ⟨m, .ofIndex j⟩) :: labels) (j + 1) steps bs labels') :
      WritesBlocks p owner m labels j (.block label owner b.name :: (es.map (.emit label) ++ steps)) (b :: bs) labels'

/-- Steps declare the blocks of the methods from the one numbered `j` on, with their instructions. -/
inductive WritesBodies (p : Program) : Labels → Nat → List Step → List Method → Labels → Prop where
  | nil (labels : Labels) (j : Nat) : WritesBodies p labels j [] [] labels
  | cons {labels labels' labels'' : Labels} {j : Nat} {d : Method} {ds : List Method} {steps steps' : List Step}
      (blocks : WritesBlocks p d.name (.ofIndex j) labels 0 steps d.blocks labels')
      (rest : WritesBodies p labels' (j + 1) steps' ds labels'') : WritesBodies p labels j (steps ++ steps') (d :: ds) labels''

/-- Steps set the entry, if there is one. -/
inductive WritesEntry (p : Program) (labels : Labels) : List Step → Option MethodRef → Prop where
  | none : WritesEntry p labels [] none
  | some {t : TargetArg} {m : MethodRef} (h : NamesTarget p labels t m) : WritesEntry p labels [.setMain t] (some m)

/-- A script writes a program. -/
inductive Writes (p : Program) : List Step → Prop where
  | mk {heads bodies last : List Step} {labels : Labels} (hheads : List.Forall₂ (WritesHead p) heads p.methods)
      (hbodies : WritesBodies p [] 0 bodies p.methods labels) (hentry : WritesEntry p labels last p.entry) :
      Writes p (heads ++ (bodies ++ last))

/-! ## Steps that succeed -/

section Succeeds

variable {σ ε : Type} [Backend σ ε]

/-- All steps succeed, and they lead from one state of a script to another one. -/
def Succeeds (env : Env) (st : σ) (steps : List Step) (env' : Env) (st' : σ) : Prop :=
  ∃ replies, run env st steps = (replies, env', st') ∧ ∀ r ∈ replies, r.succeeds = true

theorem Succeeds.nil (env : Env) (st : σ) : Succeeds env st [] env st := ⟨[], rfl, fun _ hr => nomatch hr⟩

/-- Steps that succeed may follow one another. -/
theorem Succeeds.append {env env' env'' : Env} {st st' st'' : σ} {steps steps' : List Step} (h : Succeeds env st steps env' st')
    (h' : Succeeds env' st' steps' env'' st'') : Succeeds env st (steps ++ steps') env'' st'' := by
  obtain ⟨replies, hrun, hok⟩ := h
  obtain ⟨replies', hrun', hok'⟩ := h'
  refine ⟨replies ++ replies', ?_, fun r hr => ?_⟩
  · rw [run_append, hrun, hrun']
  · rcases List.mem_append.1 hr with hr | hr
    · exact hok r hr
    · exact hok' r hr

end Succeeds

/-- A step whose one call is accepted succeeds. -/
theorem succeeds_of_accepted {step : Step} {env : Env} {o : Order} {c : Call} {a : Answer} {p q : Program}
    (ho : step.order env = .ok o) (hc : o.calls = [.ok c]) (h : Accepted p c a q) : Succeeds env p [step] (o.bind env [a]) q := by
  obtain ⟨hreply, hnext⟩ := Program.accepted_iff.1 h
  have hperform : (Backend.perform c).run.run p = (.ok a, q) := Prod.ext hreply hnext
  have hcalls : attemptAll o.calls p = (([a], none), q) := by
    rw [hc, attemptAll_of_ok hperform]
    rfl
  refine ⟨[o.reply [a]], ?_, fun r hr => ?_⟩
  · rw [run_cons, Step.perform_of_answers ho hcalls]
    rfl
  · rw [List.mem_singleton.1 hr]
    exact o.succeeds_reply [a]

/-! ## Names that are known -/

theorem lookup_eq_ok {ε α : Type} {bindings : List (String × α)} {name : String} {a : α} (h : bindings.lookup name = some a) :
    (Env.lookup bindings name : Except (Error ε) α) = .ok a := by
  rw [Env.lookup, h]

/-- In the bindings of a script the types of a program are known by their names, and so are some methods, numbered from zero. -/
structure Knows (p : Program) (env : Env) (ds : List Method) : Prop where
  types : ∀ t s, p.type? t = some s → env.types.entries.lookup s.name = some t
  methods : ∀ j d, ds[j]? = some d → env.methods.lookup d.name = some (.ofIndex j)

section Knows

variable {p : Program} {env : Env} {ds : List Method}

/-- Labels are of no account for the types and methods that are known. -/
theorem Knows.labels (h : Knows p env ds) (labels : Labels) : Knows p { env with blocks := labels } ds := ⟨h.types, h.methods⟩

/-- A type that is named is looked up. -/
theorem Knows.type (h : Knows p env ds) {t : TypeArg} {r : TypeRef} (ht : NamesType p t r) :
    (env.type t : Except (Error Empty) TypeRef) = .ok r := by
  cases ht with
  | named hs => exact lookup_eq_ok (h.types _ _ hs)

/-- The types of a head are looked up. -/
theorem Knows.signature (h : Knows p env ds) {t : TypeArg} {r : TypeRef} {ts : List TypeArg} {rs : List TypeRef}
    (ht : NamesType p t r) (hts : List.Forall₂ (NamesType p) ts rs) :
    (env.signature t ts : Except (Error Empty) (TypeRef × List TypeRef)) = .ok (r, rs) := by
  have hparams : (ts.mapM env.type : Except (Error Empty) (List TypeRef)) = .ok rs := by
    induction hts with
    | nil => rfl
    | cons hx _ ih =>
      rw [List.mapM_cons, h.type hx, ih]
      rfl
  rw [Env.signature, hparams, h.type ht]
  rfl

/-- A method that is named is looked up. -/
theorem Knows.target (h : Knows p env p.methods) {t : TargetArg} {m : MethodRef} (ht : NamesTarget p env.blocks t m) :
    ∃ target, (env.target t : Except (Error Empty) Target) = .ok target ∧ target.ref = m := by
  cases ht with
  | @method m d hm =>
    have hlookup := h.methods m.index d hm
    rw [Ref.ofIndex_index] at hlookup
    refine ⟨.method m, ?_, rfl⟩
    rw [Env.target, lookup_eq_ok hlookup]
    rfl
  | @block label s hs =>
    refine ⟨.site s, ?_, rfl⟩
    rw [Env.target, lookup_eq_ok hs]
    rfl

/-- An emission comes to the instruction that it writes. -/
theorem Knows.instr (h : Knows p env p.methods) {e : Emission} {i : Instr} (he : WritesInstr p env.blocks e i) :
    e.instr env = .ok i := by
  cases he with
  | add r a b => rfl
  | ldParam r i => rfl
  | ldConst r c ht =>
    rw [Emission.instr, h.type ht]
    rfl
  | call r args ht =>
    obtain ⟨target, htarget, rfl⟩ := h.target ht
    rw [Emission.instr, htarget]
    rfl
  | ret v => rfl

/-- A new name is known after it was bound, and hides no other one. -/
theorem Knows.bind {d : Method} (h : Knows p env ds) (hnew : d.name ∉ ds.map (·.name)) :
    Knows p { env with methods := (d.name, .ofIndex ds.length) :: env.methods } (ds ++ [d]) := by
  refine ⟨h.types, fun j e he => ?_⟩
  rw [List.getElem?_append] at he
  rw [List.lookup_cons]
  by_cases hj : j < ds.length
  · rw [if_pos hj] at he
    have hne : e.name ≠ d.name := fun hname => hnew (hname ▸ List.mem_map_of_mem (List.mem_of_getElem? he))
    rw [beq_eq_false_iff_ne.2 hne]
    exact h.methods j e he
  · rw [if_neg hj, List.getElem?_singleton] at he
    by_cases hzero : j - ds.length = 0
    · rw [if_pos hzero] at he
      cases he
      rw [beq_self_eq_true, show j = ds.length by omega]
    · rw [if_neg hzero] at he
      cases he

end Knows

/-! ## Building stage by stage -/

/-- The item after a front of a list. -/
theorem getElem?_middle {α : Type} (l k : List α) (a : α) : (l ++ a :: k)[l.length]? = some a := by
  rw [List.getElem?_append_right (Nat.le_refl _), Nat.sub_self, List.getElem?_cons_zero]

/-- A program on the way: it has the types and some methods, and no entry yet. -/
def stage (p : Program) (ds : List Method) : Program := { types := p.types, methods := ds }

section Stages

variable {p : Program} {env : Env} {done todo : List Method} {d : Method}

/-- The method that is being written. -/
theorem method?_stage (hlen : done.length < UInt32.size) :
    (stage p (done ++ d :: todo)).method? (.ofIndex done.length) = some d := by
  rw [Program.method?, Ref.index_ofIndex hlen]
  exact getElem?_middle done todo d

/-- A change of the method that is being written. -/
theorem edit_stage (hlen : done.length < UInt32.size) (f : Method → Method) :
    (stage p (done ++ d :: todo)).edit (.ofIndex done.length) f = stage p (done ++ f d :: todo) := by
  rw [Program.edit, Ref.index_ofIndex hlen]
  show stage p ((done ++ d :: todo).modify done.length f) = _
  rw [Source.modify_middle]

/-- What is meaningful in a method is meaningful as soon as all heads are there. -/
theorem allows_stage {ds : List Method} (hheads : ds.map Method.head = p.methods.map Method.head) {e : Method}
    (hparams : e.params = d.params) {i : Instr} (hi : p.Allows d i) : (stage p ds).Allows e i := by
  have hsame : p.SameHeads (stage p ds) := ⟨rfl, hheads.symm⟩
  cases i with
  | loadParam r j =>
    show j.toNat < e.params.length
    rw [hparams]
    exact hi
  | call r m args =>
    obtain ⟨callee, hm, hargs⟩ := hi
    obtain ⟨callee', hm', -, hcallee⟩ := hsame.exists_method? hm
    exact ⟨callee', hm', by rw [hargs, hcallee]⟩
  | loadConst r t c => exact hi
  | add r a b => exact hi
  | ret v => exact hi

/-- The instructions of a block are written. -/
theorem succeeds_emits (hknows : Knows p env p.methods) (hheads : (done ++ d :: todo).map Method.head = p.methods.map Method.head)
    (hlen : done.length < UInt32.size) {bs : List Block} (hbs : bs.length < UInt32.size) {label : String}
    (hlabel : env.blocks.lookup label = some ⟨.ofIndex done.length, .ofIndex bs.length⟩) (name : String) (is : List Instr)
    {es : List Emission} {js : List Instr} (hes : List.Forall₂ (WritesInstr p env.blocks) es js) (hjs : ∀ i ∈ js, p.Allows d i) :
    Succeeds env (stage p (done ++ { d with blocks := bs ++ [⟨name, is⟩] } :: todo)) (es.map (.emit label)) env
      (stage p (done ++ { d with blocks := bs ++ [⟨name, is ++ js⟩] } :: todo)) := by
  induction hes generalizing is with
  | nil =>
    rw [List.append_nil]
    exact Succeeds.nil _ _
  | @cons e i es js he _ ih =>
    obtain ⟨hi, hjs⟩ := List.forall_mem_cons.1 hjs
    have horder : Step.order env (.emit label e) = .ok (.emit ⟨.ofIndex done.length, .ofIndex bs.length⟩ i) := by
      rw [Step.order, lookup_eq_ok hlabel, hknows.instr he]
      rfl
    have hblock : ({ d with blocks := bs ++ [⟨name, is⟩] } : Method).block? (.ofIndex bs.length) = some ⟨name, is⟩ := by
      rw [Method.block?, Ref.index_ofIndex hbs]
      exact List.getElem?_concat_length
    have hpush : ({ d with blocks := bs ++ [⟨name, is⟩] } : Method).push (.ofIndex bs.length) i =
        { d with blocks := bs ++ [⟨name, is ++ [i]⟩] } := by
      rw [Method.push, Ref.index_ofIndex hbs, Source.modify_middle]
      rfl
    have hallows : (stage p (done ++ { d with blocks := bs ++ [⟨name, is⟩] } :: todo)).Allows
        { d with blocks := bs ++ [⟨name, is⟩] } i := by
      refine allows_stage ?_ rfl hi
      rw [← hheads, List.map_append, List.map_append]
      rfl
    have hemit := Accepted.emit (method?_stage hlen) hblock (Instr.decode_operands i) hallows
    rw [edit_stage hlen, hpush] at hemit
    have hrest := ih (is ++ [i]) hjs
    rw [List.append_assoc, List.singleton_append] at hrest
    exact (succeeds_of_accepted horder rfl hemit).append hrest

/-- The blocks of a method are written, from some block on. -/
theorem succeeds_blocks (hknows : Knows p env p.methods)
    (hheads : (done ++ d :: todo).map Method.head = p.methods.map Method.head) (hlen : done.length < UInt32.size)
    (howner : env.methods.lookup d.name = some (.ofIndex done.length)) (hd : p.MethodWellFormed d)
    (hsmall : d.blocks.length < UInt32.size) {labels labels' : Labels} {j : Nat} {steps : List Step} {rest : List Block}
    (h : WritesBlocks p d.name (.ofIndex done.length) labels j steps rest labels') (bs : List Block) (hj : j = bs.length)
    (hblocks : d.blocks = bs ++ rest) :
    Succeeds { env with blocks := labels } (stage p (done ++ { d with blocks := bs } :: todo)) steps
      { env with blocks := labels' } (stage p (done ++ d :: todo)) := by
  induction h generalizing bs with
  | nil labels j =>
    rw [List.append_nil] at hblocks
    subst hblocks
    exact Succeeds.nil _ _
  | @cons labels labels' j b rest es steps label hes _ ih =>
    subst hj
    have hb : b ∈ d.blocks := hblocks ▸ List.mem_append_cons_self
    have hbs : bs.length < UInt32.size := by
      rw [hblocks, List.length_append] at hsmall
      omega
    have hnew : b.name ∉ bs.map (·.name) := name_not_mem_of_nodup (hblocks ▸ hd.blocksDistinct)
    have horder : Step.order { env with blocks := labels } (.block label d.name b.name) =
        .ok (.block label (.ofIndex done.length) b.name) := by
      rw [Step.order, lookup_eq_ok howner]
      rfl
    have hdeclare := Accepted.declareBlock (p := stage p (done ++ { d with blocks := bs } :: todo)) (hd.blockNames b hb)
      (method?_stage hlen) hnew
    rw [edit_stage hlen] at hdeclare
    have hemits := succeeds_emits (hknows.labels ((label, ⟨.ofIndex done.length, .ofIndex bs.length⟩) :: labels)) hheads hlen hbs
      List.lookup_cons_self b.name [] hes (hd.instrs b hb)
    have hrest := ih (bs ++ [b]) (by rw [List.length_append, List.length_singleton])
      (by rw [hblocks, List.append_assoc, List.singleton_append])
    exact (succeeds_of_accepted horder rfl hdeclare).append (hemits.append hrest)

/-- The bodies of the methods are written, from some method on. -/
theorem succeeds_bodies (hp : p.WellFormed) (hmethods : p.methods.length < UInt32.size)
    (hblocks : ∀ d ∈ p.methods, d.blocks.length < UInt32.size) (hknows : Knows p env p.methods) {labels labels' : Labels}
    {j : Nat} {steps : List Step} {rest : List Method} (h : WritesBodies p labels j steps rest labels') (done : List Method)
    (hj : j = done.length) (hall : p.methods = done ++ rest) :
    Succeeds { env with blocks := labels } (stage p (done ++ rest.map Method.head)) steps { env with blocks := labels' }
      (stage p p.methods) := by
  induction h generalizing done with
  | nil labels j =>
    rw [hall, List.map_nil]
    exact Succeeds.nil _ _
  | @cons labels labels' labels'' j d rest steps steps' hd _ ih =>
    subst hj
    have hmem : d ∈ p.methods := hall ▸ List.mem_append_cons_self
    have hlen : done.length < UInt32.size := by
      rw [hall, List.length_append] at hmethods
      omega
    have howner : env.methods.lookup d.name = some (.ofIndex done.length) := by
      refine hknows.methods done.length d ?_
      rw [hall]
      exact getElem?_middle done rest d
    have hheads : (done ++ d :: rest.map Method.head).map Method.head = p.methods.map Method.head := by
      rw [hall, List.map_append, List.map_append, List.map_cons, List.map_cons, List.map_map]
      rfl
    have hbody := succeeds_blocks hknows hheads hlen howner (hp.methods d hmem) (hblocks d hmem) hd [] rfl rfl
    have hrest := ih (done ++ [d]) (by rw [List.length_append, List.length_singleton])
      (by rw [hall, List.append_assoc, List.singleton_append])
    rw [List.append_assoc, List.singleton_append] at hrest
    exact hbody.append hrest

/-- The heads of the methods are written, from some method on, and all methods are known by their names then. -/
theorem succeeds_heads (hp : p.WellFormed) {steps : List Step} {rest : List Method} (h : List.Forall₂ (WritesHead p) steps rest)
    (done : List Method) (hall : p.methods = done ++ rest) (hknows : Knows p env done) (hlabels : env.blocks = []) :
    ∃ env', Succeeds env (stage p (done.map Method.head)) steps env' (stage p (p.methods.map Method.head)) ∧
      Knows p env' p.methods ∧ env'.blocks = [] := by
  induction h generalizing done env with
  | nil =>
    rw [List.append_nil] at hall
    rw [hall]
    exact ⟨env, Succeeds.nil _ _, hknows, hlabels⟩
  | @cons step d steps rest hstep _ ih =>
    have hd := hp.methods d (hall ▸ List.mem_append_cons_self)
    have hnew : d.name ∉ done.map (·.name) := name_not_mem_of_nodup (hall ▸ hp.methodsDistinct)
    cases hstep with
    | @method _ r ps hreturn hparams =>
      have horder : Step.order env (.method d.name d.name r ps) = .ok (.method d.name d.name d.returnType d.params) := by
        rw [Step.order, hknows.signature hreturn hparams]
        rfl
      have hnew' : d.name ∉ (stage p (done.map Method.head)).methods.map (·.name) := by
        show d.name ∉ (done.map Method.head).map (·.name)
        rw [List.map_map]
        exact hnew
      have hdeclare := Accepted.declareMethod (p := stage p (done.map Method.head)) hd.name hnew' hd.types
      obtain ⟨env', hrest, hknown, hbound⟩ := ih (done ++ [d])
        (by rw [hall, List.append_assoc, List.singleton_append]) (hknows.bind hnew) hlabels
      rw [List.map_append] at hrest
      have hlength : (stage p (done.map Method.head)).methods.length = done.length := List.length_map _
      rw [hlength] at hdeclare
      exact ⟨env', (succeeds_of_accepted horder rfl hdeclare).append hrest, hknown, hbound⟩

end Stages

/-- The entry is set, if there is one. -/
theorem succeeds_entry {p : Program} {env : Env} (hp : p.WellFormed) (hknows : Knows p env p.methods) {steps : List Step}
    (h : WritesEntry p env.blocks steps p.entry) : Succeeds env (stage p p.methods) steps env p := by
  cases hentry : p.entry with
  | none =>
    rw [hentry] at h
    cases h
    have hp' : stage p p.methods = p := by
      rw [stage, ← hentry]
    rw [hp']
    exact Succeeds.nil _ _
  | some m =>
    obtain ⟨d, hm⟩ := hp.entry m hentry
    rw [hentry] at h
    cases h with
    | @some t _ ht =>
      obtain ⟨target, htarget, rfl⟩ := hknows.target ht
      have horder : Step.order env (.setMain t) = .ok (.setMain target.ref) := by
        rw [Step.order, htarget]
        rfl
      have hset := Accepted.setEntry (p := stage p p.methods) hm (Or.inl rfl)
      have hp' : { stage p p.methods with entry := some target.ref } = p := by
        rw [← hentry]
        rfl
      rw [hp'] at hset
      exact succeeds_of_accepted horder rfl hset

/-- The common types are known by their names from the start. -/
theorem knows_start {p : Program} (h : p.types = Catalogue.scalars) : Knows p (start ({} : Program)).1 [] := by
  have hnames : ∀ (j : Fin 9), ∀ s ∈ Catalogue.scalars[j.1]?,
      (start ({} : Program)).1.types.entries.lookup s.name = some (.ofIndex j.1) := by
    decide +kernel
  refine ⟨fun t s ht => ?_, fun j d hd => nomatch hd⟩
  rw [Program.type?, h] at ht
  have hlookup := hnames ⟨t.index, (List.getElem?_eq_some_iff.1 ht).1⟩ s ht
  rw [Ref.ofIndex_index] at hlookup
  exact hlookup

/-- A script that writes a program over the common types succeeds, and builds that very program. -/
theorem Writes.succeeds {p : Program} {steps : List Step} (h : Writes p steps) (hp : p.WellFormed)
    (htypes : p.types = Catalogue.scalars) (hmethods : p.methods.length < UInt32.size)
    (hblocks : ∀ d ∈ p.methods, d.blocks.length < UInt32.size) :
    ∃ env, Succeeds (start ({} : Program)).1 (start ({} : Program)).2 steps env p := by
  have hstart : (start ({} : Program)).2 = stage p [] := by
    rw [stage, htypes]
    rfl
  rw [hstart]
  cases h with
  | @mk heads bodies last labels hheads hbodies hentry =>
    obtain ⟨env, hdeclared, hknows, hlabels⟩ := succeeds_heads hp hheads [] rfl (knows_start htypes) rfl
    have hwritten := succeeds_bodies hp hmethods hblocks hknows hbodies [] rfl rfl
    have hset := succeeds_entry hp (hknows.labels labels) hentry
    rw [← hlabels] at hwritten
    exact ⟨_, hdeclared.append (hwritten.append hset)⟩

/-! ## Scripts for all programs -/

section Exists

variable {p : Program} {d : Method}

/-- A type is named by its name. -/
theorem exists_namesType {t : TypeRef} (h : ∃ s, p.type? t = some s) : ∃ arg, NamesType p arg t := by
  obtain ⟨s, hs⟩ := h
  exact ⟨_, .named hs⟩

/-- A meaningful instruction is written by some emission, with a method for the target of a call. -/
theorem exists_writesInstr {i : Instr} (h : p.Allows d i) (labels : Labels) : ∃ e, WritesInstr p labels e i := by
  cases i with
  | add r a b => exact ⟨_, .add r a b⟩
  | loadParam r i => exact ⟨_, .ldParam r i⟩
  | loadConst r t c =>
    obtain ⟨s, hs, -⟩ := h
    exact ⟨_, .ldConst r c (.named hs)⟩
  | call r m args =>
    obtain ⟨callee, hm, -⟩ := h
    exact ⟨_, .call r args (.method hm)⟩
  | ret v => exact ⟨_, .ret v⟩

/-- A method with known types has a step that declares it. -/
theorem exists_writesHead (h : p.MethodWellFormed d) : ∃ step, WritesHead p step d := by
  obtain ⟨hreturn, hparams⟩ := List.forall_mem_cons.1 h.types
  obtain ⟨r, hr⟩ := exists_namesType hreturn
  obtain ⟨ps, hps⟩ := exists_forall₂ (R := flip (NamesType p)) fun t ht => exists_namesType (hparams t ht)
  exact ⟨_, .method hr hps.flip⟩

/-- Blocks with meaningful instructions have steps that write them. -/
theorem exists_writesBlocks {bs : List Block} (h : ∀ b ∈ bs, ∀ i ∈ b.instrs, p.Allows d i) (owner : String) (m : MethodRef)
    (labels : Labels) (j : Nat) : ∃ steps labels', WritesBlocks p owner m labels j steps bs labels' := by
  induction bs generalizing labels j with
  | nil => exact ⟨[], labels, .nil labels j⟩
  | cons b bs ih =>
    obtain ⟨hb, hbs⟩ := List.forall_mem_cons.1 h
    obtain ⟨es, hes⟩ := exists_forall₂ (R := flip (WritesInstr p ((b.name, ⟨m, .ofIndex j⟩) :: labels))) fun i hi =>
      exists_writesInstr (hb i hi) _
    obtain ⟨steps, labels', hrest⟩ := ih hbs ((b.name, ⟨m, .ofIndex j⟩) :: labels) (j + 1)
    exact ⟨_, labels', .cons b.name hes.flip hrest⟩

/-- Well-formed methods have steps that write their bodies. -/
theorem exists_writesBodies {ds : List Method} (h : ∀ d ∈ ds, p.MethodWellFormed d) (labels : Labels) (j : Nat) :
    ∃ steps labels', WritesBodies p labels j steps ds labels' := by
  induction ds generalizing labels j with
  | nil => exact ⟨[], labels, .nil labels j⟩
  | cons d ds ih =>
    obtain ⟨hd, hds⟩ := List.forall_mem_cons.1 h
    obtain ⟨steps, labels', hblocks⟩ := exists_writesBlocks hd.instrs d.name (.ofIndex j) labels 0
    obtain ⟨steps', labels'', hrest⟩ := ih hds labels' (j + 1)
    exact ⟨_, labels'', .cons hblocks hrest⟩

/-- A well-formed program is written by some script. -/
theorem exists_writes (hp : p.WellFormed) : ∃ steps, Writes p steps := by
  obtain ⟨heads, hheads⟩ := exists_forall₂ (R := flip (WritesHead p)) fun d hd => exists_writesHead (hp.methods d hd)
  obtain ⟨bodies, labels, hbodies⟩ := exists_writesBodies hp.methods [] 0
  have hentry : ∃ last, WritesEntry p labels last p.entry := by
    cases h : p.entry with
    | none => exact ⟨_, .none⟩
    | some m =>
      obtain ⟨d, hm⟩ := hp.entry m h
      exact ⟨_, .some (.method hm)⟩
  obtain ⟨last, hlast⟩ := hentry
  exact ⟨_, .mk hheads.flip hbodies hlast⟩

end Exists

end Script

end Straightline
