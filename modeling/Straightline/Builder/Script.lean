import Straightline.Builder

/-!
# Builder scripts

A script is a list of builder operations that names the methods and blocks it declares and refers to them by these names. A step
that uses a name nothing is bound to makes no call. A step that fails binds nothing, and the steps after it are still performed;
within a chain of emissions the first failure ends the chain.
-/

namespace Straightline.Script

/-- A type: a common one by name, or any by reference. -/
inductive TypeArg where
  | named (name : String)
  | ref (t : TypeRef)
  deriving DecidableEq, Repr

/-- A target: a bound method, a bound block, or a method by reference. -/
inductive TargetArg where
  | method (name : String)
  | block (name : String)
  | ref (m : MethodRef)
  deriving DecidableEq, Repr

/-- An instruction to write. -/
inductive Emission where
  | add (result a b : Register)
  | ldParam (result : Register) (index : UInt32)
  | ldConst (result : Register) (type : TypeArg) (value : Constant)
  | call (result : Register) (target : TargetArg) (args : List Register)
  | ret (value : Option Register)
  deriving DecidableEq, Repr

/-- A step of a script. `bind` is the name a declared method or block is bound to. -/
inductive Step where
  | method (bind name : String) (returnType : TypeArg) (params : List TypeArg)
  | block (bind method name : String)
  | emit (block : String) (e : Emission)
  | chain (block : String) (es : List Emission)
  | setMain (target : TargetArg)
  deriving DecidableEq, Repr

/-- The common types and the names bound so far, the latest first. Methods and blocks are bound apart. -/
structure Env where
  types : Catalogue
  methods : List (String × MethodRef) := []
  blocks : List (String × Site) := []
  deriving DecidableEq, Repr

/-- Why a step fails. -/
inductive Error (ε : Type) where
  /-- Nothing is bound to the name. -/
  | unbound (name : String)
  /-- The backend refuses the call. -/
  | refused (e : ε)
  deriving DecidableEq, Repr

/-- What a step comes to. -/
inductive Reply (ε : Type) where
  | method (m : MethodRef)
  | site (s : Site)
  | done
  | failed (e : Error ε)
  /-- A chain that failed after so many emissions. -/
  | broken (done : Nat) (e : Error ε)
  deriving DecidableEq, Repr

/-! ## Names -/

namespace Env

variable {ε : Type}

/-- What a name is bound to in a list of bindings. -/
def lookup {α : Type} (bindings : List (String × α)) (name : String) : Except (Error ε) α :=
  match bindings.lookup name with
  | some a => .ok a
  | none => .error (.unbound name)

/-- The type of an argument. -/
def type (env : Env) : TypeArg → Except (Error ε) TypeRef
  | .named name => lookup env.types.entries name
  | .ref t => .ok t

/-- The signature of a method, with the parameter types looked up first. -/
def signature (env : Env) (returnType : TypeArg) (params : List TypeArg) : Except (Error ε) (TypeRef × List TypeRef) := do
  let ps ← params.mapM env.type
  let r ← env.type returnType
  return (r, ps)

/-- The target of an argument. -/
def target (env : Env) : TargetArg → Except (Error ε) Target
  | .method name => Target.method <$> lookup env.methods name
  | .block name => Target.site <$> lookup env.blocks name
  | .ref m => .ok (.method m)

end Env

/-! ## Performing steps -/

variable {σ ε : Type} [Backend σ ε]

/-- A builder operation as part of a script. -/
def refusing {α : Type} (x : BuildM σ ε α) : BuildM σ (Error ε) α := ExceptT.adapt .refused x

/-- The look-up of a name as part of a script. -/
def bound {α : Type} (x : Except (Error ε) α) : BuildM σ (Error ε) α := ExceptT.mk (pure x)

/-- Writes an instruction at a site. -/
def Emission.perform (env : Env) (s : Site) : Emission → BuildM σ (Error ε) Site
  | .add r a b => refusing (s.add r a b)
  | .ldParam r i => refusing (s.ldParam r i)
  | .ldConst r t c => do
    let type ← bound (env.type t)
    refusing (s.ldConst r type c)
  | .call r t args => do
    let target ← bound (env.target t)
    refusing (s.call r target args)
  | .ret value => refusing (s.ret value)

/-- Writes instructions one after another, up to the first failure; `done` of them are written already. -/
def performChain (env : Env) (s : Site) (done : Nat) : List Emission → σ → Reply ε × σ
  | [], st => (.site s, st)
  | e :: es, st =>
    match (e.perform env s).run.run st with
    | (.ok s', st') => performChain env s' (done + 1) es st'
    | (.error err, st') => (.broken done err, st')

/-- Performs a step. -/
def Step.perform (step : Step) (env : Env) (st : σ) : Reply ε × Env × σ :=
  match step with
  | .method bind name returnType params =>
    match env.signature returnType params with
    | .error e => (.failed e, env, st)
    | .ok (r, ps) =>
      match (Builder.method name r ps).run.run st with
      | (.ok m, st') => (.method m, { env with methods := (bind, m) :: env.methods }, st')
      | (.error e, st') => (.failed (.refused e), env, st')
  | .block bind owner name =>
    match env.methods.lookup owner with
    | none => (.failed (.unbound owner), env, st)
    | some m =>
      match (Builder.block m name).run.run st with
      | (.ok s, st') => (.site s, { env with blocks := (bind, s) :: env.blocks }, st')
      | (.error e, st') => (.failed (.refused e), env, st')
  | .emit label e =>
    match env.blocks.lookup label with
    | none => (.failed (.unbound label), env, st)
    | some s =>
      match (e.perform env s).run.run st with
      | (.ok s', st') => (.site s', env, st')
      | (.error err, st') => (.failed err, env, st')
  | .chain label es =>
    match env.blocks.lookup label with
    | none => (.failed (.unbound label), env, st)
    | some s =>
      let (reply, st') := performChain env s 0 es st
      (reply, env, st')
  | .setMain t =>
    match (env.target t : Except (Error ε) Target) with
    | .error e => (.failed e, env, st)
    | .ok target =>
      match (Builder.setMain target).run.run st with
      | (.ok _, st') => (.done, env, st')
      | (.error e, st') => (.failed (.refused e), env, st')

/-- The start of a script over a backend: the common types are resolved and no name is bound. -/
def start (st : σ) : Env × σ :=
  let (types, st') := Catalogue.resolve.run st
  ({ types }, st')

/-- Performs the steps of a script one after another. -/
def run (env : Env) (st : σ) : List Step → List (Reply ε) × Env × σ
  | [] => ([], env, st)
  | step :: steps =>
    let (reply, env', st') := step.perform env st
    let (replies, env'', st'') := run env' st' steps
    (reply :: replies, env'', st'')

end Straightline.Script
