import Straightline.Proofs.Simulation
import Straightline.Proofs.WellFormed

/-!
# Results that last

A run that has come to a result comes to it again after any further building: what it executed is the front of code that only
grows at its end, with types that stay. A fault may pass only if it says that something is not there yet, a method, a block or a
return (`Fault.Passing`). Main statement: `Program.run_built_after`.
-/

namespace Straightline

/-- A fault that further building may remove: a method is not there yet, has no block yet, or has no return yet. -/
def Fault.Passing : Fault → Prop
  | .noEntry => False
  | .unknownMethod _ => True
  | .emptyMethod _ => True
  | .argumentCount .. => False
  | .undefinedRegister .. => False
  | .missingReturn _ => True
  | .depthExceeded _ => False

/-- A fault of what a run did and not of what was missing: a wrong number of arguments, a register that is read before it is
written, or calls nested too deeply. -/
def Fault.Lasting : Fault → Prop
  | .noEntry => False
  | .unknownMethod _ => False
  | .emptyMethod _ => False
  | .argumentCount .. => True
  | .undefinedRegister .. => True
  | .missingReturn _ => False
  | .depthExceeded _ => True

/-- A fault that lasts does not pass. -/
theorem Fault.Lasting.not_passing {e : Fault} (h : e.Lasting) : ¬e.Passing := by
  cases e with
  | argumentCount | undefinedRegister | depthExceeded => exact not_false
  | noEntry | unknownMethod | emptyMethod | missingReturn => exact absurd h not_false

namespace Program

variable {p q : Program}

/-- A type that is there reduces words after any gain as before it. -/
theorem Extends.wrap_eq (h : p.Extends q) {t : TypeRef} (ht : ∃ s, p.type? t = some s) (v : Int64) : q.wrap t v = p.wrap t v := by
  obtain ⟨s, hs⟩ := ht
  rw [wrap, wrap, hs, h.type? hs]

/-- Meaningful code that has gained instructions at its end does the same up to where it ended. -/
theorem Extends.sameCode (h : p.Extends q) {d : Method} {more : Prop} (hmore : more) {is js : List Instr} (hjs : is <+: js)
    (his : ∀ i ∈ is, p.Allows d i) : SameCode p q Eq more is js := by
  obtain ⟨gained, rfl⟩ := hjs
  induction is with
  | nil => exact .more hmore gained
  | cons i is ih =>
    obtain ⟨hi, his⟩ := List.forall_mem_cons.1 his
    have hrest := ih his
    cases i with
    | add r a b => exact .add r a b hrest
    | loadParam r i => exact .loadParam r i hrest
    | loadConst r t c =>
      obtain ⟨s, hs, -⟩ := hi
      exact .loadConst r (h.wrap_eq ⟨s, hs⟩ c.toWord) hrest
    | call r m args => exact .call r args rfl hrest
    | ret v => exact .ret v _ _

/-- A method that has gained follows the method as it was. -/
theorem MethodWellFormed.follows {d e : Method} (hd : p.MethodWellFormed d) (h : p.Extends q) (hde : d.Extends e) :
    FollowsMethod p q Eq Fault.Passing d e := by
  refine ⟨hde.name, fun v => ?_, ?_, fun _ => Or.inl trivial, fun b hb => ?_⟩
  · rw [hde.returnType]
    exact h.wrap_eq (hd.types d.returnType List.mem_cons_self) v
  · rw [hde.params, List.forall₂_same]
    exact fun t ht v => h.wrap_eq (hd.types t (List.mem_cons_of_mem _ ht)) v
  · rw [Method.entryBlock?, List.head?_eq_getElem?] at hb
    obtain ⟨c, hc, hbc⟩ := hde.blocks 0 b hb
    refine ⟨c, ?_, h.sameCode trivial hbc.instrs (hd.instrs b (List.mem_of_getElem? hb))⟩
    rw [Method.entryBlock?, List.head?_eq_getElem?]
    exact hc

/-- A program that has gained follows the well-formed program it was, but for the faults that may pass. -/
theorem WellFormed.follows (hp : p.WellFormed) (h : p.Extends q) : Follows p q Eq Fault.Passing := by
  refine ⟨fun m n _ _ => Or.inl trivial, ?_⟩
  rintro m _ d rfl hm
  obtain ⟨e, he, hde⟩ := h.method? hm
  exact ⟨e, he, (hp.method hm).follows h hde⟩

/-- What a run of a program that calls have built comes to, it comes to again after any further calls, accepted or refused, if it
is a value, no value or a fault that lasts. A run that comes to something else afterwards had come to a fault that may pass. -/
theorem run_built_after (cs ds : List Call) (m : MethodRef) (args : List Int64) (limit : Nat) :
    (Ends (fun _ => True) Fault.Lasting ((built cs).run m args limit) →
      ((built cs).after ds).run m args limit = (built cs).run m args limit) ∧
    (((built cs).after ds).run m args limit ≠ (built cs).run m args limit →
      ∃ e, (built cs).run m args limit = .error e ∧ e.Passing) := by
  have hwf : (built cs).WellFormed := wellFormed_empty.after cs
  have hkeeps := (hwf.follows (extends_after (built cs) ds)).run_keeps (rfl : m = m) args limit
  refine ⟨fun hends => ?_, hkeeps.open_of_ne⟩
  exact hkeeps.eq fun e he => (hends.of_error he).not_passing

/-- A method that returns what another one returns, and one that has no return yet. -/
def unfinished : List Call :=
  [.resolveType ⟨true, 8⟩, .declareMethod "main" ⟨0⟩ [], .declareMethod "five" ⟨0⟩ [], .declareMethod "later" ⟨0⟩ [],
    .declareBlock ⟨0⟩ "start", .emit ⟨0⟩ ⟨0⟩ "call" [.register 1, .method ⟨1⟩, .registers []],
    .emit ⟨0⟩ ⟨0⟩ "ret" [.register 1], .declareBlock ⟨1⟩ "start",
    .emit ⟨1⟩ ⟨0⟩ "ld_const" [.register 0, .type ⟨0⟩, .const (.int 5)], .emit ⟨1⟩ ⟨0⟩ "ret" [.register 0],
    .declareBlock ⟨2⟩ "start"]

/-- Calls that add to each of them, one of them refused. -/
def finishing : List Call :=
  [.emit ⟨1⟩ ⟨0⟩ "ret" [.absent], .resolveType ⟨false, 8⟩, .declareMethod "main" ⟨1⟩ [], .emit ⟨0⟩ ⟨0⟩ "ret" [.absent],
    .emit ⟨2⟩ ⟨0⟩ "ret" [.absent]]

/-- The result that is there lasts, also where the limit cuts it off, and the missing return passes. -/
theorem run_unfinished_after :
    (Ends (fun _ => True) Fault.Lasting ((built unfinished).run ⟨0⟩ [] 1) ∧
      ((built unfinished).after finishing).run ⟨0⟩ [] 1 = .ok (some 5)) ∧
    (Ends (fun _ => True) Fault.Lasting ((built unfinished).run ⟨0⟩ [] 0) ∧
      ((built unfinished).after finishing).run ⟨0⟩ [] 0 = .error (.depthExceeded 0)) ∧
    ((built unfinished).after finishing).run ⟨2⟩ [] 1 = .ok none ∧
      (built unfinished).run ⟨2⟩ [] 1 = .error (.missingReturn "later") ∧ (Fault.missingReturn "later").Passing := by
  refine ⟨⟨trivial, ?_⟩, ⟨trivial, ?_⟩, rfl, ?_⟩
  · rw [(run_built_after unfinished finishing ⟨0⟩ [] 1).1 trivial]
    rfl
  · rw [(run_built_after unfinished finishing ⟨0⟩ [] 0).1 trivial]
    rfl
  · obtain ⟨e, he, hpassing⟩ := (run_built_after unfinished finishing ⟨2⟩ [] 1).2 fun h => nomatch h
    cases he
    exact ⟨rfl, hpassing⟩

end Program

end Straightline
