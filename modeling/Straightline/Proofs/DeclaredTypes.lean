import Straightline.Proofs.DepthLimit
import Straightline.Proofs.Ranges
import Straightline.Proofs.Runs

/-!
# Runs through declared types

A run sees an argument only through the type of its parameter, and a result is seen only through the return type of its method.
Arguments of one class modulo the number of values of the type are loaded as the same word, so that two runs on such arguments go
through the same registers (`Program.alike_of_congruent`); what a method returns has been reduced to its return type
(`Program.call_reduced`). Main statement: `Program.run_built_typed`.
-/

namespace Straightline

namespace Program

variable {p : Program} {d : Method}

/-- Two lists of arguments are the same to the parameters: in each place the integers are congruent modulo the number of values of
the type of the parameter. -/
def Congruent (p : Program) (params : List TypeRef) (args args' : List Int64) : Prop :=
  ∀ (i : Nat) (t : TypeRef) (s : Scalar) (x y : Int64), params[i]? = some t → p.type? t = some s → args[i]? = some x →
    args'[i]? = some y → x.toInt ≡ y.toInt [ZMOD 2 ^ s.width]

/-! ## Arguments -/

/-- Congruent arguments are loaded alike. -/
theorem alike_of_congruent (hd : p.MethodWellFormed d) {args args' : List Int64} (hlen : args.length = args'.length)
    (h : p.Congruent d.params args args') : Alike p p ⟨d, args⟩ ⟨d, args'⟩ := by
  refine ⟨rfl, fun k => ?_, fun _ => rfl⟩
  simp only [argument, hlen]
  by_cases hk : k.toNat < args'.length
  · have hk' : k.toNat < args.length := by omega
    have hx := List.getElem?_eq_getElem hk'
    have hy := List.getElem?_eq_getElem hk
    rw [hx, hy]
    cases ht : d.params[k.toNat]? with
    | none => rfl
    | some t =>
      obtain ⟨s, hs⟩ := hd.types t (List.mem_cons_of_mem _ (List.mem_of_getElem? ht))
      simp only [wrap, hs]
      rw [Scalar.wrap_eq_wrap_iff.2 (h k.toNat t s _ _ ht hs hx hy)]
  · have hk' : ¬k.toNat < args.length := by omega
    rw [List.getElem?_eq_none (Nat.le_of_not_lt hk), List.getElem?_eq_none (Nat.le_of_not_lt hk')]

/-- A call of a well-formed method comes to the same on congruent arguments. -/
theorem MethodWellFormed.call_eq_of_congruent (hd : p.MethodWellFormed d) {m : MethodRef} (hm : p.method? m = some d)
    {args args' : List Int64} (hlen : args.length = args'.length) (h : p.Congruent d.params args args') (limit nested : Nat) :
    p.call limit nested m args = p.call limit nested m args' := by
  cases nested with
  | zero => rfl
  | succ nested =>
    rw [call, call, hm, hlen]
    simp only
    split
    · rfl
    · cases d.entryBlock? with
      | none => rfl
      | some b =>
        have hcall : ∀ m n as, m = n → Keeps (fun _ => False) (p.call limit nested m as) (p.call limit nested n as) := by
          rintro m _ as rfl
          exact Keeps.refl _
        have hkeeps := (SameCode.refl b.instrs).exec_keeps hcall (alike_of_congruent hd hlen h) []
        exact (hkeeps.eq fun _ _ => id).symm

/-! ## Results -/

/-- A value that a call returns has been reduced to the return type. -/
theorem call_reduced {m : MethodRef} (hm : p.method? m = some d) (limit nested : Nat) (args : List Int64) :
    Ends (fun r => ∀ v, r = some v → ∃ w, v = p.wrap d.returnType w) (fun _ => True) (p.call limit nested m args) := by
  cases nested with
  | zero => exact trivial
  | succ nested =>
    refine call_ends_of_block hm (fun _ => trivial) (fun _ => trivial) fun b _ _ => ?_
    refine exec_ends_of_steps ?_ ?_ (fun _ => trivial) trivial (fun i _ => ?_) []
    · intro v hv
      cases hv
    · intro w v hv
      exact ⟨w, (Option.some.inj hv).symm⟩
    · cases i with
      | loadParam r k => exact Ends.anyhow _
      | call r c as => exact fun _ _ => Ends.anyhow _
      | _ => exact trivial

/-- Arguments and results are seen only through their declared types. In a program that calls have built, a run of a method comes
to the same on arguments that are congruent modulo the numbers of values of the parameter types; and a value that it comes to is
its own reduction to the return type and stands for an integer in the range of that type. -/
theorem run_built_typed (cs : List Call) (m : MethodRef) (d : Method) (hm : (built cs).method? m = some d) (limit : Nat) :
    (∀ args args' : List Int64, args.length = d.params.length → args'.length = d.params.length →
      (built cs).Congruent d.params args args' → (built cs).run m args limit = (built cs).run m args' limit) ∧
    (∀ (args : List Int64) (v : Int64), (built cs).run m args limit = .ok (some v) →
      ∃ s, (built cs).type? d.returnType = some s ∧ s.wrap v = v ∧ s.Contains (s.reading v)) := by
  have hwf : (built cs).WellFormed := wellFormed_empty.after cs
  have hd := hwf.method hm
  refine ⟨?_, ?_⟩
  · intro args args' hargs hargs' h
    exact hd.call_eq_of_congruent hm (hargs.trans hargs'.symm) h limit (limit + 1)
  · intro args v hrun
    obtain ⟨s, hs⟩ := hd.types d.returnType List.mem_cons_self
    obtain ⟨w, hw⟩ := (call_reduced hm limit (limit + 1) args).of_ok hrun v rfl
    have hself : s.wrap v = v := by
      rw [hw, wrap, hs]
      exact s.wrap_wrap w
    exact ⟨s, hs, hself, Scalar.contains_reading_iff.2 hself⟩

/-- A method of a byte and a number of no bits that adds the greatest word to them and returns the sum at 80 bits. -/
def wideSum : List Call :=
  [.resolveType ⟨false, 8⟩, .resolveType ⟨true, 0⟩, .resolveType ⟨false, 80⟩, .declareMethod "wide" ⟨2⟩ [⟨0⟩, ⟨1⟩],
    .declareBlock ⟨0⟩ "start", .emit ⟨0⟩ ⟨0⟩ "ld_param" [.register 0, .index 0], .emit ⟨0⟩ ⟨0⟩ "ld_param" [.register 1, .index 1],
    .emit ⟨0⟩ ⟨0⟩ "add" [.register 2, .register 0, .register 1],
    .emit ⟨0⟩ ⟨0⟩ "ld_const" [.register 3, .type ⟨2⟩, .const (.uint 18446744073709551615)],
    .emit ⟨0⟩ ⟨0⟩ "add" [.register 4, .register 2, .register 3], .emit ⟨0⟩ ⟨0⟩ "ret" [.register 4]]

/-- The byte counts modulo 256 and the number of no bits not at all; the sum is a word that is negative with a sign, and in the
range of its type without one. -/
theorem run_wideSum :
    (built wideSum).run ⟨0⟩ [256, 7] 0 = (built wideSum).run ⟨0⟩ [0, -3] 0 ∧
      (built wideSum).run ⟨0⟩ [0, -3] 0 = .ok (some (-1)) ∧ Scalar.Contains ⟨false, 80⟩ (Scalar.reading ⟨false, 80⟩ (-1)) := by
  obtain ⟨hsame, hrange⟩ := run_built_typed wideSum ⟨0⟩ _ rfl 0
  have hrun : (built wideSum).run ⟨0⟩ [0, -3] 0 = .ok (some (-1)) := rfl
  refine ⟨hsame [256, 7] [0, -3] rfl rfl ?_, hrun, ?_⟩
  · intro i t s x y ht hs hx hy
    match i with
    | 0 =>
      cases ht
      cases hs
      cases hx
      cases hy
      decide
    | 1 =>
      cases ht
      cases hs
      cases hx
      cases hy
      decide
    | i + 2 => cases hx
  · obtain ⟨s, hs, -, hs'⟩ := hrange [0, -3] (-1) hrun
    cases hs
    exact hs'

end Program

end Straightline
