import Straightline.Proofs.DepthLimit
import Straightline.Proofs.LiveCode
import Straightline.Proofs.Runs

/-!
# Ranks of methods

A program without recursion has ranks: each method calls only methods of smaller rank (`Program.Ranked`). The rank of a method
bounds the calls that a run of it nests, since every call on the way down takes one from the limit and at least one from the rank
(`Program.Ranked.call_ends`). Only live calls count, so that a method may call itself behind its first return. Main statement:
`Program.run_of_ranked`.
-/

namespace Straightline

/-- The method that an instruction calls. -/
def Instr.callee? : Instr → Option MethodRef
  | .call _ m _ => some m
  | _ => none

/-- The methods that a run of the method may call. -/
def Method.callees (d : Method) : List MethodRef := d.live.filterMap Instr.callee?

/-- The fault of running into the limit. -/
def Fault.AtLimit : Fault → Prop
  | .depthExceeded _ => True
  | _ => False

namespace Program

/-- A method calls only methods of smaller rank. Whether the methods it calls exist does not matter. -/
def Ranked (p : Program) (rank : MethodRef → Nat) : Prop :=
  ∀ m d, p.method? m = some d → ∀ c ∈ d.callees, rank c < rank m

variable {p : Program} {rank : MethodRef → Nat}

/-- Ranks are checked method by method, in the order of their declaration. -/
theorem ranked_iff : p.Ranked rank ↔
    ∀ k (_ : k < p.methods.length), k < UInt32.size → ∀ c ∈ p.methods[k].callees, rank c < rank (.ofIndex k) := by
  constructor
  · intro h k hk hsize
    refine h (.ofIndex k) p.methods[k] ?_
    rw [method?, Ref.index_ofIndex hsize]
    exact List.getElem?_eq_getElem hk
  · intro h m d hm
    obtain ⟨hk, rfl⟩ := List.getElem?_eq_some_iff.1 hm
    have hrank := h m.index hk m.num.toNat_lt
    rwa [Ref.ofIndex_index] at hrank

instance : Decidable (p.Ranked rank) := decidable_of_iff _ ranked_iff.symm

/-- Loading an argument does not run into the limit. -/
theorem argument_not_atLimit (p : Program) (f : Activation) (i : UInt32) :
    Ends (fun _ => True) (fun e => ¬e.AtLimit) (p.argument f i) := by
  unfold argument
  split
  · exact trivial
  · exact id

/-- A call does not run into the limit where more calls may be nested than its rank says. The induction is on the calls that may
still be nested; each live call has one of them less, and a smaller rank. -/
theorem Ranked.call_ends (h : p.Ranked rank) (limit : Nat) {nested : Nat} {m : MethodRef} (hm : rank m < nested)
    (args : List Int64) : Ends (fun _ => True) (fun e => ¬e.AtLimit) (p.call limit nested m args) := by
  induction nested generalizing m args with
  | zero => omega
  | succ nested ih =>
    cases hd : p.method? m with
    | none =>
      rw [call, hd]
      exact id
    | some d =>
      refine call_ends_of_block hd (fun _ => id) (fun _ => id) fun b hb _ => ?_
      have hcallees := h m d hd
      rw [Method.callees, Method.live, hb] at hcallees
      rw [← exec_upToReturn]
      refine exec_ends_of_steps trivial (fun _ => trivial) (fun _ => id) id (fun i hi => ?_) []
      cases i with
      | loadParam r k => exact p.argument_not_atLimit _ k
      | call r c as =>
        intro values _
        have hrank : rank c < rank m := hcallees c (List.mem_filterMap.2 ⟨_, hi, rfl⟩)
        exact ih (by omega) values
      | _ => exact trivial

/-- Under a limit of at least its rank, a run comes to what it comes to under its rank as the limit. -/
theorem Ranked.run_eq (h : p.Ranked rank) {m : MethodRef} {limit : Nat} (hle : rank m ≤ limit) (args : List Int64) :
    p.run m args limit = p.run m args (rank m) := by
  have hends := h.call_ends (rank m) (Nat.lt_succ_self (rank m)) args
  have hfollows : Follows p p Eq Fault.AtLimit := follows_self p
  have hkeeps : Keeps Fault.AtLimit (p.run m args (rank m)) (p.run m args limit) :=
    hfollows.call_keeps_of_le (Nat.succ_le_succ hle) (.inl trivial) rfl args
  exact hkeeps.eq fun e he => hends.of_error he

/-- The rank of a method is limit enough: where every method calls only methods of smaller rank, a run under a limit of at least
the rank of its method does not run into the limit, and it comes to the same under all these limits. The program need not be well
formed. -/
theorem run_of_ranked (p : Program) (rank : MethodRef → Nat) (h : p.Ranked rank) (m : MethodRef) (args : List Int64) :
    (∀ limit, rank m ≤ limit → ∀ reported, p.run m args limit ≠ .error (.depthExceeded reported)) ∧
      ∀ limit limit', rank m ≤ limit → rank m ≤ limit' → p.run m args limit = p.run m args limit' := by
  refine ⟨?_, ?_⟩
  · intro limit hle reported hrun
    have hends := h.call_ends limit (Nat.lt_succ_of_le hle) args
    exact hends.of_error hrun trivial
  · intro limit limit' hle hle'
    rw [h.run_eq hle, h.run_eq hle']

/-- A method that calls a second one twice, which calls a third one; the first one calls itself behind its return. -/
def fourfold : Program where
  types := [⟨false, 8⟩]
  methods := [
    { name := "main", returnType := ⟨0⟩, params := [⟨0⟩],
      blocks := [⟨"start", [.loadParam 0 0, .call 1 ⟨1⟩ [0], .call 2 ⟨1⟩ [1], .ret (some 2), .call 3 ⟨0⟩ [0]]⟩] },
    { name := "twice", returnType := ⟨0⟩, params := [⟨0⟩],
      blocks := [⟨"start", [.loadParam 0 0, .call 1 ⟨2⟩ [0, 0], .ret (some 1)]⟩] },
    { name := "sum", returnType := ⟨0⟩, params := [⟨0⟩, ⟨0⟩],
      blocks := [⟨"start", [.loadParam 0 0, .loadParam 1 1, .add 2 0 1, .ret (some 2)]⟩] }]

/-- The first method has rank two. Two is just limit enough, and a thousand does no more than two. -/
theorem run_fourfold :
    fourfold.Ranked (fun m => 2 - m.index) ∧ fourfold.run ⟨0⟩ [70] 1 = .error (.depthExceeded 1) ∧
      fourfold.run ⟨0⟩ [70] 2 ≠ .error (.depthExceeded 2) ∧ fourfold.run ⟨0⟩ [70] 1000 = .ok (some 24) := by
  have hranked : fourfold.Ranked (fun m => 2 - m.index) := by decide +kernel
  obtain ⟨hlimit, hsame⟩ := run_of_ranked fourfold _ hranked ⟨0⟩ [70]
  have hrun : fourfold.run ⟨0⟩ [70] 2 = .ok (some 24) := rfl
  refine ⟨hranked, rfl, hlimit 2 (by decide) 2, ?_⟩
  rw [hsame 1000 2 (by decide) (by decide), hrun]

end Program

end Straightline
