import Straightline.Proofs.Orders
import Straightline.Proofs.Reread
import Straightline.Recorder

/-!
# The recorder stands in for a program

A recorder checks nothing and only counts, while a program looks at what it has; yet under the builder nothing shows that, as long
as the program refuses nothing. The recorder has then counted what the program has (`Recorder.Tracks`), so that it hands out the
same references, and the calls it has kept build the program again. Main statement: `Script.build_recorded`.
-/

namespace Straightline

namespace Recorder

/-! ## What a recorder does with a call -/

/-- What a recorder answers to a call that it does not reject. -/
def answer (r : Recorder) : Call → Answer
  | .resolveType _ => .type (.ofIndex r.types)
  | .declareMethod .. => .method (.ofIndex r.methods)
  | .declareBlock m _ => .block (.ofIndex (r.blocks.count m))
  | .emit .. => .done
  | .setEntry _ => .done

/-- The recorder after a call that it does not reject. -/
def take (r : Recorder) (c : Call) : Recorder :=
  match c with
  | .resolveType _ => { r.record c with types := r.types + 1 }
  | .declareMethod .. => { r.record c with methods := r.methods + 1 }
  | .declareBlock m _ => { r.record c with blocks := r.blocks ++ [m] }
  | .emit .. => r.record c
  | .setEntry _ => r.record c

@[simp] theorem calls_take (r : Recorder) (c : Call) : (r.take c).calls = r.calls ++ [c] := by
  cases c <;> rfl

@[simp] theorem reject_take (r : Recorder) (c : Call) : (r.take c).reject = r.reject := by
  cases c <;> rfl

/-- A call that may be rejected, with its answer. -/
theorem run_accept {α : Type} (f : α → Answer) (c : Call) (g : Recorder → α × Recorder) (r : Recorder) :
    (f <$> accept c g : BuildM Recorder Rejected Answer).run.run r =
      if r.reject = some r.calls.length then (.error ⟨r.calls.length⟩, r.record c)
      else (.ok (f (g (r.record c)).1), (g (r.record c)).2) := by
  have haccept : (accept c g).run.run r = if r.reject = some r.calls.length then (.error ⟨r.calls.length⟩, r.record c)
      else (.ok (g (r.record c)).1, (g (r.record c)).2) := rfl
  rw [BuildM.run_map, haccept]
  split <;> rfl

/-- A recorder takes every call but the one that it is told to reject. -/
theorem perform_of_ne {r : Recorder} {c : Call} (h : r.reject = some r.calls.length → c.resolvesType = true) :
    (Backend.perform c).run.run r = (.ok (r.answer c), r.take c) := by
  cases c with
  | resolveType t => rfl
  | _ =>
    have hne : ¬r.reject = some r.calls.length := fun hr => Bool.false_ne_true (h hr)
    exact (run_accept ..).trans (if_neg hne)

/-- A recorder that is told nothing takes every call. -/
theorem perform_of_none {r : Recorder} (h : r.reject = none) (c : Call) :
    (Backend.perform c).run.run r = (.ok (r.answer c), r.take c) := by
  refine perform_of_ne fun hr => ?_
  rw [h] at hr
  cases hr

/-- The call that a recorder is told to reject is kept, and takes no number. -/
theorem perform_of_eq {r : Recorder} {c : Call} (h : r.reject = some r.calls.length) (hc : c.resolvesType = false) :
    (Backend.perform c).run.run r = (.error ⟨r.calls.length⟩, r.record c) := by
  cases c with
  | resolveType t => cases hc
  | _ => exact (run_accept ..).trans (if_pos h)

/-! ## A recorder beside a program -/

end Recorder

namespace Program

variable {p q : Program} {m : MethodRef}

/-- The number of blocks after a change of one method. -/
theorem blockCount_edit (p : Program) (m m' : MethodRef) (f : Method → Method) :
    (p.edit m f).blockCount m' = ((p.method? m').map fun d => (if m = m' then f d else d).blocks.length).getD 0 := by
  have hindex : m.index = m'.index ↔ m = m' := by
    refine ⟨fun h => ?_, fun h => congrArg Ref.index h⟩
    rw [← Ref.ofIndex_index m, h, Ref.ofIndex_index]
  rw [blockCount, method?, getElem?_edit, Option.map_map, ← method?]
  simp only [hindex]
  rfl

/-- A new method has no blocks. -/
theorem blockCount_addMethod (p : Program) {d : Method} (hd : d.blocks = []) (m : MethodRef) :
    ({ p with methods := p.methods ++ [d] } : Program).blockCount m = p.blockCount m := by
  unfold blockCount method?
  rw [List.getElem?_append]
  by_cases hlt : m.index < p.methods.length
  · rw [if_pos hlt]
  · rw [if_neg hlt, List.getElem?_eq_none (Nat.le_of_not_lt hlt), List.getElem?_singleton]
    by_cases hzero : m.index - p.methods.length = 0
    · rw [if_pos hzero, Option.map_some, hd]
      rfl
    · rw [if_neg hzero]

/-- Calls are answered one after another. -/
theorem replies_append (p : Program) (cs ds : List Call) :
    (Backend.performAll p (cs ++ ds)).1 = (Backend.performAll p cs).1 ++ (Backend.performAll (p.after cs) ds).1 := by
  induction cs generalizing p with
  | nil => rfl
  | cons c cs ih =>
    show p.reply c :: (Backend.performAll (p.next c) (cs ++ ds)).1 = _
    rw [ih]
    rfl

end Program

namespace Recorder

open Program (Accepted)

variable {r : Recorder} {p q : Program} {c : Call} {a : Answer}

/-- A recorder that rejects nothing has counted the methods of a program and the blocks of each, and the calls it has kept, made
once more from nothing, are all accepted and build the program. -/
structure Tracks (r : Recorder) (p : Program) : Prop where
  reject : r.reject = none
  methods : r.methods = p.methods.length
  blocks : ∀ m, r.blocks.count m = p.blockCount m
  accepted : ∀ x ∈ (Backend.performAll ({} : Program) r.calls).1, x.isOk = true
  program : Program.built r.calls = p

/-- A recorder answers as a program does that it tracks and that accepts the call. -/
theorem Tracks.answer_eq (h : r.Tracks p) (hc : Accepted p c a q) (htype : c.resolvesType = false) : r.answer c = a := by
  cases hc with
  | resolveType t => cases htype
  | declareMethod hname hnew htypes => rw [answer, h.methods]
  | declareBlock hname hm hnew => rw [answer, h.blocks, Program.blockCount_of_method? hm]
  | emit hm hb hi hok => rfl
  | setEntry hm he => rfl

/-- A recorder counts the blocks of a program that accepts the call. -/
theorem Tracks.blocks_take (h : r.Tracks p) (hc : Accepted p c a q) (htype : c.resolvesType = false) (m : MethodRef) :
    (r.take c).blocks.count m = q.blockCount m := by
  cases hc with
  | resolveType t => cases htype
  | declareMethod hname hnew htypes =>
    rw [Program.blockCount_addMethod p rfl]
    exact h.blocks m
  | @declareBlock m' name d hname hm hnew =>
    show (r.blocks ++ [m']).count m = _
    rw [List.count_append, h.blocks, Program.blockCount_edit]
    by_cases hmm : m' = m
    · subst hmm
      rw [Program.blockCount_of_method? hm, hm]
      simp [Method.addBlock]
    · simp [hmm, Program.blockCount]
  | @emit m' b mnemonic operands d block i hm hb hi hok =>
    show r.blocks.count m = _
    rw [h.blocks, Program.blockCount_edit]
    by_cases hmm : m' = m
    · simp [hmm, Program.blockCount, Method.push]
    · simp [hmm, Program.blockCount]
  | setEntry hm he => exact h.blocks m

/-- A recorder keeps track of a program that accepts the call. -/
theorem Tracks.take (h : r.Tracks p) (hc : Accepted p c a q) (htype : c.resolvesType = false) : (r.take c).Tracks q := by
  obtain ⟨hreply, hnext⟩ := Program.accepted_iff.1 hc
  have hafter : ({} : Program).after r.calls = p := h.program
  refine ⟨?_, ?_, h.blocks_take hc htype, ?_, ?_⟩
  · rw [reject_take, h.reject]
  · cases hc with
    | resolveType t => cases htype
    | declareMethod hname hnew htypes =>
      show r.methods + 1 = (p.methods ++ [_]).length
      rw [h.methods, List.length_append, List.length_singleton]
    | declareBlock hname hm hnew => exact h.methods.trans (List.length_modify ..).symm
    | emit hm hb hi hok => exact h.methods.trans (List.length_modify ..).symm
    | setEntry hm he => exact h.methods
  · intro x hx
    rw [calls_take, Program.replies_append, hafter, List.mem_append] at hx
    rcases hx with hx | hx
    · exact h.accepted x hx
    · rw [List.mem_singleton.1 (show x ∈ [p.reply c] from hx), hreply]
      rfl
  · rw [calls_take, Program.built, Program.after_append, hafter]
    exact hnext

/-- Under the builder, a recorder imitates a program. -/
theorem imitates_program : Script.Imitates fun (p : Program) (r : Recorder) => r.Tracks p := by
  intro p q r c a h htype hc
  have hacc : Accepted p c a q := Program.accepted_iff.2 ⟨congrArg Prod.fst hc, congrArg Prod.snd hc⟩
  refine ⟨r.take c, ?_, h.take hacc htype⟩
  rw [perform_of_none h.reject, h.answer_eq hacc htype]

end Recorder

namespace Script

/-- Over a fresh recorder a script starts as over a fresh program: the common types have the same references, and the recorder
tracks the program that has them. -/
theorem start_recorder :
    (start ({} : Recorder)).1 = (start ({} : Program)).1 ∧ (start ({} : Recorder)).2.Tracks (start ({} : Program)).2 := by
  refine ⟨rfl, rfl, rfl, fun m => rfl, ?_, rfl⟩
  intro x hx
  have hall : (Backend.performAll ({} : Program) (start ({} : Recorder)).2.calls).1.all Except.isOk = true := rfl
  exact List.all_eq_true.1 hall x hx

/-- A script that succeeds over a fresh program succeeds over a fresh recorder, with the same references: those of the common
types, those that each step comes to, and those that names are bound to in the end. The calls that the recorder has kept are all
accepted by another fresh program, and make it the same program. -/
theorem build_recorded (steps : List Step) (h : ∀ r ∈ (build ({} : Program) steps).1, r.succeeds = true) :
    (start ({} : Recorder)).1.types = (start ({} : Program)).1.types ∧
      List.Forall₂ Reply.Same (build ({} : Program) steps).1 (build ({} : Recorder) steps).1 ∧
      (build ({} : Recorder) steps).2.1 = (build ({} : Program) steps).2.1 ∧
      (∀ x ∈ (Backend.performAll ({} : Program) (build ({} : Recorder) steps).2.2.calls).1, x.isOk = true) ∧
      (Backend.performAll ({} : Program) (build ({} : Recorder) steps).2.2.calls).2 = (build ({} : Program) steps).2.2 := by
  obtain ⟨henv, htracks⟩ := start_recorder
  obtain ⟨hreplies, hbound, hend⟩ := Recorder.imitates_program.run htracks h
  refine ⟨congrArg Env.types henv, ?_⟩
  unfold build
  rw [henv]
  exact ⟨hreplies, hbound, hend.accepted, hend.program⟩

/-- Two methods whose blocks are declared in turns, a chain that calls the other method by a block of it, and an entry that is set
by a block. -/
def turns : List Step :=
  [.method "f" "first" (.named "u8") [.named "u8"], .block "f0" "f" "start", .method "g" "second" (.named "i32") [],
    .block "g0" "g" "start", .block "f1" "f" "rest", .emit "f1" (.ret none),
    .chain "g0" [.ldConst 1 (.named "u8") (.int 200), .call 2 (.block "f1") [1], .add 3 2 1, .ret (some 3)],
    .chain "f0" [.ldParam 0 0, .ret (some 0)], .setMain (.block "g0")]

/-- A recorder hands out the references of both methods and of their blocks, keeps the calls that write the instructions, with the
block that is called turned into its method, and its calls build the program. -/
theorem build_recorded_turns :
    (∀ r ∈ (build ({} : Program) turns).1, r.succeeds = true) ∧
      List.Forall₂ Reply.Same (build ({} : Program) turns).1 (build ({} : Recorder) turns).1 ∧
      (build ({} : Recorder) turns).2.1.blocks = [("f1", ⟨⟨0⟩, ⟨1⟩⟩), ("g0", ⟨⟨1⟩, ⟨0⟩⟩), ("f0", ⟨⟨0⟩, ⟨0⟩⟩)] ∧
      (build ({} : Recorder) turns).2.2.calls.filter (fun c => c.mnemonic?.isSome) =
        [.emit ⟨0⟩ ⟨1⟩ "ret" [.absent], .emit ⟨1⟩ ⟨0⟩ "ld_const" [.register 1, .type ⟨5⟩, .const (.int 200)],
          .emit ⟨1⟩ ⟨0⟩ "call" [.register 2, .method ⟨0⟩, .list [.register 1]],
          .emit ⟨1⟩ ⟨0⟩ "add" [.register 3, .register 2, .register 1], .emit ⟨1⟩ ⟨0⟩ "ret" [.register 3],
          .emit ⟨0⟩ ⟨0⟩ "ld_param" [.register 0, .index 0], .emit ⟨0⟩ ⟨0⟩ "ret" [.register 0]] ∧
      (Backend.performAll ({} : Program) (build ({} : Recorder) turns).2.2.calls).2 = (build ({} : Program) turns).2.2 := by
  have h : ∀ r ∈ (build ({} : Program) turns).1, r.succeeds = true := by decide +kernel
  obtain ⟨-, hreplies, hbound, -, hprogram⟩ := build_recorded turns h
  refine ⟨h, hreplies, ?_, rfl, hprogram⟩
  rw [hbound]
  rfl

end Script

end Straightline
