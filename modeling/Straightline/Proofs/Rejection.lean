import Straightline.Proofs.Recording

/-!
# Where a rejection strikes

A recorder that is told to reject a call does what a recorder does that is told nothing, until it gets that call; the call is
kept, and the operation of the builder that makes it fails (`Recorder.attemptAll_rejecting`, `Recorder.attemptAll_rejected`).
Since each operation makes one call, the number of the call says which operation that is. Main statement:
`Script.build_rejecting`.
-/

namespace Straightline

/-! ## Operations -/

namespace Script

section Operations

variable {ε : Type}

/-- The number of builder operations in a step. -/
def Step.size : Step → Nat
  | .chain _ es => es.length
  | _ => 1

/-- What a step comes to when one of its operations fails, after so many others. -/
def Step.fail (step : Step) (done : Nat) (e : Error ε) : Reply ε :=
  match step with
  | .chain .. => .broken done e
  | _ => .failed e

/-- The number of calls that an operation makes which fails so. -/
def Error.calls : Error ε → Nat
  | .unbound _ => 0
  | .refused _ => 1

/-- The number of operations of a step that have reached the backend, by what the step has come to. -/
def Step.operations (step : Step) : Reply ε → Nat
  | .failed e => e.calls
  | .broken done e => done + e.calls
  | _ => step.size

/-- The number of operations of a script that have reached the backend. -/
def operations : List Step → List (Reply ε) → Nat
  | step :: steps, reply :: replies => step.operations reply + operations steps replies
  | _, _ => 0

/-- A step asks for one call for each of its operations, and fails as one of them does. -/
theorem Step.order_agrees {step : Step} {env : Env} {o : Order} (h : step.order env = .ok o) :
    o.calls.length = step.size ∧ ∀ done (e : Error ε), o.fail done e = step.fail done e := by
  cases step with
  | method bind name returnType params =>
    obtain ⟨x, -, rfl⟩ := map_eq_ok_iff.1 h
    exact ⟨rfl, fun done e => rfl⟩
  | block bind owner name =>
    obtain ⟨m, -, rfl⟩ := map_eq_ok_iff.1 h
    exact ⟨rfl, fun done e => rfl⟩
  | emit label e =>
    obtain ⟨s, -, h⟩ := bind_eq_ok_iff.1 h
    obtain ⟨i, -, h⟩ := bind_eq_ok_iff.1 h
    cases h
    exact ⟨rfl, fun done e => rfl⟩
  | chain label es =>
    obtain ⟨s, -, rfl⟩ := map_eq_ok_iff.1 h
    refine ⟨?_, fun done e => rfl⟩
    rw [Order.calls, List.length_map, List.length_map, Step.size]
  | setMain t =>
    obtain ⟨target, -, rfl⟩ := map_eq_ok_iff.1 h
    exact ⟨rfl, fun done e => rfl⟩

theorem Step.operations_reply (step : Step) (o : Order) (as : List Answer) :
    step.operations (o.reply as : Reply ε) = step.size := by
  unfold Order.reply
  split <;> rfl

theorem Step.operations_fail {step : Step} {done : Nat} (h : done < step.size) (e : Error ε) :
    step.operations (step.fail done e) = done + e.calls := by
  cases step with
  | chain label es => rfl
  | _ =>
    rw [Nat.lt_one_iff.1 h, Nat.zero_add]
    rfl

end Operations

/-- Calls are answered one by one, all of them unless there is a failure. -/
theorem length_attemptAll {σ ε : Type} [Backend σ ε] (cs : List (Except (Error Empty) Call)) (st : σ) :
    ((attemptAll cs st).1.2 = none → (attemptAll cs st).1.1.length = cs.length) ∧
      ∀ e, (attemptAll cs st).1.2 = some e → (attemptAll cs st).1.1.length < cs.length := by
  induction cs generalizing st with
  | nil => exact ⟨fun _ => rfl, nofun⟩
  | cons c cs ih =>
    cases c with
    | error e => exact ⟨nofun, fun e _ => Nat.succ_pos _⟩
    | ok c =>
      cases hc : (Backend.perform c).run.run st with
      | mk x st' =>
        cases x with
        | error e =>
          rw [attemptAll_of_error hc]
          exact ⟨nofun, fun e _ => Nat.succ_pos _⟩
        | ok a =>
          rw [attemptAll_of_ok hc]
          exact ⟨fun h => congrArg Nat.succ ((ih st').1 h), fun e h => Nat.succ_lt_succ ((ih st').2 e h)⟩

/-- A step leaves the backend as its calls do. -/
theorem Step.state_perform {σ ε : Type} [Backend σ ε] {step : Step} {env : Env} {o : Order} (h : step.order env = .ok o)
    (st : σ) : (step.perform env st).2.2 = (attemptAll o.calls st).2 := by
  rw [Step.perform_eq]
  simp only [h]
  generalize attemptAll o.calls st = out
  obtain ⟨⟨as, failure⟩, st'⟩ := out
  cases failure <;> rfl

end Script

open Script

namespace Recorder

/-- The recorder with a call to reject. -/
def rejecting (r : Recorder) (n : Nat) : Recorder := { r with reject := some n }

theorem rejecting_take (r : Recorder) (n : Nat) (c : Call) : (r.rejecting n).take c = (r.take c).rejecting n := by
  cases c <;> rfl

theorem answer_rejecting (r : Recorder) (n : Nat) (c : Call) : (r.rejecting n).answer c = r.answer c := by
  cases c <;> rfl

/-! ## Calls in a row -/

section Calls

variable {r : Recorder} {n : Nat} {cs : List (Except (Error Empty) Call)}

/-- Each call is kept, also one that is rejected, and what to reject stays as it is. -/
theorem calls_attemptAll (hcs : ∀ c, .ok c ∈ cs → c.resolvesType = false) (r : Recorder) :
    (attemptAll cs r).2.reject = r.reject ∧ r.calls <+: (attemptAll cs r).2.calls ∧
      (attemptAll cs r).2.calls.length =
        r.calls.length + ((attemptAll cs r).1.1.length + ((attemptAll cs r).1.2.map Error.calls).getD 0) := by
  induction cs generalizing r with
  | nil => exact ⟨rfl, List.prefix_rfl, rfl⟩
  | cons c cs ih =>
    cases c with
    | error e =>
      cases e with
      | unbound name => exact ⟨rfl, List.prefix_rfl, rfl⟩
      | refused e => exact e.elim
    | ok c =>
      by_cases hr : r.reject = some r.calls.length
      · rw [attemptAll_of_error (perform_of_eq hr (hcs c List.mem_cons_self))]
        exact ⟨rfl, List.prefix_append r.calls [c], List.length_append⟩
      · rw [attemptAll_of_ok (perform_of_ne fun h => absurd h hr)]
        dsimp only
        obtain ⟨hreject, hcalls, hlength⟩ := ih (fun c' h => hcs c' (List.mem_cons_of_mem _ h)) (r.take c)
        rw [calls_take] at hcalls hlength
        refine ⟨hreject.trans (reject_take r c), (List.prefix_append r.calls [c]).trans hcalls, ?_⟩
        rw [hlength, List.length_append, List.length_singleton, List.length_cons]
        omega

/-- Calls are answered as without rejection if the one to reject is not among them. -/
theorem attemptAll_rejecting (hr : r.reject = none) (hcs : ∀ c, .ok c ∈ cs → c.resolvesType = false)
    (h : n < r.calls.length ∨ (attemptAll cs r).2.calls.length ≤ n) :
    attemptAll cs (r.rejecting n) = ((attemptAll cs r).1, (attemptAll cs r).2.rejecting n) := by
  induction cs generalizing r with
  | nil => rfl
  | cons c cs ih =>
    cases c with
    | error e => rfl
    | ok c =>
      have hrest : ∀ c', .ok c' ∈ cs → c'.resolvesType = false := fun c' hc' => hcs c' (List.mem_cons_of_mem _ hc')
      rw [attemptAll_of_ok (perform_of_none hr c)] at h ⊢
      dsimp only at h
      have hlength := (calls_attemptAll hrest (r.take c)).2.1.length_le
      rw [calls_take, List.length_append, List.length_singleton] at hlength
      -- the call has another number than the one to reject
      have hne : (r.rejecting n).reject ≠ some (r.rejecting n).calls.length := by
        intro hn
        have hn' : n = r.calls.length := Option.some.inj hn
        omega
      have hgo : n < (r.take c).calls.length ∨ (attemptAll cs (r.take c)).2.calls.length ≤ n := by
        rw [calls_take, List.length_append, List.length_singleton]
        omega
      rw [attemptAll_of_ok (perform_of_ne fun hn => absurd hn hne), rejecting_take, answer_rejecting,
        ih ((reject_take r c).trans hr) hrest hgo]

/-- The call to reject is the last one that is made. The calls before it are answered, and all are kept as without rejection. -/
theorem attemptAll_rejected (hr : r.reject = none) (hcs : ∀ c, .ok c ∈ cs → c.resolvesType = false) (hn : r.calls.length ≤ n)
    (h : n < (attemptAll cs r).2.calls.length) :
    ∃ as r', attemptAll cs (r.rejecting n) = ((as, some (.refused ⟨n⟩)), r') ∧ as.length = n - r.calls.length ∧
      r'.calls = (attemptAll cs r).2.calls.take (n + 1) := by
  induction cs generalizing r with
  | nil => exact absurd h (Nat.not_lt.2 hn)
  | cons c cs ih =>
    cases c with
    | error e => exact absurd h (Nat.not_lt.2 hn)
    | ok c =>
      have hrest : ∀ c', .ok c' ∈ cs → c'.resolvesType = false := fun c' hc' => hcs c' (List.mem_cons_of_mem _ hc')
      rw [attemptAll_of_ok (perform_of_none hr c)] at h ⊢
      rcases Nat.eq_or_lt_of_le hn with heq | hlt
      · subst heq
        rw [attemptAll_of_error (perform_of_eq (r := r.rejecting r.calls.length) rfl (hcs c List.mem_cons_self))]
        refine ⟨[], _, rfl, (Nat.sub_self _).symm, ?_⟩
        have hcalls := (calls_attemptAll hrest (r.take c)).2.1
        rw [List.prefix_iff_eq_take, calls_take, List.length_append, List.length_singleton] at hcalls
        exact hcalls
      · have hne : (r.rejecting n).reject ≠ some (r.rejecting n).calls.length := fun hn => Nat.ne_of_gt hlt (Option.some.inj hn)
        have hlength : (r.take c).calls.length = r.calls.length + 1 := by
          rw [calls_take, List.length_append, List.length_singleton]
        obtain ⟨as, r', hout, has, hcalls⟩ := ih ((reject_take r c).trans hr) hrest (hlength ▸ hlt) h
        rw [attemptAll_of_ok (perform_of_ne fun hn => absurd hn hne), rejecting_take, hout]
        refine ⟨_, r', rfl, ?_, hcalls⟩
        rw [List.length_cons, has]
        omega

end Calls

/-! ## Steps -/

section Steps

variable {r : Recorder} {n : Nat} {step : Step} {env : Env}

/-- A step makes one call for each of its operations that reach the recorder. -/
theorem calls_perform (step : Step) (env : Env) (r : Recorder) :
    (step.perform env r).2.2.reject = r.reject ∧
      (step.perform env r).2.2.calls.length = r.calls.length + step.operations (step.perform env r).1 := by
  rw [Step.perform_eq]
  cases ho : step.order env with
  | error e =>
    cases e with
    | unbound name => exact ⟨rfl, rfl⟩
    | refused e => exact e.elim
  | ok o =>
    obtain ⟨hsize, hfail⟩ := Step.order_agrees ho
    obtain ⟨hreject, -, hcalls⟩ := calls_attemptAll (fun c => Order.not_resolvesType (o := o)) r
    obtain ⟨hall, hsome⟩ := length_attemptAll o.calls r
    dsimp only
    generalize attemptAll o.calls r = out at hreject hcalls hall hsome ⊢
    obtain ⟨⟨as, failure⟩, r'⟩ := out
    cases failure with
    | none =>
      refine ⟨hreject, hcalls.trans ?_⟩
      dsimp only
      rw [Step.operations_reply, hall rfl, hsize]
      rfl
    | some e =>
      refine ⟨hreject, hcalls.trans ?_⟩
      dsimp only
      rw [hfail, Step.operations_fail (hsize ▸ hsome e rfl)]
      rfl

/-- A step does as without rejection if it does not make the call to reject. -/
theorem perform_rejecting (hr : r.reject = none) (h : n < r.calls.length ∨ (step.perform env r).2.2.calls.length ≤ n) :
    step.perform env (r.rejecting n) =
      ((step.perform env r).1, (step.perform env r).2.1, (step.perform env r).2.2.rejecting n) := by
  cases ho : step.order env with
  | error e => rw [Step.perform_eq, Step.perform_eq, ho]
  | ok o =>
    rw [Step.state_perform ho] at h
    have hout := attemptAll_rejecting hr (fun c => Order.not_resolvesType) h
    rw [Step.perform_eq, Step.perform_eq, ho]
    dsimp only
    rw [hout]
    generalize attemptAll o.calls r = out
    obtain ⟨⟨as, failure⟩, r'⟩ := out
    cases failure <;> rfl

/-- The step that makes the call to reject fails there, and makes no call after it. -/
theorem perform_rejected (hr : r.reject = none) (hn : r.calls.length ≤ n) (h : n < (step.perform env r).2.2.calls.length) :
    (step.perform env (r.rejecting n)).1 = step.fail (n - r.calls.length) (.refused ⟨n⟩) ∧
      (step.perform env (r.rejecting n)).2.2.calls = (step.perform env r).2.2.calls.take (n + 1) := by
  cases ho : step.order env with
  | error e =>
    rw [Step.perform_eq, ho] at h
    exact absurd h (Nat.not_lt.2 hn)
  | ok o =>
    rw [Step.state_perform ho] at h ⊢
    obtain ⟨-, hfail⟩ := Step.order_agrees (ε := Rejected) ho
    obtain ⟨as, r', hout, has, hcalls⟩ := attemptAll_rejected hr (fun c => Order.not_resolvesType) hn h
    rw [Step.perform_eq, Step.state_perform ho, ho]
    dsimp only
    rw [hout, ← has]
    exact ⟨hfail as.length (.refused ⟨n⟩), hcalls⟩

end Steps

/-! ## Scripts -/

variable {r : Recorder} {n : Nat}

/-- A script makes one call for each of its operations that reach the recorder. -/
theorem calls_run (steps : List Step) (env : Env) (r : Recorder) :
    (run env r steps).2.2.calls.length = r.calls.length + operations steps (run env r steps).1 := by
  induction steps generalizing env r with
  | nil => rfl
  | cons step steps ih =>
    rw [run_cons]
    dsimp only
    rw [ih, (calls_perform step env r).2, operations, Nat.add_assoc]

/-- What to reject stays as it is. -/
theorem reject_run (steps : List Step) (env : Env) (r : Recorder) : (run env r steps).2.2.reject = r.reject := by
  induction steps generalizing env r with
  | nil => rfl
  | cons step steps ih =>
    rw [run_cons]
    exact (ih _ _).trans (calls_perform step env r).1

/-- A script does as without rejection if it does not make the call to reject. -/
theorem run_rejecting {steps : List Step} {env : Env} (hr : r.reject = none)
    (h : n < r.calls.length ∨ (run env r steps).2.2.calls.length ≤ n) :
    run env (r.rejecting n) steps = ((run env r steps).1, (run env r steps).2.1, (run env r steps).2.2.rejecting n) := by
  induction steps generalizing env r with
  | nil => rfl
  | cons step steps ih =>
    rw [run_cons] at h ⊢
    dsimp only at h
    obtain ⟨hreject, hcalls⟩ := calls_perform step env r
    have hrest := calls_run steps (step.perform env r).2.1 (step.perform env r).2.2
    have hstep : n < r.calls.length ∨ (step.perform env r).2.2.calls.length ≤ n := by omega
    have hgo : n < (step.perform env r).2.2.calls.length ∨
        (run (step.perform env r).2.1 (step.perform env r).2.2 steps).2.2.calls.length ≤ n := by omega
    rw [run_cons, perform_rejecting hr hstep, ih (hreject.trans hr) hgo]

/-- A call that a script makes is made by one of its steps. -/
theorem exists_step {steps : List Step} {env : Env} (hn : r.calls.length ≤ n) (h : n < (run env r steps).2.2.calls.length) :
    ∃ before step after, steps = before ++ step :: after ∧ (run env r before).2.2.calls.length ≤ n ∧
      n < (run env r (before ++ [step])).2.2.calls.length := by
  induction steps generalizing env r with
  | nil => exact absurd h (Nat.not_lt.2 hn)
  | cons step steps ih =>
    by_cases hstep : n < (step.perform env r).2.2.calls.length
    · exact ⟨[], step, steps, rfl, hn, hstep⟩
    · rw [run_cons] at h
      obtain ⟨before, step', after, rfl, hbefore, hafter⟩ := ih (Nat.le_of_not_lt hstep) h
      exact ⟨step :: before, step', after, rfl, hbefore, hafter⟩

end Recorder

namespace Script

/-- A script is performed over a fresh recorder, which may be told to reject a call. -/
def recorded (reject : Option Nat) (steps : List Step) : List (Reply Rejected) × Env × Recorder :=
  build ({ reject } : Recorder) steps

/-- The resolution of the common types is not rejected. -/
theorem start_rejecting (n : Nat) :
    start ({ reject := some n } : Recorder) = ((start ({} : Recorder)).1, (start ({} : Recorder)).2.rejecting n) := rfl

theorem calls_recorded (steps : List Step) :
    (recorded none steps).2.2.calls.length = 9 + operations steps (recorded none steps).1 :=
  Recorder.calls_run steps _ _

/-- The last step of a script is performed after the others. -/
theorem recorded_concat (reject : Option Nat) (steps : List Step) (step : Step) :
    recorded reject (steps ++ [step]) =
      ((recorded reject steps).1 ++ [(step.perform (recorded reject steps).2.1 (recorded reject steps).2.2).1],
        (step.perform (recorded reject steps).2.1 (recorded reject steps).2.2).2) :=
  run_append ..

/-- A script does as without rejection if the call to reject resolves a type or is not made. -/
theorem recorded_rejecting {n : Nat} {steps : List Step} (h : n < 9 ∨ (recorded none steps).2.2.calls.length ≤ n) :
    recorded (some n) steps = ((recorded none steps).1, (recorded none steps).2.1, (recorded none steps).2.2.rejecting n) := by
  unfold recorded build
  rw [start_rejecting]
  exact Recorder.run_rejecting rfl h

/-- Each builder operation of a script makes one call, after the nine that resolve the common types. A recorder that is told to
reject one of these nine, or a call that is not made, changes nothing. If the call to reject is made by an operation, then the
steps before that operation's step do as without rejection; the step fails with the rejection, after so many operations of it as
were answered before; and the calls kept are those kept without rejection up to the rejected one, which is the last one of the
step. -/
theorem build_rejecting (n : Nat) (steps : List Step) :
    (recorded none steps).2.2.calls.length = 9 + operations steps (recorded none steps).1 ∧
    (n < 9 ∨ (recorded none steps).2.2.calls.length ≤ n →
      recorded (some n) steps = ((recorded none steps).1, (recorded none steps).2.1, (recorded none steps).2.2.rejecting n)) ∧
    (9 ≤ n → n < (recorded none steps).2.2.calls.length →
      ∃ before step after done, steps = before ++ step :: after ∧ n = 9 + operations before (recorded none before).1 + done ∧
        n < (recorded none (before ++ [step])).2.2.calls.length ∧
        recorded (some n) before =
          ((recorded none before).1, (recorded none before).2.1, (recorded none before).2.2.rejecting n) ∧
        (recorded (some n) (before ++ [step])).1 = (recorded none before).1 ++ [step.fail done (.refused ⟨n⟩)] ∧
        (recorded (some n) (before ++ [step])).2.2.calls = (recorded none (before ++ [step])).2.2.calls.take (n + 1)) := by
  refine ⟨calls_recorded steps, recorded_rejecting, fun hn h => ?_⟩
  have hstart : (start ({} : Recorder)).2.calls.length ≤ n := hn
  obtain ⟨before, step, after, rfl, hbefore, hstep⟩ := Recorder.exists_step hstart h
  change (recorded none before).2.2.calls.length ≤ n at hbefore
  change n < (recorded none (before ++ [step])).2.2.calls.length at hstep
  have hsame := recorded_rejecting (Or.inr hbefore)
  have hcalls := calls_recorded before
  refine ⟨before, step, after, n - (recorded none before).2.2.calls.length, rfl, by omega, hstep, hsame, ?_⟩
  rw [recorded_concat] at hstep
  obtain ⟨hreply, hkept⟩ := Recorder.perform_rejected (Recorder.reject_run before _ _) hbefore hstep
  rw [recorded_concat, recorded_concat, hsame]
  exact ⟨congrArg (fun reply => (recorded none before).1 ++ [reply]) hreply, hkept⟩

/-- In `turns` the call numbered 17 is made by the third operation of the first chain, which is the seventh step: the chain breaks
after two operations, and the addition is the last call kept. The calls numbered 3 and 30 are a resolution and no call at all. -/
theorem build_rejecting_turns :
    (17 < (recorded none turns).2.2.calls.length ∧
      turns = turns.take 6 ++
        .chain "g0" [.ldConst 1 (.named "u8") (.int 200), .call 2 (.block "f1") [1], .add 3 2 1, .ret (some 3)] :: turns.drop 7 ∧
      17 = 9 + operations (turns.take 6) (recorded none (turns.take 6)).1 + 2 ∧
      (recorded (some 17) (turns.take 7)).1 = (recorded none (turns.take 6)).1 ++ [.broken 2 (.refused ⟨17⟩)] ∧
      (recorded (some 17) (turns.take 7)).2.2.calls = (recorded none (turns.take 7)).2.2.calls.take 18 ∧
      ((recorded none (turns.take 7)).2.2.calls.take 18).getLast? =
        some (.emit ⟨1⟩ ⟨0⟩ "add" [.register 3, .register 2, .register 1])) ∧
    (recorded (some 3) turns).1 = (recorded none turns).1 ∧
    (recorded none turns).2.2.calls.length ≤ 30 ∧ (recorded (some 30) turns).1 = (recorded none turns).1 := by
  have hlt : 17 < (recorded none turns).2.2.calls.length := by decide +kernel
  have hle : (recorded none turns).2.2.calls.length ≤ 30 := by decide +kernel
  have hseventh : ∀ k < 9, 9 + operations (turns.take k) (recorded none (turns.take k)).1 ≤ 17 →
      17 < (recorded none (turns.take (k + 1))).2.2.calls.length → k = 6 := by decide +kernel
  have hops : operations (turns.take 6) (recorded none (turns.take 6)).1 = 6 := by decide +kernel
  obtain ⟨before, step, after, done, hturns, hdone, hmade, -, hreplies, hcalls⟩ := (build_rejecting 17 turns).2.2 (by decide) hlt
  -- the numbers of calls leave one place for the step, and with it the step and the number of its operations are known
  have hbefore : before = turns.take before.length := by rw [hturns, List.take_left]
  have hupto : before ++ [step] = turns.take (before.length + 1) := by
    rw [hturns, List.take_length_add_append]
    rfl
  have hlength : before.length < 9 := by
    have hsum := congrArg List.length hturns
    rw [List.length_append, List.length_cons, show turns.length = 9 from rfl] at hsum
    omega
  have hsix : before.length = 6 := by
    rw [hupto] at hmade
    refine hseventh _ hlength ?_ hmade
    rw [← hbefore]
    omega
  rw [hsix] at hbefore hupto
  rw [hbefore, hops] at hdone
  obtain rfl : done = 2 := by omega
  have hstep : step :: after = turns.drop 6 := by
    have hdrop := congrArg (List.drop 6) hturns
    rw [← hsix, List.drop_left, hsix] at hdrop
    exact hdrop.symm
  cases hstep
  rw [hupto, hbefore] at hreplies
  rw [hupto] at hcalls
  refine ⟨⟨hlt, rfl, by rw [hops], hreplies, hcalls, rfl⟩, ?_, hle, ?_⟩
  · rw [(build_rejecting 3 turns).2.1 (Or.inl (by decide))]
  · rw [(build_rejecting 30 turns).2.1 (Or.inr hle)]

end Script

end Straightline
