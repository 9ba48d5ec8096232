import Straightline.Interpreter

/-!
# Live code

A run of a method executes its first block up to the first return; whatever else the method holds is dead. Here are the
instructions that are live (`Method.live`), and what the method returns by the last of them (`Method.returned?`).
-/

namespace Straightline

/-- Instructions up to the first return, which is the last of them if there is one. -/
def upToReturn : List Instr → List Instr
  | [] => []
  | .ret v :: _ => [.ret v]
  | i :: rest => i :: upToReturn rest

/-- The value that the first return has, if there is a return: a register, or none. -/
def firstReturn? : List Instr → Option (Option Register)
  | [] => none
  | .ret v :: _ => some v
  | _ :: rest => firstReturn? rest

namespace Method

/-- The instructions that a run of the method may execute. -/
def live (d : Method) : List Instr := d.entryBlock?.elim [] fun b => upToReturn b.instrs

/-- The value that the method returns, if it has a return in its first block: a register, or none. -/
def returned? (d : Method) : Option (Option Register) := d.entryBlock?.bind fun b => firstReturn? b.instrs

end Method

/-- Live instructions are instructions. -/
theorem mem_of_mem_upToReturn {i : Instr} {is : List Instr} (h : i ∈ upToReturn is) : i ∈ is := by
  fun_induction upToReturn is with
  | case1 => exact h
  | case2 v rest =>
    rw [List.mem_singleton] at h
    rw [h]
    exact List.mem_cons_self
  | case3 j rest _ ih =>
    rcases List.mem_cons.1 h with rfl | h
    · exact List.mem_cons_self
    · exact List.mem_cons_of_mem j (ih h)

/-- The first return is live. -/
theorem firstReturn?_upToReturn (is : List Instr) : firstReturn? (upToReturn is) = firstReturn? is := by
  induction is with
  | nil => rfl
  | cons i is ih => cases i <;> simp only [upToReturn, firstReturn?, ih]

/-- Live instructions come to what all of them come to. -/
theorem Program.exec_upToReturn (p : Program) (call : MethodRef → List Int64 → RunResult) (f : Activation) (regs : Registers)
    (is : List Instr) : p.exec call f regs (upToReturn is) = p.exec call f regs is := by
  induction is generalizing regs with
  | nil => rfl
  | cons i is ih =>
    cases i with
    | add r a b => simp only [upToReturn, exec, ih]
    | loadParam r i => simp only [upToReturn, exec, ih]
    | loadConst r t c => simp only [upToReturn, exec, ih]
    | call r m args => simp only [upToReturn, exec, ih]
    | ret v => cases v <;> rfl

end Straightline
