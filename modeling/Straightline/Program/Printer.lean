import Straightline.Program

/-!
# The text of a program

A program is written one declaration or instruction to a line: the entry, then each method after an empty line, its blocks by
label, their instructions indented. A reference to a method or a type that does not exist is written as the reference itself.
-/

namespace Straightline

/-- A register as it is written. -/
def Register.chars (r : Register) : List Char := 'r' :: Decimal.digits r.toNat

/-- Items with a comma and a space between them. -/
def commaSeparated (items : List (List Char)) : List Char := List.intercalate ", ".toList items

namespace Program

/-- A type reference as it is written: the name of the type. -/
def typeChars (p : Program) (t : TypeRef) : List Char :=
  match p.type? t with
  | some scalar => scalar.nameChars
  | none => t.text.toList

/-- A method reference as it is written: `%` and the name of the method. -/
def methodChars (p : Program) (m : MethodRef) : List Char :=
  '%' :: match p.method? m with
    | some method => method.name.toList
    | none => m.text.toList

/-- An instruction as it is written. -/
def instrChars (p : Program) : Instr → List Char
  | .add r a b => Register.chars r ++ " = add ".toList ++ Register.chars a ++ ", ".toList ++ Register.chars b
  | .loadParam r i => Register.chars r ++ " = ld_param ".toList ++ Decimal.digits i.toNat
  | .loadConst r t c => Register.chars r ++ " = ld_const ".toList ++ p.typeChars t ++ ' ' :: c.chars
  | .call r m args =>
    Register.chars r ++ " = call ".toList ++ p.methodChars m ++ '(' :: commaSeparated (args.map Register.chars) ++ [')']
  | .ret (some r) => "ret ".toList ++ Register.chars r
  | .ret none => "ret".toList

/-- The line of an instruction. -/
def instrLine (p : Program) (i : Instr) : List Char := "        ".toList ++ p.instrChars i ++ ['\n']

/-- The lines of a block. -/
def blockLines (p : Program) (b : Block) : List Char :=
  "    ".toList ++ b.name.toList ++ ":\n".toList ++ b.instrs.flatMap p.instrLine

/-- The lines of a method, with the empty line before it. -/
def methodLines (p : Program) (m : Method) : List Char :=
  "\n    method %".toList ++ m.name.toList ++ '(' :: commaSeparated (m.params.map p.typeChars) ++ ") -> ".toList ++
    p.typeChars m.returnType ++ " \x7b\n".toList ++ m.blocks.flatMap p.blockLines ++ "    \x7d\n".toList

/-- The line of the entry. -/
def entryLine (p : Program) : List Char :=
  match p.entry with
  | some m => "    entry: ".toList ++ p.methodChars m ++ ['\n']
  | none => []

/-- The characters of a program's text. -/
def chars (p : Program) : List Char :=
  "program \x7b\n".toList ++ p.entryLine ++ p.methods.flatMap p.methodLines ++ "\x7d\n".toList

/-- The text of a program. -/
def text (p : Program) : String := String.ofList p.chars

end Program

end Straightline
