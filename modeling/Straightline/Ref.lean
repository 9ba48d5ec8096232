import Straightline.Decimal

/-!
# References

Types, methods and blocks are referred to by number, in the order in which they were declared. A reference is a 32-bit number
that is marked with the kind of entity it refers to, so that references to different kinds cannot be confused. It stands for an
entity only within one program, or within one method for a block.
-/

namespace Straightline

/-- The kinds of entity that are referred to by number. -/
inductive Entity where
  | type | method | block
  deriving DecidableEq, Repr

/-- The word for a kind of entity. -/
def Entity.word : Entity → String
  | .type => "type"
  | .method => "method"
  | .block => "block"

/-- A reference to an entity of kind `e`. -/
structure Ref (e : Entity) where
  num : UInt32
  deriving DecidableEq, Repr

/-- A reference to a type of the type table. -/
abbrev TypeRef := Ref .type

/-- A reference to a method of a program. -/
abbrev MethodRef := Ref .method

/-- A reference to a block of a method. -/
abbrev BlockRef := Ref .block

namespace Ref

variable {e : Entity}

/-- The position a reference stands for. -/
def index (r : Ref e) : Nat := r.num.toNat

/-- The reference to a position. It keeps the low 32 bits of the position. -/
def ofIndex (i : Nat) : Ref e := ⟨UInt32.ofNat i⟩

/-- A reference in words, such as `method3`. -/
def text (r : Ref e) : String := e.word ++ Decimal.text r.index

/-- The reference to the position of a reference is that reference. -/
@[simp] theorem ofIndex_index (r : Ref e) : ofIndex r.index = r := by
  simp [ofIndex, index]

/-- A position below `2^32` is kept. -/
theorem index_ofIndex {i : Nat} (h : i < UInt32.size) : (ofIndex i : Ref e).index = i :=
  UInt32.toNat_ofNat_of_lt' h

end Ref

end Straightline
