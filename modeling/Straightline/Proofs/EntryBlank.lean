import Straightline.Proofs.ReadTrees

/-!
# The blank after the entry

A blank may be empty wherever the grammar has one, with one exception: the name of the entry takes up every character that may
stand in an identifier, and so it takes up the keyword of a method that follows it directly. Here a layout is any way to write a
tree, with that blank as it comes (`Grammar.Layout`). Main statement: a layout is read as its tree exactly if it does not run the
entry and a method together (`Grammar.program_layout_iff`).
-/

namespace Straightline.Grammar

open Reader
open Source (Stmt BlockDecl MethodDecl)

variable {s u b rest : List Char} {tree : Source}

/-- The entry of a program, if it has one, and the blank `b` after it. -/
inductive EntryLayout : Option String → List Char → List Char → List Char → Prop where
  | none (rest : List Char) : EntryLayout none [] rest rest
  | some {name : String} {b₁ b₂ b : List Char} (rest : List Char) (hname : isIdentifier name.toList = true) (hb₁ : Blank b₁)
      (hb₂ : Blank b₂) (hb : Blank b) :
      EntryLayout (some name) b ("entry".toList ++ (b₁ ++ ':' :: (b₂ ++ '%' :: (name.toList ++ (b ++ rest))))) rest

/-- A way to write a tree, with the blank `b` after its entry: any blank may be empty, and so may any gap that does not keep two
words apart. -/
inductive Layout : Source → List Char → List Char → Prop where
  | mk {entry : Option String} {methods : List MethodDecl} {b b₁ b₂ b₃ b₄ s u : List Char} (hb₁ : Blank b₁) (hb₂ : Blank b₂)
      (hb₃ : Blank b₃) (hb₄ : Blank b₄) (hentry : EntryLayout entry b s u)
      (hmethods : Repeated MethodText methods u ('\x7d' :: b₄)) :
      Layout ⟨entry, methods⟩ b (b₁ ++ ("program".toList ++ (b₂ ++ '\x7b' :: (b₃ ++ s))))

/-- A layout keeps the name of the entry apart from a method that follows. -/
def Apart (tree : Source) (b : List Char) : Prop := tree.entry = none ∨ tree.methods = [] ∨ b ≠ []

instance (tree : Source) (b : List Char) : Decidable (Apart tree b) := inferInstanceAs (Decidable (_ ∨ _ ∨ _))

/-! ## Entries that end -/

/-- A layout that keeps the entry apart is one that is read. -/
theorem Layout.programText (h : Layout tree b s) (hb : Apart tree b) : ProgramText tree s := by
  cases h with
  | @mk entry methods b b₁ b₂ b₃ b₄ s u hb₁ hb₂ hb₃ hb₄ hentry hmethods =>
    refine .mk hb₁ hb₂ hb₃ hb₄ ?_ hmethods
    cases hentry with
    | none rest => exact .none _
    | some rest hname hc₁ hc₂ hc =>
      refine .some _ hname hc₁ hc₂ hc ?_
      rcases hb with hnone | hnil | hne
      · cases hnone
      · -- without a method, the end of the program follows
        subst hnil
        cases hmethods
        exact .inr ⟨b₄, rfl⟩
      · exact .inl hne

/-! ## Entries that run on -/

/-- A method starts with its keyword, which ends there. -/
theorem MethodText.keyword {d : MethodDecl} (h : MethodText d s rest) : ∃ t, s = "method".toList ++ t ∧ Stops isIdentRest t := by
  cases h with
  | mk hname hb₁ hb₂ hb₃ hb₄ hb₅ hb₆ hb₇ hb₈ hparams hblocks => exact ⟨_, rfl, hb₁.stops_isIdentRest rfl⟩

/-- The characters of an identifier and of a keyword make an identifier. -/
theorem isIdentifier_append {cs ds : List Char} (hcs : isIdentifier cs = true) (hds : ds.all isIdentRest = true) :
    isIdentifier (cs ++ ds) = true := by
  cases cs with
  | nil => nomatch hcs
  | cons c cs =>
    obtain ⟨hc, hcs⟩ := Bool.and_eq_true_iff.1 hcs
    simp [isIdentifier, hc, hcs, hds]

/-- An entry that a method follows directly is read with a longer name. -/
theorem entry_of_runOn {name : String} {b₁ b₂ t : List Char} (hname : isIdentifier name.toList = true) (hb₁ : Blank b₁)
    (hb₂ : Blank b₂) (ht : Stops isIdentRest t) :
    ∃ r, entry ("entry".toList ++ (b₁ ++ ':' :: (b₂ ++ '%' :: (name.toList ++ ("method".toList ++ t))))) =
      .done (String.ofList (name.toList ++ "method".toList)) r := by
  have hlong : isIdentifier (name.toList ++ "method".toList) = true := isIdentifier_append hname rfl
  have hread : methodName ('%' :: (name.toList ++ ("method".toList ++ t))) =
      .done (String.ofList (name.toList ++ "method".toList)) t := by
    refine bind_of_done (char_cons '%' _) ?_
    rw [← List.append_assoc]
    exact identifier_append hlong ht
  refine ⟨skipBlank t, ?_⟩
  refine bind_of_done (keyword_append "entry" (hb₁.stops_isIdentRest rfl)) ?_
  refine bind_of_done (blank_append hb₁ rfl) ?_
  refine bind_of_done (char_cons ':' _) ?_
  refine bind_of_done (blank_append hb₂ rfl) ?_
  refine bind_of_done hread ?_
  exact bind_of_done (show blank t = .done () (skipBlank t) from rfl) rfl

/-- What follows the entry does not change it. -/
theorem yields_entry (e : Option String) :
    Yields (fun tree => tree.entry = e)
      (do let methods ← many method; char '\x7d'; blank; return { entry := e, methods } : Reader Source) :=
  yields_bind fun _ => yields_bind fun _ => yields_bind fun _ => yields_pure rfl

/-- A program whose entry a method follows directly is read, if at all, with a longer name for its entry. -/
theorem entry_eq_of_runOn {name : String} {b₁ b₂ b₃ c₁ c₂ t : List Char} (hb₁ : Blank b₁) (hb₂ : Blank b₂) (hb₃ : Blank b₃)
    (hname : isIdentifier name.toList = true) (hc₁ : Blank c₁) (hc₂ : Blank c₂) (ht : Stops isIdentRest t)
    (hread : program (b₁ ++ ("program".toList ++ (b₂ ++ '\x7b' :: (b₃ ++
      ("entry".toList ++ (c₁ ++ ':' :: (c₂ ++ '%' :: (name.toList ++ ("method".toList ++ t))))))))) = .done tree rest) :
    tree.entry = some (String.ofList (name.toList ++ "method".toList)) := by
  obtain ⟨r, hlong⟩ := entry_of_runOn hname hc₁ hc₂ ht
  have hstart : (do let methods ← many method; char '\x7d'; blank
                    return { entry := some (String.ofList (name.toList ++ "method".toList)), methods } : Reader Source) r =
      .done tree rest := by
    rw [← hread]
    symm
    refine bind_of_done (blank_append hb₁ rfl) ?_
    refine bind_of_done (keyword_append "program" (hb₂.stops_isIdentRest rfl)) ?_
    refine bind_of_done (blank_append hb₂ rfl) ?_
    refine bind_of_done (char_cons '\x7b' _) ?_
    refine bind_of_done (blank_append hb₃ rfl) ?_
    exact bind_of_done (maybe_of_done hlong) rfl
  exact yields_entry _ _ _ _ hstart

/-- A layout that runs the entry and a method together is not read as its tree. -/
theorem Layout.not_read (h : Layout tree b s) (hb : ¬Apart tree b) : program s ≠ .done tree rest := by
  intro hread
  cases h with
  | mk hb₁ hb₂ hb₃ hb₄ hentry hmethods =>
    cases hentry with
    | none rest => exact hb (.inl rfl)
    | @some name c₁ c₂ b _ hname hc₁ hc₂ hc =>
      cases hmethods with
      | nil _ => exact hb (.inr (.inl rfl))
      | cons hmethod _ =>
        obtain ⟨t, rfl, ht⟩ := hmethod.keyword
        have hnil : b = [] := Decidable.byContradiction fun hne => hb (.inr (.inr hne))
        subst hnil
        have hlong : some name = some (String.ofList (name.toList ++ "method".toList)) :=
          entry_eq_of_runOn hb₁ hb₂ hb₃ hname hc₁ hc₂ ht hread
        have hlength := congrArg (fun n => (n.getD "").toList.length) hlong
        simp at hlength

/-! ## All layouts -/

/-- A layout is read as its tree, with nothing left, exactly if it keeps the name of the entry apart from a method that follows.
-/
theorem program_layout_iff {tree : Source} {b s : List Char} (h : Layout tree b s) :
    program s = .done tree [] ↔ Apart tree b := by
  refine ⟨fun hread => ?_, fun hb => program_of_text (h.programText hb)⟩
  exact Decidable.byContradiction fun hb => h.not_read hb hread

/-- A tree with one method, which loads a constant and returns it under a label like the keyword. -/
def oneMethod : Source where
  entry := some "main"
  methods := [⟨"main", [⟨true, 8⟩, .bool], ⟨true, 32⟩, [⟨"ret", [.loadConst 0 ⟨true, 8⟩ (.int (-5)), .ret (some 0)]⟩]⟩]

/-- A layout with hardly any white space is read: a comment keeps the entry apart, and a line feed the two statements. -/
theorem program_layout_dense :
    Layout oneMethod [';', '\n']
        "program\x7bentry:%main;\nmethod%main(i8,bool)->i32\x7bret:r0=ld_const i8 -5\nret\tr0\x7d\x7d".toList ∧
      program "program\x7bentry:%main;\nmethod%main(i8,bool)->i32\x7bret:r0=ld_const i8 -5\nret\tr0\x7d\x7d".toList =
        .done oneMethod [] := by
  have hnone : Gap [] := fun c hc => nomatch hc
  have hone : ∀ c : Char, isGap c = true → Gap [c] := by
    intro c hc d hd
    rw [List.mem_singleton.1 hd]
    exact hc
  have hcomment : Blank [';', '\n'] := .comment (w := []) (fun c hc => nomatch hc) .nil
  have hload : ∀ rest, LineText (.loadConst 0 ⟨true, 8⟩ (.int (-5))) _ rest := fun rest => .mk
    (StmtText.assign 0 hnone hnone (hone ' ' rfl) (by simp)
      (OperandsText.loadConst ⟨true, 8⟩ (.int (-5)) _ (hone ' ' rfl) (by simp)))
    (.space (c := '\n') rfl .nil) (.inl (List.mem_singleton.2 rfl))
  have hret : ∀ rest, LineText (.ret (some 0)) _ ('\x7d' :: rest) := fun rest => .mk
    (StmtText.retValue 0 _ (hone '\t' rfl) (by simp)) .nil (.inr ⟨rest, rfl⟩)
  have hlabel : isIdentifier "ret".toList = true := rfl
  have hblock := fun rest => BlockText.mk hlabel hnone .nil (.cons (hload _) (.cons (hret rest) (.nil _)))
  have hparams := fun rest => ParamsText.cons (.mk ⟨true, 8⟩ _ .nil) (.cons (.mk .nil (.mk .bool _ .nil)) (.nil rest))
  have hmethod : MethodText ⟨"main", _, ⟨true, 32⟩, _⟩ _ ['\x7d'] :=
    .mk rfl .nil .nil .nil .nil .nil .nil .nil .nil (hparams _) (.cons (hblock _) (.nil _))
  have hlayout : Layout oneMethod [';', '\n'] _ :=
    .mk .nil .nil .nil .nil (.some _ rfl .nil .nil hcomment) (.cons hmethod (.nil _))
  have htext : Layout oneMethod [';', '\n']
      "program\x7bentry:%main;\nmethod%main(i8,bool)->i32\x7bret:r0=ld_const i8 -5\nret\tr0\x7d\x7d".toList := by
    refine Eq.mp (congrArg (Layout oneMethod [';', '\n']) ?_) hlayout
    decide +kernel
  exact ⟨htext, (program_layout_iff htext).2 (by decide)⟩

/-- A tree with a method that has the name of its entry and no body. -/
def emptyMethod : Source where
  entry := some "main"
  methods := [⟨"main", [], .bool, []⟩]

/-- A layout with an empty blank after the entry, which is not read: the name of the entry would be `mainmethod`. -/
theorem program_layout_runOn :
    Layout emptyMethod [] "program\x7bentry:%mainmethod %main()->bool\x7b\x7d\x7d".toList ∧
      program "program\x7bentry:%mainmethod %main()->bool\x7b\x7d\x7d".toList ≠ .done emptyMethod [] := by
  have hspace : Blank [' '] := .space rfl .nil
  have hmethod : MethodText ⟨"main", [], .bool, []⟩ "method %main()->bool\x7b\x7d\x7d".toList ['\x7d'] :=
    MethodText.mk rfl hspace .nil .nil .nil .nil .nil .nil .nil (.nil _) (.nil _)
  have hlayout : Layout emptyMethod [] "program\x7bentry:%mainmethod %main()->bool\x7b\x7d\x7d".toList :=
    Layout.mk .nil .nil .nil .nil (.some _ rfl .nil .nil .nil) (.cons hmethod (.nil _))
  refine ⟨hlayout, ?_⟩
  decide +kernel

end Straightline.Grammar
