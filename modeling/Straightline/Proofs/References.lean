import Straightline.Proofs.Interleaving
import Straightline.Proofs.Reread

/-!
# References that last

Building appends, so that a reference keeps its meaning: it leads to what it was handed out for in every program that is built
from there on (`Program.leads_of_mem_exchange`). No type and no name stands in a program twice, so that a reference can be found
again from what it leads to (`findRef_eq_some_iff`). Main statement: `Program.built_append_only`, about any two programs on the
way of a run of calls.
-/

namespace Straightline

/-- A list whose items are found at their places in another one, as far as two functions show them, is a front of it as far as
they show it. -/
theorem map_prefix_of_getElem? {α β γ : Type} {f : α → γ} {g : β → γ} {l : List α} {k : List β}
    (h : ∀ (j : Nat) (a : α), l[j]? = some a → ∃ b, k[j]? = some b ∧ g b = f a) : l.map f <+: k.map g := by
  rw [List.prefix_iff_getElem?]
  intro j hj
  rw [List.length_map] at hj
  obtain ⟨b, hb, hab⟩ := h j l[j] (List.getElem?_eq_getElem hj)
  rw [List.getElem?_map, hb, Option.map_some, hab, List.getElem_map]

/-- Where names are distinct and references can tell places apart, the first place of a name is referred to by exactly the
reference that leads to an item of that name. -/
theorem findRef_eq_some_iff {e : Entity} {α : Type} {name : α → String} {l : List α} (hl : (l.map name).Nodup)
    (hsize : l.length ≤ UInt32.size) {x : String} {r : Ref e} :
    (l.findIdx? fun a => name a == x).map Ref.ofIndex = some r ↔ ∃ a, l[r.index]? = some a ∧ name a = x := by
  rw [Option.map_eq_some_iff]
  constructor
  · rintro ⟨j, hj, rfl⟩
    obtain ⟨hlt, hname, -⟩ := List.findIdx?_eq_some_iff_getElem.1 hj
    refine ⟨l[j], ?_, beq_iff_eq.1 hname⟩
    rw [Ref.index_ofIndex (Nat.lt_of_lt_of_le hlt hsize)]
    exact List.getElem?_eq_getElem hlt
  · rintro ⟨a, ha, rfl⟩
    cases hj : l.findIdx? fun b => name b == name a with
    | none =>
      have hne := List.findIdx?_eq_none_iff.1 hj a (List.mem_of_getElem? ha)
      rw [beq_self_eq_true] at hne
      cases hne
    | some j =>
      obtain ⟨hlt, hname, -⟩ := List.findIdx?_eq_some_iff_getElem.1 hj
      have hplace := index_eq_of_name_eq hl (List.getElem?_eq_getElem hlt) ha (beq_iff_eq.1 hname)
      exact ⟨j, rfl, by rw [hplace, Ref.ofIndex_index]⟩

namespace Program

variable {p q : Program} {c : Call} {a : Answer}

/-! ## Fronts -/

namespace Extends

/-- The methods of a program, as far as their heads show them, are a front of the methods of an extension. -/
theorem heads_prefix (h : p.Extends q) : p.methods.map Method.head <+: q.methods.map Method.head := by
  refine map_prefix_of_getElem? fun j d hd => ?_
  obtain ⟨e, he, hde⟩ := h.methods j d hd
  refine ⟨e, he, ?_⟩
  rw [Method.head, Method.head, hde.name, hde.returnType, hde.params]

/-- The blocks of a method are a front of those that the method has in an extension, by name, and so are the instructions of each.
-/
theorem bodies_prefix (h : p.Extends q) {j : Nat} {d e : Method} (hd : p.methods[j]? = some d) (he : q.methods[j]? = some e) :
    d.blocks.map (·.name) <+: e.blocks.map (·.name) ∧
      ∀ (k : Nat) (b b' : Block), d.blocks[k]? = some b → e.blocks[k]? = some b' → b.instrs <+: b'.instrs := by
  obtain ⟨e', he', hde⟩ := h.methods j d hd
  cases he.symm.trans he'
  refine ⟨map_prefix_of_getElem? fun k b hb => ?_, fun k b b' hb hb' => ?_⟩
  · obtain ⟨b', hb', hbb'⟩ := hde.blocks k b hb
    exact ⟨b', hb', hbb'.name⟩
  · obtain ⟨b'', hb'', hbb''⟩ := hde.blocks k b hb
    cases hb'.symm.trans hb''
    exact hbb''.instrs

/-- A program that has a small extension is small. -/
theorem small (h : p.Extends q) (hq : q.Small) : p.Small := by
  refine ⟨Nat.lt_of_le_of_lt h.types.length_le hq.types, Nat.lt_of_le_of_lt h.length_methods_le hq.methods, fun d hd => ?_⟩
  obtain ⟨j, hj⟩ := List.mem_iff_getElem?.1 hd
  obtain ⟨e, he, hde⟩ := h.methods j d hj
  exact Nat.lt_of_le_of_lt (length_le_of_getElem? hde.blocks) (hq.blocks e (List.mem_of_getElem? he))

end Extends

/-! ## What a reference was handed out for -/

/-- The reference that a call was answered with leads to what the call asked for: to the type, to a method with that head, or to a
block of that name in that method. An entry that was set is the entry. -/
def Leads (p : Program) : Call → Answer → Prop
  | .resolveType t, .type r => p.type? r = some t
  | .declareMethod name returnType params, .method r => ∃ d, p.method? r = some d ∧ d.head = { name, returnType, params }
  | .declareBlock m name, .block r => ∃ b, p.block? m r = some b ∧ b.name = name
  | .emit .., .done => True
  | .setEntry m, .done => p.entry = some m
  | _, _ => False

/-- What a reference leads to, it leads to after any gain. -/
theorem Leads.mono (h : p.Leads c a) (he : p.Extends q) : q.Leads c a := by
  cases c with
  | resolveType t =>
    cases a with
    | type r => exact he.type? h
    | _ => exact h
  | declareMethod name returnType params =>
    cases a with
    | method r =>
      obtain ⟨d, hd, hhead⟩ := h
      obtain ⟨d', hd', hdd'⟩ := he.method? hd
      refine ⟨d', hd', Eq.trans ?_ hhead⟩
      rw [Method.head, Method.head, hdd'.name, hdd'.returnType, hdd'.params]
    | _ => exact h
  | declareBlock m name =>
    cases a with
    | block r =>
      obtain ⟨b, hb, rfl⟩ := h
      obtain ⟨d, hd, hb⟩ := Option.bind_eq_some_iff.1 hb
      obtain ⟨d', hd', hdd'⟩ := he.method? hd
      obtain ⟨b', hb', hbb'⟩ := hdd'.blocks r.index b hb
      exact ⟨b', Option.bind_eq_some_iff.2 ⟨d', hd', hb'⟩, hbb'.name⟩
    | _ => exact h
  | emit m b mnemonic operands => cases a <;> exact h
  | setEntry m =>
    cases a with
    | done => exact he.entry m h
    | _ => exact h

/-- The method that a change of one method leads to. -/
theorem method?_edit {m : MethodRef} {d : Method} (f : Method → Method) (h : p.method? m = some d) :
    (p.edit m f).method? m = some (f d) := by
  rw [method?, getElem?_edit, show p.methods[m.index]? = some d from h, Option.map_some, if_pos rfl]

/-- The reference that a call is answered with leads to what the call asked for, as long as references can tell things apart. -/
theorem Accepted.leads (h : Accepted p c a q) (hq : q.Small) : q.Leads c a := by
  cases h with
  | resolveType t => exact type?_intern (Nat.le_of_lt hq.types)
  | @declareMethod name returnType params hname hnew htypes =>
    have hlen := hq.methods
    rw [List.length_append, List.length_singleton] at hlen
    refine ⟨{ name, returnType, params }, ?_, rfl⟩
    rw [method?, Ref.index_ofIndex (by omega)]
    exact List.getElem?_concat_length
  | @declareBlock m name d hname hm hnew =>
    have hm' := method?_edit (fun d => (d.addBlock name).2) hm
    have hlen := hq.blocks _ (List.mem_of_getElem? hm')
    rw [Method.addBlock, List.length_append, List.length_singleton] at hlen
    refine ⟨{ name }, Option.bind_eq_some_iff.2 ⟨_, hm', ?_⟩, rfl⟩
    rw [Method.block?, Ref.index_ofIndex (by omega)]
    exact List.getElem?_concat_length
  | emit hm hb hi hok => exact trivial
  | setEntry hm he => exact rfl

/-- Whatever call of a run was accepted, at the end of the run the reference it was answered with leads to what it asked for. -/
theorem leads_of_mem_exchange {cs : List Call} (hsmall : (p.after cs).Small) (h : (c, .ok a) ∈ p.exchange cs) :
    (p.after cs).Leads c a := by
  induction cs generalizing p with
  | nil => cases h
  | cons c' cs ih =>
    rw [after_cons] at hsmall ⊢
    rw [exchange_cons] at h
    rcases List.mem_cons.1 h with h | h
    · obtain ⟨rfl, hreply⟩ := Prod.mk.inj h
      have hext := extends_after (p.next c) cs
      exact ((accepted_next hreply.symm).leads (hext.small hsmall)).mono hext
    · exact ih hsmall h

/-- The calls of a front of a run have the answers they have in the run. -/
theorem mem_exchange_append {cs ds : List Call} {x : Call × Except BuildError Answer} (h : x ∈ p.exchange cs) :
    x ∈ p.exchange (cs ++ ds) := by
  induction cs generalizing p with
  | nil => cases h
  | cons c cs ih =>
    rw [exchange_cons] at h
    rw [List.cons_append, exchange_cons]
    rcases List.mem_cons.1 h with rfl | h
    · exact List.mem_cons_self
    · exact List.mem_cons_of_mem _ (ih h)

/-- In a type table without repetitions, references lead to the same type only if they are the same. -/
theorem type?_inj (hp : p.types.Nodup) {r r' : TypeRef} {t : Scalar} (h : p.type? r = some t) (h' : p.type? r' = some t) :
    r = r' := by
  have hindex : r.index = r'.index := by
    apply (List.getElem?_inj (List.getElem?_eq_some_iff.1 h).1 hp).1
    exact h.trans h'.symm
  rw [← Ref.ofIndex_index r, hindex, Ref.ofIndex_index]

/-! ## Runs -/

/-- Let calls build a program, and further calls a later one that is small. Then the types of the first program are a front of
those of the later one; so are its methods, up to their bodies, the blocks of each method, up to their instructions, and the
instructions of each block; and an entry stays. A reference that was handed out leads to what it was handed out for, then and
later. Two types that are resolved at any two times have the same reference exactly if they are the same type. And a reference is
found under a name exactly if it leads to a method, or within a method to a block, of that name. -/
theorem built_append_only (cs ds : List Call) (hsmall : (built (cs ++ ds)).Small) :
    ((built cs).types <+: (built (cs ++ ds)).types ∧
      (built cs).methods.map Method.head <+: (built (cs ++ ds)).methods.map Method.head ∧
      (∀ (j : Nat) (d e : Method), (built cs).methods[j]? = some d → (built (cs ++ ds)).methods[j]? = some e →
        d.blocks.map (·.name) <+: e.blocks.map (·.name) ∧
          ∀ (k : Nat) (b b' : Block), d.blocks[k]? = some b → e.blocks[k]? = some b' → b.instrs <+: b'.instrs) ∧
      ∀ m, (built cs).entry = some m → (built (cs ++ ds)).entry = some m) ∧
    (∀ (c : Call) (a : Answer), (c, .ok a) ∈ ({} : Program).exchange cs → (built cs).Leads c a ∧ (built (cs ++ ds)).Leads c a) ∧
    (∀ (t t' : Scalar) (r r' : TypeRef), (.resolveType t, .ok (.type r)) ∈ ({} : Program).exchange (cs ++ ds) →
      (.resolveType t', .ok (.type r')) ∈ ({} : Program).exchange (cs ++ ds) → (r = r' ↔ t = t')) ∧
    (∀ (name : String) (m : MethodRef),
      (built (cs ++ ds)).methodRef? name = some m ↔ ∃ d, (built (cs ++ ds)).method? m = some d ∧ d.name = name) ∧
    (∀ (m : MethodRef) (d : Method), (built (cs ++ ds)).method? m = some d → ∀ (name : String) (b : BlockRef),
      d.blockRef? name = some b ↔ ∃ block, d.block? b = some block ∧ block.name = name) := by
  have hwf : (built (cs ++ ds)).WellFormed := wellFormed_empty.after (cs ++ ds)
  have hext : (built cs).Extends (built (cs ++ ds)) := by
    rw [built, built, after_append]
    exact extends_after _ ds
  have hleads : ∀ {c : Call} {a : Answer}, (c, .ok a) ∈ ({} : Program).exchange (cs ++ ds) → (built (cs ++ ds)).Leads c a :=
    fun h => leads_of_mem_exchange hsmall h
  refine ⟨⟨hext.types, hext.heads_prefix, fun j d e => hext.bodies_prefix, hext.entry⟩, fun c a h => ?_, fun t t' r r' h h' => ?_,
    fun name m => ?_, fun m d hm name b => ?_⟩
  · exact ⟨leads_of_mem_exchange (hext.small hsmall) h, hleads (mem_exchange_append h)⟩
  · have ht : (built (cs ++ ds)).type? r = some t := hleads h
    have ht' : (built (cs ++ ds)).type? r' = some t' := hleads h'
    constructor
    · rintro rfl
      exact Option.some.inj (ht.symm.trans ht')
    · rintro rfl
      exact type?_inj hwf.typesDistinct ht ht'
  · exact findRef_eq_some_iff hwf.methodsDistinct (Nat.le_of_lt hsmall.methods)
  · have hd := List.mem_of_getElem? hm
    exact findRef_eq_some_iff (hwf.methods d hd).blocksDistinct (Nat.le_of_lt (hsmall.blocks d hd))

/-- A method with a block that returns. -/
def early : List Call :=
  [.resolveType ⟨true, 8⟩, .declareMethod "f" ⟨0⟩ [⟨0⟩], .declareBlock ⟨0⟩ "a", .emit ⟨0⟩ ⟨0⟩ "ret" [.absent]]

/-- Further calls: the type of before is resolved again after another one, a name is declared twice, the old block gains an
instruction and blocks of its name and after it are declared. -/
def late : List Call :=
  [.resolveType ⟨false, 8⟩, .resolveType ⟨true, 8⟩, .declareMethod "f" ⟨1⟩ [], .declareMethod "g" ⟨1⟩ [], .declareBlock ⟨1⟩ "a",
    .emit ⟨0⟩ ⟨0⟩ "ret" [.absent], .declareBlock ⟨0⟩ "b", .setEntry ⟨1⟩]

/-- The old block is still where it was, the type of before has its old reference, and the new method is found by its name. -/
theorem early_append_only :
    (built (early ++ late)).Small ∧
      (∃ b, (built (early ++ late)).block? ⟨0⟩ ⟨0⟩ = some b ∧ b.name = "a") ∧
      ((⟨0⟩ : TypeRef) = ⟨0⟩ ↔ (⟨true, 8⟩ : Scalar) = ⟨true, 8⟩) ∧ ((⟨1⟩ : TypeRef) = ⟨0⟩ ↔ (⟨false, 8⟩ : Scalar) = ⟨true, 8⟩) ∧
      (built (early ++ late)).methodRef? "g" = some ⟨1⟩ := by
  have hsmall : (built (early ++ late)).Small := by
    refine ⟨?_, ?_, ?_⟩ <;> decide +kernel
  obtain ⟨-, hleads, htypes, hnames, -⟩ := built_append_only early late hsmall
  have hblock : (.declareBlock ⟨0⟩ "a", .ok (.block ⟨0⟩)) ∈ ({} : Program).exchange early := List.mem_iff_getElem?.2 ⟨2, rfl⟩
  have hfirst : (.resolveType ⟨true, 8⟩, .ok (.type ⟨0⟩)) ∈ ({} : Program).exchange (early ++ late) :=
    List.mem_iff_getElem?.2 ⟨0, rfl⟩
  have hother : (.resolveType ⟨false, 8⟩, .ok (.type ⟨1⟩)) ∈ ({} : Program).exchange (early ++ late) :=
    List.mem_iff_getElem?.2 ⟨4, rfl⟩
  have hagain : (.resolveType ⟨true, 8⟩, .ok (.type ⟨0⟩)) ∈ ({} : Program).exchange (early ++ late) :=
    List.mem_iff_getElem?.2 ⟨5, rfl⟩
  exact ⟨hsmall, (hleads _ _ hblock).2, htypes _ _ _ _ hfirst hagain, htypes _ _ _ _ hother hagain,
    (hnames "g" ⟨1⟩).2 ⟨_, rfl, rfl⟩⟩

end Program

end Straightline
