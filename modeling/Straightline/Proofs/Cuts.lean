import Straightline.Proofs.Abreast

/-!
# Texts with another end

A text may be cut behind a mark and go on in another way there. Up to the mark both texts are read abreast
(`Grammar.carries_cut`), if each comment before the mark ends before it (`Grammar.Clear`). That is so where the mark has been
read, because a reader that uses up the sign of a comment uses up the whole comment (`Grammar.Used`, `Grammar.carries_used`). What
is skipped before a rest of a text need not be a blank on its own, since a comment may go on to the end of the text: it is skipped
before any other text if a line feed stands between (`Grammar.exists_skipped`).
-/

namespace Straightline

namespace Grammar

open Reader

variable {α : Type} {p : Reader α} {a : α} {s s' t r u v w x e e' : List Char} {d : Char}

/-! ## Comments -/

/-- Nothing is skipped where no comment starts at its sign. -/
theorem skipBlank_of_none (h : afterComment? s = none) : skipBlank (';' :: s) = ';' :: s := by
  rw [skipBlank, if_neg (by decide), if_pos rfl]
  split
  · next r hr =>
    rw [h] at hr
    cases hr
  · rfl

/-- The front of a text at the end of a line. -/
theorem LineEnds.front (h : LineEnds (v ++ s)) : v = [] ∨ v = ['\r'] ∨ (∃ y, v = '\n' :: y) ∨ ∃ y, v = '\r' :: '\n' :: y := by
  cases v with
  | nil => exact .inl rfl
  | cons c v =>
    generalize hy : c :: v ++ s = y at h
    cases h with
    | nil => nomatch hy
    | lineFeed y =>
      obtain rfl := (List.cons.inj hy).1
      exact .inr (.inr (.inl ⟨v, rfl⟩))
    | returnLineFeed y =>
      obtain ⟨rfl, hv⟩ := List.cons.inj hy
      cases v with
      | nil => exact .inr (.inl rfl)
      | cons c v =>
        obtain rfl := (List.cons.inj hv).1
        exact .inr (.inr (.inr ⟨v, rfl⟩))

/-- Where a line ends, it ends too if it is cut short by a line feed. -/
theorem LineEnds.cut (h : LineEnds (v ++ s)) (x : List Char) : LineEnds (v ++ '\n' :: x) := by
  rcases h.front with rfl | rfl | ⟨y, rfl⟩ | ⟨y, rfl⟩
  · exact .lineFeed x
  · exact .returnLineFeed x
  · exact .lineFeed _
  · exact .returnLineFeed _

/-- Where a line ends, it ends before any text behind a line feed. -/
theorem LineEnds.of_append (h : LineEnds (v ++ s)) (hv : '\n' ∈ v) : LineEnds v := by
  rcases h.front with rfl | rfl | ⟨y, rfl⟩ | ⟨y, rfl⟩
  · nomatch hv
  · exact absurd hv (by decide)
  · exact .lineFeed y
  · exact .returnLineFeed y

/-- A text that starts with no character of a class does not do so either if it is cut short by a line feed. -/
theorem stops_cut {k : Char → Bool} (h : Stops k (v ++ r)) (hk : k '\n' = false) (x : List Char) : Stops k (v ++ '\n' :: x) := by
  cases v with
  | nil => exact hk
  | cons c v => exact h

/-- What is skipped of a text is skipped before another text too, if a line feed stands between. -/
theorem exists_skipped (s : List Char) : ∃ v, s = v ++ skipBlank s ∧ ∀ x, skipBlank (v ++ '\n' :: x) = skipBlank x := by
  fun_induction skipBlank s with
  | case1 => exact ⟨[], rfl, fun x => skipBlank_space rfl⟩
  | case2 c cs hc ih =>
    obtain ⟨v, hv, hskip⟩ := ih
    refine ⟨c :: v, congrArg (c :: ·) hv, fun x => ?_⟩
    rw [List.cons_append, skipBlank_space hc, hskip]
  | case3 cs rest hrest hc ih =>
    obtain ⟨v, hv, hskip⟩ := ih
    obtain ⟨w, rfl, hw, hends⟩ := afterComment?_eq_some_iff.1 hrest
    refine ⟨';' :: (w ++ v), ?_, fun x => ?_⟩
    · rw [List.cons_append, List.append_assoc, ← hv]
    · rw [hv] at hends
      rw [List.cons_append, List.append_assoc, skipBlank_of_lineEnds hw (hends.cut x), hskip]
  | case4 cs hnone hc => exact ⟨[], rfl, fun x => skipBlank_space rfl⟩
  | case5 c cs hc hsemi => exact ⟨[], rfl, fun x => skipBlank_space rfl⟩

/-! ## Comments that end -/

/-- Each sign of a comment has a line feed somewhere behind it. -/
def Clear : List Char → Prop
  | [] => True
  | c :: cs => (c = ';' → '\n' ∈ cs) ∧ Clear cs

theorem Clear.append (hu : Clear u) (hv : Clear v) : Clear (u ++ v) := by
  induction u with
  | nil => exact hv
  | cons c u ih => exact ⟨fun hc => List.mem_append_left v (hu.1 hc), ih hu.2⟩

/-- Comments end before a text with a line feed. -/
theorem Clear.append_of_mem (hv : Clear v) (hfeed : '\n' ∈ v) (u : List Char) : Clear (u ++ v) := by
  induction u with
  | nil => exact hv
  | cons c u ih => exact ⟨fun _ => List.mem_append_right u hfeed, ih⟩

theorem Clear.of_append (h : Clear (u ++ v)) : Clear v := by
  induction u with
  | nil => exact h
  | cons c u ih => exact ih h.2

/-- Where comments end, nothing is skipped of what stands behind, unless it starts with a blank. -/
theorem Clear.skipBlank_append (hu : Clear u) (hx : Stops isBlankStart x) : skipBlank (u ++ x) = skipBlank u ++ x := by
  fun_induction skipBlank u with
  | case1 => exact skipBlank_of_stops hx
  | case2 c cs hc ih => rw [List.cons_append, skipBlank_space hc, ih hu.2]
  | case3 cs rest hrest hc ih =>
    obtain ⟨w, rfl, hw, hends⟩ := afterComment?_eq_some_iff.1 hrest
    have hends' : LineEnds (rest ++ x) := by
      cases hends with
      | nil =>
        -- a line feed within the text of the comment
        have hmem : '\n' ∈ w := by simpa using hu.1 rfl
        exact absurd (hw _ hmem) (by decide)
      | lineFeed y => exact .lineFeed _
      | returnLineFeed y => exact .returnLineFeed _
    rw [List.cons_append, List.append_assoc, skipBlank_of_lineEnds hw hends', ih hu.2.of_append]
  | case4 cs hnone hc =>
    refine skipBlank_of_none (Option.eq_none_iff_forall_ne_some.2 fun r hr => ?_)
    obtain ⟨w, hsplit, hw, hends⟩ := afterComment?_eq_some_iff.1 hr
    have hfeed : '\n' ∈ cs := hu.1 rfl
    have hline : '\n' ∉ w := fun hmem => absurd (hw _ hmem) (by decide)
    rcases List.append_eq_append_iff.1 hsplit with ⟨v, rfl, -⟩ | ⟨v, rfl, rfl⟩
    · exact hline (List.mem_append_left v hfeed)
    · -- the line would end before `x`
      have hv : '\n' ∈ v := (List.mem_append.1 hfeed).resolve_left hline
      have hsome := afterComment?_eq_some_iff.2 ⟨w, rfl, hw, hends.of_append hv⟩
      rw [hnone] at hsome
      cases hsome
  | case5 c cs hc hsemi =>
    exact skipBlank_of_stops (show Stops isBlankStart (c :: cs ++ x) by simp [Stops, isBlankStart, hc, hsemi])

/-! ## What readers use up -/

/-- A text is used up to a rest of it. Unless nothing is left, the comments in what is used up end. -/
def Used (s r : List Char) : Prop := ∃ v, s = v ++ r ∧ (r ≠ [] → Clear v)

theorem Used.refl (s : List Char) : Used s s := ⟨[], rfl, fun _ => trivial⟩

theorem Used.trans (h : Used s t) (h' : Used t r) : Used s r := by
  obtain ⟨u, rfl, hu⟩ := h
  obtain ⟨v, rfl, hv⟩ := h'
  refine ⟨u ++ v, (List.append_assoc ..).symm, fun hr => ?_⟩
  exact (hu (List.append_ne_nil_of_right_ne_nil v hr)).append (hv hr)

theorem Used.length_le (h : Used s r) : r.length ≤ s.length := by
  obtain ⟨v, rfl, -⟩ := h
  simp

theorem used_cons {c : Char} (hc : c ≠ ';') (r : List Char) : Used (c :: r) r :=
  ⟨[c], rfl, fun _ => ⟨fun h => absurd h hc, trivial⟩⟩

/-- What is skipped at the end of a line has the line feed in it. -/
theorem LineEnds.mem_skipped (h : LineEnds r) (hv : r = v ++ skipBlank r) (hne : skipBlank r ≠ []) : '\n' ∈ v := by
  have hlong : ∀ y, '\n' :: y ≠ skipBlank y := by
    intro y hy
    have hlen := length_skipBlank y
    rw [← hy, List.length_cons] at hlen
    omega
  cases h with
  | nil => exact absurd skipBlank_nil hne
  | lineFeed y =>
    rw [skipBlank_space rfl] at hv
    cases v with
    | nil => exact absurd hv (hlong y)
    | cons c v =>
      obtain rfl := (List.cons.inj hv).1
      exact List.mem_cons_self
  | returnLineFeed y =>
    rw [skipBlank_space rfl, skipBlank_space rfl] at hv
    cases v with
    | nil =>
      have hlen := length_skipBlank y
      rw [← List.nil_append (skipBlank y), ← hv] at hlen
      simp only [List.length_cons] at hlen
      omega
    | cons c v =>
      cases v with
      | nil => exact absurd (List.cons.inj hv).2 (hlong y)
      | cons c' v =>
        obtain rfl := (List.cons.inj (List.cons.inj hv).2).1
        exact List.mem_cons_of_mem c List.mem_cons_self

theorem used_skipBlank (s : List Char) : Used s (skipBlank s) := by
  fun_induction skipBlank s with
  | case1 => exact .refl []
  | case2 c cs hc ih =>
    refine (used_cons ?_ cs).trans ih
    rintro rfl
    cases hc
  | case3 cs rest hrest hc ih =>
    obtain ⟨v, hv, hclear⟩ := ih
    obtain ⟨w, rfl, -, hends⟩ := afterComment?_eq_some_iff.1 hrest
    refine ⟨';' :: w ++ v, ?_, fun hr => (hclear hr).append_of_mem (hends.mem_skipped hv hr) (';' :: w)⟩
    rw [List.append_assoc, ← hv]
    rfl
  | case4 cs hnone hc => exact .refl _
  | case5 c cs hc hsemi => exact .refl _

/-- A text that is used up carries over, as one that is read abreast with itself. -/
theorem carries_used (t : List Char) : Carries ['\n', ';'] (fun s s' => s = s' ∧ Used t s) := by
  refine ⟨?_, ?_, ?_⟩
  · rintro s _ ⟨rfl, hs⟩
    cases s with
    | nil => exact .inr ⟨trivial, trivial⟩
    | cons c cs =>
      by_cases hc : c = ';'
      · subst hc
        exact .inr ⟨rfl, rfl⟩
      · exact .inl ⟨c, cs, cs, rfl, rfl, rfl, hs.trans (used_cons hc cs)⟩
  · rintro s _ ⟨rfl, hs⟩
    exact ⟨rfl, hs.trans (used_skipBlank s)⟩
  · rintro s _ r _ ⟨rfl, -⟩ ⟨rfl, -⟩
    exact Iff.rfl

/-- What is read abreast with itself is used up. -/
theorem Abreast.used (hp : Abreast (fun s s' => s = s' ∧ Used t s) p) (h : p t = .done a r) : Used t r := by
  obtain ⟨r', -, -, hr⟩ := hp.of_done ⟨rfl, .refl t⟩ h
  exact hr

/-! ## Texts with another end -/

/-- Two texts are the same up to a mark `d`, and the comments in them up to there end. The first one goes on with `e`, the second
one with `e'`. -/
def Cut (d : Char) (e e' s s' : List Char) : Prop := ∃ u, Clear u ∧ s = u ++ d :: e ∧ s' = u ++ d :: e'

theorem Cut.eq_of_mark (h : Cut d e e' (d :: e) s') : s' = d :: e' := by
  obtain ⟨u, -, hs, rfl⟩ := h
  have hlen := congrArg List.length hs
  simp only [List.length_append, List.length_cons] at hlen
  have hu : u = [] := List.length_eq_zero_iff.1 (by omega)
  rw [hu, List.nil_append]

/-- Up to the mark, texts with another end are read abreast. -/
theorem carries_cut (hd : isBlankStart d = false) : Carries ['\n', ';', d] (Cut d e e') := by
  refine ⟨?_, ?_, ?_⟩
  · rintro s s' ⟨u, hu, rfl, rfl⟩
    cases u with
    | nil => exact .inr ⟨by simp [Stops], by simp [Stops]⟩
    | cons c u => exact .inl ⟨c, _, _, rfl, rfl, u, hu.2, rfl, rfl⟩
  · rintro s s' ⟨u, hu, rfl, rfl⟩
    refine ⟨skipBlank u, ?_, ?_, ?_⟩
    · obtain ⟨v, hv, -⟩ := used_skipBlank u
      rw [hv] at hu
      exact hu.of_append
    · exact hu.skipBlank_append hd
    · exact hu.skipBlank_append hd
  · rintro s s' r r' ⟨u, -, rfl, rfl⟩ ⟨v, -, rfl, rfl⟩
    simp

/-- What is read up to a mark is read up to it before another end. -/
theorem Abreast.done_of_cut (hp : Abreast (Cut d e e') p) (h : Cut d e e' s s') (hs : p s = .done a (d :: e)) :
    p s' = .done a (d :: e') := by
  obtain ⟨r', hs', hcut⟩ := hp.of_done h hs
  rw [hs', hcut.eq_of_mark]

end Grammar

end Straightline
