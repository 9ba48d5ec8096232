import Straightline.Proofs.Cuts
import Straightline.Proofs.ReadTrees

/-!
# Texts that could go on

Where reading a program ends, be it in failure or with text left, the text up to there could have gone on as a program. Main
statement: `Grammar.viable_rest`. What is added starts with a line feed, since the text may end within a comment, and closes what
is open. Each case cuts the text behind the last mark that was read: the letter a keyword starts with, a brace or the sign of a
method.
-/

namespace Straightline

/-- What is left of the text, or the text from the point of failure on. -/
def Outcome.rest {α : Type} : Outcome α → List Char
  | .done _ r => r
  | .fail r => r

namespace Grammar

open Reader
open Source (MethodDecl)

variable {s s' t r v x e e' : List Char} {d : Char}

/-! ## Methods -/

variable {m : MethodDecl} {ms : List MethodDecl}

/-- A text starts with a method, and goes on with `t`. -/
def ReadsMethod (m : MethodDecl) (s t : List Char) : Prop := method s = .done m t

/-- A method is read if it is closed. -/
theorem method_of_closed (h : openMethod s = .done m ('\x7d' :: e)) : method s = .done m (skipBlank e) := by
  rw [method_eq]
  exact bind_of_done h (bind_of_done (bind_of_done (char_cons _ e) rfl) rfl)

/-- A method that is read is closed, and a blank follows. -/
theorem exists_closed_of_method (h : method s = .done m r) :
    ∃ e, openMethod s = .done m ('\x7d' :: e) ∧ Used s ('\x7d' :: e) ∧ r = skipBlank e := by
  rw [method_eq] at h
  obtain ⟨m', t, hopen, h⟩ := bind_eq_done_iff.1 h
  obtain ⟨_, t', hclosing, h⟩ := bind_eq_done_iff.1 h
  obtain ⟨_, e, hbrace, hblank⟩ := bind_eq_done_iff.1 hclosing
  obtain rfl := char_eq_done_iff.1 hbrace
  cases h
  cases hblank
  exact ⟨e, hopen, ((carries_used s).mono rfl).openMethod.used hopen, rfl⟩

/-- A method uses up something. -/
theorem length_lt_of_method (h : method s = .done m r) : r.length < s.length := by
  obtain ⟨e, -, hused, rfl⟩ := exists_closed_of_method h
  have hblank := length_skipBlank e
  have hlen := hused.length_le
  rw [List.length_cons] at hlen
  omega

/-- Methods, if there are any, are used up to the brace that closes the last one, and a blank follows. -/
theorem exists_closed_of_methods (h : Repeated ReadsMethod ms s r) (hne : ms ≠ []) :
    ∃ e, Used s ('\x7d' :: e) ∧ r = skipBlank e := by
  induction h with
  | nil s => exact absurd rfl hne
  | @cons m ms s t r item items ih =>
    cases items with
    | nil =>
      obtain ⟨e, -, hused, he⟩ := exists_closed_of_method item
      exact ⟨e, hused, he⟩
    | cons item' items =>
      obtain ⟨e, hused, he⟩ := ih (List.cons_ne_nil _ _)
      exact ⟨e, ((carries_used s).method.used item).trans hused, he⟩

/-- With another end behind a brace, a method that ends there or before is read too. -/
theorem Cut.method (h : Cut '\x7d' e e' s s') (hm : ReadsMethod m s t) :
    ∃ t', ReadsMethod m s' t' ∧ (Cut '\x7d' e e' t t' ∨ t = skipBlank e ∧ t' = skipBlank e') := by
  obtain ⟨x, hopen, -, rfl⟩ := exists_closed_of_method hm
  obtain ⟨y, hs', u, hu, hx, rfl⟩ := (carries_cut rfl).openMethod.of_done h hopen
  cases u with
  | nil =>
    cases hx
    exact ⟨_, method_of_closed hs', .inr ⟨rfl, rfl⟩⟩
  | cons c u =>
    cases hx
    exact ⟨_, method_of_closed hs', .inl ((carries_cut rfl).skip ⟨u, hu.2, rfl, rfl⟩)⟩

/-- With another end behind a brace, methods that end there or before are read too. -/
theorem Cut.methods (h : Cut '\x7d' e e' s s') (hms : Repeated ReadsMethod ms s r) (hr : (skipBlank e).length ≤ r.length) :
    ∃ r', Repeated ReadsMethod ms s' r' ∧ (Cut '\x7d' e e' r r' ∨ r = skipBlank e ∧ r' = skipBlank e') := by
  induction hms generalizing s' with
  | nil s => exact ⟨s', .nil s', .inl h⟩
  | cons item items ih =>
    obtain ⟨t', hitem, hcut | ⟨rfl, rfl⟩⟩ := h.method item
    · obtain ⟨r', hitems, hend⟩ := ih hcut hr
      exact ⟨r', .cons hitem hitems, hend⟩
    · -- nothing is left before the end, so this was the last method
      cases items with
      | nil => exact ⟨_, .cons hitem (.nil _), .inr ⟨rfl, rfl⟩⟩
      | cons item' items =>
        have hlt := length_lt_of_method item'
        have hle := items.length_le fun _ _ _ => length_lt_of_method
        omega

/-! ## Programs -/

/-- The text before a rest of it goes on to a program, if some other text follows. -/
def Viable (t r : List Char) : Prop := ∃ v w tree, t = v ++ r ∧ program (v ++ w) = .done tree []

/-- It is enough that each text with another end behind a mark and a blank is read as a program. -/
theorem viable_of_cut (h : Used t (d :: (v ++ r))) (w : List Char)
    (hread : ∀ s', Cut d (v ++ r) (v ++ w) t s' → ∃ tree, program s' = .done tree []) : Viable t r := by
  obtain ⟨u, rfl, hu⟩ := h
  obtain ⟨tree, htree⟩ := hread _ ⟨u, hu (List.cons_ne_nil _ _), rfl, rfl⟩
  refine ⟨u ++ d :: v, w, tree, ?_, ?_⟩
  · rw [List.append_assoc, List.cons_append]
  · rw [List.append_assoc, List.cons_append]
    exact htree

/-- A program is read from its parts. -/
theorem program_of_parts {name : Option String} (hopen : openProgram s = .done () t) (hentry : maybe entry t = .done name r)
    (hms : many method r = .done ms ('\x7d' :: e)) : program s = .done ⟨name, ms⟩ (skipBlank e) := by
  rw [program_eq]
  refine bind_of_done hopen (bind_of_done hentry (bind_of_done hms ?_))
  exact bind_of_done (bind_of_done (char_cons _ e) rfl) rfl

/-- No entry starts at a brace. -/
theorem entry_fails_brace (e : List Char) : Fails entry ('\x7d' :: e) := by
  have hword : Fails (keyword "entry") ('\x7d' :: e) := keyword_fails rfl rfl
  exact hword.bind _

/-- No method starts at a brace. -/
theorem method_fails_brace (e : List Char) : Fails method ('\x7d' :: e) := by
  have hword : Fails (keyword "method") ('\x7d' :: e) := keyword_fails rfl rfl
  exact hword.bind _

/-- A program is read that is closed as soon as it is opened. -/
theorem program_of_close (h : openProgram s = .done () ['\x7d']) : program s = .done ⟨none, []⟩ [] := by
  have hread := program_of_parts h (maybe_of_fails (entry_fails_brace [])) (many_of_fails (method_fails_brace []))
  rwa [skipBlank_nil] at hread

/-- What is skipped, a line feed and a brace are skipped up to the brace. -/
theorem skipBlank_brace (hv : ∀ x, skipBlank (v ++ '\n' :: x) = skipBlank x) {c : Char} (hc : isBlankStart c = false)
    (x : List Char) : skipBlank (v ++ '\n' :: c :: x) = c :: x := by
  rw [hv]
  exact skipBlank_of_stops hc

theorem openProgram_of_brace (h : startProgram s = .done () ('\x7b' :: e)) : openProgram s = .done () (skipBlank e) :=
  bind_of_done h (bind_of_done (char_cons _ e) rfl)

theorem startProgram_apply (s : List Char) : startProgram s = (do keyword "program"; blank : Reader Unit) (skipBlank s) := rfl

/-- A program starts with its keyword, behind a blank. -/
theorem startProgram_of_skipBlank (hs : skipBlank s = "program".toList ++ x) (hx : Stops isIdentRest x) :
    startProgram s = .done () (skipBlank x) := by
  rw [startProgram_apply, hs]
  exact bind_of_done (keyword_append "program" hx) rfl

/-- The least program is read. -/
theorem program_of_start (h : startProgram s = .done () "\x7b\x7d".toList) : program s = .done ⟨none, []⟩ [] := by
  refine program_of_close ?_
  rw [openProgram_of_brace h]
  exact congrArg (Outcome.done ()) (skipBlank_of_stops rfl)

/-- A keyword fails at its start, or behind it if an identifier goes on there. -/
theorem eq_of_keyword_fail {k : String} (h : keyword k s = .fail r) : s = r ∨ s = k.toList ++ r := by
  cases hword : word k s with
  | fail t =>
    rw [keyword, bind_apply, hword] at h
    cases h
    rw [word] at hword
    split at hword
    · cases hword
    · cases hword
      exact .inl rfl
  | done _ t =>
    rw [keyword, bind_of_done hword rfl, wordEnd, notAhead] at h
    split at h
    · cases h
      exact .inr (word_eq_done_iff.1 hword)
    · cases h

/-- Behind its keyword and a blank, a program could go on with its braces. -/
theorem viable_of_keyword (h : skipBlank t = "program".toList ++ (v ++ r)) (x : List Char) (hstop : Stops isIdentRest (v ++ x))
    (hskip : skipBlank (v ++ x) = "\x7b\x7d".toList) : Viable t r := by
  have hblank : blank t = .done () ('p' :: ("rogram".toList ++ v ++ r)) := by
    rw [List.append_assoc]
    exact congrArg (Outcome.done ()) h
  refine viable_of_cut ((carries_used t).blank.used hblank) x fun s' hcut => ⟨_, program_of_start ?_⟩
  have hblank' := (carries_cut rfl).blank.done_of_cut hcut hblank
  rw [List.append_assoc] at hblank'
  rw [← hskip]
  exact startProgram_of_skipBlank (Outcome.done.inj hblank').2 hstop

/-- Where a program does not start, it could. -/
theorem viable_start (h : startProgram t = .fail r) : Viable t r := by
  have hkeyword : keyword "program" (skipBlank t) = .fail r := by
    rw [startProgram_apply, bind_apply] at h
    split at h
    · cases h
    · next hfail =>
      cases h
      exact hfail
  rcases eq_of_keyword_fail hkeyword with rfl | hs
  · obtain ⟨v, hv, hskip⟩ := exists_skipped t
    refine ⟨v, '\n' :: ("program".toList ++ "\x7b\x7d".toList), ⟨none, []⟩, hv, program_of_start ?_⟩
    rw [startProgram_of_skipBlank (x := "\x7b\x7d".toList) ((hskip _).trans (skipBlank_of_stops rfl)) rfl]
    exact congrArg (Outcome.done ()) (skipBlank_of_stops rfl)
  · exact viable_of_keyword (v := []) hs "\x7b\x7d".toList rfl (skipBlank_of_stops rfl)

/-- Behind its keyword, a program could be opened. -/
theorem viable_opening (h : startProgram t = .done () r) : Viable t r := by
  rw [startProgram_apply] at h
  obtain ⟨_, e, hkeyword, hblank⟩ := bind_eq_done_iff.1 h
  obtain ⟨_, e', hword, hend⟩ := bind_eq_done_iff.1 hkeyword
  obtain ⟨rfl, hstop⟩ := stops_of_wordEnd hend
  cases hblank
  obtain ⟨v, hv, hskip⟩ := exists_skipped e'
  have hs := word_eq_done_iff.1 hword
  rw [hv] at hs hstop
  exact viable_of_keyword hs ('\n' :: "\x7b\x7d".toList) (stops_cut hstop rfl _) ((hskip _).trans (skipBlank_of_stops rfl))

/-- Behind the brace that opens it, a program could be closed. -/
theorem viable_open (h : startProgram t = .done () ('\x7b' :: e)) : Viable t (skipBlank e) := by
  obtain ⟨v, hv, hskip⟩ := exists_skipped e
  have hused : Used t ('\x7b' :: (v ++ skipBlank e)) := by
    rw [← hv]
    exact ((carries_used t).startProgram rfl rfl).used h
  refine viable_of_cut hused "\n\x7d".toList fun s' hcut => ⟨_, program_of_close ?_⟩
  rw [← hv] at hcut
  rw [openProgram_of_brace (((carries_cut rfl).startProgram rfl rfl).done_of_cut hcut h)]
  exact congrArg (Outcome.done ()) (skipBlank_brace hskip rfl [])

/-- An entry up to the name of its method. -/
def startEntry : Reader Unit := do
  keyword "entry"
  blank
  char ':'
  blank

theorem entry_eq : entry = (do startEntry; let name ← methodName; blank; return name) := by
  simp only [entry, startEntry, bind_assoc]

theorem Carries.startEntry {ends : List Char} {E : List Char → List Char → Prop} (h : Carries ends E)
    (hw : ends.all (fun d => !"entry".toList.contains d) = true) (hk : ends.all (fun c => !isIdentRest c) = true)
    (hc : ends.all (fun d => !(d == ':')) = true) : Abreast E startEntry :=
  (h.keyword hw hk).bind fun _ => h.blank.bind fun _ => (h.char hc).bind fun _ => h.blank

/-- Behind its entry, a program could be closed. -/
theorem viable_entry {name : String} (hopen : openProgram t = .done () s) (h : entry s = .done name r) : Viable t r := by
  rw [entry_eq] at h
  obtain ⟨_, s₁, hstart, hname⟩ := bind_eq_done_iff.1 h
  obtain ⟨name', e', hname, hblank⟩ := bind_eq_done_iff.1 hname
  obtain ⟨_, e, hmark, hident⟩ := bind_eq_done_iff.1 hname
  obtain rfl := char_eq_done_iff.1 hmark
  cases hblank
  obtain ⟨rfl, hstop⟩ := eq_append_of_identifier hident
  obtain ⟨v, hv, hskip⟩ := exists_skipped e'
  have hupto : (do openProgram; startEntry : Reader Unit) t = .done () ('%' :: (name.toList ++ v ++ skipBlank e')) := by
    rw [List.append_assoc, ← hv]
    exact bind_of_done hopen hstart
  have hused := (((carries_used t).openProgram rfl rfl rfl).bind fun _ => (carries_used t).startEntry rfl rfl rfl).used hupto
  refine viable_of_cut hused "\n\x7d".toList fun s' hcut => ?_
  have hcarries : Carries ['\n', ';', '%'] (Cut '%' (name.toList ++ v ++ skipBlank e') (name.toList ++ v ++ "\n\x7d".toList)) :=
    carries_cut rfl
  have hupto' := ((hcarries.openProgram rfl rfl rfl).bind fun _ => hcarries.startEntry rfl rfl rfl).done_of_cut hcut hupto
  obtain ⟨_, s₂, hopen', hstart'⟩ := bind_eq_done_iff.1 hupto'
  have hentry : entry s₂ = .done name ['\x7d'] := by
    rw [List.append_assoc] at hstart'
    rw [hv] at hstop
    have hname' := methodName_append (identifier_yields _ name e' hident) (stops_cut hstop rfl ['\x7d'])
    rw [entry_eq]
    refine bind_of_done hstart' (bind_of_done hname' ?_)
    exact congrArg (Outcome.done name) (skipBlank_brace hskip rfl [])
  have hprogram := program_of_parts hopen' (maybe_of_done hentry) (many_of_fails (method_fails_brace []))
  rw [skipBlank_nil] at hprogram
  exact ⟨_, hprogram⟩

theorem used_methods (h : Repeated ReadsMethod ms s r) : Used s r := by
  induction h with
  | nil s => exact .refl s
  | @cons m ms s t r item _ ih => exact ((carries_used s).method.used item).trans ih

/-- A program is read from its parts, method by method. -/
theorem program_of_methods {name : Option String} (hopen : openProgram s = .done () t) (hentry : maybe entry t = .done name r)
    (hms : Repeated ReadsMethod ms r ('\x7d' :: e)) : program s = .done ⟨name, ms⟩ (skipBlank e) := by
  refine program_of_parts hopen hentry ?_
  exact many_of_repeated hms (fun _ _ _ hm (_ : True) => hm) (fun _ _ _ => length_lt_of_method) (fun _ _ _ _ _ => trivial) trivial
    (method_fails_brace e)

section Closing

variable {name : Option String} (hopen : openProgram t = .done () s) (hentry : maybe entry s = .done name x)
  (hms : Repeated ReadsMethod ms x r)
include hopen hentry hms

/-- A program is used up to the end of its methods. -/
theorem used_body : Used t r := by
  have hused := ((carries_used t).openProgram rfl rfl rfl).used hopen
  exact (hused.trans (((carries_used s).mono rfl).entry.maybe.used hentry)).trans (used_methods hms)

/-- With another end behind a brace, a program is read up to the end of its methods. -/
theorem Cut.body (h : Cut '\x7d' e e' t s') (hr : (skipBlank e).length ≤ r.length) :
    ∃ s₁ x₁ r', openProgram s' = .done () s₁ ∧ maybe entry s₁ = .done name x₁ ∧ Repeated ReadsMethod ms x₁ r' ∧
      (Cut '\x7d' e e' r r' ∨ r = skipBlank e ∧ r' = skipBlank e') := by
  have hcarries : Carries ['\n', ';', '\x7d'] (Cut '\x7d' e e') := carries_cut rfl
  obtain ⟨s₁, hopen', hcut⟩ := (hcarries.openProgram rfl rfl rfl).of_done h hopen
  obtain ⟨x₁, hentry', hcut⟩ := hcarries.entry.maybe.of_done hcut hentry
  obtain ⟨r', hms', hend⟩ := hcut.methods hms hr
  exact ⟨s₁, x₁, r', hopen', hentry', hms', hend⟩

/-- Behind its methods, a program could be closed. -/
theorem viable_methods (hne : ms ≠ []) : Viable t r := by
  obtain ⟨e, hclosed, rfl⟩ := exists_closed_of_methods hms hne
  obtain ⟨v, hv, hskip⟩ := exists_skipped e
  have hused := (used_body hopen hentry (.nil x)).trans hclosed
  rw [hv] at hused
  refine viable_of_cut hused "\n\x7d".toList fun s' hcut => ?_
  rw [← hv] at hcut
  obtain ⟨s₁, x₁, r', hopen', hentry', hms', hend⟩ := hcut.body hopen hentry hms (Nat.le_refl _)
  have hr' : r' = ['\x7d'] := by
    rcases hend with ⟨u, -, hu, -⟩ | ⟨-, rfl⟩
    · -- the brace would still be ahead
      have hlen := length_skipBlank e
      rw [hu, List.length_append, List.length_cons] at hlen
      omega
    · exact skipBlank_brace hskip rfl []
  subst hr'
  have hprogram := program_of_methods hopen' hentry' hms'
  rw [skipBlank_nil] at hprogram
  exact ⟨_, hprogram⟩

/-- Behind what is read of a program before its end, it could be closed. -/
theorem viable_body : Viable t r := by
  by_cases hne : ms = []
  · subst hne
    cases hms
    rcases fails_or_done entry s with hfail | ⟨name', x', hdone⟩
    · rw [maybe_of_fails hfail] at hentry
      cases hentry
      obtain ⟨_, s₀, hstart, hbrace⟩ := bind_eq_done_iff.1 hopen
      obtain ⟨_, e, hbrace, hblank⟩ := bind_eq_done_iff.1 hbrace
      obtain rfl := char_eq_done_iff.1 hbrace
      cases hblank
      exact viable_open hstart
    · rw [maybe_of_done hdone] at hentry
      cases hentry
      exact viable_entry hopen hdone
  · exact viable_methods hopen hentry hms hne

end Closing

/-- Behind a program there could be nothing. -/
theorem viable_closed {name : Option String} (hopen : openProgram t = .done () s) (hentry : maybe entry s = .done name x)
    (hms : Repeated ReadsMethod ms x ('\x7d' :: e)) : Viable t (skipBlank e) := by
  obtain ⟨v, hv, hskip⟩ := exists_skipped e
  have hlen := length_skipBlank e
  have hused := used_body hopen hentry hms
  rw [hv] at hused
  refine viable_of_cut hused ['\n'] fun s' hcut => ?_
  rw [← hv] at hcut
  obtain ⟨s₁, x₁, r', hopen', hentry', hms', hend⟩ := hcut.body hopen hentry hms (Nat.le_succ_of_le hlen)
  have hr' : r' = '\x7d' :: (v ++ ['\n']) := by
    rcases hend with hmark | ⟨hbrace, -⟩
    · exact hmark.eq_of_mark
    · rw [← hbrace, List.length_cons] at hlen
      omega
  subst hr'
  refine ⟨⟨name, ms⟩, ?_⟩
  rw [program_of_methods hopen' hentry' hms', hskip, skipBlank_nil]

/-- A given character fails where it is not. -/
theorem eq_of_char_fail {c : Char} (h : char c s = .fail r) : s = r := by
  cases s with
  | nil =>
    cases h
    rfl
  | cons d cs =>
    rw [char] at h
    split at h
    · cases h
    · cases h
      rfl

/-- Where a program is not opened, it could be. -/
theorem viable_of_open_fail (h : openProgram t = .fail r) : Viable t r := by
  cases hstart : startProgram t with
  | fail r' =>
    rw [openProgram, bind_apply, hstart] at h
    cases h
    exact viable_start hstart
  | done _ s =>
    rw [openProgram, bind_of_done hstart rfl, bind_apply] at h
    split at h
    · cases h
    · next hfail =>
      cases h
      obtain rfl := eq_of_char_fail hfail
      exact viable_opening hstart

/-- Where reading a program ends, the text up to there could go on as a program. -/
theorem viable_rest (t : List Char) : Viable t (program t).rest := by
  rw [program_eq]
  cases hopen : openProgram t with
  | fail r =>
    rw [bind_apply, hopen]
    exact viable_of_open_fail hopen
  | done _ s =>
    obtain ⟨name, x, hentry⟩ : ∃ name x, maybe entry s = .done name x := by
      rcases fails_or_done entry s with hfail | ⟨name, x, hdone⟩
      · exact ⟨none, s, maybe_of_fails hfail⟩
      · exact ⟨some name, x, maybe_of_done hdone⟩
    obtain ⟨ms, r, hmany, hms, -⟩ := exists_many_repeated (fun _ _ _ => length_lt_of_method) x
    rw [bind_of_done hopen (bind_of_done hentry (bind_of_done hmany rfl))]
    cases hbrace : char '\x7d' r with
    | fail r' =>
      rw [bind_apply, closing, bind_apply, hbrace]
      obtain rfl := eq_of_char_fail hbrace
      exact viable_body hopen hentry hms
    | done _ e =>
      obtain rfl := char_eq_done_iff.1 hbrace
      exact viable_closed hopen hentry hms

end Grammar

end Straightline
