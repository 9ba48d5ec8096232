import Straightline.Reader

/-!
# Running readers

What each way of making readers does where its parts are known to be done or to fail. A text is written here as a word and what
follows it; a word that consists of a class of characters is read up to its end if no character of the class follows
(`Reader.Stops`). Main statement: repetition reads the items of a list from a text that is written item by item
(`Reader.many_of_repeated`).
-/

namespace Straightline.Reader

variable {α β : Type} {p q : Reader α} {s t r : List Char} {a : α}

/-- A reader fails on a text. -/
def Fails (p : Reader α) (s : List Char) : Prop := ∃ r, p s = .fail r

/-- A text does not start with a character of a class. -/
def Stops (k : Char → Bool) : List Char → Prop
  | [] => True
  | c :: _ => k c = false

/-! ## Runs of characters -/

section Runs

variable {k k' : Char → Bool} {w rest : List Char}

/-- What does not start with a character of a class starts with none of a smaller one. -/
theorem Stops.imp (h : Stops k s) (hk : ∀ c, k' c = true → k c = true) : Stops k' s := by
  cases s with
  | nil => trivial
  | cons c cs => exact Bool.eq_false_iff.2 fun hc => Bool.eq_false_iff.1 h (hk c hc)

/-- A word without characters of a class, before a text that does not start with one. -/
theorem Stops.append (hw : ∀ c ∈ w, k c = false) (h : Stops k rest) : Stops k (w ++ rest) := by
  cases w with
  | nil => exact h
  | cons c cs => exact hw c List.mem_cons_self

/-- A word without characters of a class, before any text. -/
theorem stops_append_of_ne_nil (hne : w ≠ []) (hw : ∀ c ∈ w, k c = false) : Stops k (w ++ rest) := by
  cases w with
  | nil => exact absurd rfl hne
  | cons c cs => exact hw c List.mem_cons_self

/-- A text without its characters of a class at the front does not start with one. -/
theorem stops_dropWhile : Stops k (s.dropWhile k) := by
  induction s with
  | nil => trivial
  | cons c cs ih =>
    cases hc : k c with
    | true => rwa [List.dropWhile_cons_of_pos hc]
    | false =>
      rw [List.dropWhile_cons_of_neg (by simp [hc])]
      exact hc

/-- The characters of a class at the front of a word of the class and what follows it. -/
theorem takeWhile_append_of_stops (hw : ∀ c ∈ w, k c = true) (h : Stops k rest) : (w ++ rest).takeWhile k = w := by
  rw [List.takeWhile_append_of_pos hw]
  cases rest with
  | nil => simp
  | cons c cs => rw [List.takeWhile_cons_of_neg (Bool.eq_false_iff.1 h), List.append_nil]

/-- What is left without the characters of a class at the front of a word of the class and what follows it. -/
theorem dropWhile_append_of_stops (hw : ∀ c ∈ w, k c = true) (h : Stops k rest) : (w ++ rest).dropWhile k = rest := by
  rw [List.dropWhile_append_of_pos hw]
  cases rest with
  | nil => rfl
  | cons c cs => exact List.dropWhile_cons_of_neg (Bool.eq_false_iff.1 h)

/-- A run of a class reads a word of the class. -/
theorem run_append (hw : ∀ c ∈ w, k c = true) (h : Stops k rest) : run k (w ++ rest) = .done w rest := by
  rw [run, takeWhile_append_of_stops hw h, dropWhile_append_of_stops hw h]

/-- A run of a class that may not be empty reads a word of the class. -/
theorem run1_append (hne : w ≠ []) (hw : ∀ c ∈ w, k c = true) (h : Stops k rest) : run1 k (w ++ rest) = .done w rest := by
  rw [run1, takeWhile_append_of_stops hw h, dropWhile_append_of_stops hw h]
  exact if_neg (by simpa using hne)

/-- A run of a class that is read is a word of the class, and what follows does not go on with it. -/
theorem eq_append_of_run1 (h : run1 k s = .done w r) : s = w ++ r ∧ (∀ c ∈ w, k c = true) ∧ Stops k r := by
  rw [run1] at h
  split at h
  · nomatch h
  · cases h
    exact ⟨List.takeWhile_append_dropWhile.symm, List.all_eq_true.1 List.all_takeWhile, stops_dropWhile⟩

/-- A run of a class that may not be empty is not empty. -/
theorem ne_nil_of_run1 (h : run1 k s = .done w r) : w ≠ [] := by
  rw [run1] at h
  split at h
  · nomatch h
  · next hne =>
    cases h
    simpa using hne

/-- A character of a class is read. -/
theorem satisfy_cons {c : Char} (h : k c = true) : satisfy k (c :: rest) = .done c rest := if_pos h

/-- A character of a class is read exactly from the texts that start with it. -/
theorem satisfy_eq_done_iff {c : Char} : satisfy k s = .done c r ↔ s = c :: r ∧ k c = true := by
  cases s with
  | nil =>
    refine ⟨fun h => ?_, ?_⟩
    · nomatch h
    · rintro ⟨h, -⟩
      nomatch h
  | cons d cs =>
    by_cases hd : k d = true
    · rw [satisfy, if_pos hd, Outcome.done.injEq, List.cons.injEq]
      refine ⟨fun h => ⟨h, h.1 ▸ hd⟩, fun h => h.1⟩
    · rw [satisfy, if_neg hd]
      refine ⟨fun h => ?_, ?_⟩
      · nomatch h
      · rintro ⟨h, hc⟩
        cases h
        exact absurd hc hd

/-- No character of a class is read. -/
theorem satisfy_fails (h : Stops k s) : Fails (satisfy k) s := by
  cases s with
  | nil => exact ⟨_, rfl⟩
  | cons c cs => exact ⟨_, if_neg (Bool.eq_false_iff.1 h)⟩

end Runs

/-! ## Given characters and words -/

/-- A given character is read. -/
theorem char_cons (c : Char) (rest : List Char) : char c (c :: rest) = .done () rest := if_pos rfl

/-- A given character is read exactly from the texts that start with it. -/
theorem char_eq_done_iff {c : Char} : char c s = .done () r ↔ s = c :: r := by
  cases s with
  | nil => exact ⟨fun h => (nomatch h), fun h => (nomatch h)⟩
  | cons d cs =>
    by_cases hd : d = c
    · rw [char, if_pos hd, hd]
      simp
    · rw [char, if_neg hd]
      exact ⟨fun h => (nomatch h), fun h => absurd (List.cons.inj h).1 hd⟩

/-- Another character is not read. -/
theorem char_fails {c : Char} (h : Stops (· == c) s) : Fails (char c) s := by
  cases s with
  | nil => exact ⟨_, rfl⟩
  | cons d cs => exact ⟨_, if_neg (beq_eq_false_iff_ne.1 h)⟩

/-- A list is a prefix exactly of the lists that go on from it. -/
theorem isPrefixOf?_eq_some_iff {w : List Char} : w.isPrefixOf? s = some r ↔ s = w ++ r := by
  induction w generalizing s with
  | nil =>
    show some s = some r ↔ s = r
    rw [Option.some.injEq]
  | cons c w ih =>
    cases s with
    | nil =>
      show none = some r ↔ [] = c :: (w ++ r)
      simp
    | cons d s =>
      show (if c == d then w.isPrefixOf? s else none) = some r ↔ d :: s = c :: (w ++ r)
      rw [List.cons.injEq]
      by_cases hcd : c = d
      · rw [if_pos (beq_iff_eq.2 hcd), ih]
        exact ⟨fun h => ⟨hcd.symm, h⟩, fun h => h.2⟩
      · rw [if_neg (by simpa using hcd)]
        exact ⟨fun h => (by cases h), fun h => absurd h.1.symm hcd⟩

/-- A given word is read exactly from the texts that start with it. -/
theorem word_eq_done_iff {w : String} : word w s = .done () r ↔ s = w.toList ++ r := by
  rw [← isPrefixOf?_eq_some_iff, word]
  cases w.toList.isPrefixOf? s with
  | none => exact ⟨fun h => (nomatch h), fun h => (nomatch h)⟩
  | some rest => simp

/-- A given word is not read where it does not start. -/
theorem word_fails {w : String} {c : Char} {cs : List Char} (hw : w.toList = c :: cs) (h : Stops (· == c) s) :
    Fails (word w) s := by
  cases hr : word w s with
  | fail r => exact ⟨r, hr⟩
  | done _ r =>
    have hs : s = w.toList ++ r := word_eq_done_iff.1 hr
    rw [hs, hw] at h
    exact absurd h (by simp [Stops])

/-! ## Sequence, choice and lookahead -/

/-- The second reader goes on from where the first one is done. -/
theorem bind_of_done {f : α → Reader β} {o : Outcome β} (h : p s = .done a r) (hf : f a r = o) : (p >>= f) s = o := by
  rw [bind_apply, h]
  exact hf

/-- Where the first reader fails, both do. -/
theorem Fails.bind (h : Fails p s) (f : α → Reader β) : Fails (p >>= f) s := by
  obtain ⟨r, h⟩ := h
  exact ⟨r, by rw [bind_apply, h]⟩

/-- Where the second reader fails, both do. -/
theorem Fails.bind_of_done {f : α → Reader β} (hf : Fails (f a) r) (h : p s = .done a r) : Fails (p >>= f) s := by
  obtain ⟨t, hf⟩ := hf
  exact ⟨t, Reader.bind_of_done h hf⟩

/-- A reader fails or is done. -/
theorem fails_or_done (p : Reader α) (s : List Char) : Fails p s ∨ ∃ a r, p s = .done a r := by
  cases h : p s with
  | fail r => exact .inl ⟨r, h⟩
  | done a r => exact .inr ⟨a, r, rfl⟩

/-- The first of two readers is done. -/
theorem orElse_of_done (h : p s = .done a r) : orElse p q s = .done a r := by
  rw [orElse, h]

/-- The first of two readers fails. -/
theorem orElse_of_fails (h : Fails p s) : orElse p q s = q s := by
  obtain ⟨r, h⟩ := h
  rw [orElse, h]

/-- Both of two readers fail. -/
theorem Fails.orElse (hp : Fails p s) (hq : Fails q s) : Fails (orElse p q) s := by
  rw [Fails, orElse_of_fails hp]
  exact hq

/-- What may be read is read. -/
theorem maybe_of_done (h : p s = .done a r) : maybe p s = .done (some a) r := by
  rw [maybe, h]

/-- What may be read is not there. -/
theorem maybe_of_fails (h : Fails p s) : maybe p s = .done none s := by
  obtain ⟨r, h⟩ := h
  rw [maybe, h]

/-- What may not be ahead is not ahead. -/
theorem notAhead_of_fails (h : Fails p s) : notAhead p s = .done () s := by
  obtain ⟨r, h⟩ := h
  rw [notAhead, h]

/-- What may not be ahead is ahead. -/
theorem notAhead_fails (h : p s = .done a r) : Fails (notAhead p) s := ⟨s, by rw [notAhead, h]⟩

/-- A value that a partial function takes. -/
theorem filterMap_of_done {f : α → Option β} {b : β} (h : p s = .done a r) (hf : f a = some b) :
    filterMap p f s = .done b r := by
  simp only [filterMap, h, hf]

/-- A value that a partial function does not take. -/
theorem filterMap_of_none {f : α → Option β} (h : p s = .done a r) (hf : f a = none) : filterMap p f s = .fail s := by
  simp only [filterMap, h, hf]

/-- What is read through a partial function is read. -/
theorem exists_done_of_filterMap {f : α → Option β} {b : β} (h : filterMap p f s = .done b r) :
    ∃ a, p s = .done a r ∧ f a = some b := by
  rw [filterMap] at h
  split at h
  · next a' r' hp =>
    split at h
    · next b' hb =>
      cases h
      exact ⟨a', hp, hb⟩
    · nomatch h
  · nomatch h

/-- A reader that fails gives a partial function nothing. -/
theorem Fails.filterMap (h : Fails p s) (f : α → Option β) : Fails (filterMap p f) s := by
  obtain ⟨r, h⟩ := h
  exact ⟨r, by rw [Reader.filterMap, h]⟩

/-! ## Repetition -/

/-- Repetition ends where the reader fails. -/
theorem many_of_fails (h : Fails p s) : many p s = .done [] s := by
  obtain ⟨r, h⟩ := h
  rw [many, h]

/-- Repetition goes on from where the reader is done. -/
theorem many_of_done {as : List α} (h : p s = .done a r) (hr : r.length < s.length) (hm : many p r = .done as t) :
    many p s = .done (a :: as) t := by
  rw [many, h]
  simp only [if_pos hr, hm]

/-- The items of a list are written one after the other: each from a text `s` to what follows it. -/
inductive Repeated (Item : α → List Char → List Char → Prop) : List α → List Char → List Char → Prop where
  | nil (s : List Char) : Repeated Item [] s s
  | cons {a : α} {as : List α} {s t r : List Char} (item : Item a s t) (items : Repeated Item as t r) :
      Repeated Item (a :: as) s r

variable {Item : α → List Char → List Char → Prop} {as : List α}

/-- What holds of what follows the items, and at each item if it holds of what follows it, holds at their start. -/
theorem Repeated.start {Good : List Char → Prop} (h : Repeated Item as s r) (hr : Good r)
    (hitem : ∀ a s t, Item a s t → Good t → Good s) : Good s := by
  induction h with
  | nil s => exact hr
  | cons item _ ih => exact hitem _ _ _ item (ih hr)

/-- What follows the items is no longer than the text. -/
theorem Repeated.length_le (h : Repeated Item as s r) (hitem : ∀ a s t, Item a s t → t.length < s.length) :
    r.length ≤ s.length := by
  induction h with
  | nil s => exact Nat.le_refl _
  | cons item _ ih => exact Nat.le_trans ih (Nat.le_of_lt (hitem _ _ _ item))

/-- Repetition reads the items of a list if each is read where a good text follows it, each starts a good text, and so does what
follows them, where the reader fails. -/
theorem many_of_repeated {Good : List Char → Prop} (h : Repeated Item as s r)
    (hread : ∀ a s t, Item a s t → Good t → p s = .done a t) (hlength : ∀ a s t, Item a s t → t.length < s.length)
    (hgood : ∀ a s t, Item a s t → Good t → Good s) (hr : Good r) (hfail : Fails p r) : many p s = .done as r := by
  induction h with
  | nil s => exact many_of_fails hfail
  | cons item items ih =>
    have ht := items.start hr hgood
    exact many_of_done (hread _ _ _ item ht) (hlength _ _ _ item) (ih hr hfail)

/-- Repetition of a reader that uses up something is always done, where the reader fails. -/
theorem exists_many_repeated (hlength : ∀ s a t, p s = .done a t → t.length < s.length) (s : List Char) :
    ∃ as r, many p s = .done as r ∧ Repeated (fun a s t => p s = .done a t) as s r ∧ Fails p r := by
  induction hn : s.length using Nat.strongRecOn generalizing s with
  | ind n ih =>
    rcases fails_or_done p s with hfail | ⟨a, t, hdone⟩
    · exact ⟨[], s, many_of_fails hfail, .nil s, hfail⟩
    · have hlt := hlength s a t hdone
      obtain ⟨as, r, hmany, hitems, hfail⟩ := ih t.length (hn ▸ hlt) t rfl
      exact ⟨a :: as, r, many_of_done hdone hlt hmany, .cons hdone hitems, hfail⟩

/-- Nothing is read where the first item fails. -/
theorem sepBy_of_fails {sep : Reader β} (h : Fails p s) : sepBy p sep s = .done [] s := by
  obtain ⟨r, h⟩ := h
  rw [sepBy, h]

/-- An item is read, and the others after a separator each. -/
theorem sepBy_of_done {sep : Reader β} (h : p s = .done a r) (hm : many (do let _ ← sep; p) r = .done as t) :
    sepBy p sep s = .done (a :: as) t := by
  simp only [sepBy, h, hm]

end Straightline.Reader
