import ModuleScripts.Proofs.SpecifierReplacement

/-!
# Statements with a single literal

An import or a re-export in which exactly two quotes occur is a text before its
literal, the literal, and blanks or a semicolon behind it. Versioning replaces
what stands between the quotes, and the result is one statement as a whole again.
-/

namespace ModuleScripts

open Matcher

section Decomposition

variable {front specifier closing t : Text} {q : Char}

/-- Two quotes in all are the quotes of the literal. -/
theorem quoteFree_of_two_quotes (hq : isQuote q = true)
    (h : Text.quotes (front ++ q :: (specifier ++ q :: closing)) = 2) :
    QuoteFree front ∧ QuoteFree specifier := by
  have hfree : ∀ u : Text, Text.quotes u = 0 → QuoteFree u := by
    intro u hu c hc
    have := List.countP_eq_zero.1 hu c hc
    simpa using this
  simp only [Text.quotes_append, quotes_cons_of_isQuote hq] at h
  exact ⟨hfree front (by omega), hfree specifier (by omega)⟩

/-- In a statement with one literal the specifier has no quote. -/
theorem LiteralBehind.quoteFree (h : LiteralBehind front specifier t) (hq : Text.quotes t = 2) :
    QuoteFree specifier := by
  obtain ⟨q, closing, rfl, hquote, _⟩ := h
  exact (quoteFree_of_two_quotes hquote hq).2

/-- In front of a single literal there is no quote. -/
theorem SpecifierAt.quoteFree_front (h : SpecifierAt t front q specifier closing)
    (hq : Text.quotes t = 2) : QuoteFree front := by
  rw [h.text_eq] at hq
  exact (quoteFree_of_two_quotes h.quote hq).1

end Decomposition

section Recut

variable {m : Matcher} {a s s' b : Text} {q : Char}

/-- A statement that is one as a whole is one with another literal, too. -/
theorem Matcher.Cuts.carry (hm : Carries Boundary.terminator m)
    (htrim : ∀ t, (m (Text.trim t)).isSome ↔ (m t).isSome) (ha : QuoteFree a)
    (hq : isQuote q = true) (hs : Quotable s) (hs' : Quotable s') (hb : Closing b)
    (h : m.Cuts (a ++ q :: (s ++ q :: b))) :
    m.Cuts (a ++ q :: (s' ++ q :: b)) ∧ '\n' ∉ b := by
  have hcarry := hm a q s b ha hq hs hb h.whole
  have hwhole : m (a ++ q :: (s' ++ q :: b)) = some (a ++ q :: (s' ++ q :: b), []) := by
    obtain ⟨⟨tail, rest⟩, htail⟩ :=
      Option.isSome_iff_exists.1 (Boundary.terminator_total b)
    have hsame := hcarry s b hs
    rw [h.whole, htail] at hsame
    simp only [Option.map_some, Option.some.injEq, Prod.mk.injEq, List.append_cancel_left_eq,
      List.cons.injEq, true_and] at hsame
    rw [hcarry s' b hs', htail, Option.map_some, ← hsame.1, ← hsame.2]
  have hline : '\n' ∉ b := by
    intro hn
    obtain ⟨front, back, rfl⟩ := List.append_of_mem hn
    have hi := h.incomplete (a ++ q :: (s ++ q :: front)) back (by simp)
    have hsome : (m (Text.trim (a ++ q :: (s ++ q :: front)))).isSome := by
      rw [htrim, hcarry s front hs, Option.isSome_map]
      exact Boundary.terminator_total front
    rw [hi] at hsome
    cases hsome
  refine ⟨⟨hwhole, (htrim _).2 (by rw [hwhole]; rfl), ?_⟩, hline⟩
  intro before behind ht
  have hlater : '\n' ∉ q :: (s' ++ q :: b) := by
    have hne : '\n' ≠ q := by rintro rfl; cases hq
    simp [hne, hs'.oneLine, hline]
  rcases List.append_eq_append_iff.1 ht with ⟨more, _, hmore⟩ | ⟨more, rfl, hmore⟩
  · exact absurd (by rw [hmore]; simp) hlater
  · cases more with
    | nil => exact absurd (by rw [← List.nil_append (q :: _), ← hmore]; simp) hlater
    | cons c more =>
      obtain ⟨rfl, _⟩ := List.cons.inj hmore
      exact h.incomplete before (more ++ q :: (s ++ q :: b)) (by simp)

/-- The first line before the literal decides what a statement announces. -/
theorem firstLine_literal (hs : Quotable s) (hs' : Quotable s') (hq : isQuote q = true)
    (hb : '\n' ∉ b) {first first' : Text} {others others' : List Text}
    (hf : Text.lines (a ++ q :: (s ++ q :: b)) = first :: others)
    (hf' : Text.lines (a ++ q :: (s' ++ q :: b)) = first' :: others') :
    first' = first ∨
      first = a ++ q :: (s ++ q :: b) ∧ first' = a ++ q :: (s' ++ q :: b) := by
  by_cases ha : '\n' ∈ a
  · obtain ⟨front, back, rfl⟩ := List.append_of_mem ha
    rw [List.append_assoc, List.cons_append, Text.lines_append_lineFeed] at hf hf'
    obtain ⟨l, more, hl⟩ := List.exists_cons_of_ne_nil (Text.lines_ne_nil front)
    rw [hl] at hf hf'
    exact .inl ((List.cons.inj hf').1.symm.trans (List.cons.inj hf).1)
  · have hone : ∀ u, Quotable u → '\n' ∉ a ++ q :: (u ++ q :: b) := by
      intro u hu
      have hne : '\n' ≠ q := by rintro rfl; cases hq
      simp [ha, hne, hu.oneLine, hb]
    rw [Text.lines_of_oneLine (hone s hs)] at hf
    rw [Text.lines_of_oneLine (hone s' hs')] at hf'
    exact .inr ⟨(List.cons.inj hf).1.symm, (List.cons.inj hf').1.symm⟩

/-- An import is announced before its literal, whatever follows the quote. -/
theorem LineHead.ofLine_importing_literal (hq : isQuote q = true) {r : Text}
    (h : LineHead.ofLine (a ++ q :: r) = .importing) (r' : Text) :
    LineHead.ofLine (a ++ q :: r') = .importing := by
  obtain ⟨c, rest, ht, ho⟩ := LineHead.ofLine_eq_importing_iff.1 h
  have hword : q ∉ "import".toList := notMem_of_quoteFree hq (by decide)
  rw [Text.trimStart_barrier hq, ← Text.dropPrefix?_eq_some_iff, Text.dropPrefix?_barrier hword,
    Option.map_eq_some_iff] at ht
  obtain ⟨z, hz, hzr⟩ := ht
  rw [Text.dropPrefix?_eq_some_iff] at hz
  refine LineHead.ofLine_eq_importing_iff.2 ?_
  rw [Text.trimStart_barrier hq, hz]
  cases z with
  | nil => exact ⟨c, r', by rw [← (List.cons.inj hzr).1, List.append_nil], ho⟩
  | cons d z =>
    refine ⟨c, z ++ q :: r', ?_, ho⟩
    rw [← (List.cons.inj hzr).1, List.append_assoc, List.cons_append]

/-- An export list is announced before its literal, whatever follows the
quote. -/
theorem LineHead.ofLine_exportList_literal (hq : isQuote q = true) {r : Text}
    (h : LineHead.ofLine (a ++ q :: r) = .exportList) (r' : Text) :
    LineHead.ofLine (a ++ q :: r') = .exportList := by
  obtain ⟨afterKeyword, ht, ho⟩ := LineHead.ofLine_eq_exportList_iff.1 h
  have hword : q ∉ "export".toList := notMem_of_quoteFree hq (by decide)
  rw [Text.trimStart_barrier hq, ← Text.dropPrefix?_eq_some_iff, Text.dropPrefix?_barrier hword,
    Option.map_eq_some_iff] at ht
  obtain ⟨z, hz, rfl⟩ := ht
  rw [Text.dropPrefix?_eq_some_iff] at hz
  rw [Text.trimStart_barrier hq] at ho
  refine LineHead.ofLine_eq_exportList_iff.2 ⟨z ++ q :: r', ?_, ?_⟩
  · rw [Text.trimStart_barrier hq, hz, List.append_assoc]
  · rw [Text.trimStart_barrier hq]
    cases hx : Text.trimStart z with
    | nil =>
      rw [hx] at ho
      have hbrace : q ≠ '{' := by rintro rfl; cases hq
      have hstar : q ≠ '*' := by rintro rfl; cases hq
      simp [LineHead.opensList, hbrace, hstar] at ho
    | cons c z =>
      rw [hx] at ho
      exact ho

end Recut

section Versioning

/-- A versioned specifier can stand between quotes again. -/
theorem Specifier.version_quotable {param specifier : Text} (hp : Quotable param)
    (hs : Quotable specifier) : Quotable (Specifier.version param specifier) := by
  unfold Specifier.version
  split
  · refine ⟨fun c hc => ?_, fun hc => ?_⟩
    · rcases Url.mem_appendQuery hc with h | h | rfl | rfl
      · exact hs.quoteFree c h
      · exact hp.quoteFree c h
      · rfl
      · rfl
    · rcases Url.mem_appendQuery hc with h | h | h | h
      · exact hs.oneLine h
      · exact hp.oneLine h
      · cases h
      · cases h
  · exact hs

/-- Without a parameter a specifier stays. -/
theorem Specifier.version_nil (specifier : Text) : Specifier.version [] specifier = specifier := by
  unfold Specifier.version
  split <;> rfl

end Versioning

end ModuleScripts
