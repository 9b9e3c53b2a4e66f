import ModuleScripts.Proofs.LiteralForms

/-!
# Statements with another specifier

An import or a re-export is read to the same statement with another specifier,
whatever stands between the quotes of its last literal.
-/

namespace ModuleScripts

open Matcher

section Literal

variable {a b : Text} {q : Char}

/-- Trimming leaves the literal alone. -/
theorem trim_literal (hq : isQuote q = true) (a s b : Text) :
    Text.trim (a ++ q :: (s ++ q :: b)) =
      Text.trimStart a ++ q :: (s ++ q :: Text.trimEnd b) := by
  have hsolid : Text.EndsSolid (Text.trimStart a ++ q :: (s ++ [q])) :=
    ((Text.endsSolid_singleton (isBlank_of_isQuote hq)).append (q :: s)).append _
  have hend := Text.trimEnd_append hsolid b
  rw [Text.trim, Text.trimStart_barrier hq]
  simpa using hend

/-- No quote comes in when the white space at the end is dropped. -/
theorem quoteFree_trimEnd (hb : QuoteFree b) : QuoteFree (Text.trimEnd b) := by
  intro c hc
  exact hb c (by rw [← Text.trimEnd_append_trailing b]; exact List.mem_append_left _ hc)

/-- A clause is read in the same way in every statement. -/
theorem Clause.parse_statement {statement clause : Text} {c : Clause}
    (h : Clause.parse statement clause = .ok c) (other : Text) :
    Clause.parse other clause = .ok c := by
  unfold Clause.parse at h ⊢
  dsimp only at h ⊢
  generalize Clause.splitDefault (Text.trim (Comments.remove clause)) = split at h ⊢
  obtain ⟨name, rest⟩ := split
  cases rest with
  | nil => exact h
  | cons d rest =>
    simp only [Clause.parseRest] at h ⊢
    split at h
    · next hstar =>
      rw [if_pos hstar]
      split at h
      · exact h
      · cases h
    · next hstar =>
      split at h
      · next hbrace =>
        split at h
        · next hlast =>
          rw [if_neg hstar, if_pos hbrace, if_pos hlast]
          exact h
        · cases h
      · cases h

/-- An import is, with another specifier in its last literal, the same import of
what then stands up to the end of that literal. -/
theorem Import.parse_literal {line : Nat} {i : Import} {s : Text} (hq : isQuote q = true)
    (hs : Quotable s) (hb : QuoteFree b)
    (h : Import.parse line (a ++ q :: (s ++ q :: b)) = .ok i) :
    ∃ lead, i.specifier = lead ++ s ∧
      ∀ line' s', Quotable s' → Import.parse line' (a ++ q :: (s' ++ q :: b)) =
        .ok { i with
          line := line', text := a ++ q :: (s' ++ q :: b), specifier := lead ++ s' } := by
  have hword : q ∉ "import".toList := notMem_of_quoteFree hq (by decide)
  have hend := quoteFree_trimEnd hb
  unfold Import.parse at h ⊢
  simp only [trim_literal hq, Text.dropPrefix?_barrier hword] at h ⊢
  cases hd : Text.dropPrefix? "import".toList (Text.trimStart a) with
  | none =>
    rw [hd] at h
    cases h
  | some r =>
    obtain ⟨bare, hbare⟩ := bareSpecifier_literal hq hend r
    obtain ⟨split, hsplit⟩ := splitImport_literal hq hend r
    rw [hd] at h
    simp only [Option.map_some, hbare s hs, hsplit s hs] at h ⊢
    cases bare with
    | some lead =>
      cases h
      refine ⟨lead, rfl, fun line' s' hs' => ?_⟩
      simp only [hbare s' hs', Option.map_some]
    | none =>
      cases split with
      | none => cases h
      | some found =>
        obtain ⟨clause, lead⟩ := found
        obtain ⟨c, hc, rfl⟩ := map_eq_ok h
        refine ⟨lead, rfl, fun line' s' hs' => ?_⟩
        simp only [hbare s' hs', hsplit s' hs', Option.map_none, Option.map_some,
          Clause.parse_statement hc]
        rfl

/-- The name of a star export is read from the text before a quote. -/
theorem starName_barrier : Barrier starName? := by
  have hword : Barrier ((blanks.andThen (literal "as".toList)).andThen gap) :=
    andThen_barrier (andThen_exact blanks_exact (literal_exact "as".toList))
      (andThen_barrier blanks_exact blanks_barrier (literal_barrier (by decide))) gap_barrier
  intro a q ha hq
  obtain ⟨found, hf⟩ := hword a q ha hq
  cases found with
  | none =>
    refine ⟨none, fun r => ?_⟩
    rw [starName?, hf]
    rfl
  | some x =>
    obtain ⟨name, hn⟩ := identifier_barrier.exists_found hq x.2
    refine ⟨name, fun r => ?_⟩
    rw [starName?, hf]
    exact hn r

/-- The list of a re-export is found in the text before the literal. -/
theorem braced_literal (hq : isQuote q = true) (hb : QuoteFree b) (a : Text) :
    ∃ found : Option (Text × Text), ∀ s, Quotable s →
      braced? fromSpecifier? (a ++ q :: (s ++ q :: b)) = found.map fun x => (x.1, x.2 ++ s) := by
  induction a with
  | nil =>
    refine ⟨none, fun s hs => ?_⟩
    have hbrace : q ≠ '}' := by rintro rfl; cases hq
    have hlater : braced? fromSpecifier? (s ++ q :: b) = none := by
      by_contra hn
      obtain ⟨⟨list, x⟩, hx⟩ := Option.ne_none_iff_exists'.1 hn
      obtain ⟨word, _, hliteral⟩ := literalBehind_of_braced hx
      have := hliteral.two_le_quotes
      rw [quotes_behind_quote hq hs hb] at this
      omega
    rw [List.nil_append, braced?, if_neg hbrace, hlater]
    rfl
  | cons c a ih =>
    obtain ⟨here, hhere⟩ := fromSpecifier_literal hq hb a
    obtain ⟨later, hlater⟩ := ih
    let closed : Option (Text × Text) := if c = '}' then here.map ([], ·) else none
    refine ⟨closed.or (later.map fun x => (c :: x.1, x.2)), fun s hs => ?_⟩
    rw [List.cons_append, braced?, hhere s hs, hlater s hs]
    simp only [closed]
    by_cases hbrace : c = '}'
    · simp only [if_pos hbrace]
      cases here <;> cases later <;> rfl
    · simp only [if_neg hbrace]
      cases later <;> rfl

/-- A star export is read off its literal, whatever that says. -/
theorem Export.parseStar?_literal {line : Nat} {e : Export} {s text : Text}
    (hq : isQuote q = true) (hs : Quotable s) (hb : QuoteFree b)
    (h : Export.parseStar? line text (a ++ q :: (s ++ q :: b)) = some e) :
    ∃ lead, e.specifier = some (lead ++ s) ∧
      ∀ line' text' s', Quotable s' → Export.parseStar? line' text' (a ++ q :: (s' ++ q :: b)) =
        some { e with line := line', text := text', specifier := some (lead ++ s') } := by
  obtain ⟨found, hname⟩ := starName_barrier.exists_found hq a
  unfold Export.parseStar? at h ⊢
  simp only [hname] at h ⊢
  cases found with
  | none =>
    obtain ⟨here, hhere⟩ := fromSpecifier_literal hq hb a
    simp only [Option.map_none, hhere s hs] at h ⊢
    cases here with
    | none => cases h
    | some lead =>
      cases h
      refine ⟨lead, rfl, fun line' text' s' hs' => ?_⟩
      rw [hhere s' hs']
      rfl
  | some x =>
    obtain ⟨name, rest⟩ := x
    obtain ⟨here, hhere⟩ := fromSpecifier_literal hq hb rest
    simp only [Option.map_some, Text.leading_barrier hq, hhere s hs] at h ⊢
    split at h
    · cases h
    · next hgap =>
      cases here with
      | none => cases h
      | some lead =>
        cases h
        refine ⟨lead, rfl, fun line' text' s' hs' => ?_⟩
        rw [if_neg hgap, hhere s' hs']
        rfl

/-- A braced export with a specifier is read off its literal, whatever that
says. -/
theorem Export.parseBraced_literal {line : Nat} {e : Export} {s text statement : Text}
    (hq : isQuote q = true) (hs : Quotable s) (hb : QuoteFree b)
    (h : Export.parseBraced line text statement (a ++ q :: (s ++ q :: b)) = .ok e)
    (he : e.specifier.isSome) :
    ∃ lead, e.specifier = some (lead ++ s) ∧
      ∀ line' text' statement' s', Quotable s' →
        Export.parseBraced line' text' statement' (a ++ q :: (s' ++ q :: b)) =
          .ok { e with line := line', text := text', specifier := some (lead ++ s') } := by
  obtain ⟨found, hread⟩ := braced_literal hq hb a
  unfold Export.parseBraced at h ⊢
  simp only [hread s hs] at h ⊢
  cases found with
  | none =>
    -- without a specifier behind its brace it is no re-export
    simp only [Option.map_none] at h
    split at h
    · obtain ⟨names, _, rfl⟩ := map_eq_ok h
      cases he
    · cases h
  | some x =>
    obtain ⟨list, lead⟩ := x
    obtain ⟨names, hn, rfl⟩ := map_eq_ok h
    refine ⟨lead, rfl, fun line' text' statement' s' hs' => ?_⟩
    rw [hread s' hs']
    simp only [Option.map_some, hn]
    rfl

/-- A re-export is, with another specifier in its last literal, the same re-export
of what then stands up to the end of that literal. -/
theorem Export.parseList_literal {line : Nat} {e : Export} {s : Text} (hq : isQuote q = true)
    (hs : Quotable s) (hb : QuoteFree b)
    (h : Export.parseList line (a ++ q :: (s ++ q :: b)) = .ok e) (he : e.specifier.isSome) :
    ∃ lead, e.specifier = some (lead ++ s) ∧
      ∀ line' s', Quotable s' → Export.parseList line' (a ++ q :: (s' ++ q :: b)) =
        .ok { e with
          line := line', text := a ++ q :: (s' ++ q :: b), specifier := some (lead ++ s') } := by
  have hword : q ∉ "export".toList := notMem_of_quoteFree hq (by decide)
  have hend := quoteFree_trimEnd hb
  unfold Export.parseList at h ⊢
  simp only [trim_literal hq, Text.dropPrefix?_barrier hword] at h ⊢
  cases hd : Text.dropPrefix? "export".toList (Text.trimStart a) with
  | none =>
    rw [hd] at h
    cases h
  | some r =>
    rw [hd] at h
    simp only [Option.map_some, Text.trimStart_barrier hq] at h ⊢
    cases ht : Text.trimStart r with
    | nil =>
      rw [ht] at h
      simp only [List.nil_append] at h
      split at h
      · next hc => cases hc; cases hq
      · next hc => cases hc; cases hq
      · cases h
    | cons c t =>
      rw [ht] at h
      simp only [List.cons_append] at h ⊢
      split at h
      · next hc =>
        obtain ⟨rfl, rfl⟩ := List.cons.inj (Option.some.inj hc)
        split at h
        · next found hf =>
          cases h
          obtain ⟨lead, hspec, hread⟩ := Export.parseStar?_literal hq hs hend hf
          refine ⟨lead, hspec, fun line' s' hs' => ?_⟩
          simp only [hread line' (a ++ q :: (s' ++ q :: b)) s' hs']
        · cases h
      · next hc =>
        obtain ⟨rfl, rfl⟩ := List.cons.inj (Option.some.inj hc)
        obtain ⟨lead, hspec, hread⟩ := Export.parseBraced_literal hq hs hend h he
        exact ⟨lead, hspec, fun line' s' hs' => hread line' _ _ s' hs'⟩
      · cases h

end Literal

end ModuleScripts
