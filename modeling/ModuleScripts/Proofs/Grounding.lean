import ModuleScripts.Proofs.LiteralStatements

/-!
# Statements that leave nothing open

What the parser takes for the specifier of a statement is the text between two
quotes at its end. Unless the specifier holds a quote itself, those two are also
the quotes at which the statement was cut off, so they stand on one line, and
the lexer is back at the top level behind them. The quotes inside a specifier
are another matter: between them it may hold the mark of a template.
-/

namespace ModuleScripts

open Matcher

/-- The text ends with a literal on one line. -/
def EndsQuoted (t : Text) : Prop :=
  ∃ front q inner closing, t = front ++ q :: (inner ++ q :: closing) ∧ isQuote q = true ∧
    q ∉ inner ∧ '\n' ∉ inner ∧ Closing closing

/-- The text ends with a closing brace. -/
def EndsBraced (t : Text) : Prop := ∃ front closing, t = front ++ '}' :: closing ∧ Closing closing

section Endings

variable {a b front specifier t : Text}

/-- A text that ends with a literal does so behind another text. -/
theorem EndsQuoted.append_left (h : EndsQuoted t) (a : Text) : EndsQuoted (a ++ t) := by
  obtain ⟨front, q, inner, closing, rfl, hrest⟩ := h
  exact ⟨a ++ front, q, inner, closing, (List.append_assoc _ _ _).symm, hrest⟩

/-- A text that ends with a literal does so before what closes it. -/
theorem EndsQuoted.append_right (h : EndsQuoted t) (hb : Closing b) : EndsQuoted (t ++ b) := by
  obtain ⟨front, q, inner, closing, rfl, hq, hi, hn, hclosing⟩ := h
  exact ⟨front, q, inner, closing ++ b, by simp, hq, hi, hn, closing_append hclosing hb⟩

/-- A text that ends with a brace does so behind another text. -/
theorem EndsBraced.append_left (h : EndsBraced t) (a : Text) : EndsBraced (a ++ t) := by
  obtain ⟨front, closing, rfl, hclosing⟩ := h
  exact ⟨a ++ front, closing, (List.append_assoc _ _ _).symm, hclosing⟩

/-- A text that ends with a brace does so before what closes it. -/
theorem EndsBraced.append_right (h : EndsBraced t) (hb : Closing b) : EndsBraced (t ++ b) := by
  obtain ⟨front, closing, rfl, hclosing⟩ := h
  exact ⟨front, closing ++ b, by simp, closing_append hclosing hb⟩

/-- The last character of a kind cuts a text in one way only. -/
theorem eq_of_last {p : Char → Bool} {a' b' : Text} {c c' : Char}
    (h : a ++ c :: b = a' ++ c' :: b') (hc : p c = true) (hc' : p c' = true)
    (hb : ∀ d ∈ b, p d = false) (hb' : ∀ d ∈ b', p d = false) : a = a' ∧ c = c' ∧ b = b' := by
  have hshort : ∀ {x y u v : Text} {d e : Char}, x ++ d :: u = y ++ e :: v → p e = true →
      (∀ f ∈ u, p f = false) → ¬x.length < y.length := by
    intro x y u v d e hxy he hu hlt
    obtain ⟨more, rfl⟩ : ∃ more, y = x ++ d :: more := by
      rcases List.append_eq_append_iff.1 hxy with ⟨more, rfl, hm⟩ | ⟨more, rfl, _⟩
      · cases more with
        | nil => simp at hlt
        | cons f more => exact ⟨more, by rw [(List.cons.inj hm).1]⟩
      · simp only [List.length_append] at hlt
        omega
    have hmem : e ∈ u := by
      have hx : d :: u = d :: (more ++ e :: v) := by simpa using hxy
      rw [(List.cons.inj hx).2]
      simp
    have hfalse := hu e hmem
    rw [he] at hfalse
    cases hfalse
  have hle := hshort h hc' hb
  have hge := hshort h.symm hc hb'
  obtain ⟨ha, htail⟩ := List.append_inj h (by omega)
  obtain ⟨hcc, hbb⟩ := List.cons.inj htail
  exact ⟨ha, hcc, hbb⟩

/-- A specifier without quotes stands between the quotes of the literal with
which the text ends, and so on one line. -/
theorem LiteralBehind.oneLine (h : LiteralBehind front specifier t) (ht : EndsQuoted t)
    (hs : QuoteFree specifier) : '\n' ∉ specifier := by
  obtain ⟨q, closing, rfl, hq, hclosing⟩ := h
  obtain ⟨other, q', inner, closing', heq, hq', hi, hn, hclosing'⟩ := ht
  have hlast : (front ++ q :: specifier) ++ q :: closing = (other ++ q' :: inner) ++ q' :: closing' := by
    simpa using heq
  obtain ⟨hopen, rfl, _⟩ := eq_of_last (p := isQuote) hlast hq hq' hclosing.quoteFree
    hclosing'.quoteFree
  have hspecifier : ∀ d ∈ specifier, (d == q) = false := by
    intro d hd
    have := hs d hd
    cases hdq : d == q with
    | false => rfl
    | true =>
      rw [beq_iff_eq.1 hdq, hq] at this
      cases this
  have hinner : ∀ d ∈ inner, (d == q) = false := by
    intro d hd
    cases hdq : d == q with
    | false => rfl
    | true => exact absurd (beq_iff_eq.1 hdq ▸ hd) hi
  obtain ⟨_, _, rfl⟩ := eq_of_last (p := (· == q)) hopen (beq_self_eq_true q)
    (beq_self_eq_true q) hspecifier hinner
  exact hn

/-- A text that ends with a specifier does not end with a brace. -/
theorem LiteralBehind.not_endsBraced (h : LiteralBehind front specifier t) : ¬EndsBraced t := by
  obtain ⟨q, closing, rfl, hq, hclosing⟩ := h
  rintro ⟨other, closing', heq, hclosing'⟩
  have hlast : (front ++ q :: specifier) ++ q :: closing = other ++ '}' :: closing' := by
    simpa using heq
  have hopen : isClosing q = false := by
    cases hc : isClosing q with
    | false => rfl
    | true =>
      have := isQuote_of_isClosing hc
      rw [hq] at this
      cases this
  obtain ⟨_, rfl, _⟩ := eq_of_last (p := fun c => !isClosing c) hlast (by simp [hopen]) rfl
    (fun d hd => by simp [hclosing d hd]) (fun d hd => by simp [hclosing' d hd])
  cases hq

/-- The text of a statement whose specifier is its last literal. -/
structure SpecifierAt (t front : Text) (q : Char) (specifier closing : Text) : Prop where
  /-- The literal stands between what is before and behind it. -/
  text_eq : t = front ++ q :: (specifier ++ q :: closing)
  /-- Comments before it are closed. -/
  tame : Tame front
  /-- It stands between two of the same quote. -/
  quote : isQuote q = true
  /-- It stands on one line, and no quote is part of it. -/
  quotable : Quotable specifier
  /-- Only blanks and semicolons are behind it. -/
  last : Closing closing

/-- A specifier without quotes is the literal on one line at the end of its
statement. -/
theorem LiteralBehind.specifierAt (h : LiteralBehind front specifier t) (hf : Tame front)
    (ht : EndsQuoted t) (hs : QuoteFree specifier) :
    ∃ q closing, SpecifierAt t front q specifier closing := by
  have hn := h.oneLine ht hs
  obtain ⟨q, closing, rfl, hq, hclosing⟩ := h
  exact ⟨q, closing, rfl, hf, hq, ⟨hs, hn⟩, hclosing⟩

/-- Behind a statement that ends with a literal on one line nothing is open. -/
theorem LiteralBehind.after_eq_nil (h : LiteralBehind front specifier t) (hf : Tame front)
    (ht : EndsQuoted t) (hs : QuoteFree specifier) : Lexer.after [] t = [] := by
  have hn := h.oneLine ht hs
  obtain ⟨q, closing, rfl, hq, hclosing⟩ := h
  exact Lexer.after_literal hf hq (notMem_of_quoteFree hq hs) hn hclosing

end Endings

namespace Boundary

/-- What a matcher takes ends with a literal. -/
def TakesQuoted (m : Matcher) : Prop := ∀ t piece rest, m t = some (piece, rest) → EndsQuoted piece

section TakesQuoted

variable {first second m : Matcher} {start : Option Char → Bool}

/-- A literal ends with itself. -/
theorem quoted_takesQuoted : TakesQuoted quoted := by
  intro t piece rest h
  obtain ⟨q, inner, hq, hi, rfl, _⟩ := quoted_eq_some_iff.1 h
  have hquote : isQuote q = true := by simpa [isQuote] using hq
  exact ⟨[], q, inner, [], rfl, hquote, fun hm => (hi q hm).1 rfl, fun hm => (hi _ hm).2 rfl,
    fun c hc => absurd hc List.not_mem_nil⟩

/-- Two matchers in a row end with a literal when the second one does. -/
theorem andThen_takesQuoted (h : TakesQuoted second) : TakesQuoted (andThen first second) := by
  intro t piece rest hm
  obtain ⟨a, r, b, _, hb, rfl⟩ := andThen_eq_some_iff.1 hm
  exact (h _ _ _ hb).append_left a

/-- A choice ends with a literal when both its matchers do. -/
theorem orElse_takesQuoted (h₁ : TakesQuoted first) (h₂ : TakesQuoted second) :
    TakesQuoted (orElse first second) := by
  intro t piece rest hm
  rcases orElse_eq_some hm with h | h
  · exact h₁ _ _ _ h
  · exact h₂ _ _ _ h

/-- What ends a statement closes it. -/
theorem terminator_closing {t piece rest : Text} (h : terminator t = some (piece, rest)) :
    Closing piece := by
  obtain ⟨a, r, b, ha, hb, rfl⟩ := andThen_eq_some_iff.1 h
  simp only [blanks, Option.some.injEq, Prod.mk.injEq] at ha
  have hblank : Closing a := by
    rw [← ha.1]
    exact closing_of_blank (List.all_eq_true.1 List.all_takeWhile)
  refine closing_append hblank ?_
  rcases orElse_eq_some hb with hs | hn
  · rw [(literal_eq_some_iff.1 hs).1]
    decide
  · simp only [nothing, Option.some.injEq, Prod.mk.injEq] at hn
    rw [← hn.1]
    decide

/-- A source ends with its specifier. -/
theorem source_takesQuoted : TakesQuoted source := andThen_takesQuoted quoted_takesQuoted

/-- A named star export ends with its specifier. -/
theorem nameFrom_takesQuoted : TakesQuoted nameFrom := by
  intro t piece rest h
  obtain ⟨name, r, tail, _, hb, rfl⟩ := nameFrom_eq_some_iff.1 h
  have htail : EndsQuoted tail := by
    rcases orElse_eq_some hb with hs | hs
    · exact andThen_takesQuoted source_takesQuoted _ _ _ hs
    · split at hs
      · exact andThen_takesQuoted quoted_takesQuoted _ _ _ hs
      · cases hs
  exact htail.append_left name

/-- A star export ends with its specifier. -/
theorem star_takesQuoted : TakesQuoted star :=
  andThen_takesQuoted (orElse_takesQuoted (andThen_takesQuoted nameFrom_takesQuoted)
    (andThen_takesQuoted source_takesQuoted))

/-- An import ends with its specifier. -/
theorem importEnd_takesQuoted : TakesQuoted importEnd := by
  have hclosed : ∀ {m : Matcher}, TakesQuoted m → TakesQuoted (m.andThen terminator) := by
    intro m hm t piece rest h
    obtain ⟨a, r, b, ha, hb, rfl⟩ := andThen_eq_some_iff.1 h
    exact (hm _ _ _ ha).append_right (terminator_closing hb)
  intro t piece rest h
  rcases orElse_eq_some h with hb | hu
  · exact hclosed (andThen_takesQuoted quoted_takesQuoted) _ _ _ hb
  · obtain ⟨before, behind, core, _, hm, rfl⟩ := exists_of_upTo_eq_some hu
    exact (hclosed source_takesQuoted _ _ _ hm).append_left before

/-- An export list ends with its specifier or its closing brace. -/
theorem endsQuoted_or_endsBraced {t piece rest : Text}
    (h : exportListEnd t = some (piece, rest)) : EndsQuoted piece ∨ EndsBraced piece := by
  obtain ⟨before, behind, core, _, hm, rfl⟩ := exists_of_upTo_eq_some h
  obtain ⟨a, r, b, ha, hb, rfl⟩ := andThen_eq_some_iff.1 hm
  have hclosing := terminator_closing hb
  rcases orElse_eq_some ha with hs | hc
  · exact .inl (((star_takesQuoted _ _ _ hs).append_right hclosing).append_left before)
  · obtain ⟨brace, r', tail, hbrace, htail, rfl⟩ := andThen_eq_some_iff.1 hc
    rcases orElse_eq_some htail with hsource | hnone
    · have hq := andThen_takesQuoted source_takesQuoted _ _ _ hsource
      exact .inl (((hq.append_left brace).append_right hclosing).append_left before)
    · simp only [nothing, Option.some.injEq, Prod.mk.injEq] at hnone
      obtain ⟨rfl, _⟩ := hnone
      obtain ⟨rfl, _⟩ := literal_eq_some_iff.1 hbrace
      have hend : EndsBraced (['}'] ++ []) := ⟨[], [], rfl, by decide⟩
      exact .inr ((hend.append_right hclosing).append_left before)

end TakesQuoted

end Boundary

section Readers

variable {t s : Text}

/-- The specifier that an import names stands in its last literal, behind the
clause. -/
theorem literalBehind_of_splitImport {clause : Text} (h : splitImport? t = some (clause, s)) :
    ∃ gap word, Calm gap ∧ Calm word ∧ LiteralBehind (gap ++ (clause ++ word)) s t := by
  unfold splitImport? at h
  split at h
  · cases h
  · next gap rest hg =>
    have hcalm : Calm gap := gap_takesCalm _ _ _ hg
    have hexact := gap_exact _ _ _ hg
    split at h
    · next found hf =>
      obtain rfl := Option.some.inj h
      obtain ⟨word, hword, hliteral⟩ := literalBehind_of_clauseFrom hf
      refine ⟨gap, word, hcalm, hword, ?_⟩
      rw [hexact]
      exact hliteral.append_left gap
    · split at h
      · obtain ⟨s', hs, heq⟩ := Option.map_eq_some_iff.1 h
        simp only [Prod.mk.injEq] at heq
        obtain ⟨rfl, rfl⟩ := heq
        obtain ⟨word, hword, hliteral⟩ := literalBehind_of_fromSpecifier hs
        have hparts := List.take_append_drop (gap.length - 1) gap
        refine ⟨gap.take (gap.length - 1), word, ?_, hword, ?_⟩
        · rw [← hparts] at hcalm
          exact (calm_append.1 hcalm).1
        · rw [← List.append_assoc, hparts, hexact]
          exact hliteral.append_left gap
      · cases h

/-- A trimmed text that ends with a specifier, with its blanks around it. -/
theorem LiteralBehind.of_trim {front : Text} (h : LiteralBehind front s (Text.trim t)) :
    ∃ blank, Calm blank ∧ LiteralBehind (blank ++ front) s t := by
  obtain ⟨before, behind, ht, hbefore, hbehind⟩ := Text.exists_trim t
  refine ⟨before, calm_of_isBlank hbefore, ?_⟩
  rw [ht]
  exact (h.append_right (closing_of_blank hbehind)).append_left before

/-- An import is what can be read up to its specifier, and the specifier. -/
theorem Import.literalBehind {line : Nat} {i : Import} (h : Import.parse line t = .ok i) :
    ∃ front, Tame front ∧ LiteralBehind front i.specifier t := by
  unfold Import.parse at h
  dsimp only at h
  split at h
  · cases h
  · next afterKeyword hd =>
    have htrim := Text.dropPrefix?_eq_some_iff.1 hd
    split at h
    · next specifier hb =>
      cases h
      obtain ⟨blank, hblank, hx⟩ := Text.exists_blank_append afterKeyword
      have hliteral : LiteralBehind ("import".toList ++ (blank ++ [])) specifier (Text.trim t) := by
        rw [htrim, hx]
        exact ((literalBehind_of_finalSpecifier hb).append_left blank).append_left _
      obtain ⟨indent, hindent, hwhole⟩ := hliteral.of_trim
      have hcalm : Calm ("import".toList ++ (blank ++ [])) :=
        calm_append.2 ⟨by decide, calm_append.2 ⟨calm_of_isBlank hblank, by decide⟩⟩
      exact ⟨_, (calm_append.2 ⟨hindent, hcalm⟩).tame, hwhole⟩
    · split at h
      · cases h
      · next clause specifier hs =>
        obtain ⟨c, hc, rfl⟩ := map_eq_ok h
        obtain ⟨gap, word, hgap, hword, hsplit⟩ := literalBehind_of_splitImport hs
        have hliteral := hsplit.append_left "import".toList
        rw [← htrim] at hliteral
        obtain ⟨indent, hindent, hwhole⟩ := hliteral.of_trim
        refine ⟨_, ⟨indent ++ ("import".toList ++ gap), clause, word, by simp, ?_,
          Clause.calm_of_parse hc, hword⟩, hwhole⟩
        exact calm_append.2 ⟨hindent, calm_append.2 ⟨by decide, hgap⟩⟩

/-- The name of a star export is read from calm text. -/
theorem calm_of_starName {name rest : Text} (h : starName? t = some (name, rest)) :
    ∃ piece, t = piece ++ rest ∧ Calm piece := by
  have hexact : Exact ((blanks.andThen (literal "as".toList)).andThen gap) :=
    andThen_exact (andThen_exact blanks_exact (literal_exact _)) gap_exact
  have hcalm : TakesCalm ((blanks.andThen (literal "as".toList)).andThen gap) :=
    andThen_takesCalm (andThen_takesCalm blanks_takesCalm (literal_takesCalm (by decide)))
      gap_takesCalm
  unfold starName? at h
  split at h
  · cases h
  · next word behind hw =>
    refine ⟨word ++ name, ?_, calm_append.2 ⟨hcalm _ _ _ hw, identifier_takesCalm _ _ _ h⟩⟩
    rw [hexact _ _ _ hw, identifier_exact _ _ _ h, List.append_assoc]

/-- The specifier that a star export names stands in its last literal, behind
calm text. -/
theorem Export.literalBehind_of_parseStar {line : Nat} {text : Text} {e : Export}
    (h : Export.parseStar? line text t = some e) :
    ∃ s front, e.specifier = some s ∧ Calm front ∧ LiteralBehind front s t := by
  unfold Export.parseStar? at h
  split at h
  · next name rest hn =>
    obtain ⟨piece, rfl, hpiece⟩ := calm_of_starName hn
    split at h
    · cases h
    · obtain ⟨specifier, hs, rfl⟩ := Option.map_eq_some_iff.1 h
      obtain ⟨word, hword, hliteral⟩ := literalBehind_of_fromSpecifier hs
      exact ⟨specifier, _, rfl, calm_append.2 ⟨hpiece, hword⟩, hliteral.append_left piece⟩
  · obtain ⟨specifier, hs, rfl⟩ := Option.map_eq_some_iff.1 h
    obtain ⟨word, hword, hliteral⟩ := literalBehind_of_fromSpecifier hs
    exact ⟨specifier, word, rfl, hword, hliteral⟩

/-- An export list is its names and a specifier, or its names alone. -/
theorem Export.tame_of_parseBraced {line : Nat} {text statement : Text} {e : Export}
    (h : Export.parseBraced line text statement t = .ok e) :
    (∃ s front, e.specifier = some s ∧ Tame front ∧ LiteralBehind front s t) ∨
      e.specifier = none ∧ Tame t := by
  unfold Export.parseBraced at h
  split at h
  · next list specifier hb =>
    obtain ⟨names, hn, rfl⟩ := map_eq_ok h
    obtain ⟨word, hword, hliteral⟩ := literalBehind_of_braced hb
    refine .inl ⟨specifier, _, rfl, ⟨[], list, '}' :: word, rfl, by decide,
      calm_of_parseBindings hn, calm_cons.2 ⟨by decide, hword⟩⟩, hliteral⟩
  · split at h
    · next list found hb =>
      obtain ⟨names, hn, rfl⟩ := map_eq_ok h
      obtain ⟨behind, rfl, hend⟩ := exists_of_braced hb
      have hclosing : Closing behind := by
        refine closing_of_atStatementEnd ?_
        by_contra hc
        rw [if_neg hc] at hend
        cases hend
      exact .inr ⟨rfl, [], list, '}' :: behind, rfl, by decide, calm_of_parseBindings hn,
        calm_cons.2 ⟨by decide, hclosing.calm⟩⟩
    · cases h

/-- An export list or a star export is what can be read up to its specifier and
the specifier, or can be read as a whole. -/
theorem Export.tame_of_parseList {line : Nat} {e : Export} (h : Export.parseList line t = .ok e) :
    (∃ s front, e.specifier = some s ∧ Tame front ∧ LiteralBehind front s t) ∨
      e.specifier = none ∧ Tame t := by
  have hfront : ∀ {c r}, (Text.dropPrefix? "export".toList (Text.trim t)).map Text.trimStart =
      some (c :: r) → ∃ words, Calm words ∧ Text.trim t = words ++ c :: r := by
    intro c r hd
    obtain ⟨a, ha, hc⟩ := Option.map_eq_some_iff.1 hd
    obtain ⟨gap, hgap, hx⟩ := Text.exists_blank_append a
    refine ⟨"export".toList ++ gap, calm_append.2 ⟨by decide, calm_of_isBlank hgap⟩, ?_⟩
    rw [Text.dropPrefix?_eq_some_iff.1 ha, List.append_assoc, ← hc, ← hx]
  have hliteral : ∀ {words r s front : Text} {c : Char}, Text.trim t = words ++ c :: r →
      Calm words → isCalm c = true → Tame front → LiteralBehind front s r →
      ∃ front, Tame front ∧ LiteralBehind front s t := by
    intro words r s front c ht hwords hc htame hbehind
    have hkept : LiteralBehind (words ++ c :: front) s (words ++ c :: r) :=
      (hbehind.append_left [c]).append_left words
    rw [← ht] at hkept
    obtain ⟨indent, hindent, hwhole⟩ := hkept.of_trim
    refine ⟨_, ?_, hwhole⟩
    exact ((htame.cons hc).append_left hwords).append_left hindent
  unfold Export.parseList at h
  dsimp only at h
  split at h
  · next r hd =>
    obtain ⟨words, hwords, ht⟩ := hfront hd
    split at h
    · next found hs =>
      cases h
      obtain ⟨s, front, hspecifier, hcalm, hbehind⟩ := Export.literalBehind_of_parseStar hs
      obtain ⟨whole, htame, hwhole⟩ := hliteral ht hwords rfl hcalm.tame hbehind
      exact .inl ⟨s, whole, hspecifier, htame, hwhole⟩
    · cases h
  · next r hd =>
    obtain ⟨words, hwords, ht⟩ := hfront hd
    rcases Export.tame_of_parseBraced h with ⟨s, front, hspecifier, htame, hbehind⟩ | ⟨hnone, htame⟩
    · obtain ⟨whole, htame, hwhole⟩ := hliteral ht hwords rfl htame hbehind
      exact .inl ⟨s, whole, hspecifier, htame, hwhole⟩
    · obtain ⟨before, behind, hx, hbefore, hbehind⟩ := Text.exists_trim t
      refine .inr ⟨hnone, ?_⟩
      rw [hx, ht]
      have hlist := (htame.append_left (x := ['{']) (by decide)).append_left hwords
      simpa using (hlist.append_right (calm_of_isBlank hbehind)).append_left
        (calm_of_isBlank hbefore)
  · cases h

end Readers

section Places

variable {line : Nat} {t : Text}

/-- An import is read with every specifier that stands in the place of its own. -/
theorem Import.exists_specifierAt {i : Import} (h : Import.parse line t = .ok i)
    (ht : EndsQuoted t) (hs : QuoteFree i.specifier) :
    ∃ front q closing, SpecifierAt t front q i.specifier closing ∧
      ∀ line' s', Quotable s' → Import.parse line' (front ++ q :: (s' ++ q :: closing)) =
        .ok { i with
          line := line', text := front ++ q :: (s' ++ q :: closing), specifier := s' } := by
  obtain ⟨front, htame, hliteral⟩ := Import.literalBehind h
  obtain ⟨q, closing, hat⟩ := hliteral.specifierAt htame ht hs
  rw [hat.text_eq] at h
  obtain ⟨lead, hlead, hread⟩ := Import.parse_literal hat.quote hat.quotable hat.last.quoteFree h
  obtain rfl := List.self_eq_append_left.1 hlead
  exact ⟨front, q, closing, hat, hread⟩

/-- A re-export is read with every specifier that stands in the place of its own. -/
theorem Export.exists_specifierAt {e : Export} {specifier : Text}
    (h : Export.parseList line t = .ok e) (he : e.specifier = some specifier)
    (ht : EndsQuoted t) (hs : QuoteFree specifier) :
    ∃ front q closing, SpecifierAt t front q specifier closing ∧
      ∀ line' s', Quotable s' → Export.parseList line' (front ++ q :: (s' ++ q :: closing)) =
        .ok { e with
          line := line', text := front ++ q :: (s' ++ q :: closing), specifier := some s' } := by
  rcases Export.tame_of_parseList h with ⟨s, front, hspecifier, htame, hliteral⟩ | ⟨hnone, _⟩
  · obtain rfl := Option.some.inj (hspecifier.symm.trans he)
    obtain ⟨q, closing, hat⟩ := hliteral.specifierAt htame ht hs
    rw [hat.text_eq] at h
    obtain ⟨lead, hlead, hread⟩ := Export.parseList_literal hat.quote hat.quotable
      hat.last.quoteFree h (by rw [he]; rfl)
    obtain rfl := List.self_eq_append_left.1 (Option.some.inj (he.symm.trans hlead))
    exact ⟨front, q, closing, hat, hread⟩
  · rw [hnone] at he
    cases he

end Places

section Grounding

variable {line : Nat} {t : Text}

/-- Behind an import nothing is open, unless its specifier holds a quote. -/
theorem Import.after_eq_nil {i : Import} (h : Import.parse line t = .ok i)
    (hcut : Boundary.importEnd t = some (t, [])) (hs : QuoteFree i.specifier) :
    Lexer.after [] t = [] := by
  obtain ⟨front, htame, hliteral⟩ := Import.literalBehind h
  exact hliteral.after_eq_nil htame (Boundary.importEnd_takesQuoted _ _ _ hcut) hs

/-- A re-export as a whole ends with its specifier, not with a brace. -/
theorem Export.endsQuoted_of_parseList {e : Export} (h : Export.parseList line t = .ok e)
    (he : e.specifier.isSome) (hcut : Boundary.exportListEnd t = some (t, [])) :
    EndsQuoted t := by
  rcases Export.tame_of_parseList h with ⟨s, front, _, _, hliteral⟩ | ⟨hnone, _⟩
  · exact (Boundary.endsQuoted_or_endsBraced hcut).resolve_right hliteral.not_endsBraced
  · rw [hnone] at he
    cases he

/-- Behind an export list or a star export nothing is open, unless its specifier
holds a quote. -/
theorem Export.after_eq_nil {e : Export} (h : Export.parseList line t = .ok e)
    (hcut : Boundary.exportListEnd t = some (t, []))
    (hs : ∀ s, e.specifier = some s → QuoteFree s) : Lexer.after [] t = [] := by
  rcases Export.tame_of_parseList h with ⟨s, front, hspecifier, htame, hliteral⟩ | ⟨_, htame⟩
  · have hquoted := Export.endsQuoted_of_parseList h (by rw [hspecifier]; rfl) hcut
    exact hliteral.after_eq_nil htame hquoted (hs s hspecifier)
  · rw [Lexer.after, Lexer.run_eq_walk]
    exact (htame.walk_resting none).1

end Grounding

end ModuleScripts
