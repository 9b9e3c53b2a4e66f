import ModuleScripts.Proofs.LexicalContext

/-!
# Reading up to the last literal

A specifier is read up to the end of the last literal of its statement, and
everything else is read from the text before that literal. So whatever stands
between its quotes, the same is found, and a specifier that ends with it.
-/

namespace ModuleScripts

open Matcher

section Specifiers

/-- What closes a statement closes it in two parts. -/
theorem closing_append {a b : Text} (ha : Closing a) (hb : Closing b) : Closing (a ++ b) := by
  intro c hc
  rcases List.mem_append.1 hc with hc | hc
  · exact ha c hc
  · exact hb c hc

/-- Blanks close a statement. -/
theorem closing_of_blank {b : Text} (h : ∀ c ∈ b, isBlank c = true) : Closing b :=
  fun c hc => by simp [isClosing, h c hc]

/-- What a statement may end with closes it. -/
theorem closing_of_atStatementEnd {t : Text} (h : atStatementEnd t = true) : Closing t := by
  obtain ⟨blank, hb, ht⟩ := Text.exists_blank_append t
  have hblank : ∀ c ∈ blank, isClosing c = true := fun c hc => by simp [isClosing, hb c hc]
  unfold atStatementEnd at h
  intro c hc
  rw [ht] at hc
  rcases List.mem_append.1 hc with hc | hc
  · exact hblank c hc
  · split at h
    · next hn => rw [hn] at hc; cases hc
    · next d hd =>
      rw [hd, List.mem_singleton] at hc
      subst hc
      simp [isClosing, of_decide_eq_true h]
    · cases h

/-- Without its closing quote there is no specifier. -/
theorem specifierBefore_eq_none {quote : Char} {t : Text} (h : quote ∉ t) :
    specifierBefore quote t = none := by
  induction t with
  | nil => rfl
  | cons c r ih =>
    rw [List.mem_cons, not_or] at h
    rw [specifierBefore, if_neg fun hc => h.1 hc.1.symm, ih h.2, Option.map_none]

/-- The specifier up to the only closing quote. -/
theorem specifierBefore_literal {quote : Char} {s b : Text} (hs : quote ∉ s) (hb : quote ∉ b) :
    specifierBefore quote (s ++ quote :: b) = if atStatementEnd b then some s else none := by
  induction s with
  | nil =>
    rw [List.nil_append, specifierBefore, specifierBefore_eq_none hb]
    simp
  | cons c s ih =>
    rw [List.mem_cons, not_or] at hs
    rw [List.cons_append, specifierBefore, if_neg fun hc => hs.1 hc.1.symm, ih hs.2]
    split <;> rfl

/-- A quote counts as one. -/
theorem quotes_cons_of_isQuote {q : Char} (hq : isQuote q = true) (t : Text) :
    Text.quotes (q :: t) = Text.quotes t + 1 := by
  simp [Text.quotes, hq]

/-- The text ends with a specifier between quotes, and `front` is before it. -/
def LiteralBehind (front specifier t : Text) : Prop :=
  ∃ q closing, t = front ++ q :: (specifier ++ q :: closing) ∧ isQuote q = true ∧ Closing closing

section LiteralBehind

variable {b front specifier t : Text}

/-- More text in front stands before the literal. -/
theorem LiteralBehind.append_left (h : LiteralBehind front specifier t) (a : Text) :
    LiteralBehind (a ++ front) specifier (a ++ t) := by
  obtain ⟨q, closing, rfl, hq, hclosing⟩ := h
  exact ⟨q, closing, (List.append_assoc _ _ _).symm, hq, hclosing⟩

/-- What closes the statement may stand behind the literal. -/
theorem LiteralBehind.append_right (h : LiteralBehind front specifier t) (hb : Closing b) :
    LiteralBehind front specifier (t ++ b) := by
  obtain ⟨q, closing, rfl, hq, hclosing⟩ := h
  exact ⟨q, closing ++ b, by simp, hq, closing_append hclosing hb⟩

/-- A literal has two quotes. -/
theorem LiteralBehind.two_le_quotes (h : LiteralBehind front specifier t) :
    2 ≤ Text.quotes t := by
  obtain ⟨q, closing, rfl, hq, _⟩ := h
  simp only [Text.quotes, List.countP_append, List.countP_cons, hq, if_true]
  omega

end LiteralBehind

/-- A specifier that is found ends at its quote, where the statement ends. -/
theorem exists_of_specifierBefore {quote : Char} {t s : Text}
    (h : specifierBefore quote t = some s) :
    ∃ behind, t = s ++ quote :: behind ∧ atStatementEnd behind = true := by
  induction t generalizing s with
  | nil => cases h
  | cons c r ih =>
    unfold specifierBefore at h
    split at h
    · next hc =>
      cases h
      exact ⟨r, by rw [hc.1, List.nil_append], hc.2⟩
    · obtain ⟨later, hl, rfl⟩ := Option.map_eq_some_iff.1 h
      obtain ⟨behind, rfl, hb⟩ := ih hl
      exact ⟨behind, rfl, hb⟩

/-- The final specifier of a text is the literal that starts it. -/
theorem literalBehind_of_finalSpecifier {t s : Text} (h : finalSpecifier? t = some s) :
    LiteralBehind [] s t := by
  cases t with
  | nil => cases h
  | cons q r =>
    simp only [finalSpecifier?] at h
    split at h
    · next hq =>
      obtain ⟨behind, rfl, hb⟩ := exists_of_specifierBefore h
      exact ⟨q, behind, rfl, by simpa [isQuote] using hq, closing_of_atStatementEnd hb⟩
    · cases h

/-- The word `from` is cut off without loss. -/
theorem fromWord_exact : Exact fromWord :=
  andThen_exact (andThen_exact blanks_exact (literal_exact _)) blanks_exact

/-- The word `from` ends before a quote. -/
theorem fromWord_barrier : Barrier fromWord :=
  andThen_barrier (andThen_exact blanks_exact (literal_exact _))
    (andThen_barrier blanks_exact blanks_barrier (literal_barrier (by decide))) blanks_barrier

/-- The word `from` is calm. -/
theorem fromWord_takesCalm : TakesCalm fromWord :=
  andThen_takesCalm (andThen_takesCalm blanks_takesCalm (literal_takesCalm (by decide)))
    blanks_takesCalm

/-- A specifier behind `from` is the literal with which the text ends. -/
theorem literalBehind_of_fromSpecifier {t s : Text} (h : fromSpecifier? t = some s) :
    ∃ word, Calm word ∧ LiteralBehind word s t := by
  unfold fromSpecifier? at h
  split at h
  · cases h
  · next word rest hw =>
    have hliteral := (literalBehind_of_finalSpecifier h).append_left word
    rw [List.append_nil] at hliteral
    refine ⟨word, fromWord_takesCalm _ _ _ hw, ?_⟩
    rw [fromWord_exact _ _ _ hw]
    exact hliteral

/-- A clause ends before the word `from` and the literal behind it. -/
theorem literalBehind_of_clauseFrom {t s clause : Text} (h : clauseFrom? t = some (clause, s)) :
    ∃ word, Calm word ∧ LiteralBehind (clause ++ word) s t := by
  induction t generalizing clause with
  | nil => cases h
  | cons c r ih =>
    unfold clauseFrom? at h
    split at h
    · next found hf =>
      simp only [Option.some.injEq, Prod.mk.injEq] at h
      obtain ⟨rfl, rfl⟩ := h
      obtain ⟨word, hcalm, hliteral⟩ := literalBehind_of_fromSpecifier hf
      exact ⟨word, hcalm, hliteral.append_left [c]⟩
    · obtain ⟨⟨later, s'⟩, hl, heq⟩ := Option.map_eq_some_iff.1 h
      simp only [Prod.mk.injEq] at heq
      obtain ⟨rfl, rfl⟩ := heq
      obtain ⟨word, hcalm, hliteral⟩ := ih hl
      exact ⟨word, hcalm, hliteral.append_left [c]⟩

/-- A list in braces goes up to a brace behind which its tail succeeds. -/
theorem exists_of_braced {α : Type} {tail : Text → Option α} {t list : Text} {found : α}
    (h : braced? tail t = some (list, found)) :
    ∃ behind, t = list ++ '}' :: behind ∧ tail behind = some found := by
  induction t generalizing list with
  | nil => cases h
  | cons c r ih =>
    unfold braced? at h
    split at h
    · next x hx =>
      simp only [Option.some.injEq, Prod.mk.injEq] at h
      obtain ⟨rfl, rfl⟩ := h
      split at hx
      · next hc => exact ⟨r, by rw [hc, List.nil_append], hx⟩
      · cases hx
    · obtain ⟨⟨later, x⟩, hl, heq⟩ := Option.map_eq_some_iff.1 h
      simp only [Prod.mk.injEq] at heq
      obtain ⟨rfl, rfl⟩ := heq
      obtain ⟨behind, rfl, htail⟩ := ih hl
      exact ⟨behind, rfl, htail⟩

/-- A braced list ends before its brace, the word `from` and the literal. -/
theorem literalBehind_of_braced {t s list : Text}
    (h : braced? fromSpecifier? t = some (list, s)) :
    ∃ word, Calm word ∧ LiteralBehind (list ++ '}' :: word) s t := by
  obtain ⟨behind, rfl, hf⟩ := exists_of_braced h
  obtain ⟨word, hcalm, hliteral⟩ := literalBehind_of_fromSpecifier hf
  exact ⟨word, hcalm, (hliteral.append_left ['}']).append_left list⟩

end Specifiers

section Literal

variable {a b : Text} {q : Char}

/-- A text free of quotes does not hold this quote. -/
theorem notMem_of_quoteFree {t : Text} (hq : isQuote q = true) (h : QuoteFree t) : q ∉ t := by
  intro hm
  have := h q hm
  rw [hq] at this
  cases this

/-- Behind the first quote of the literal there is only one more. -/
theorem quotes_behind_quote {s : Text} (hq : isQuote q = true) (hs : Quotable s)
    (hb : QuoteFree b) : Text.quotes (s ++ q :: b) = 1 := by
  rw [Text.quotes_append, hs.quoteFree.quotes_eq, quotes_cons_of_isQuote hq, hb.quotes_eq]

/-- A specifier starts with a quote. -/
theorem finalSpecifier_cons_eq_none {c : Char} (hc : isQuote c = false) (t : Text) :
    finalSpecifier? (c :: t) = none := by
  have hn : ¬(c = '\'' ∨ c = '"') := ne_of_isQuote_false hc
  rw [finalSpecifier?, if_neg hn]

/-- No statement ends before a quote. -/
theorem atStatementEnd_append_quote (hq : isQuote q = true) (front r : Text) :
    atStatementEnd (front ++ q :: r) = false := by
  cases hend : atStatementEnd (front ++ q :: r) with
  | false => rfl
  | true =>
    have hnone := (closing_of_atStatementEnd hend).quoteFree q (by simp)
    rw [hq] at hnone
    cases hnone

/-- A quote before the literal is closed by the last quote of the text, if by any. -/
theorem specifierBefore_append_literal {quote : Char} (hquote : isQuote quote = true)
    (hq : isQuote q = true) (hb : QuoteFree b) (a : Text) {s : Text} (hs : Quotable s) :
    specifierBefore quote (a ++ q :: (s ++ q :: b)) =
      if quote = q ∧ atStatementEnd b = true then some (a ++ q :: s) else none := by
  induction a with
  | nil =>
    have hopen : ¬(q = quote ∧ atStatementEnd (s ++ q :: b) = true) := by
      rw [atStatementEnd_append_quote hq]
      exact fun h => absurd h.2 (by decide)
    have hs' := notMem_of_quoteFree hquote hs.quoteFree
    have hb' := notMem_of_quoteFree hquote hb
    rw [List.nil_append, specifierBefore, if_neg hopen]
    by_cases hsame : quote = q
    · subst hsame
      rw [specifierBefore_literal hs' hb']
      cases atStatementEnd b <;> simp
    · have hnone : quote ∉ s ++ q :: b := by simp [hs', hsame, hb']
      rw [specifierBefore_eq_none hnone, if_neg fun h => hsame h.1]
      rfl
  | cons c a ih =>
    have hopen : ¬(c = quote ∧ atStatementEnd (a ++ q :: (s ++ q :: b)) = true) := by
      rw [atStatementEnd_append_quote hq]
      exact fun h => absurd h.2 (by decide)
    rw [List.cons_append, specifierBefore, if_neg hopen, ih]
    split <;> rfl

/-- A specifier at the end of a statement goes up to the end of its last literal. -/
theorem finalSpecifier_literal (hq : isQuote q = true) (hb : QuoteFree b) (a : Text) :
    ∃ lead : Option Text, ∀ s, Quotable s →
      finalSpecifier? (a ++ q :: (s ++ q :: b)) = lead.map (· ++ s) := by
  cases a with
  | nil =>
    refine ⟨if atStatementEnd b then some [] else none, fun s hs => ?_⟩
    have hquote : q = '\'' ∨ q = '"' := by simpa [isQuote] using hq
    have hs' := notMem_of_quoteFree hq hs.quoteFree
    have hb' := notMem_of_quoteFree hq hb
    rw [List.nil_append, finalSpecifier?, if_pos hquote, specifierBefore_literal hs' hb']
    split <;> rfl
  | cons c a =>
    cases hc : isQuote c with
    | true =>
      refine ⟨if c = q ∧ atStatementEnd b = true then some (a ++ [q]) else none, fun s hs => ?_⟩
      have hquote : c = '\'' ∨ c = '"' := by simpa [isQuote] using hc
      rw [List.cons_append, finalSpecifier?, if_pos hquote,
        specifierBefore_append_literal hc hq hb a hs]
      split <;> simp
    | false => exact ⟨none, fun s _ => finalSpecifier_cons_eq_none hc _⟩

/-- Whether `from` and blanks lead up to a specifier. -/
theorem fromSpecifier_literal (hq : isQuote q = true) (hb : QuoteFree b) (a : Text) :
    ∃ lead : Option Text, ∀ s, Quotable s →
      fromSpecifier? (a ++ q :: (s ++ q :: b)) = lead.map (· ++ s) := by
  obtain ⟨found, hf⟩ := fromWord_barrier.exists_found hq a
  cases found with
  | none =>
    refine ⟨none, fun s _ => ?_⟩
    rw [fromSpecifier?, hf]
    rfl
  | some x =>
    obtain ⟨lead, hread⟩ := finalSpecifier_literal hq hb x.2
    refine ⟨lead, fun s hs => ?_⟩
    rw [fromSpecifier?, hf]
    exact hread s hs

/-- The shortest clause is found in the text before the literal. -/
theorem clauseFrom_literal (hq : isQuote q = true) (hb : QuoteFree b) (a : Text) :
    ∃ found : Option (Text × Text), ∀ s, Quotable s →
      clauseFrom? (a ++ q :: (s ++ q :: b)) = found.map fun x => (x.1, x.2 ++ s) := by
  induction a with
  | nil =>
    refine ⟨none, fun s hs => ?_⟩
    have hone := quotes_behind_quote hq hs hb
    have hfrom : fromSpecifier? (s ++ q :: b) = none := by
      by_contra hn
      obtain ⟨x, hx⟩ := Option.ne_none_iff_exists'.1 hn
      obtain ⟨word, _, hliteral⟩ := literalBehind_of_fromSpecifier hx
      have := hliteral.two_le_quotes
      omega
    have hclause : clauseFrom? (s ++ q :: b) = none := by
      by_contra hn
      obtain ⟨⟨clause, x⟩, hx⟩ := Option.ne_none_iff_exists'.1 hn
      obtain ⟨word, _, hliteral⟩ := literalBehind_of_clauseFrom hx
      have := hliteral.two_le_quotes
      omega
    rw [List.nil_append, clauseFrom?, hfrom, hclause]
    rfl
  | cons c a ih =>
    obtain ⟨here, hhere⟩ := fromSpecifier_literal hq hb a
    obtain ⟨later, hlater⟩ := ih
    refine ⟨(here.map ([c], ·)).or (later.map fun x => (c :: x.1, x.2)), fun s hs => ?_⟩
    rw [List.cons_append, clauseFrom?, hhere s hs, hlater s hs]
    cases here <;> cases later <;> rfl

/-- In a bare import the specifier is read off the literal, whatever it
says. -/
theorem bareSpecifier_literal (hq : isQuote q = true) (hb : QuoteFree b) (a : Text) :
    ∃ lead : Option Text, ∀ s, Quotable s →
      bareSpecifier? (a ++ q :: (s ++ q :: b)) = lead.map (· ++ s) := by
  obtain ⟨lead, hread⟩ := finalSpecifier_literal hq hb (Text.trimStart a)
  refine ⟨lead, fun s hs => ?_⟩
  rw [bareSpecifier?, Text.trimStart_barrier hq]
  exact hread s hs

/-- The clause of an import is found in the text before the literal. -/
theorem splitImport_literal (hq : isQuote q = true) (hb : QuoteFree b) (a : Text) :
    ∃ found : Option (Text × Text), ∀ s, Quotable s →
      splitImport? (a ++ q :: (s ++ q :: b)) = found.map fun x => (x.1, x.2 ++ s) := by
  obtain ⟨found, hf⟩ := gap_barrier.exists_found hq a
  cases found with
  | none =>
    refine ⟨none, fun s _ => ?_⟩
    rw [splitImport?, hf]
    rfl
  | some x =>
    obtain ⟨gap, rest⟩ := x
    obtain ⟨clause, hclause⟩ := clauseFrom_literal hq hb rest
    obtain ⟨here, hhere⟩ := fromSpecifier_literal hq hb rest
    -- the last blank of a gap can be the clause
    let blank := if 2 ≤ gap.length then here.map (gap.drop (gap.length - 1), ·) else none
    refine ⟨clause.or blank, fun s hs => ?_⟩
    rw [splitImport?, hf]
    simp only [Option.map_some, hclause s hs, hhere s hs, blank]
    cases clause with
    | some found => rfl
    | none =>
      simp only [Option.map_none, Option.none_or]
      split
      · cases here <;> rfl
      · rfl

end Literal

end ModuleScripts
