import ModuleScripts.Proofs.Barriers

/-!
# Statement ends under another literal

A statement with a single literal ends behind it. With another text between the
quotes it ends at the same place, since nothing before the literal ends it and
nothing behind the literal can be the end of a statement on its own.
-/

namespace ModuleScripts.Matcher

/-- Somewhere in the text two of the same quote stand on one line. -/
def HoldsLiteral (t : Text) : Prop :=
  ∃ before q s behind, t = before ++ q :: (s ++ q :: behind) ∧ isQuote q = true ∧ '\n' ∉ s

/-- A piece has no quote, or a literal with both its quotes. -/
def Paired (m : Matcher) : Prop :=
  ∀ t piece rest, m t = some (piece, rest) → QuoteFree piece ∨ HoldsLiteral piece

section Paired

variable {first second m : Matcher}

/-- A matcher that takes no quotes is paired. -/
theorem paired_of_quoteFree
    (h : ∀ t piece rest, m t = some (piece, rest) → QuoteFree piece) : Paired m :=
  fun t piece rest hm => .inl (h t piece rest hm)

/-- A word without quotes is paired. -/
theorem literal_paired {word : Text} (hw : QuoteFree word) : Paired (literal word) :=
  paired_of_quoteFree fun t piece rest hm => by rw [(literal_eq_some_iff.1 hm).1]; exact hw

/-- The empty piece is paired. -/
theorem nothing_paired : Paired nothing := by
  refine paired_of_quoteFree fun t piece rest hm => ?_
  simp only [nothing, Option.some.injEq, Prod.mk.injEq] at hm
  rw [← hm.1]
  exact quotable_nil.quoteFree

/-- Blanks are paired. -/
theorem blanks_paired : Paired blanks := by
  refine paired_of_quoteFree fun t piece rest hm => ?_
  simp only [blanks, Option.some.injEq, Prod.mk.injEq] at hm
  rw [← hm.1]
  exact fun c hc => isQuote_of_isBlank (List.all_eq_true.1 List.all_takeWhile c hc)

/-- A gap is paired. -/
theorem gap_paired : Paired gap :=
  fun t piece rest hm => blanks_paired t piece rest (gap_eq_some_iff.1 hm).1

/-- An identifier is paired. -/
theorem identifier_paired : Paired identifier := by
  refine paired_of_quoteFree fun t piece rest hm => ?_
  have hpart : ∀ c, isIdentifierPart c = true → isQuote c = false := by
    intro c hc
    cases hq : isQuote c with
    | false => rfl
    | true => rw [isIdentifierPart_of_isQuote hq] at hc; cases hc
  cases t with
  | nil => cases hm
  | cons c r =>
    simp only [identifier] at hm
    split at hm
    · next hs =>
      simp only [Option.some.injEq, Prod.mk.injEq] at hm
      rw [← hm.1]
      intro d hd
      rcases List.mem_cons.1 hd with rfl | hd
      · cases hq : isQuote d with
        | false => rfl
        | true => rw [isIdentifierStart_of_isQuote hq] at hs; cases hs
      · exact hpart d (List.all_eq_true.1 List.all_takeWhile d hd)
    · cases hm

/-- A literal is paired. -/
theorem quoted_paired : Paired quoted := by
  intro t piece rest hm
  obtain ⟨quote, inner, hq, hi, rfl, _⟩ := quoted_eq_some_iff.1 hm
  have hquote : isQuote quote = true := by rcases hq with rfl | rfl <;> rfl
  exact .inr ⟨[], quote, inner, [], rfl, hquote, fun hn => (hi _ hn).2 rfl⟩

/-- A text that holds a literal does so behind another text. -/
theorem HoldsLiteral.append_left {t : Text} (h : HoldsLiteral t) (a : Text) :
    HoldsLiteral (a ++ t) := by
  obtain ⟨before, q, s, behind, rfl, hq, hs⟩ := h
  exact ⟨a ++ before, q, s, behind, (List.append_assoc _ _ _).symm, hq, hs⟩

/-- A text that holds a literal does so before another text. -/
theorem HoldsLiteral.append_right {t : Text} (h : HoldsLiteral t) (b : Text) :
    HoldsLiteral (t ++ b) := by
  obtain ⟨before, q, s, behind, rfl, hq, hs⟩ := h
  exact ⟨before, q, s, behind ++ b, by simp, hq, hs⟩

/-- A text that holds a literal has two quotes. -/
theorem HoldsLiteral.two_le_quotes {t : Text} (h : HoldsLiteral t) : 2 ≤ Text.quotes t := by
  obtain ⟨before, q, s, behind, rfl, hq, _⟩ := h
  simp only [Text.quotes, List.countP_append, List.countP_cons, hq, if_true]
  omega

/-- A text in two parts is free of quotes or holds a literal when its parts do.
-/
theorem paired_append {a b : Text} (ha : QuoteFree a ∨ HoldsLiteral a)
    (hb : QuoteFree b ∨ HoldsLiteral b) : QuoteFree (a ++ b) ∨ HoldsLiteral (a ++ b) := by
  rcases ha with ha | ha
  · rcases hb with hb | hb
    · exact .inl (quoteFree_append.2 ⟨ha, hb⟩)
    · exact .inr (hb.append_left a)
  · exact .inr (ha.append_right b)

/-- Two paired matchers are paired in a row. -/
theorem andThen_paired (h₁ : Paired first) (h₂ : Paired second) :
    Paired (andThen first second) := by
  intro t piece rest hm
  obtain ⟨a, r, b, ha, hb, rfl⟩ := andThen_eq_some_iff.1 hm
  exact paired_append (h₁ _ _ _ ha) (h₂ _ _ _ hb)

/-- A choice between paired matchers is paired. -/
theorem orElse_paired (h₁ : Paired first) (h₂ : Paired second) :
    Paired (orElse first second) := by
  intro t piece rest hm
  rcases orElse_eq_some hm with h | h
  · exact h₁ _ _ _ h
  · exact h₂ _ _ _ h

/-- A paired matcher may be left out. -/
theorem optional_paired (h : Paired m) : Paired (optional m) := orElse_paired h nothing_paired

end Paired

/-- What may stand behind the literal of a statement. -/
def isClosing (c : Char) : Bool := isBlank c || c == ';'

/-- Only blanks and semicolons. -/
def Closing (t : Text) : Prop := ∀ c ∈ t, isClosing c = true

instance (t : Text) : Decidable (Closing t) := inferInstanceAs (Decidable (∀ c ∈ t, _))

/-- What closes a statement is no quote. -/
theorem isQuote_of_isClosing {c : Char} (h : isClosing c = true) : isQuote c = false := by
  simp only [isClosing, Bool.or_eq_true, beq_iff_eq] at h
  rcases h with h | rfl
  · exact isQuote_of_isBlank h
  · rfl

/-- What closes a statement holds no quote. -/
theorem Closing.quoteFree {t : Text} (h : Closing t) : QuoteFree t :=
  fun c hc => isQuote_of_isClosing (h c hc)

/-- A matcher that takes a text with a single literal as a whole does so with
every literal, and then takes behind it what `tail` takes. -/
def Carries (tail m : Matcher) : Prop :=
  ∀ a q s b, QuoteFree a → isQuote q = true → Quotable s → Closing b →
    m (a ++ q :: (s ++ q :: b)) = some (a ++ q :: (s ++ q :: b), []) →
    ∀ s' r, Quotable s' →
      m (a ++ q :: (s' ++ q :: r)) = (tail r).map fun x => (a ++ q :: (s' ++ q :: x.1), x.2)

section Carries

variable {tail first second m : Matcher} {start : Option Char → Bool}

/-- A choice carries a literal when its second matcher does and its first gets
as far with every literal. -/
theorem orElse_carries (ht : Total tail) (h₁ : Reaches tail first) (h₂ : Carries tail second) :
    Carries tail (orElse first second) := by
  intro a q s b ha hq hs hb hm s' r hs'
  obtain ⟨reach, hr⟩ := h₁ a q ha hq
  cases hreach : reach with
  | nowhere =>
    subst hreach
    rw [orElse_of_none (hr s b hs)] at hm
    rw [orElse_of_none (hr s' r hs')]
    exact h₂ a q s b ha hq hs hb hm s' r hs'
  | before p t =>
    subst hreach
    rw [orElse_of_some (hr s b hs)] at hm
    simp at hm
  | through =>
    subst hreach
    obtain ⟨x, hx⟩ := Option.isSome_iff_exists.1 (ht r)
    have h := hr s' r hs'
    simp only [Reach.result, hx, Option.map_some] at h ⊢
    exact orElse_of_some h

/-- A leftmost match does not start inside the literal or behind it. -/
theorem upTo_ne_literal (hp : Paired m) (ha : Advances m)
    (hn : ∀ c r, isClosing c = true → m (c :: r) = none) {previous : Option Char} {q : Char}
    {s b : Text} (hq : isQuote q = true) (hs : QuoteFree s) (hb : Closing b) :
    upTo start m previous (s ++ q :: b) ≠ some (s ++ q :: b, []) := by
  intro h
  obtain ⟨before, behind, core, ht, hm, hpiece⟩ := exists_of_upTo_eq_some h
  rw [ht] at hpiece
  obtain rfl := List.append_cancel_left hpiece
  have hcount : Text.quotes (s ++ q :: b) = 1 := by
    have h1 : Text.quotes (q :: b) = 1 := by
      have := hb.quoteFree.quotes_eq
      simp only [Text.quotes, List.countP_cons, hq, if_true] at this ⊢
      omega
    rw [Text.quotes_append, hs.quotes_eq, h1]
  rcases hp _ _ _ hm with hfree | htwo
  · rcases List.append_eq_append_iff.1 ht with ⟨more, rfl, hmore⟩ | ⟨more, rfl, hmore⟩
    · cases more with
      | nil =>
        rw [List.nil_append] at hmore
        have := hfree q (by rw [← hmore]; exact List.mem_cons_self)
        rw [hq] at this
        cases this
      | cons d more =>
        obtain ⟨_, hbm⟩ := List.cons.inj hmore
        cases hbehind : behind with
        | nil => exact ha _ _ _ hm hbehind
        | cons c r =>
          have hc := hb c (by rw [hbm, hbehind]; simp)
          rw [hbehind, hn c r hc] at hm
          cases hm
    · have := hfree q (by rw [hmore]; simp)
      rw [hq] at this
      cases this
  · have := htwo.two_le_quotes
    rw [ht, Text.quotes_append] at hcount
    omega

/-- A search for the leftmost match gets to the literal in the same way. -/
theorem upTo_carries (hr : Reaches tail m) (ht : Total tail) (hp : Paired m) (ha : Advances m)
    (hc : ∀ c r, isClosing c = true → m (c :: r) = none)
    (hquote : ∀ c r, isQuote c = true → m (c :: r) = none) (previous : Option Char) :
    Carries tail (upTo start m previous) := by
  intro a q s b haq hq hs hb
  induction a generalizing previous with
  | nil =>
    intro hm
    rw [List.nil_append, upTo_cons] at hm
    have hnone : (if start previous then m (q :: (s ++ q :: b)) else none) = none := by
      rw [hquote q _ hq]
      exact ite_self none
    rw [hnone] at hm
    simp only [Option.map_eq_some_iff, Prod.mk.injEq, Prod.exists, List.cons.injEq, true_and] at hm
    obtain ⟨x, y, hu, rfl, rfl⟩ := hm
    exact absurd hu (upTo_ne_literal hp ha hc hq hs.quoteFree hb)
  | cons c a ih =>
    intro hm s' r hs'
    obtain ⟨reach, hreach⟩ := hr (c :: a) q haq hq
    have htail : QuoteFree a := fun d hd => haq d (List.mem_cons_of_mem c hd)
    have hgo : ∀ s r, Quotable s → (if start previous then m (c :: (a ++ q :: (s ++ q :: r)))
        else none) = if start previous then reach.result tail (c :: a) q s r else none :=
      fun s r hs => by rw [← hreach s r hs]; rfl
    rw [List.cons_append, upTo_cons, hgo _ _ hs] at hm
    rw [List.cons_append, upTo_cons, hgo _ _ hs']
    by_cases hstart : start previous = true ∧ reach ≠ .nowhere
    · obtain ⟨hst, hne⟩ := hstart
      rw [if_pos hst] at hm ⊢
      cases reach with
      | nowhere => exact absurd rfl hne
      | before p t => simp [Reach.result] at hm
      | through =>
        obtain ⟨x, hx⟩ := Option.isSome_iff_exists.1 (ht r)
        simp only [Reach.result, hx, Option.map_some, List.cons_append]
    · have hnone : ∀ s r,
          (if start previous then reach.result tail (c :: a) q s r else none) = none := by
        intro s r
        split
        · next hst =>
          have hreach : reach = .nowhere := by
            by_contra hne
            exact hstart ⟨hst, hne⟩
          rw [hreach]
          rfl
        · rfl
      rw [hnone] at hm ⊢
      simp only [Option.map_eq_some_iff, Prod.mk.injEq, Prod.exists, List.cons.injEq,
        true_and] at hm
      obtain ⟨x, y, hu, rfl, rfl⟩ := hm
      dsimp only
      rw [ih (some c) htail hu s' r hs', Option.map_map]
      rfl

end Carries

end ModuleScripts.Matcher

namespace ModuleScripts.Boundary

open Matcher

section Reaches

/-- A terminator ends before a quote. -/
theorem terminator_barrier : Barrier terminator :=
  andThen_barrier blanks_exact blanks_barrier
    (optional_barrier (literal_barrier (by decide)))

/-- A terminator takes no quote. -/
theorem terminator_paired : Paired terminator :=
  andThen_paired blanks_paired (optional_paired (literal_paired (by decide)))

/-- A source gets as far with every literal. -/
theorem source_reaches : Reaches nothing source :=
  andThen_reaches (andThen_exact (literal_exact _) blanks_exact)
    (andThen_barrier (literal_exact _) (literal_barrier (by decide)) blanks_barrier)
    quoted_reaches

/-- A source is paired. -/
theorem source_paired : Paired source :=
  andThen_paired (andThen_paired (literal_paired (by decide)) blanks_paired) quoted_paired

/-- A source behind blanks gets as far with every literal. -/
theorem blanks_source_reaches : Reaches nothing (blanks.andThen source) :=
  andThen_reaches blanks_exact blanks_barrier source_reaches

/-- A source behind blanks is paired. -/
theorem blanks_source_paired : Paired (blanks.andThen source) :=
  andThen_paired blanks_paired source_paired

/-- A bare import gets as far with every literal. -/
theorem bareImport_reaches : Reaches terminator bareImport :=
  andThen_reaches_tail terminator_barrier terminator_total
    (andThen_exact importKeyword_exact quoted_exact)
    (andThen_reaches importKeyword_exact
      (andThen_barrier (andThen_exact blanks_exact (literal_exact _))
        (andThen_barrier blanks_exact blanks_barrier (literal_barrier (by decide))) blanks_barrier)
      quoted_reaches)

/-- What follows the name of a star export gets as far with every literal. -/
theorem behindName_reaches (name : Text) : Reaches nothing (behindName name) := by
  refine orElse_reaches nothing_total blanks_source_reaches ?_
  intro a q ha hq
  by_cases h : 4 < name.length ∧ name.drop (name.length - 4) = "from".toList
  · simp only [if_pos h]
    exact andThen_reaches blanks_exact blanks_barrier quoted_reaches a q ha hq
  · simp only [if_neg h]
    exact ⟨.nowhere, fun s r _ => rfl⟩

/-- What follows the name of a star export is paired. -/
theorem behindName_paired (name : Text) : Paired (behindName name) := by
  intro t piece rest h
  rcases orElse_eq_some h with h | h
  · exact blanks_source_paired _ _ _ h
  · split at h
    · exact andThen_paired blanks_paired quoted_paired _ _ _ h
    · cases h

/-- The name of a star export is a matcher behind a matcher that depends on it,
so the combinators do not apply as they stand. -/
theorem nameFrom_reaches : Reaches nothing nameFrom := by
  intro a q ha hq
  obtain ⟨found, hf⟩ := identifier_barrier a q ha hq
  cases found with
  | none => exact ⟨.nowhere, fun s r _ => by simp [nameFrom, hf _, Reach.result]⟩
  | some x =>
    obtain ⟨name, rest⟩ := x
    obtain ⟨rfl, hr⟩ := quoteFree_of_exact identifier_exact ha hf
    obtain ⟨reach, hreach⟩ := behindName_reaches name rest q hr hq
    cases reach with
    | nowhere =>
      refine ⟨.nowhere, fun s r hs => ?_⟩
      simp only [nameFrom, hf _, Option.map_some, hreach s r hs, Reach.result, Option.map_none]
    | before p t =>
      refine ⟨.before (name ++ p) t, fun s r hs => ?_⟩
      simp only [nameFrom, hf _, Option.map_some, hreach s r hs, Reach.result]
    | through =>
      refine ⟨.through, fun s r hs => ?_⟩
      simp only [nameFrom, hf _, Option.map_some, hreach s r hs, Reach.result, nothing]
      simp

/-- A named star export is paired. -/
theorem nameFrom_paired : Paired nameFrom := by
  intro t piece rest h
  obtain ⟨name, r, tail, hn, hb, rfl⟩ := nameFrom_eq_some_iff.1 h
  exact paired_append (identifier_paired _ _ _ hn) (behindName_paired name _ _ _ hb)

/-- A renaming gets as far with every literal. -/
theorem renamedFrom_reaches : Reaches nothing renamedFrom :=
  andThen_reaches (andThen_exact (andThen_exact blanks_exact (literal_exact _)) gap_exact)
    (andThen_barrier (andThen_exact blanks_exact (literal_exact _))
      (andThen_barrier blanks_exact blanks_barrier (literal_barrier (by decide))) gap_barrier)
    nameFrom_reaches

/-- A renaming is paired. -/
theorem renamedFrom_paired : Paired renamedFrom :=
  andThen_paired (andThen_paired (andThen_paired blanks_paired (literal_paired (by decide)))
    gap_paired) nameFrom_paired

/-- A star gets as far with every literal. -/
theorem star_reaches : Reaches nothing star :=
  andThen_reaches (literal_exact _) (literal_barrier (by decide))
    (orElse_reaches nothing_total renamedFrom_reaches blanks_source_reaches)

/-- A star is paired. -/
theorem star_paired : Paired star :=
  andThen_paired (literal_paired (by decide))
    (orElse_paired renamedFrom_paired blanks_source_paired)

/-- A closing brace gets as far with every literal. -/
theorem closingBrace_reaches : Reaches nothing closingBrace :=
  andThen_reaches (literal_exact _) (literal_barrier (by decide))
    (orElse_reaches nothing_total blanks_source_reaches (reaches_of_barrier nothing_barrier))

/-- A closing brace is paired. -/
theorem closingBrace_paired : Paired closingBrace :=
  andThen_paired (literal_paired (by decide)) (optional_paired blanks_source_paired)

end Reaches

section Carries

/-- An import with a single literal ends behind it, whatever the literal is. -/
theorem importEnd_carries : Carries terminator importEnd := by
  refine orElse_carries terminator_total bareImport_reaches (upTo_carries
    (andThen_reaches_tail terminator_barrier terminator_total source_exact source_reaches)
    terminator_total (andThen_paired source_paired terminator_paired)
    (andThen_advances source_advances) ?_ ?_ none)
  · intro c r hc
    exact andThen_eq_none (source_cons_eq_none (by rintro rfl; cases hc) r)
  · intro c r hc
    exact andThen_eq_none (source_cons_eq_none (by rintro rfl; cases hc) r)

/-- An export list or a star export with a single literal ends behind it,
whatever the literal is. -/
theorem exportListEnd_carries : Carries terminator exportListEnd := by
  refine upTo_carries
    (andThen_reaches_tail terminator_barrier terminator_total
      (orElse_exact star_exact closingBrace_exact)
      (orElse_reaches nothing_total star_reaches closingBrace_reaches))
    terminator_total
    (andThen_paired (orElse_paired star_paired closingBrace_paired) terminator_paired)
    (andThen_advances (orElse_advances star_advances closingBrace_advances)) ?_ ?_ none
  · intro c r hc
    exact listEnd_cons_eq_none (by rintro rfl; cases hc) (by rintro rfl; cases hc) r
  · intro c r hc
    exact listEnd_cons_eq_none (by rintro rfl; cases hc) (by rintro rfl; cases hc) r

end Carries

end ModuleScripts.Boundary
