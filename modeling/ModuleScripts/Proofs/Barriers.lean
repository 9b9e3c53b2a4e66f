import ModuleScripts.Proofs.Rereading

/-!
# Matching up to and over a literal

A quote stops everything a statement is made of except its quoted literals. In
a text with a single literal a matcher therefore does its work before the
literal, takes the literal as a whole, or fails, and it does the same whatever
stands between the quotes.
-/

namespace ModuleScripts

/-- No character is a quote. -/
def QuoteFree (t : Text) : Prop := ∀ c ∈ t, isQuote c = false

instance (t : Text) : Decidable (QuoteFree t) := inferInstanceAs (Decidable (∀ c ∈ t, _))

/-- What may stand between the quotes of a literal: one line without quotes. -/
structure Quotable (t : Text) : Prop where
  /-- There is no quote of either kind. -/
  quoteFree : QuoteFree t
  /-- There is no line feed. -/
  oneLine : '\n' ∉ t

/-- The empty text may stand between quotes. -/
theorem quotable_nil : Quotable [] := ⟨fun _ h => absurd h List.not_mem_nil, List.not_mem_nil⟩

/-- A text is free of quotes when both its parts are. -/
theorem quoteFree_append {a b : Text} : QuoteFree (a ++ b) ↔ QuoteFree a ∧ QuoteFree b := by
  constructor
  · exact fun h => ⟨fun c hc => h c (List.mem_append_left b hc),
      fun c hc => h c (List.mem_append_right a hc)⟩
  · rintro ⟨ha, hb⟩ c hc
    rcases List.mem_append.1 hc with hc | hc
    · exact ha c hc
    · exact hb c hc

/-- Number of quotes. -/
def Text.quotes (t : Text) : Nat := t.countP isQuote

/-- Quotes are counted part by part. -/
theorem Text.quotes_append (a b : Text) : quotes (a ++ b) = quotes a + quotes b :=
  List.countP_append

/-- A text free of quotes counts none. -/
theorem QuoteFree.quotes_eq {t : Text} (h : QuoteFree t) : Text.quotes t = 0 :=
  List.countP_eq_zero.2 fun c hc => by simp [h c hc]

/-- A character that is no quote is neither of the two quotes. -/
theorem ne_of_isQuote_false {c : Char} (h : isQuote c = false) : ¬(c = '\'' ∨ c = '"') := by
  simpa [isQuote] using h

/-- A quote is no letter of a word. -/
theorem isWord_of_isQuote {c : Char} (h : isQuote c = true) : isWord c = false := by
  simp only [isQuote, Bool.or_eq_true, beq_iff_eq] at h
  rcases h with rfl | rfl <;> decide +kernel

/-- A quote is no part of an identifier. -/
theorem isIdentifierPart_of_isQuote {c : Char} (h : isQuote c = true) :
    isIdentifierPart c = false := by
  simp only [isIdentifierPart, isWord_of_isQuote h, Bool.false_or]
  simp only [isQuote, Bool.or_eq_true, beq_iff_eq] at h
  rcases h with rfl | rfl <;> rfl

/-- A quote does not start an identifier. -/
theorem isIdentifierStart_of_isQuote {c : Char} (h : isQuote c = true) :
    isIdentifierStart c = false := by
  simp only [isQuote, Bool.or_eq_true, beq_iff_eq] at h
  rcases h with rfl | rfl <;> rfl

/-- A quote is no blank. -/
theorem isBlank_of_isQuote {c : Char} (h : isQuote c = true) : isBlank c = false := by
  simp only [isQuote, Bool.or_eq_true, beq_iff_eq] at h
  rcases h with rfl | rfl <;> rfl

/-- A maximal run that a character ends is one whatever follows the character. -/
theorem takeWhile_dropWhile_barrier {p : Char → Bool} {q : Char} (h : p q = false) (a r : Text) :
    (a ++ q :: r).takeWhile p = a.takeWhile p ∧
      (a ++ q :: r).dropWhile p = a.dropWhile p ++ q :: r := by
  induction a with
  | nil => simp [h]
  | cons c a ih =>
    cases hc : p c with
    | true =>
      simp only [List.cons_append, List.takeWhile_cons_of_pos hc, List.dropWhile_cons_of_pos hc]
      exact ⟨by rw [ih.1], ih.2⟩
    | false => simp [hc]

/-- A prefix without the quote is told from the text before the quote. -/
theorem Text.dropPrefix?_barrier {word a : Text} {q : Char} (hw : q ∉ word) (r : Text) :
    dropPrefix? word (a ++ q :: r) = (dropPrefix? word a).map (· ++ q :: r) := by
  induction word generalizing a with
  | nil => rfl
  | cons w word ih =>
    rw [List.mem_cons, not_or] at hw
    cases a with
    | nil => simp [dropPrefix?, Ne.symm hw.1]
    | cons c a =>
      rw [List.cons_append, dropPrefix?, dropPrefix?]
      split
      · exact ih hw.2
      · rfl

/-- The white space at the start ends before a quote. -/
theorem Text.leading_barrier {q : Char} (hq : isQuote q = true) (a r : Text) :
    leading (a ++ q :: r) = leading a :=
  (takeWhile_dropWhile_barrier (isBlank_of_isQuote hq) a r).1

/-- Trimming the start stops before a quote. -/
theorem Text.trimStart_barrier {q : Char} (hq : isQuote q = true) (a r : Text) :
    trimStart (a ++ q :: r) = trimStart a ++ q :: r :=
  (takeWhile_dropWhile_barrier (isBlank_of_isQuote hq) a r).2

/-- A text with a quote has a first one. -/
theorem exists_first_quote {a : Text} (h : ¬QuoteFree a) :
    ∃ front c behind, a = front ++ c :: behind ∧ QuoteFree front ∧ isQuote c = true := by
  induction a with
  | nil => exact absurd (fun _ hc => absurd hc List.not_mem_nil) h
  | cons c a ih =>
    cases hc : isQuote c with
    | true => exact ⟨[], c, a, rfl, fun _ hd => absurd hd List.not_mem_nil, hc⟩
    | false =>
      have hrest : ¬QuoteFree a := fun ha => h (List.forall_mem_cons.2 ⟨hc, ha⟩)
      obtain ⟨front, d, behind, rfl, hfront, hd⟩ := ih hrest
      exact ⟨c :: front, d, behind, rfl, List.forall_mem_cons.2 ⟨hc, hfront⟩, hd⟩

namespace Matcher

/-- A quote stops the matcher: what it does before the quote is the same
whatever follows the quote. -/
def Barrier (m : Matcher) : Prop :=
  ∀ a q, QuoteFree a → isQuote q = true →
    ∃ found : Option (Text × Text), ∀ r, m (a ++ q :: r) = found.map fun x => (x.1, x.2 ++ q :: r)

section Barrier

variable {first second m : Matcher}

/-- The first quote stops the matcher, so what follows any quote does not matter. -/
theorem Barrier.exists_found (h : Barrier m) {q : Char} (hq : isQuote q = true) (a : Text) :
    ∃ found : Option (Text × Text), ∀ r,
      m (a ++ q :: r) = found.map fun x => (x.1, x.2 ++ q :: r) := by
  by_cases ha : QuoteFree a
  · exact h a q ha hq
  · obtain ⟨front, c, behind, rfl, hfront, hc⟩ := exists_first_quote ha
    obtain ⟨found, hf⟩ := h front c hfront hc
    refine ⟨found.map fun x => (x.1, x.2 ++ c :: behind), fun r => ?_⟩
    rw [List.append_assoc, List.cons_append, hf, Option.map_map]
    cases found with
    | none => rfl
    | some x => simp

/-- The empty piece never reaches a quote. -/
theorem nothing_barrier : Barrier nothing := fun a _ _ _ => ⟨some ([], a), fun _ => rfl⟩

/-- A word without quotes never reaches beyond a quote. -/
theorem literal_barrier {word : Text} (hw : QuoteFree word) : Barrier (literal word) := by
  intro a q _ hq
  refine ⟨(Text.dropPrefix? word a).map (word, ·), fun r => ?_⟩
  have hn : q ∉ word := fun h => by
    have := hw q h
    rw [hq] at this
    cases this
  rw [literal, Text.dropPrefix?_barrier hn, Option.map_map, Option.map_map]
  rfl

/-- Blanks end before a quote. -/
theorem blanks_barrier : Barrier blanks := by
  intro a q _ hq
  refine ⟨some (Text.leading a, Text.trimStart a), fun r => ?_⟩
  simp only [blanks, Text.leading_barrier hq, Text.trimStart_barrier hq, Option.map_some]

/-- A gap ends before a quote. -/
theorem gap_barrier : Barrier gap := by
  intro a q _ hq
  refine ⟨gap a, fun r => ?_⟩
  simp only [gap, Text.leading_barrier hq, Text.trimStart_barrier hq]
  by_cases hl : (Text.leading a).isEmpty = true <;> simp [hl]

/-- An identifier ends before a quote. -/
theorem identifier_barrier : Barrier identifier := by
  intro a q _ hq
  refine ⟨identifier a, fun r => ?_⟩
  cases a with
  | nil => simp [identifier, isIdentifierStart_of_isQuote hq]
  | cons c a =>
    have h := takeWhile_dropWhile_barrier (isIdentifierPart_of_isQuote hq) a r
    simp only [identifier, List.cons_append, h.1, h.2]
    cases isIdentifierStart c <;> rfl

/-- What a matcher leaves before a quote is a part of what was there. -/
theorem quoteFree_of_exact {a rest piece : Text} {q : Char} (he : Exact m) (ha : QuoteFree a)
    (h : ∀ r, m (a ++ q :: r) = some (piece, rest ++ q :: r)) :
    a = piece ++ rest ∧ QuoteFree rest := by
  have hx := he _ _ _ (h [])
  rw [← List.append_assoc] at hx
  have hp := List.append_cancel_right hx
  rw [hp] at ha
  exact ⟨hp, (quoteFree_append.1 ha).2⟩

/-- Two matchers that a quote stops are stopped by it in a row. -/
theorem andThen_barrier (he : Exact first) (h₁ : Barrier first) (h₂ : Barrier second) :
    Barrier (andThen first second) := by
  intro a q ha hq
  obtain ⟨found, hf⟩ := h₁ a q ha hq
  cases found with
  | none => exact ⟨none, fun r => by simp [andThen, hf r]⟩
  | some x =>
    obtain ⟨piece, rest⟩ := x
    obtain ⟨_, hr⟩ := quoteFree_of_exact he ha hf
    obtain ⟨behind, hb⟩ := h₂ rest q hr hq
    refine ⟨behind.map fun x => (piece ++ x.1, x.2), fun r => ?_⟩
    simp only [andThen, hf r, Option.map_some, hb r, Option.map_map]
    rfl

/-- A choice between matchers that a quote stops is stopped by it. -/
theorem orElse_barrier (h₁ : Barrier first) (h₂ : Barrier second) :
    Barrier (orElse first second) := by
  intro a q ha hq
  obtain ⟨found, hf⟩ := h₁ a q ha hq
  obtain ⟨other, ho⟩ := h₂ a q ha hq
  refine ⟨found.or other, fun r => ?_⟩
  cases found with
  | none => rw [orElse_of_none (hf r), ho r, Option.none_or]
  | some x => rw [orElse_of_some (hf r), Option.some_or, Option.map_some]

/-- A matcher that a quote stops is stopped by it when it may be left out. -/
theorem optional_barrier (h : Barrier m) : Barrier (optional m) := orElse_barrier h nothing_barrier

end Barrier

/-- What a matcher does with a text that has a single literal. -/
inductive Reach where
  /-- It fails. -/
  | nowhere
  /-- It takes a piece before the literal and leaves the rest. -/
  | before (piece rest : Text)
  /-- It takes everything up to the end of the literal, and more behind it. -/
  | through
  deriving DecidableEq, Repr

/-- The match that a reach stands for. Behind the literal `tail` goes on. -/
def Reach.result (tail : Matcher) (a : Text) (q : Char) (s r : Text) :
    Reach → Option (Text × Text)
  | nowhere => none
  | before piece rest => some (piece, rest ++ q :: (s ++ q :: r))
  | through => (tail r).map fun x => (a ++ q :: (s ++ q :: x.1), x.2)

/-- How far the matcher gets does not depend on what stands between the quotes
and behind them. -/
def Reaches (tail m : Matcher) : Prop :=
  ∀ a q, QuoteFree a → isQuote q = true →
    ∃ reach : Reach, ∀ s r, Quotable s → m (a ++ q :: (s ++ q :: r)) = reach.result tail a q s r

section Reaches

variable {tail first second m : Matcher}

/-- A matcher that a quote stops never takes the literal. -/
theorem reaches_of_barrier (h : Barrier m) : Reaches tail m := by
  intro a q ha hq
  obtain ⟨found, hf⟩ := h a q ha hq
  cases found with
  | none => exact ⟨.nowhere, fun s r _ => hf _⟩
  | some x => exact ⟨.before x.1 x.2, fun s r _ => hf _⟩

/-- A literal is taken as a whole where it stands first, and only there. -/
theorem quoted_reaches : Reaches nothing quoted := by
  intro a q ha hq
  cases a with
  | nil =>
    refine ⟨.through, fun s r hs => ?_⟩
    have hq' : q = '\'' ∨ q = '"' := by
      simpa only [isQuote, Bool.or_eq_true, beq_iff_eq] using hq
    have hi : ∀ c ∈ s, c ≠ q ∧ c ≠ '\n' := by
      refine fun c hc => ⟨?_, fun he => hs.oneLine (he ▸ hc)⟩
      rintro rfl
      have := hs.quoteFree c hc
      rw [hq] at this
      cases this
    exact quoted_eq_some_iff.2 ⟨q, s, hq', hi, rfl, by simp⟩
  | cons c a =>
    refine ⟨.nowhere, fun s r _ => ?_⟩
    have hc : ¬(c = '\'' ∨ c = '"') := ne_of_isQuote_false (ha c List.mem_cons_self)
    simp only [List.cons_append, quoted, if_neg hc, Reach.result]

/-- Behind a matcher that a quote stops, the second one gets as far as it does
alone. -/
theorem andThen_reaches (he : Exact first) (h₁ : Barrier first) (h₂ : Reaches tail second) :
    Reaches tail (andThen first second) := by
  intro a q ha hq
  obtain ⟨found, hf⟩ := h₁ a q ha hq
  cases found with
  | none => exact ⟨.nowhere, fun s r _ => by simp [andThen, hf _, Reach.result]⟩
  | some x =>
    obtain ⟨piece, rest⟩ := x
    obtain ⟨rfl, hr⟩ := quoteFree_of_exact he ha hf
    obtain ⟨reach, hreach⟩ := h₂ rest q hr hq
    cases reach with
    | nowhere =>
      refine ⟨.nowhere, fun s r hs => ?_⟩
      simp only [andThen, hf _, Option.map_some, hreach s r hs, Reach.result, Option.map_none]
    | before p t =>
      refine ⟨.before (piece ++ p) t, fun s r hs => ?_⟩
      simp only [andThen, hf _, Option.map_some, hreach s r hs, Reach.result]
    | through =>
      refine ⟨.through, fun s r hs => ?_⟩
      simp only [andThen, hf _, Option.map_some, hreach s r hs, Reach.result, Option.map_map]
      cases tail r <;> simp

/-- A choice gets as far as the first of its matchers that succeeds. -/
theorem orElse_reaches (ht : Total tail) (h₁ : Reaches tail first) (h₂ : Reaches tail second) :
    Reaches tail (orElse first second) := by
  intro a q ha hq
  obtain ⟨reach, hf⟩ := h₁ a q ha hq
  obtain ⟨other, ho⟩ := h₂ a q ha hq
  cases reach with
  | nowhere => exact ⟨other, fun s r hs => (orElse_of_none (hf s r hs)).trans (ho s r hs)⟩
  | before p t => exact ⟨.before p t, fun s r hs => orElse_of_some (hf s r hs)⟩
  | through =>
    refine ⟨.through, fun s r hs => ?_⟩
    obtain ⟨x, hx⟩ := Option.isSome_iff_exists.1 (ht r)
    have h := hf s r hs
    simp only [Reach.result, hx, Option.map_some] at h ⊢
    exact orElse_of_some h

/-- What goes on behind the literal is put behind the matcher. -/
theorem andThen_reaches_tail (hb : Barrier tail) (ht : Total tail) (he : Exact m)
    (h : Reaches nothing m) : Reaches tail (andThen m tail) := by
  intro a q ha hq
  obtain ⟨reach, hreach⟩ := h a q ha hq
  cases reach with
  | nowhere =>
    refine ⟨.nowhere, fun s r hs => ?_⟩
    simp only [andThen, hreach s r hs, Reach.result]
  | before p t =>
    have hx : QuoteFree t := by
      have hm := he _ _ _ (hreach [] [] quotable_nil)
      rw [← List.append_assoc] at hm
      have hp := List.append_cancel_right hm
      rw [hp] at ha
      exact (quoteFree_append.1 ha).2
    obtain ⟨found, hf⟩ := hb t q hx hq
    cases found with
    | none =>
      have hn := ht (t ++ q :: [])
      rw [hf] at hn
      cases hn
    | some x =>
      refine ⟨.before (p ++ x.1) x.2, fun s r hs => ?_⟩
      simp only [andThen, hreach s r hs, Reach.result, hf, Option.map_some]
  | through =>
    refine ⟨.through, fun s r hs => ?_⟩
    simp only [andThen, hreach s r hs, Reach.result, nothing, Option.map_some]
    cases tail r <;> simp

end Reaches

end Matcher

end ModuleScripts
