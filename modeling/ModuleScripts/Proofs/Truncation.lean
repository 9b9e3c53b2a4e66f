import ModuleScripts.Source.Boundary

/-!
# Matches under longer and shorter texts

A statement is first looked for in a text that grows line by line, then cut off
and later read again from its own text alone. These laws say what a matcher
finds in each of the texts: whether more text can change or undo a match, and
whether a match outlives the loss of what followed it. Each combinator keeps
them, so the ends of statements have them too.
-/

namespace ModuleScripts.Matcher

/-- A match that leaves something over is not changed by more text. -/
def Settles (m : Matcher) : Prop :=
  ∀ t piece rest more, rest ≠ [] → m t = some (piece, rest) →
    m (t ++ more) = some (piece, rest ++ more)

/-- No match at all is changed by more text. -/
def Firm (m : Matcher) : Prop :=
  ∀ t piece rest more, m t = some (piece, rest) → m (t ++ more) = some (piece, rest ++ more)

/-- A text with a match has one when it goes on. -/
def Grows (m : Matcher) : Prop := ∀ t more, (m t).isSome → (m (t ++ more)).isSome

/-- Every text has a match. -/
def Total (m : Matcher) : Prop := ∀ t, (m t).isSome

/-- A match stays what it is when text behind it is cut off. -/
def Stable (m : Matcher) : Prop :=
  ∀ piece kept dropped, m (piece ++ (kept ++ dropped)) = some (piece, kept ++ dropped) →
    m (piece ++ kept) = some (piece, kept)

/-- A match that no text changes is not changed when something is left over. -/
theorem Firm.settles {m : Matcher} (h : Firm m) : Settles m :=
  fun t piece rest more _ hm => h t piece rest more hm

/-- A match that no text changes is there when the text goes on. -/
theorem Firm.grows {m : Matcher} (h : Firm m) : Grows m := by
  intro t more hm
  obtain ⟨⟨piece, rest⟩, hp⟩ := Option.isSome_iff_exists.1 hm
  rw [h t piece rest more hp]
  rfl

/-- Where a longer text has no match, a shorter one has none. -/
theorem Grows.eq_none {m : Matcher} (h : Grows m) {t more : Text} (hm : m (t ++ more) = none) :
    m t = none := by
  cases ht : m t with
  | none => rfl
  | some found =>
    have hs := h t more (by rw [ht]; rfl)
    rw [hm] at hs
    cases hs

/-- A maximal run is settled by the character that ends it. -/
theorem takeWhile_dropWhile_append {p : Char → Bool} {t : Text} (h : t.dropWhile p ≠ [])
    (more : Text) :
    (t ++ more).takeWhile p = t.takeWhile p ∧ (t ++ more).dropWhile p = t.dropWhile p ++ more := by
  induction t with
  | nil => exact absurd rfl h
  | cons c r ih =>
    cases hc : p c with
    | true =>
      rw [List.dropWhile_cons_of_pos hc] at h
      have hr := ih h
      simp only [List.cons_append, List.takeWhile_cons_of_pos hc, List.dropWhile_cons_of_pos hc]
      exact ⟨by rw [hr.1], hr.2⟩
    | false => simp [hc]

/-- A maximal run is the same run when text behind it is cut off. -/
theorem takeWhile_dropWhile_kept {p : Char → Bool} {run kept dropped : Text}
    (ht : (run ++ (kept ++ dropped)).takeWhile p = run) :
    (run ++ kept).takeWhile p = run ∧ (run ++ kept).dropWhile p = kept := by
  induction run with
  | nil =>
    cases kept with
    | nil => simp
    | cons c r =>
      cases hc : p c with
      | true => simp [hc] at ht
      | false => simp [hc]
  | cons c r ih =>
    cases hc : p c with
    | true =>
      simp only [List.cons_append, List.takeWhile_cons_of_pos hc, List.cons.injEq, true_and] at ht
      have hr := ih ht
      simp only [List.cons_append, List.takeWhile_cons_of_pos hc, List.dropWhile_cons_of_pos hc]
      exact ⟨by rw [hr.1], hr.2⟩
    | false => simp [hc] at ht

section Pieces

/-- A word is taken when the text starts with it, and the rest is left. -/
theorem literal_eq_some_iff {word t piece rest : Text} :
    literal word t = some (piece, rest) ↔ piece = word ∧ t = word ++ rest := by
  simp only [literal, Option.map_eq_some_iff, Prod.mk.injEq, Text.dropPrefix?_eq_some_iff]
  constructor
  · rintro ⟨r, ht, rfl, rfl⟩
    exact ⟨rfl, ht⟩
  · rintro ⟨rfl, ht⟩
    exact ⟨rest, ht, rfl, rfl⟩

/-- A word is not changed by more text. -/
theorem literal_firm (word : Text) : Firm (literal word) := by
  intro t piece rest more h
  rw [literal_eq_some_iff] at h ⊢
  exact ⟨h.1, by rw [h.2, List.append_assoc]⟩

/-- A word stays what it is when text behind it is cut off. -/
theorem literal_stable (word : Text) : Stable (literal word) := by
  intro piece kept dropped h
  rw [literal_eq_some_iff] at h ⊢
  exact ⟨h.1, by rw [h.1]⟩

/-- A word is not taken from another first character. -/
theorem literal_cons_eq_none {c d : Char} (h : d ≠ c) (word r : Text) :
    literal (c :: word) (d :: r) = none := by
  simp [literal, Text.dropPrefix?, Ne.symm h]

/-- A keyword is taken when the text starts with it and the word ends there. -/
theorem keyword_eq_some_iff {word t piece rest : Text} :
    keyword word t = some (piece, rest) ↔
      piece = word ∧ t = word ++ rest ∧ atWordEnd rest = true := by
  constructor
  · intro h
    have hk := keyword_eq_some h
    have hl := literal_eq_some_iff.1 hk.1
    exact ⟨hl.1, hl.2, hk.2⟩
  · rintro ⟨rfl, rfl, he⟩
    unfold keyword
    rw [literal_eq_some_iff.2 ⟨rfl, rfl⟩]
    simp [he]

/-- A keyword is not taken from another first character. -/
theorem keyword_cons_eq_none {c d : Char} (h : d ≠ c) (word r : Text) :
    keyword (c :: word) (d :: r) = none := by
  unfold keyword
  rw [literal_cons_eq_none h]

/-- The empty piece is in every text. -/
theorem nothing_total : Total nothing := fun _ => rfl

/-- The empty piece stays what it is when text behind it is cut off. -/
theorem nothing_stable : Stable nothing := by
  intro piece kept dropped h
  simp only [nothing, Option.some.injEq, Prod.mk.injEq] at h ⊢
  obtain ⟨rfl, _⟩ := h
  exact ⟨rfl, rfl⟩

/-- Blanks, maybe none, are in every text. -/
theorem blanks_total : Total blanks := fun _ => rfl

/-- Blanks are not changed by more text when something follows them. -/
theorem blanks_settles : Settles blanks := by
  intro t piece rest more hr h
  simp only [blanks, Option.some.injEq, Prod.mk.injEq] at h ⊢
  obtain ⟨rfl, rfl⟩ := h
  exact takeWhile_dropWhile_append hr more

/-- Blanks stay what they are when text behind them is cut off. -/
theorem blanks_stable : Stable blanks := by
  intro piece kept dropped h
  simp only [blanks, Option.some.injEq, Prod.mk.injEq] at h ⊢
  exact takeWhile_dropWhile_kept h.1

/-- A gap is blanks of which there are some. -/
theorem gap_eq_some_iff {t piece rest : Text} :
    gap t = some (piece, rest) ↔ blanks t = some (piece, rest) ∧ piece ≠ [] := by
  unfold gap blanks
  constructor
  · intro h
    split at h
    · cases h
    · next hn =>
      simp only [Option.some.injEq, Prod.mk.injEq] at h
      exact ⟨by rw [h.1, h.2], by simpa [h.1] using hn⟩
  · rintro ⟨h, hn⟩
    simp only [Option.some.injEq, Prod.mk.injEq] at h
    rw [if_neg (by simpa [h.1] using hn), h.1, h.2]

/-- A gap is not changed by more text when something follows it. -/
theorem gap_settles : Settles gap := by
  intro t piece rest more hr h
  rw [gap_eq_some_iff] at h ⊢
  exact ⟨blanks_settles t piece rest more hr h.1, h.2⟩

/-- A gap stays what it is when text behind it is cut off. -/
theorem gap_stable : Stable gap := by
  intro piece kept dropped h
  rw [gap_eq_some_iff] at h ⊢
  exact ⟨blanks_stable piece kept dropped h.1, h.2⟩

/-- An identifier is not changed by more text when something follows it. -/
theorem identifier_settles : Settles identifier := by
  intro t piece rest more hr h
  cases t with
  | nil => cases h
  | cons c r =>
    simp only [identifier, List.cons_append] at h ⊢
    split at h
    · next hc =>
      simp only [Option.some.injEq, Prod.mk.injEq] at h
      obtain ⟨rfl, rfl⟩ := h
      have hrun := takeWhile_dropWhile_append hr more
      rw [if_pos hc, hrun.1, hrun.2]
    · cases h

/-- An identifier stays what it is when text behind it is cut off. -/
theorem identifier_stable : Stable identifier := by
  intro piece kept dropped h
  cases piece with
  | nil => exact absurd rfl (identifier_advances _ _ _ h)
  | cons c r =>
    simp only [identifier, List.cons_append] at h ⊢
    split at h
    · next hc =>
      simp only [Option.some.injEq, Prod.mk.injEq, List.cons.injEq, true_and] at h
      have hrun := takeWhile_dropWhile_kept h.1
      rw [if_pos hc, hrun.1, hrun.2]
    · cases h

/-- A quoted literal is a quote, a run without that quote and line feeds, and
the same quote again. -/
theorem quoted_eq_some_iff {t piece rest : Text} :
    quoted t = some (piece, rest) ↔
      ∃ quote inner, (quote = '\'' ∨ quote = '"') ∧ (∀ c ∈ inner, c ≠ quote ∧ c ≠ '\n') ∧
        piece = quote :: (inner ++ [quote]) ∧ t = piece ++ rest := by
  constructor
  · intro h
    have ht := quoted_exact _ _ _ h
    cases t with
    | nil => cases h
    | cons quote r =>
      simp only [quoted] at h
      split at h
      · next hq =>
        split at h
        · cases h
        · next c tail hd =>
          split at h
          · next hc =>
            subst hc
            simp only [Option.some.injEq, Prod.mk.injEq] at h
            refine ⟨c, r.takeWhile fun x => decide (x ≠ c ∧ x ≠ '\n'), hq, ?_, h.1.symm, ht⟩
            intro x hx
            simpa using List.all_eq_true.1 List.all_takeWhile x hx
          · cases h
      · cases h
  · rintro ⟨quote, inner, hq, hi, rfl, rfl⟩
    have hrun : ∀ x ∈ inner, decide (x ≠ quote ∧ x ≠ '\n') = true := by simpa using hi
    simp only [quoted, List.cons_append, List.append_assoc, List.nil_append, if_pos hq,
      List.takeWhile_append_of_pos hrun, List.dropWhile_append_of_pos hrun]
    simp

/-- A literal is not changed by more text. -/
theorem quoted_firm : Firm quoted := by
  intro t piece rest more h
  rw [quoted_eq_some_iff] at h ⊢
  obtain ⟨quote, inner, hq, hi, hp, rfl⟩ := h
  exact ⟨quote, inner, hq, hi, hp, by rw [List.append_assoc]⟩

/-- A literal stays what it is when text behind it is cut off. -/
theorem quoted_stable : Stable quoted := by
  intro piece kept dropped h
  rw [quoted_eq_some_iff] at h ⊢
  obtain ⟨quote, inner, hq, hi, hp, _⟩ := h
  exact ⟨quote, inner, hq, hi, hp, rfl⟩

end Pieces

section Combinators

variable {first second m : Matcher} {start : Option Char → Bool}

/-- What one matcher leaves to another that takes something is not empty. -/
theorem rest_ne_nil {t piece rest : Text} (he : Exact second) (ha : Advances second)
    (h : second t = some (piece, rest)) : t ≠ [] := by
  have hp := ha _ _ _ h
  rw [he _ _ _ h]
  simp [hp]

/-- Two matchers in a row settle when both do. -/
theorem andThen_settles (h₁ : Settles first) (h₂ : Settles second) (he : Exact second) :
    Settles (andThen first second) := by
  intro t piece rest more hr h
  rw [andThen_eq_some_iff] at h ⊢
  obtain ⟨a, r, b, ha, hb, rfl⟩ := h
  have hne : r ≠ [] := by rw [he _ _ _ hb]; simp [hr]
  exact ⟨a, r ++ more, b, h₁ _ _ _ more hne ha, h₂ _ _ _ more hr hb, rfl⟩

/-- A second match that no text changes makes both firm. -/
theorem andThen_firm (h₁ : Settles first) (h₂ : Firm second) (he : Exact second)
    (ha : Advances second) : Firm (andThen first second) := by
  intro t piece rest more h
  rw [andThen_eq_some_iff] at h ⊢
  obtain ⟨a, r, b, hf, hs, rfl⟩ := h
  exact ⟨a, r ++ more, b, h₁ _ _ _ more (rest_ne_nil he ha hs) hf, h₂ _ _ _ more hs, rfl⟩

/-- Both matchers succeed when the second one does behind the first. -/
theorem andThen_isSome_iff {t : Text} :
    (andThen first second t).isSome ↔ ∃ a r, first t = some (a, r) ∧ (second r).isSome := by
  unfold andThen
  cases first t with
  | none => simp
  | some found =>
    simp only [Option.isSome_map, Option.some.injEq]
    constructor
    · exact fun h => ⟨found.1, found.2, rfl, h⟩
    · rintro ⟨a, r, rfl, h⟩
      exact h

/-- A match that stays when the text goes on does so before one that is always
there. -/
theorem andThen_grows_of_total (h₁ : Grows first) (h₂ : Total second) :
    Grows (andThen first second) := by
  intro t more h
  rw [andThen_isSome_iff] at h ⊢
  obtain ⟨a, r, hf, _⟩ := h
  obtain ⟨⟨b, s⟩, hm⟩ := Option.isSome_iff_exists.1 (h₁ t more (by rw [hf]; rfl))
  exact ⟨b, s, hm, h₂ s⟩

/-- A match behind one that settles is there when the text goes on. -/
theorem andThen_grows (h₁ : Settles first) (h₂ : Grows second) (he : Exact second)
    (ha : Advances second) : Grows (andThen first second) := by
  intro t more h
  rw [andThen_isSome_iff] at h ⊢
  obtain ⟨a, r, hf, hs⟩ := h
  obtain ⟨⟨b, s⟩, hb⟩ := Option.isSome_iff_exists.1 hs
  exact ⟨a, r ++ more, h₁ _ _ _ more (rest_ne_nil he ha hb) hf, h₂ r more hs⟩

/-- Two matchers that always succeed do so in a row. -/
theorem andThen_total (h₁ : Total first) (h₂ : Total second) : Total (andThen first second) := by
  intro t
  obtain ⟨⟨a, r⟩, hf⟩ := Option.isSome_iff_exists.1 (h₁ t)
  exact andThen_isSome_iff.2 ⟨a, r, hf, h₂ r⟩

/-- Two stable matchers are stable in a row. -/
theorem andThen_stable (h₁ : Stable first) (h₂ : Stable second) (he : Exact second) :
    Stable (andThen first second) := by
  intro piece kept dropped h
  rw [andThen_eq_some_iff] at h ⊢
  obtain ⟨a, r, b, hf, hs, rfl⟩ := h
  have hr := he _ _ _ hs
  rw [hr] at hf hs
  rw [List.append_assoc] at hf ⊢
  have hk := h₁ a (b ++ kept) dropped (by rw [List.append_assoc]; exact hf)
  exact ⟨a, b ++ kept, b, hk, h₂ b kept dropped hs, rfl⟩

/-- A choice succeeds when one of its matchers does. -/
theorem orElse_isSome_iff {t : Text} :
    (orElse first second t).isSome ↔ (first t).isSome ∨ (second t).isSome := by
  unfold orElse
  cases first t <;> simp

/-- A choice has a match when the text goes on, if both its matchers do. -/
theorem orElse_grows (h₁ : Grows first) (h₂ : Grows second) : Grows (orElse first second) := by
  intro t more h
  rw [orElse_isSome_iff] at h ⊢
  exact h.imp (h₁ t more) (h₂ t more)

/-- Without a first match the choice is the second matcher. -/
theorem orElse_of_none {t : Text} (h : first t = none) : orElse first second t = second t := by
  unfold orElse
  rw [h]

/-- With a first match the choice takes it. -/
theorem orElse_of_some {t : Text} {found : Text × Text} (h : first t = some found) :
    orElse first second t = some found := by
  unfold orElse
  rw [h]

/-- The second matcher of a choice is stable only if the first does not come to
match when text is cut off. -/
theorem orElse_stable (h₁ : Stable first) (h₂ : Stable second) (hg : Grows first) :
    Stable (orElse first second) := by
  intro piece kept dropped h
  cases hf : first (piece ++ (kept ++ dropped)) with
  | some found =>
    rw [orElse_of_some hf] at h
    exact orElse_of_some (h₁ _ _ _ (hf.trans h))
  | none =>
    rw [orElse_of_none hf] at h
    rw [← List.append_assoc] at hf
    rw [orElse_of_none (hg.eq_none hf)]
    exact h₂ _ _ _ h

/-- What may be left out is in every text. -/
theorem optional_total : Total (optional m) :=
  fun t => orElse_isSome_iff.2 (.inr (nothing_total t))

/-- A stable matcher may be left out when it grows with the text. -/
theorem optional_stable (h : Stable m) (hg : Grows m) : Stable (optional m) :=
  orElse_stable h nothing_stable hg

/-- A leftmost match either starts here or, where none does, further on. -/
theorem upTo_cons (previous : Option Char) (c : Char) (r : Text) :
    upTo start m previous (c :: r) =
      match if start previous then m (c :: r) else none with
      | some found => some found
      | none => (upTo start m (some c) r).map fun found => (c :: found.1, found.2) := rfl

/-- A search succeeds at the first character or behind it. -/
theorem upTo_cons_isSome_iff (previous : Option Char) (c : Char) (r : Text) :
    (upTo start m previous (c :: r)).isSome ↔
      start previous ∧ (m (c :: r)).isSome ∨ (upTo start m (some c) r).isSome := by
  rw [upTo_cons]
  cases hs : start previous with
  | false => simp
  | true => cases hm : m (c :: r) <;> simp

/-- A search has a match when the text goes on, if the match has. -/
theorem upTo_grows (h : Grows m) (previous : Option Char) : Grows (upTo start m previous) := by
  intro t more
  induction t generalizing previous with
  | nil =>
    intro hs
    simp only [upTo] at hs
    split at hs
    · next hp =>
      have hm := h [] more hs
      cases more with
      | nil => simpa [upTo, hp] using hm
      | cons c r => exact (upTo_cons_isSome_iff previous c r).2 (.inl ⟨hp, hm⟩)
    · cases hs
  | cons c r ih =>
    intro hs
    rw [List.cons_append, upTo_cons_isSome_iff]
    rw [upTo_cons_isSome_iff] at hs
    exact hs.imp (fun hp => ⟨hp.1, h (c :: r) more hp.2⟩) (ih (some c))

/-- The leftmost match stays leftmost: a shorter text has no earlier one. -/
theorem upTo_stable (h : Stable m) (hg : Grows m) (previous : Option Char) :
    Stable (upTo start m previous) := by
  intro piece
  induction piece generalizing previous with
  | nil =>
    intro kept dropped hm
    cases kept with
    | nil =>
      cases dropped with
      | nil => exact hm
      | cons c r =>
        rw [List.nil_append, List.nil_append, upTo_cons] at hm
        split at hm
        · next found hf =>
          split at hf
          · next hp =>
            simp only [upTo, List.nil_append, if_pos hp]
            exact h [] [] (c :: r) (hf.trans hm)
          · cases hf
        · simp at hm
    | cons c r =>
      rw [List.nil_append, List.cons_append, upTo_cons] at hm
      split at hm
      · next found hf =>
        split at hf
        · next hp =>
          have hk := h [] (c :: r) dropped (hf.trans hm)
          simp only [List.nil_append] at hk
          rw [List.nil_append, upTo_cons, if_pos hp, hk]
        · cases hf
      · simp at hm
  | cons c r ih =>
    intro kept dropped hm
    rw [List.cons_append, upTo_cons] at hm ⊢
    split at hm
    · next found hf =>
      split at hf
      · next hp =>
        have hk := h (c :: r) kept dropped (hf.trans hm)
        rw [List.cons_append] at hk
        rw [if_pos hp, hk]
      · cases hf
    · next hf =>
      simp only [Option.map_eq_some_iff, Prod.mk.injEq, List.cons.injEq, true_and,
        Prod.exists] at hm
      obtain ⟨a, b, hu, rfl, rfl⟩ := hm
      have hn : (if start previous then m (c :: (a ++ kept)) else none) = none := by
        split at hf
        · next hp =>
          rw [if_pos hp]
          rw [← List.append_assoc, ← List.cons_append] at hf
          exact hg.eq_none hf
        · next hp => exact if_neg hp
      rw [hn, ih (some c) kept dropped hu]
      rfl

end Combinators

end ModuleScripts.Matcher
