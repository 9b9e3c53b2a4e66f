import ModuleScripts.Text.Blank
import ModuleScripts.Text.CharClass

/-!
# Matchers

A matcher takes a piece off the start of a text and returns the piece and what
follows it. Every matcher here is exact: the piece and the rest make up the
text. The combinators keep that law, so a cut made by any of them loses
nothing.
-/

namespace ModuleScripts

/-- Takes a piece off the start of a text, or fails. -/
abbrev Matcher := Text → Option (Text × Text)

namespace Matcher

/-- The piece and the rest make up the text. -/
def Exact (m : Matcher) : Prop := ∀ t piece rest, m t = some (piece, rest) → t = piece ++ rest

/-- A piece is never empty. -/
def Advances (m : Matcher) : Prop := ∀ t piece rest, m t = some (piece, rest) → piece ≠ []

/-- The empty piece. -/
def nothing : Matcher := fun t => some ([], t)

/-- The empty piece leaves the text as it is. -/
theorem nothing_exact : Exact nothing := by
  intro t piece rest h
  simp only [nothing, Option.some.injEq, Prod.mk.injEq] at h
  obtain ⟨rfl, rfl⟩ := h
  rfl

/-- A fixed piece. -/
def literal (word : Text) : Matcher := fun t => (Text.dropPrefix? word t).map (word, ·)

/-- A word is cut off without loss. -/
theorem literal_exact (word : Text) : Exact (literal word) := by
  intro t piece rest h
  simp only [literal, Option.map_eq_some_iff, Prod.mk.injEq] at h
  obtain ⟨r, hr, rfl, rfl⟩ := h
  exact Text.dropPrefix?_eq_some_iff.1 hr

/-- A literal word that is not empty takes something. -/
theorem literal_advances {word : Text} (hw : word ≠ []) : Advances (literal word) := by
  intro t piece rest h
  simp only [literal, Option.map_eq_some_iff, Prod.mk.injEq] at h
  obtain ⟨r, _, rfl, _⟩ := h
  exact hw

/-- The maximal run of blanks, which may be empty. -/
def blanks : Matcher := fun t => some (Text.leading t, Text.trimStart t)

/-- Blanks are cut off without loss. -/
theorem blanks_exact : Exact blanks := by
  intro t piece rest h
  simp only [blanks, Option.some.injEq, Prod.mk.injEq] at h
  obtain ⟨rfl, rfl⟩ := h
  exact (Text.leading_append_trimStart t).symm

/-- The maximal run of blanks, of which there is at least one. -/
def gap : Matcher := fun t =>
  if (Text.leading t).isEmpty then none else some (Text.leading t, Text.trimStart t)

/-- A gap is cut off without loss. -/
theorem gap_exact : Exact gap := by
  intro t piece rest h
  unfold gap at h
  split at h
  · cases h
  · simp only [Option.some.injEq, Prod.mk.injEq] at h
    obtain ⟨rfl, rfl⟩ := h
    exact (Text.leading_append_trimStart t).symm

/-- One piece behind the other. -/
def andThen (first second : Matcher) : Matcher := fun t =>
  match first t with
  | none => none
  | some (a, r) => (second r).map fun found => (a ++ found.1, found.2)

/-- Two matchers in a row succeed where the second one goes on behind the
first, and their pieces are joined. -/
theorem andThen_eq_some_iff {first second : Matcher} {t piece rest : Text} :
    andThen first second t = some (piece, rest) ↔
      ∃ a r b, first t = some (a, r) ∧ second r = some (b, rest) ∧ piece = a ++ b := by
  unfold andThen
  cases h : first t with
  | none => simp
  | some p =>
    obtain ⟨a, r⟩ := p
    simp only [Option.map_eq_some_iff, Prod.mk.injEq, Option.some.injEq, Prod.exists]
    constructor
    · rintro ⟨b, r', hb, rfl, rfl⟩
      exact ⟨a, r, b, ⟨rfl, rfl⟩, hb, rfl⟩
    · rintro ⟨a', r', b, ⟨rfl, rfl⟩, hb, rfl⟩
      exact ⟨b, rest, hb, rfl, rfl⟩

/-- Two lossless matchers in a row are lossless. -/
theorem andThen_exact {first second : Matcher} (h₁ : Exact first) (h₂ : Exact second) :
    Exact (andThen first second) := by
  intro t piece rest h
  obtain ⟨a, r, b, ha, hb, rfl⟩ := andThen_eq_some_iff.1 h
  rw [h₁ _ _ _ ha, h₂ _ _ _ hb, List.append_assoc]

/-- Two matchers in a row take something when the first one does. -/
theorem andThen_advances {first second : Matcher} (h : Advances first) :
    Advances (andThen first second) := by
  intro t piece rest hm
  obtain ⟨a, r, b, ha, _, rfl⟩ := andThen_eq_some_iff.1 hm
  simp [h _ _ _ ha]

/-- Two matchers in a row take something when the second one does. -/
theorem andThen_advances_of_second {first second : Matcher} (h : Advances second) :
    Advances (andThen first second) := by
  intro t piece rest hm
  obtain ⟨a, r, b, _, hb, rfl⟩ := andThen_eq_some_iff.1 hm
  simp [h _ _ _ hb]

/-- The first of two matchers that succeeds. -/
def orElse (first second : Matcher) : Matcher := fun t =>
  match first t with
  | some found => some found
  | none => second t

/-- A choice finds what one of its two matchers finds. -/
theorem orElse_eq_some {first second : Matcher} {t : Text} {found : Text × Text}
    (h : orElse first second t = some found) : first t = some found ∨ second t = some found := by
  unfold orElse at h
  cases hf : first t with
  | none => rw [hf] at h; exact .inr h
  | some x => rw [hf] at h; exact .inl h

/-- A choice between lossless matchers is lossless. -/
theorem orElse_exact {first second : Matcher} (h₁ : Exact first) (h₂ : Exact second) :
    Exact (orElse first second) := by
  intro t piece rest h
  rcases orElse_eq_some h with h | h
  · exact h₁ _ _ _ h
  · exact h₂ _ _ _ h

/-- A choice between matchers that always take something always takes
something. -/
theorem orElse_advances {first second : Matcher} (h₁ : Advances first) (h₂ : Advances second) :
    Advances (orElse first second) := by
  intro t piece rest h
  rcases orElse_eq_some h with h | h
  · exact h₁ _ _ _ h
  · exact h₂ _ _ _ h

/-- A piece that may be missing. -/
def optional (m : Matcher) : Matcher := orElse m nothing

/-- A lossless matcher stays lossless when it may be left out. -/
theorem optional_exact {m : Matcher} (h : Exact m) : Exact (optional m) :=
  orElse_exact h nothing_exact

/-- The leftmost place where a matcher succeeds behind a character that `start`
allows. The piece reaches from the start of the text to the end of the match. -/
def upTo (start : Option Char → Bool) (m : Matcher) (previous : Option Char) : Matcher
  | [] => if start previous then m [] else none
  | c :: r =>
    match if start previous then m (c :: r) else none with
    | some found => some found
    | none => (upTo start m (some c) r).map fun found => (c :: found.1, found.2)

/-- The leftmost match is cut off without loss, with all that stands before
it. -/
theorem upTo_exact {start : Option Char → Bool} {m : Matcher} (hm : Exact m)
    (previous : Option Char) : Exact (upTo start m previous) := by
  intro t
  induction t generalizing previous with
  | nil =>
    intro piece rest h
    unfold upTo at h
    split at h
    · exact hm _ _ _ h
    · cases h
  | cons c r ih =>
    intro piece rest h
    unfold upTo at h
    split at h
    · next found hf =>
      split at hf
      · cases h; exact hm _ _ _ hf
      · cases hf
    · simp only [Option.map_eq_some_iff, Prod.mk.injEq, Prod.exists] at h
      obtain ⟨a, b, hab, rfl, rfl⟩ := h
      rw [ih _ _ _ hab]
      rfl

/-- The piece up to a match is not empty when the match is not. -/
theorem upTo_advances {start : Option Char → Bool} {m : Matcher} (hm : Advances m)
    (previous : Option Char) : Advances (upTo start m previous) := by
  intro t piece rest h
  cases t with
  | nil =>
    unfold upTo at h
    split at h
    · exact hm _ _ _ h
    · cases h
  | cons c r =>
    unfold upTo at h
    split at h
    · next found hf =>
      split at hf
      · cases h; exact hm _ _ _ hf
      · cases hf
    · simp only [Option.map_eq_some_iff, Prod.mk.injEq, Prod.exists] at h
      obtain ⟨a, b, _, rfl, _⟩ := h
      simp

end Matcher

/-- A character that may start an identifier. -/
def isIdentifierStart (c : Char) : Bool := isAsciiLetter c || c == '_' || c == '$'

/-- A character that may stand inside an identifier. -/
def isIdentifierPart (c : Char) : Bool := isWord c || c == '$'

/-- No word character stands next: the text ends here or goes on otherwise. -/
def atWordEnd : Text → Bool
  | [] => true
  | c :: _ => !isWord c

/-- No word character stands before. -/
def wordMayStart : Option Char → Bool
  | none => true
  | some c => !isWord c

namespace Matcher

/-- The longest identifier. -/
def identifier : Matcher
  | [] => none
  | c :: r =>
    if isIdentifierStart c then
      some (c :: r.takeWhile isIdentifierPart, r.dropWhile isIdentifierPart)
    else none

/-- An identifier is cut off without loss. -/
theorem identifier_exact : Exact identifier := by
  intro t piece rest h
  cases t with
  | nil => cases h
  | cons c r =>
    simp only [identifier] at h
    split at h
    · simp only [Option.some.injEq, Prod.mk.injEq] at h
      obtain ⟨rfl, rfl⟩ := h
      simp [List.takeWhile_append_dropWhile]
    · cases h

/-- An identifier has at least one character. -/
theorem identifier_advances : Advances identifier := by
  intro t piece rest h
  cases t with
  | nil => cases h
  | cons c r =>
    simp only [identifier] at h
    split at h
    · simp only [Option.some.injEq, Prod.mk.injEq] at h
      obtain ⟨rfl, _⟩ := h
      simp
    · cases h

/-- A fixed piece that is not the start of a longer word. -/
def keyword (word : Text) : Matcher := fun t =>
  match literal word t with
  | some (piece, rest) => if atWordEnd rest then some (piece, rest) else none
  | none => none

/-- A keyword is its letters, with no letter of a word behind them. -/
theorem keyword_eq_some {word t : Text} {found : Text × Text} (h : keyword word t = some found) :
    literal word t = some found ∧ atWordEnd found.2 = true := by
  unfold keyword at h
  split at h
  · next piece rest hl =>
    split at h
    · next he => cases h; exact ⟨hl, he⟩
    · cases h
  · cases h

/-- A keyword is cut off without loss. -/
theorem keyword_exact (word : Text) : Exact (keyword word) :=
  fun _ _ _ h => literal_exact word _ _ _ (keyword_eq_some h).1

/-- A literal between two of the same quote, on one line and without escapes. -/
def quoted : Matcher
  | [] => none
  | quote :: r =>
    if quote = '\'' ∨ quote = '"' then
      match r.dropWhile fun c => c ≠ quote ∧ c ≠ '\n' with
      | [] => none
      | c :: rest =>
        if c = quote then
          some (quote :: (r.takeWhile fun c => c ≠ quote ∧ c ≠ '\n') ++ [c], rest)
        else none
    else none

/-- A quoted literal is cut off without loss. -/
theorem quoted_exact : Exact quoted := by
  intro t piece rest h
  cases t with
  | nil => cases h
  | cons quote r =>
    simp only [quoted] at h
    split at h
    · split at h
      · cases h
      · next c tail hd =>
        split at h
        · simp only [Option.some.injEq, Prod.mk.injEq] at h
          obtain ⟨rfl, rfl⟩ := h
          have := List.takeWhile_append_dropWhile (p := fun c => decide (c ≠ quote ∧ c ≠ '\n'))
            (l := r)
          rw [hd] at this
          simp only [List.cons_append, List.append_assoc, List.nil_append]
          rw [this]
        · cases h
    · cases h

/-- A quoted literal holds at least its quotes. -/
theorem quoted_advances : Advances quoted := by
  intro t piece rest h
  cases t with
  | nil => cases h
  | cons quote r =>
    simp only [quoted] at h
    split at h
    · split at h
      · cases h
      · split at h
        · simp only [Option.some.injEq, Prod.mk.injEq] at h
          obtain ⟨rfl, _⟩ := h
          simp
        · cases h
    · cases h

end Matcher

end ModuleScripts
