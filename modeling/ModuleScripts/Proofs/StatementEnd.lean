import ModuleScripts.Proofs.Trimming
import ModuleScripts.Proofs.Truncation

/-!
# Stability of statement ends

The end of an import or an export list is found again in every shorter text
that still holds the statement, and blanks around the text play no part in
whether there is one. A statement can therefore be recognised on a trimmed text
and cut off the untrimmed one.
-/

namespace ModuleScripts.Matcher

/-- A piece ends with a visible character. -/
def Solid (m : Matcher) : Prop := ∀ t piece rest, m t = some (piece, rest) → Text.EndsSolid piece

/-- A piece holds a match of its own that ends with a visible character. -/
def Anchored (m : Matcher) : Prop :=
  ∀ t piece rest, m t = some (piece, rest) →
    ∃ core tail, piece = core ++ tail ∧ Text.EndsSolid core ∧ (m core).isSome

/-- Whether there is a match does not depend on the blanks before it. -/
def SkipsBlanks (m : Matcher) : Prop := ∀ t, (m (Text.trimStart t)).isSome ↔ (m t).isSome

section Laws

variable {first second m : Matcher} {start : Option Char → Bool}

/-- A word that ends with a visible character is solid. -/
theorem literal_solid {word : Text} (h : Text.EndsSolid word) : Solid (literal word) := by
  intro t piece rest hm
  rw [(literal_eq_some_iff.1 hm).1]
  exact h

/-- A literal is solid. -/
theorem quoted_solid : Solid quoted := by
  intro t piece rest h
  obtain ⟨quote, inner, hq, _, rfl, _⟩ := quoted_eq_some_iff.1 h
  refine ⟨quote :: inner, quote, rfl, ?_⟩
  rcases hq with rfl | rfl <;> rfl

/-- Two matchers in a row are solid when the second one is. -/
theorem andThen_solid (h : Solid second) : Solid (andThen first second) := by
  intro t piece rest hm
  obtain ⟨a, r, b, _, hb, rfl⟩ := andThen_eq_some_iff.1 hm
  exact (h _ _ _ hb).append a

/-- A solid matcher stays solid when a solid one may follow. -/
theorem andThen_optional_solid (h₁ : Solid first) (h₂ : Solid second) :
    Solid (andThen first (optional second)) := by
  intro t piece rest hm
  obtain ⟨a, r, b, ha, hb, rfl⟩ := andThen_eq_some_iff.1 hm
  rcases orElse_eq_some hb with hs | hn
  · exact (h₂ _ _ _ hs).append a
  · simp only [nothing, Option.some.injEq, Prod.mk.injEq] at hn
    obtain ⟨rfl, _⟩ := hn
    rw [List.append_nil]
    exact h₁ _ _ _ ha

/-- A choice between solid matchers is solid. -/
theorem orElse_solid (h₁ : Solid first) (h₂ : Solid second) : Solid (orElse first second) := by
  intro t piece rest hm
  rcases orElse_eq_some hm with h | h
  · exact h₁ _ _ _ h
  · exact h₂ _ _ _ h

/-- What may be missing behind a solid piece is no part of its core. -/
theorem andThen_anchored (hs : Solid first) (he : Exact first) (hst : Stable first)
    (ht : Total second) : Anchored (andThen first second) := by
  intro t piece rest h
  obtain ⟨a, r, b, ha, hb, rfl⟩ := andThen_eq_some_iff.1 h
  rw [he _ _ _ ha] at ha
  have hcore := hst a [] r (by simpa using ha)
  rw [List.append_nil] at hcore
  exact ⟨a, b, rfl, hs _ _ _ ha, andThen_isSome_iff.2 ⟨a, [], hcore, ht []⟩⟩

/-- A choice between anchored matchers is anchored. -/
theorem orElse_anchored (h₁ : Anchored first) (h₂ : Anchored second) :
    Anchored (orElse first second) := by
  intro t piece rest hm
  rcases orElse_eq_some hm with h | h
  · obtain ⟨core, tail, hp, hc, hs⟩ := h₁ _ _ _ h
    exact ⟨core, tail, hp, hc, orElse_isSome_iff.2 (.inl hs)⟩
  · obtain ⟨core, tail, hp, hc, hs⟩ := h₂ _ _ _ h
    exact ⟨core, tail, hp, hc, orElse_isSome_iff.2 (.inr hs)⟩

/-- A match at the start of a text is a match in it. -/
theorem upTo_isSome_of_match (previous : Option Char) {t : Text} (hs : start previous = true)
    (h : (m t).isSome) : (upTo start m previous t).isSome := by
  cases t with
  | nil => simpa [upTo, hs] using h
  | cons c r => exact (upTo_cons_isSome_iff previous c r).2 (.inl ⟨hs, h⟩)

/-- The leftmost match is anchored when the match is. -/
theorem upTo_anchored (h : Anchored m) (previous : Option Char) :
    Anchored (upTo start m previous) := by
  intro t
  induction t generalizing previous with
  | nil =>
    intro piece rest hm
    simp only [upTo] at hm
    split at hm
    · next hs =>
      obtain ⟨core, tail, hp, hc, hi⟩ := h _ _ _ hm
      exact ⟨core, tail, hp, hc, upTo_isSome_of_match previous hs hi⟩
    · cases hm
  | cons c r ih =>
    intro piece rest hm
    rw [upTo_cons] at hm
    split at hm
    · next found hf =>
      split at hf
      · next hs =>
        obtain ⟨core, tail, hp, hc, hi⟩ := h _ _ _ (hf.trans hm)
        exact ⟨core, tail, hp, hc, upTo_isSome_of_match previous hs hi⟩
      · cases hf
    · simp only [Option.map_eq_some_iff, Prod.mk.injEq, Prod.exists] at hm
      obtain ⟨a, b, hu, rfl, _⟩ := hm
      obtain ⟨core, tail, rfl, hc, hi⟩ := ih (some c) _ _ hu
      exact ⟨c :: core, tail, rfl, hc.append [c],
        (upTo_cons_isSome_iff previous c core).2 (.inr hi)⟩

/-- Three matchers in a row may be grouped either way. -/
theorem andThen_assoc (a b c : Matcher) : (a.andThen b).andThen c = a.andThen (b.andThen c) := by
  funext t
  unfold andThen
  cases a t with
  | none => rfl
  | some x =>
    obtain ⟨p, r⟩ := x
    cases hb : b r with
    | none => simp [hb]
    | some y =>
      obtain ⟨q, s⟩ := y
      cases hc : c s <;> simp [hb, hc]

/-- Behind blanks there is a match when the text without them has one. -/
theorem blanks_andThen_isSome_iff (m : Matcher) (t : Text) :
    (blanks.andThen m t).isSome ↔ (m (Text.trimStart t)).isSome := by
  rw [andThen_isSome_iff]
  simp [blanks]

/-- Blanks before a matcher that takes them do not matter. -/
theorem blanks_andThen_skipsBlanks (m : Matcher) : SkipsBlanks (blanks.andThen m) := by
  intro t
  rw [blanks_andThen_isSome_iff, blanks_andThen_isSome_iff, Text.trimStart_trimStart]

/-- A choice skips blanks when both its matchers do. -/
theorem orElse_skipsBlanks (h₁ : SkipsBlanks first) (h₂ : SkipsBlanks second) :
    SkipsBlanks (orElse first second) := by
  intro t
  rw [orElse_isSome_iff, orElse_isSome_iff, h₁ t, h₂ t]

/-- Of what stands before a text a leftmost search only asks whether a match
may start there. -/
theorem upTo_congr {previous other : Option Char} (h : start previous = start other) (t : Text) :
    upTo start m previous t = upTo start m other t := by
  cases t with
  | nil => simp only [upTo, h]
  | cons c r => rw [upTo_cons, upTo_cons, h]

/-- A search skips blanks where no match starts with one. -/
theorem upTo_skipsBlanks (hm : ∀ c r, isBlank c = true → m (c :: r) = none)
    (hs : ∀ c, isBlank c = true → start (some c) = true) (h : start none = true) :
    SkipsBlanks (upTo start m none) := by
  intro t
  induction t with
  | nil => exact Iff.rfl
  | cons c r ih =>
    cases hc : isBlank c with
    | true =>
      rw [Text.trimStart_cons_of_isBlank hc, ih, upTo_cons_isSome_iff, hm c r hc,
        upTo_congr ((hs c hc).trans h.symm)]
      simp
    | false => rw [Text.trimStart_cons_of_not_isBlank hc]

/-- Without the first match there is none of both. -/
theorem andThen_eq_none {t : Text} (h : first t = none) : andThen first second t = none := by
  unfold andThen
  rw [h]

/-- Without the second match there is none of both. -/
theorem andThen_eq_none_of_some {t a r : Text} (ha : first t = some (a, r)) (h : second r = none) :
    andThen first second t = none := by
  unfold andThen
  rw [ha]
  simp only [h, Option.map_none]

/-- Trimming a text neither takes a match from it nor gives it one. -/
theorem isSome_trim_iff (ha : Anchored m) (hb : SkipsBlanks m) (hg : Grows m) (he : Exact m)
    {t : Text} : (m (Text.trim t)).isSome ↔ (m t).isSome := by
  constructor
  · intro h
    rw [← hb t, ← Text.trimEnd_append_trailing (Text.trimStart t)]
    exact hg _ _ h
  · intro h
    obtain ⟨⟨piece, rest⟩, hp⟩ := Option.isSome_iff_exists.1 ((hb t).2 h)
    obtain ⟨core, tail, rfl, hc, hs⟩ := ha _ _ _ hp
    have ht := he _ _ _ hp
    unfold Text.trim
    rw [ht, List.append_assoc, Text.trimEnd_append hc]
    exact hg core _ hs

end Laws

end ModuleScripts.Matcher

namespace ModuleScripts.Boundary

open Matcher

/-- Every text has a terminator, which may be empty. -/
theorem terminator_total : Total terminator := andThen_total blanks_total optional_total

/-- A terminator stays what it is when text behind it is cut off. -/
theorem terminator_stable : Stable terminator :=
  andThen_stable blanks_stable (optional_stable (literal_stable _) (literal_firm _).grows)
    (optional_exact (literal_exact _))

/-- A source is not changed by more text. -/
theorem source_firm : Firm source :=
  andThen_firm (andThen_settles (literal_firm _).settles blanks_settles blanks_exact) quoted_firm
    quoted_exact quoted_advances

/-- A source stays what it is when text behind it is cut off. -/
theorem source_stable : Stable source :=
  andThen_stable (andThen_stable (literal_stable _) blanks_stable blanks_exact) quoted_stable
    quoted_exact

/-- A source ends with its closing quote. -/
theorem source_solid : Solid source := andThen_solid quoted_solid

/-- A specifier behind blanks, as it follows a star or a closing brace. -/
theorem blanks_source_firm : Firm (blanks.andThen source) :=
  andThen_firm blanks_settles source_firm source_exact source_advances

/-- A source behind blanks stays what it is when text behind it is cut off. -/
theorem blanks_source_stable : Stable (blanks.andThen source) :=
  andThen_stable blanks_stable source_stable source_exact

/-- The keyword of an import, blanks and a specifier, without what may end it. -/
theorem bareImport_eq :
    bareImport = (((blanks.andThen (literal "import".toList)).andThen blanks).andThen
      quoted).andThen terminator := rfl

section BareImport

/-- The keyword of an import is not changed by more text when something follows
it. -/
theorem importKeyword_settles :
    Settles ((blanks.andThen (literal "import".toList)).andThen blanks) :=
  andThen_settles (andThen_settles blanks_settles (literal_firm _).settles (literal_exact _))
    blanks_settles blanks_exact

/-- The keyword of an import stays what it is when text behind it is cut
off. -/
theorem importKeyword_stable :
    Stable ((blanks.andThen (literal "import".toList)).andThen blanks) :=
  andThen_stable (andThen_stable blanks_stable (literal_stable _) (literal_exact _)) blanks_stable
    blanks_exact

/-- The keyword of an import is cut off without loss. -/
theorem importKeyword_exact :
    Exact ((blanks.andThen (literal "import".toList)).andThen blanks) :=
  andThen_exact (andThen_exact blanks_exact (literal_exact _)) blanks_exact

/-- A text with a bare import has one when it goes on. -/
theorem bareImport_grows : Grows bareImport :=
  andThen_grows_of_total
    (andThen_firm importKeyword_settles quoted_firm quoted_exact quoted_advances).grows
    terminator_total

/-- A bare import stays what it is when text behind it is cut off. -/
theorem bareImport_stable : Stable bareImport :=
  andThen_stable (andThen_stable importKeyword_stable quoted_stable quoted_exact)
    terminator_stable terminator_exact

/-- A bare import ends visibly up to its terminator. -/
theorem bareImport_anchored : Anchored bareImport :=
  andThen_anchored (andThen_solid quoted_solid) (andThen_exact importKeyword_exact quoted_exact)
    (andThen_stable importKeyword_stable quoted_stable quoted_exact) terminator_total

/-- The blanks before a bare import do not matter. -/
theorem bareImport_skipsBlanks : SkipsBlanks bareImport := by
  rw [bareImport_eq]
  simp only [andThen_assoc]
  exact blanks_andThen_skipsBlanks _

end BareImport

section ImportEnd

/-- A text with a terminated source has one when it goes on. -/
theorem source_terminator_grows : Grows (source.andThen terminator) :=
  andThen_grows_of_total source_firm.grows terminator_total

/-- A terminated source stays what it is when text behind it is cut off. -/
theorem source_terminator_stable : Stable (source.andThen terminator) :=
  andThen_stable source_stable terminator_stable terminator_exact

/-- A text with the end of an import has one when it goes on. -/
theorem importEnd_grows : Grows importEnd :=
  orElse_grows bareImport_grows (upTo_grows source_terminator_grows none)

/-- The end of an import stays what it is when text behind it is cut off. -/
theorem importEnd_stable : Stable importEnd :=
  orElse_stable bareImport_stable
    (upTo_stable source_terminator_stable source_terminator_grows none)
    bareImport_grows

/-- An import ends visibly up to its terminator. -/
theorem importEnd_anchored : Anchored importEnd :=
  orElse_anchored bareImport_anchored
    (upTo_anchored (andThen_anchored source_solid source_exact source_stable terminator_total) none)

/-- A source starts with the first letter of its word. -/
theorem source_cons_eq_none {c : Char} (h : c ≠ 'f') (r : Text) : source (c :: r) = none :=
  andThen_eq_none (andThen_eq_none (literal_cons_eq_none h _ r))

/-- The blanks before an import do not matter to its end. -/
theorem importEnd_skipsBlanks : SkipsBlanks importEnd :=
  orElse_skipsBlanks bareImport_skipsBlanks
    (upTo_skipsBlanks
      (fun c r h => andThen_eq_none (source_cons_eq_none (by rintro rfl; cases h) r))
      (fun c h => by simp [wordMayStart, isWord_of_isBlank h]) rfl)

/-- Whether an import has an end does not depend on the blanks around it. -/
theorem importEnd_trim_iff {t : Text} :
    (importEnd (Text.trim t)).isSome ↔ (importEnd t).isSome :=
  isSome_trim_iff importEnd_anchored importEnd_skipsBlanks importEnd_grows importEnd_exact

end ImportEnd

section ExportListEnd

/-- A matcher under a condition that does not look at the text. -/
theorem guarded_firm {p : Prop} [Decidable p] {m : Matcher} (h : Firm m) :
    Firm fun t => if p then m t else none := by
  intro t piece rest more hm
  dsimp only at hm ⊢
  split at hm
  · next hp => rw [if_pos hp]; exact h _ _ _ more hm
  · cases hm

/-- A stable matcher is stable under a condition. -/
theorem guarded_stable {p : Prop} [Decidable p] {m : Matcher} (h : Stable m) :
    Stable fun t => if p then m t else none := by
  intro piece kept dropped hm
  dsimp only at hm ⊢
  split at hm
  · next hp => rw [if_pos hp]; exact h _ _ _ hm
  · cases hm

/-- A solid matcher is solid under a condition. -/
theorem guarded_solid {p : Prop} [Decidable p] {m : Matcher} (h : Solid m) :
    Solid fun t => if p then m t else none := by
  intro t piece rest hm
  dsimp only at hm
  split at hm
  · exact h _ _ _ hm
  · cases hm

/-- A literal behind blanks is not changed by more text. -/
theorem blanks_quoted_firm : Firm (blanks.andThen quoted) :=
  andThen_firm blanks_settles quoted_firm quoted_exact quoted_advances

/-- A text with a specifier behind a name has one when it goes on. -/
theorem behindName_grows (name : Text) : Grows (behindName name) :=
  orElse_grows blanks_source_firm.grows (guarded_firm blanks_quoted_firm).grows

/-- A specifier behind a name stays what it is when text behind it is cut
off. -/
theorem behindName_stable (name : Text) : Stable (behindName name) :=
  orElse_stable blanks_source_stable
    (guarded_stable (andThen_stable blanks_stable quoted_stable quoted_exact))
    blanks_source_firm.grows

/-- What follows a name ends with its specifier. -/
theorem behindName_solid (name : Text) : Solid (behindName name) :=
  orElse_solid (andThen_solid source_solid) (guarded_solid (andThen_solid quoted_solid))

/-- A name always leaves something to the word or the specifier behind it. -/
theorem behindName_rest_ne_nil {name t tail rest : Text}
    (h : behindName name t = some (tail, rest)) : t ≠ [] := by
  obtain ⟨start, c, rfl, _⟩ := behindName_solid name _ _ _ h
  rw [behindName_exact name _ _ _ h]
  simp

/-- A text with a named star has one when it goes on. -/
theorem nameFrom_grows : Grows nameFrom := by
  intro t more h
  obtain ⟨⟨piece, rest⟩, hp⟩ := Option.isSome_iff_exists.1 h
  obtain ⟨name, r, tail, hn, hb, rfl⟩ := nameFrom_eq_some_iff.1 hp
  have hm := identifier_settles _ _ _ more (behindName_rest_ne_nil hb) hn
  have hs := behindName_grows name r more (by rw [hb]; rfl)
  obtain ⟨⟨tail', rest'⟩, hb'⟩ := Option.isSome_iff_exists.1 hs
  exact Option.isSome_iff_exists.2
    ⟨(name ++ tail', rest'), nameFrom_eq_some_iff.2 ⟨name, _, tail', hm, hb', rfl⟩⟩

/-- A named star stays what it is when text behind it is cut off. -/
theorem nameFrom_stable : Stable nameFrom := by
  intro piece kept dropped h
  obtain ⟨name, r, tail, hn, hb, rfl⟩ := nameFrom_eq_some_iff.1 h
  rw [behindName_exact name _ _ _ hb] at hn hb
  rw [List.append_assoc] at hn
  have hk := identifier_stable name (tail ++ kept) dropped (by rw [List.append_assoc]; exact hn)
  rw [List.append_assoc]
  exact nameFrom_eq_some_iff.2 ⟨name, _, tail, hk, behindName_stable name _ _ _ hb, rfl⟩

/-- A named star ends with its specifier. -/
theorem nameFrom_solid : Solid nameFrom := by
  intro t piece rest h
  obtain ⟨name, r, tail, _, hb, rfl⟩ := nameFrom_eq_some_iff.1 h
  exact (behindName_solid name _ _ _ hb).append name

/-- A named star is never empty. -/
theorem nameFrom_advances : Advances nameFrom := by
  intro t piece rest h
  obtain ⟨start, c, rfl, _⟩ := nameFrom_solid _ _ _ h
  simp

/-- A text with a renaming has one when it goes on. -/
theorem renamedFrom_grows : Grows renamedFrom :=
  andThen_grows
    (andThen_settles (andThen_settles blanks_settles (literal_firm _).settles (literal_exact _))
      gap_settles gap_exact)
    nameFrom_grows nameFrom_exact nameFrom_advances

/-- A renaming stays what it is when text behind it is cut off. -/
theorem renamedFrom_stable : Stable renamedFrom :=
  andThen_stable
    (andThen_stable (andThen_stable blanks_stable (literal_stable _) (literal_exact _)) gap_stable
      gap_exact)
    nameFrom_stable nameFrom_exact

/-- A text with a star export has one when it goes on. -/
theorem star_grows : Grows star :=
  andThen_grows (literal_firm _).settles
    (orElse_grows renamedFrom_grows blanks_source_firm.grows)
    (orElse_exact renamedFrom_exact (andThen_exact blanks_exact source_exact))
    (orElse_advances (andThen_advances_of_second nameFrom_advances)
      (andThen_advances_of_second source_advances))

/-- A star export stays what it is when text behind it is cut off. -/
theorem star_stable : Stable star :=
  andThen_stable (literal_stable _)
    (orElse_stable renamedFrom_stable blanks_source_stable renamedFrom_grows)
    (orElse_exact renamedFrom_exact (andThen_exact blanks_exact source_exact))

/-- A star export ends with its specifier. -/
theorem star_solid : Solid star :=
  andThen_solid (orElse_solid (andThen_solid nameFrom_solid) (andThen_solid source_solid))

/-- A text with a closing brace has one when it goes on. -/
theorem closingBrace_grows : Grows closingBrace :=
  andThen_grows_of_total (literal_firm _).grows optional_total

/-- A closing brace stays what it is when text behind it is cut off. -/
theorem closingBrace_stable : Stable closingBrace :=
  andThen_stable (literal_stable _) (optional_stable blanks_source_stable blanks_source_firm.grows)
    (optional_exact (andThen_exact blanks_exact source_exact))

/-- A closing brace ends with itself or its specifier. -/
theorem closingBrace_solid : Solid closingBrace :=
  andThen_optional_solid (literal_solid (Text.endsSolid_singleton rfl))
    (andThen_solid source_solid)

/-- The end of an export list at the character where its match starts. -/
theorem listEnd_grows : Grows ((orElse star closingBrace).andThen terminator) :=
  andThen_grows_of_total (orElse_grows star_grows closingBrace_grows) terminator_total

/-- The star or the brace of a list stays what it is when text behind it is cut
off. -/
theorem orElse_star_closingBrace_stable : Stable (orElse star closingBrace) :=
  orElse_stable star_stable closingBrace_stable star_grows

/-- The end of a list stays what it is when text behind it is cut off. -/
theorem listEnd_stable : Stable ((orElse star closingBrace).andThen terminator) :=
  andThen_stable orElse_star_closingBrace_stable terminator_stable terminator_exact

/-- A text with the end of an export list has one when it goes on. -/
theorem exportListEnd_grows : Grows exportListEnd := upTo_grows listEnd_grows none

/-- The end of an export list stays what it is when text behind it is cut
off. -/
theorem exportListEnd_stable : Stable exportListEnd := upTo_stable listEnd_stable listEnd_grows none

/-- An export list ends visibly up to its terminator. -/
theorem exportListEnd_anchored : Anchored exportListEnd :=
  upTo_anchored
    (andThen_anchored (orElse_solid star_solid closingBrace_solid)
      (orElse_exact star_exact closingBrace_exact) orElse_star_closingBrace_stable
      terminator_total)
    none

/-- The end of a list starts with a star or a brace. -/
theorem listEnd_cons_eq_none {c : Char} (hs : c ≠ '*') (hb : c ≠ '}') (r : Text) :
    ((orElse star closingBrace).andThen terminator) (c :: r) = none := by
  refine andThen_eq_none ((orElse_of_none ?_).trans ?_)
  · exact andThen_eq_none (literal_cons_eq_none hs _ r)
  · exact andThen_eq_none (literal_cons_eq_none hb _ r)

/-- The blanks before an export list do not matter to its end. -/
theorem exportListEnd_skipsBlanks : SkipsBlanks exportListEnd :=
  upTo_skipsBlanks
    (fun _ r h => listEnd_cons_eq_none (by rintro rfl; cases h) (by rintro rfl; cases h) r)
    (fun _ _ => rfl) rfl

/-- Whether an export list has an end does not depend on the blanks around it. -/
theorem exportListEnd_trim_iff {t : Text} :
    (exportListEnd (Text.trim t)).isSome ↔ (exportListEnd t).isSome :=
  isSome_trim_iff exportListEnd_anchored exportListEnd_skipsBlanks exportListEnd_grows
    exportListEnd_exact

end ExportListEnd

end ModuleScripts.Boundary
