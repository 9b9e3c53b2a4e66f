import ModuleScripts.Proofs.DeclarationEnd
import ModuleScripts.Source.Parser

/-!
# What a line announces

The start of a line decides which kind of statement is read from it. Where that
is an import or an export list, the part of the line that decides is before the
first quote or closing brace, which every such statement shows, so the statement
announces itself when it is cut off its line.
-/

namespace ModuleScripts

namespace LineHead

/-- Whether a list or a star export goes on in this way. -/
def opensList : Text → Bool
  | [] => false
  | c :: _ => c == '{' || c == '*'

/-- What a line announces when its export is neither list nor star. -/
def ofDeclaration (line afterKeyword : Text) : LineHead :=
  if (variableHead line).isSome then exportVariables
  else
    match afterKeyword with
    | [] => code
    | c :: _ => if opensExport c then exportOther else code

/-- Behind the word `export` a list is told by its first character, and
anything else by its declaration. -/
theorem ofExport_eq (line afterKeyword : Text) :
    ofExport line afterKeyword =
      if opensList (Text.trimStart afterKeyword) then exportList
      else ofDeclaration line afterKeyword := by
  unfold ofExport ofDeclaration
  cases Text.trimStart afterKeyword with
  | nil => rfl
  | cons c r =>
    by_cases hb : c = '{'
    · subst hb; rfl
    · by_cases hs : c = '*'
      · subst hs; rfl
      · cases afterKeyword <;> simp [opensList, hb, hs]

/-- An exported declaration is announced as variables where the line has their
head, or else as another export or as code. -/
theorem ofDeclaration_cases (line afterKeyword : Text) :
    ofDeclaration line afterKeyword = exportVariables ∧ (variableHead line).isSome ∨
      ofDeclaration line afterKeyword = exportOther ∨
      ofDeclaration line afterKeyword = code := by
  unfold ofDeclaration
  split
  · next h => exact .inl ⟨rfl, h⟩
  · split
    · exact .inr (.inr rfl)
    · split
      · exact .inr (.inl rfl)
      · exact .inr (.inr rfl)

/-- A line behind the word `export` is never announced as an import. -/
theorem ofExport_ne_importing (line afterKeyword : Text) :
    ofExport line afterKeyword ≠ importing := by
  rw [ofExport_eq]
  split
  · simp
  · rcases ofDeclaration_cases line afterKeyword with ⟨h, _⟩ | h | h <;> simp [h]

/-- An import is announced by its keyword and one character that may follow
it. -/
theorem ofLine_eq_importing_iff {line : Text} :
    ofLine line = importing ↔
      ∃ c r, Text.trimStart line = "import".toList ++ c :: r ∧ opensImport c = true := by
  unfold ofLine
  constructor
  · intro h
    split at h
    · next c r hd =>
      split at h
      · next ho => exact ⟨c, r, Text.dropPrefix?_eq_some_iff.1 hd, ho⟩
      · cases h
    · cases h
    · split at h
      · exact absurd h (ofExport_ne_importing _ _)
      · cases h
  · rintro ⟨c, r, ht, ho⟩
    rw [Text.dropPrefix?_eq_some_iff.2 ht]
    simp only [ho, if_true]

/-- A line that starts with the keyword of an export. -/
theorem ofLine_of_export {line afterKeyword : Text}
    (h : Text.trimStart line = "export".toList ++ afterKeyword) :
    ofLine line = ofExport line afterKeyword := by
  unfold ofLine
  rw [h]
  have hn : Text.dropPrefix? "import".toList ("export".toList ++ afterKeyword) = none := rfl
  have hs : Text.dropPrefix? "export".toList ("export".toList ++ afterKeyword) =
      some afterKeyword := Text.dropPrefix?_eq_some_iff.2 rfl
  rw [hn]
  dsimp only
  rw [hs]

/-- A line that announces an export starts with the word `export`. -/
theorem exists_export_of_ofLine {line : Text} (hc : ofLine line ≠ code)
    (hi : ofLine line ≠ importing) :
    ∃ afterKeyword, Text.trimStart line = "export".toList ++ afterKeyword := by
  unfold ofLine at hc hi
  split at hc
  · next c r hd =>
    rw [hd] at hi
    dsimp only at hi
    split at hc
    · next ho => exact absurd (if_pos ho) hi
    · exact absurd rfl hc
  · exact absurd rfl hc
  · split at hc
    · next a ha => exact ⟨a, Text.dropPrefix?_eq_some_iff.1 ha⟩
    · exact absurd rfl hc

/-- An export list is announced by its keyword and a brace or a star behind
it. -/
theorem ofLine_eq_exportList_iff {line : Text} :
    ofLine line = exportList ↔
      ∃ afterKeyword, Text.trimStart line = "export".toList ++ afterKeyword ∧
        opensList (Text.trimStart afterKeyword) = true := by
  constructor
  · intro h
    obtain ⟨a, ha⟩ := exists_export_of_ofLine (by rw [h]; simp) (by rw [h]; simp)
    rw [ofLine_of_export ha, ofExport_eq] at h
    split at h
    · next ho => exact ⟨a, ha, ho⟩
    · rcases ofDeclaration_cases line a with ⟨hd, _⟩ | hd | hd <;> simp [hd] at h
  · rintro ⟨a, ha, ho⟩
    rw [ofLine_of_export ha, ofExport_eq, if_pos ho]

/-- What follows the blanks of the head of a variable export is its keyword. -/
theorem exists_keyword_of_variableHead {line : Text} (h : (variableHead line).isSome) :
    ∃ afterKeyword c r, Text.trimStart line = "export".toList ++ afterKeyword ∧
      Text.trimStart afterKeyword = c :: r ∧ (c = 'c' ∨ c = 'l' ∨ c = 'v') := by
  obtain ⟨⟨head, list⟩, hh⟩ := Option.isSome_iff_exists.1 h
  obtain ⟨indent, behind, between, keyword, hindent, hgap, hcases, -, -⟩ :=
    exists_parts_of_variableHead hh
  obtain ⟨hgap, -⟩ := Matcher.gap_eq_some_iff.1 hgap
  simp only [Matcher.blanks, Option.some.injEq, Prod.mk.injEq] at hindent hgap
  refine ⟨behind, ?_⟩
  rw [hindent.2, hgap.2]
  rcases hcases with rfl | rfl | rfl
  · exact ⟨'c', _, rfl, rfl, .inl rfl⟩
  · exact ⟨'l', _, rfl, rfl, .inr (.inl rfl)⟩
  · exact ⟨'v', _, rfl, rfl, .inr (.inr rfl)⟩

/-- A blank stands before the keyword of a variable export. -/
theorem gap_of_variableHead {line a : Text} (h : (variableHead line).isSome)
    (ha : Text.trimStart line = "export".toList ++ a) : (Matcher.gap a).isSome := by
  obtain ⟨⟨head, list⟩, hh⟩ := Option.isSome_iff_exists.1 h
  obtain ⟨indent, behind, between, keyword, hindent, hgap, -, -, -⟩ :=
    exists_parts_of_variableHead hh
  simp only [Matcher.blanks, Option.some.injEq, Prod.mk.injEq] at hindent
  rw [hindent.2] at ha
  have hbehind : behind = a := List.append_cancel_left ha
  rw [← hbehind, hgap]
  rfl

/-- A line that neither keyword starts is code. -/
theorem ofLine_eq_code {line : Text}
    (hi : ∀ c r, Text.trimStart line = "import".toList ++ c :: r → opensImport c = false)
    (he : ∀ c r, Text.trimStart line = "export".toList ++ c :: r → opensExport c = false) :
    ofLine line = code := by
  by_contra hcode
  have himport : ofLine line ≠ importing := by
    intro h
    obtain ⟨c, r, hr, ho⟩ := ofLine_eq_importing_iff.1 h
    rw [hi c r hr] at ho
    cases ho
  obtain ⟨a, ha⟩ := exists_export_of_ofLine hcode himport
  have hvariable : (Matcher.gap a).isSome = false → (variableHead line).isSome = false := by
    intro hgap
    cases hv : (variableHead line).isSome with
    | false => rfl
    | true =>
      rw [gap_of_variableHead hv ha] at hgap
      cases hgap
  refine hcode ?_
  rw [ofLine_of_export ha]
  cases a with
  | nil =>
    have hnone := hvariable (by simp [Matcher.gap, Text.leading])
    rw [ofExport_eq, ofDeclaration, hnone]
    rfl
  | cons c r =>
    have hopens := he c r ha
    simp only [opensExport, Bool.or_eq_false_iff, beq_eq_false_iff_ne] at hopens
    obtain ⟨⟨hblank, hbrace⟩, hstar⟩ := hopens
    have htrim : Text.trimStart (c :: r) = c :: r := List.dropWhile_cons_of_neg (by simp [hblank])
    have hgap : (Matcher.gap (c :: r)).isSome = false := by
      simp [Matcher.gap, Text.leading, hblank]
    have hnone := hvariable hgap
    rw [ofExport_eq, htrim, ofDeclaration, hnone]
    simp [opensList, opensExport, hblank, hbrace, hstar]

/-- Exported variables are announced exactly by their head. -/
theorem ofLine_eq_exportVariables_iff {line : Text} :
    ofLine line = exportVariables ↔ (variableHead line).isSome := by
  constructor
  · intro h
    obtain ⟨a, ha⟩ := exists_export_of_ofLine (by rw [h]; simp) (by rw [h]; simp)
    rw [ofLine_of_export ha, ofExport_eq] at h
    split at h
    · cases h
    · rcases ofDeclaration_cases line a with ⟨_, hv⟩ | hd | hd
      · exact hv
      · simp [hd] at h
      · simp [hd] at h
  · intro h
    obtain ⟨a, c, r, ha, hr, hc⟩ := exists_keyword_of_variableHead h
    have ho : opensList (c :: r) = false := by
      rcases hc with rfl | rfl | rfl <;> rfl
    rw [ofLine_of_export ha, ofExport_eq, hr, ho]
    exact if_pos h

end LineHead

/-- A quote of a specifier. -/
def isQuote (c : Char) : Bool := c == '\'' || c == '"'

namespace Matcher

/-- A piece holds a character of a certain kind. -/
def Shows (p : Char → Bool) (m : Matcher) : Prop :=
  ∀ t piece rest, m t = some (piece, rest) → ∃ c ∈ piece, p c = true

section Shows

variable {p : Char → Bool} {first second m : Matcher} {start : Option Char → Bool}

/-- A word shows its first character. -/
theorem literal_shows {c : Char} (h : p c = true) (word : Text) :
    Shows p (literal (c :: word)) := by
  intro t piece rest hm
  rw [(literal_eq_some_iff.1 hm).1]
  exact ⟨c, List.mem_cons_self, h⟩

/-- A quoted literal shows its quote. -/
theorem quoted_shows (h : ∀ c, isQuote c = true → p c = true) : Shows p quoted := by
  intro t piece rest hm
  obtain ⟨quote, inner, hq, _, rfl, _⟩ := quoted_eq_some_iff.1 hm
  refine ⟨quote, List.mem_cons_self, h quote ?_⟩
  rcases hq with rfl | rfl <;> rfl

/-- What the first of two matchers shows, both in a row show. -/
theorem andThen_shows_left (h : Shows p first) : Shows p (andThen first second) := by
  intro t piece rest hm
  obtain ⟨a, r, b, ha, _, rfl⟩ := andThen_eq_some_iff.1 hm
  obtain ⟨c, hc, hp⟩ := h _ _ _ ha
  exact ⟨c, List.mem_append_left b hc, hp⟩

/-- What the second of two matchers shows, both in a row show. -/
theorem andThen_shows_right (h : Shows p second) : Shows p (andThen first second) := by
  intro t piece rest hm
  obtain ⟨a, r, b, _, hb, rfl⟩ := andThen_eq_some_iff.1 hm
  obtain ⟨c, hc, hp⟩ := h _ _ _ hb
  exact ⟨c, List.mem_append_right a hc, hp⟩

/-- A choice shows what both its matchers show. -/
theorem orElse_shows (h₁ : Shows p first) (h₂ : Shows p second) :
    Shows p (orElse first second) := by
  intro t piece rest hm
  rcases orElse_eq_some hm with h | h
  · exact h₁ _ _ _ h
  · exact h₂ _ _ _ h

/-- A leftmost match is a match behind what was skipped. -/
theorem exists_of_upTo_eq_some {previous : Option Char} {t piece rest : Text}
    (h : upTo start m previous t = some (piece, rest)) :
    ∃ before behind core, t = before ++ behind ∧ m behind = some (core, rest) ∧
      piece = before ++ core := by
  induction t generalizing previous piece with
  | nil =>
    simp only [upTo] at h
    split at h
    · exact ⟨[], [], piece, rfl, h, rfl⟩
    · cases h
  | cons c r ih =>
    rw [upTo_cons] at h
    split at h
    · next found hf =>
      split at hf
      · cases h
        exact ⟨[], c :: r, piece, rfl, hf, rfl⟩
      · cases hf
    · simp only [Option.map_eq_some_iff, Prod.mk.injEq, Prod.exists] at h
      obtain ⟨a, b, hu, rfl, rfl⟩ := h
      obtain ⟨before, behind, core, rfl, hm, rfl⟩ := ih hu
      exact ⟨c :: before, behind, core, rfl, hm, rfl⟩

/-- The piece up to a match shows what the match shows. -/
theorem upTo_shows (h : Shows p m) (previous : Option Char) : Shows p (upTo start m previous) := by
  intro t piece rest hm
  obtain ⟨before, behind, core, _, hc, rfl⟩ := exists_of_upTo_eq_some hm
  obtain ⟨c, hm, hp⟩ := h _ _ _ hc
  exact ⟨c, List.mem_append_right before hm, hp⟩

end Shows

end Matcher

open Matcher in
/-- The piece that ends an import holds a quote. -/
theorem Boundary.importEnd_shows : Shows isQuote Boundary.importEnd :=
  orElse_shows (andThen_shows_left (andThen_shows_right (quoted_shows fun _ h => h)))
    (upTo_shows (andThen_shows_left (andThen_shows_right (quoted_shows fun _ h => h))) none)

/-- A character with which an export list or a star export can end. -/
def endsExport (c : Char) : Bool := isQuote c || c == '}'

open Matcher in
/-- The piece that ends an export list holds a character that may end it. -/
theorem Boundary.exportListEnd_shows : Shows endsExport Boundary.exportListEnd := by
  have hq : ∀ c, isQuote c = true → endsExport c = true := fun c h => by simp [endsExport, h]
  have hs : Shows endsExport Boundary.source := andThen_shows_right (quoted_shows hq)
  have hn : Shows endsExport Boundary.nameFrom := by
    intro t piece rest h
    obtain ⟨name, r, tail, _, hb, rfl⟩ := Boundary.nameFrom_eq_some_iff.1 h
    obtain ⟨c, hc, hp⟩ : ∃ c ∈ tail, endsExport c = true := by
      rcases orElse_eq_some hb with hw | hw
      · exact andThen_shows_right hs _ _ _ hw
      · split at hw
        · exact andThen_shows_right (quoted_shows hq) _ _ _ hw
        · cases hw
    exact ⟨c, List.mem_append_right name hc, hp⟩
  exact upTo_shows (andThen_shows_left (orElse_shows
    (andThen_shows_right (orElse_shows (andThen_shows_right hn) (andThen_shows_right hs)))
    (andThen_shows_left (literal_shows rfl _)))) none

/-- A text that is cut off behind a character which does not stand in its start
goes beyond that start. -/
theorem exists_of_cut {p : Char → Bool} {t rest start r : Text} {c : Char}
    (h : t ++ rest = start ++ c :: r) (hs : ∀ d ∈ start, p d = false)
    (ht : ∃ d ∈ t, p d = true) : ∃ r', t = start ++ c :: r' := by
  rcases List.append_eq_append_iff.1 h with ⟨more, rfl, _⟩ | ⟨tail, rfl, htail⟩
  · obtain ⟨d, hd, hp⟩ := ht
    rw [hs d (List.mem_append_left more hd)] at hp
    cases hp
  · cases tail with
    | nil =>
      rw [List.append_nil] at ht
      obtain ⟨d, hd, hp⟩ := ht
      rw [hs d hd] at hp
      cases hp
    | cons d tail =>
      rw [List.cons_append] at htail
      exact ⟨tail, by rw [(List.cons.inj htail).1]⟩

namespace Text

/-- A text is blanks and what is left without them. -/
theorem exists_blank_append (t : Text) :
    ∃ blank, (∀ c ∈ blank, isBlank c = true) ∧ t = blank ++ trimStart t :=
  ⟨leading t, List.all_eq_true.1 List.all_takeWhile, (leading_append_trimStart t).symm⟩

/-- Blanks in front of a text are trimmed with its own. -/
theorem trimStart_append_of_blank {blank : Text} (h : ∀ c ∈ blank, isBlank c = true) (t : Text) :
    trimStart (blank ++ t) = trimStart t := List.dropWhile_append_of_pos h

end Text

/-- A blank does not end an export list. -/
theorem endsExport_of_isBlank {c : Char} (h : isBlank c = true) : endsExport c = false :=
  of_isBlank (p := fun c => endsExport c = false) h (by decide)

/-- A blank is not a quote. -/
theorem isQuote_of_isBlank {c : Char} (h : isBlank c = true) : isQuote c = false := by
  have := endsExport_of_isBlank h
  simp only [endsExport, Bool.or_eq_false_iff] at this
  exact this.1

namespace LineHead

/-- A cut behind the quote of an import leaves it announced as an import. -/
theorem ofLine_importing_of_cut {t rest : Text} (h : ofLine (t ++ rest) = importing)
    (ht : ∃ c ∈ t, isQuote c = true) : ofLine t = importing := by
  obtain ⟨c, r, hr, ho⟩ := ofLine_eq_importing_iff.1 h
  have hword : ∀ d ∈ "import".toList, isQuote d = false := by decide
  obtain ⟨blank, hb, hraw⟩ := Text.exists_blank_append (t ++ rest)
  rw [hr, ← List.append_assoc] at hraw
  obtain ⟨r', rfl⟩ := exists_of_cut hraw (by
    intro d hd
    rcases List.mem_append.1 hd with hd | hd
    · exact isQuote_of_isBlank (hb d hd)
    · exact hword d hd) ht
  refine ofLine_eq_importing_iff.2 ⟨c, r', ?_, ho⟩
  rw [List.append_assoc, Text.trimStart_append_of_blank hb]
  rfl

/-- A cut behind the end of an export list leaves it announced as a list. -/
theorem ofLine_exportList_of_cut {t rest : Text} (h : ofLine (t ++ rest) = exportList)
    (ht : ∃ c ∈ t, endsExport c = true) : ofLine t = exportList := by
  obtain ⟨a, ha, ho⟩ := ofLine_eq_exportList_iff.1 h
  have hword : ∀ d ∈ "export".toList, endsExport d = false := by decide
  obtain ⟨c, r, hr⟩ : ∃ c r, Text.trimStart a = c :: r := by
    cases hr : Text.trimStart a with
    | nil => rw [hr] at ho; cases ho
    | cons c r => exact ⟨c, r, rfl⟩
  obtain ⟨blank, hb, hraw⟩ := Text.exists_blank_append (t ++ rest)
  obtain ⟨gap, hg, hgap⟩ := Text.exists_blank_append a
  rw [ha, hgap, hr, ← List.append_assoc, ← List.append_assoc] at hraw
  obtain ⟨r', rfl⟩ := exists_of_cut hraw (by
    intro d hd
    rcases List.mem_append.1 hd with hd | hd
    · rcases List.mem_append.1 hd with hd | hd
      · exact endsExport_of_isBlank (hb d hd)
      · exact hword d hd
    · exact endsExport_of_isBlank (hg d hd)) ht
  rw [hr] at ho
  have hc : isBlank c = false := by
    simp only [opensList, Bool.or_eq_true, beq_iff_eq] at ho
    rcases ho with rfl | rfl <;> rfl
  refine ofLine_eq_exportList_iff.2 ⟨gap ++ c :: r', ?_, ?_⟩
  · simp only [List.append_assoc]
    rw [Text.trimStart_append_of_blank hb]
    rfl
  · rw [Text.trimStart_append_of_blank hg, Text.trimStart_cons_of_not_isBlank hc]
    exact ho

end LineHead

end ModuleScripts
