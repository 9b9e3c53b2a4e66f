import ModuleScripts.Proofs.Rereading

/-!
# Texts without comments

Removing comments leaves none, so removing them once more changes nothing. What
is left of a binding list or an import clause that can be read consists of
names, blanks, commas, braces and stars: nothing in it opens a comment, a
template or a string.
-/

namespace ModuleScripts

namespace Comments

/-- No comment opens anywhere in the text. -/
def Free : Text → Prop
  | [] => True
  | c :: r =>
    (c = '/' → r.head? ≠ some '/' ∧ (r.head? = some '*' → hasClosing r.tail = false)) ∧ Free r

/-- Removing comments brings no closing mark about. -/
theorem hasClosing_of_removeFrom {region : Region} {t : Text}
    (h : hasClosing (removeFrom region t) = true) : hasClosing t = true := by
  induction t generalizing region with
  | nil => cases region <;> cases h
  | cons c r ih =>
    have later : hasClosing r = true → hasClosing (c :: r) = true := by
      intro hr
      simp [hasClosing, hr]
    cases region with
    | code =>
      unfold removeFrom at h
      split at h
      · exact later (ih h)
      · split at h
        · exact later (ih h)
        · simp only [hasClosing, Bool.or_eq_true, Bool.and_eq_true, decide_eq_true_eq] at h ⊢
          rcases h with ⟨rfl, hh⟩ | h
          · -- a kept slash behind the star is the next character of the text
            cases r with
            | nil => cases hh
            | cons d r =>
              by_cases hd : d = '/'
              · subst hd
                exact .inl ⟨rfl, rfl⟩
              · simp [removeFrom, hd] at hh
          · exact .inr (ih h)
    | line =>
      unfold removeFrom at h
      split at h
      · next hc =>
        simp only [hasClosing, hc, Bool.or_eq_true, Bool.and_eq_true] at h
        exact later (ih (by simpa using h))
      · exact later (ih h)
    | opening => exact later (ih h)
    | block =>
      unfold removeFrom at h
      split at h
      · exact later (ih h)
      · exact later (ih h)
    | closing => exact later (ih h)

/-- What is left has no comment. -/
theorem free_removeFrom (region : Region) (t : Text) : Free (removeFrom region t) := by
  induction t generalizing region with
  | nil => cases region <;> trivial
  | cons c r ih =>
    cases region with
    | code =>
      unfold removeFrom
      split
      · exact ih .line
      · next hline =>
        split
        · exact ih .opening
        · next hblock =>
          refine ⟨?_, ih .code⟩
          rintro rfl
          cases r with
          | nil => simp [removeFrom]
          | cons d r =>
            have hd : d ≠ '/' := fun hd => hline ⟨rfl, by rw [hd]; rfl⟩
            have hkept : removeFrom .code (d :: r) = d :: removeFrom .code r := by
              simp [removeFrom, hd]
            rw [hkept]
            refine ⟨by simpa using hd, fun hstar => ?_⟩
            cases hr : hasClosing (removeFrom .code r) with
            | false => exact hr
            | true => exact absurd ⟨rfl, hstar, hasClosing_of_removeFrom hr⟩ hblock
    | line =>
      unfold removeFrom
      split
      · next hc =>
        refine ⟨?_, ih .code⟩
        rintro rfl
        cases hc
      · exact ih .line
    | opening => exact ih .block
    | block =>
      unfold removeFrom
      split
      · exact ih .closing
      · exact ih .block
    | closing => exact ih .code

/-- A text with the end of a comment has it when more follows. -/
theorem hasClosing_append {a : Text} (h : hasClosing a = true) (b : Text) :
    hasClosing (a ++ b) = true := by
  induction a with
  | nil => cases h
  | cons c r ih =>
    simp only [hasClosing, Bool.or_eq_true, Bool.and_eq_true, decide_eq_true_eq] at h
    simp only [List.cons_append, hasClosing, Bool.or_eq_true, Bool.and_eq_true, decide_eq_true_eq]
    rcases h with ⟨hc, hr⟩ | h
    · cases r with
      | nil => cases hr
      | cons d r => exact .inl ⟨hc, hr⟩
    · exact .inr (ih h)

/-- The end of a text without comments has none. -/
theorem Free.of_append_left {a b : Text} (h : Free (a ++ b)) : Free b := by
  induction a with
  | nil => exact h
  | cons c r ih => exact ih h.2

/-- The start of a text without comments has none. -/
theorem Free.of_append_right {a b : Text} (h : Free (a ++ b)) : Free a := by
  induction a with
  | nil => trivial
  | cons c r ih =>
    refine ⟨fun hc => ?_, ih h.2⟩
    have hf := h.1 hc
    cases r with
    | nil => simp
    | cons d r =>
      refine ⟨hf.1, fun hs => ?_⟩
      have hn : hasClosing (r ++ b) = false := hf.2 hs
      cases hr : hasClosing r with
      | false => exact hr
      | true =>
        rw [hasClosing_append hr b] at hn
        cases hn

/-- Where there is no comment, none is removed. -/
theorem Free.remove_eq {t : Text} (h : Free t) : remove t = t := by
  induction t with
  | nil => rfl
  | cons c r ih =>
    have hr : removeFrom .code r = r := ih h.2
    rw [remove, removeFrom, if_neg, if_neg, hr]
    · rintro ⟨hc, hs, hcl⟩
      rw [(h.1 hc).2 hs] at hcl
      cases hcl
    · exact fun hc => (h.1 hc.1).1 hc.2

end Comments

/-- A character that opens neither a comment nor a template nor a string. -/
def isCalm (c : Char) : Bool := !(c == '/' || c == Lexer.templateMark || isQuote c)

/-- Nothing in the text opens a comment, a template or a string. -/
def Calm (t : Text) : Prop := ∀ c ∈ t, isCalm c = true

instance (t : Text) : Decidable (Calm t) := inferInstanceAs (Decidable (∀ c ∈ t, _))

/-- A text is calm when both its parts are. -/
theorem calm_append {a b : Text} : Calm (a ++ b) ↔ Calm a ∧ Calm b := by
  constructor
  · exact fun h => ⟨fun c hc => h c (List.mem_append_left b hc),
      fun c hc => h c (List.mem_append_right a hc)⟩
  · rintro ⟨ha, hb⟩ c hc
    rcases List.mem_append.1 hc with hc | hc
    · exact ha c hc
    · exact hb c hc

/-- A text is calm when its first character and the others are. -/
theorem calm_cons {c : Char} {t : Text} : Calm (c :: t) ↔ isCalm c = true ∧ Calm t :=
  List.forall_mem_cons

/-- A blank is calm. -/
theorem isCalm_of_isBlank {c : Char} (h : isBlank c = true) : isCalm c = true :=
  of_isBlank (p := fun c => isCalm c = true) h (by decide)

/-- What continues an identifier is calm. -/
theorem isCalm_of_isIdentifierPart {c : Char} (h : isIdentifierPart c = true) :
    isCalm c = true := by
  cases hc : isCalm c with
  | true => rfl
  | false =>
    simp only [isCalm, isQuote, Bool.not_eq_false', Bool.or_eq_true, beq_iff_eq] at hc
    have hn : isIdentifierPart c = false := by
      rcases hc with (rfl | rfl) | rfl | rfl <;> decide +kernel
    rw [hn] at h
    cases h

/-- What starts an identifier is calm. -/
theorem isCalm_of_isIdentifierStart {c : Char} (h : isIdentifierStart c = true) :
    isCalm c = true := by
  cases hc : isCalm c with
  | true => rfl
  | false =>
    simp only [isCalm, isQuote, Bool.not_eq_false', Bool.or_eq_true, beq_iff_eq] at hc
    rcases hc with (rfl | rfl) | rfl | rfl <;> cases h

namespace Text

/-- A text is its trimmed middle between the blanks at its ends. -/
theorem leading_append_trim (t : Text) :
    t = leading t ++ (trim t ++ trailing (trimStart t)) := by
  rw [trim, trimEnd_append_trailing, leading_append_trimStart]

/-- The white space at the start is blank. -/
theorem isBlank_of_mem_leading {t : Text} : ∀ c ∈ leading t, isBlank c = true :=
  List.all_eq_true.1 List.all_takeWhile

/-- The white space at the end is blank. -/
theorem isBlank_of_mem_trailing {t : Text} : ∀ c ∈ trailing t, isBlank c = true := fun c hc =>
  List.all_eq_true.1 List.all_takeWhile c (List.mem_reverse.1 hc)

/-- A text is its trimmed text between blanks. -/
theorem exists_trim (t : Text) :
    ∃ before behind, t = before ++ (trim t ++ behind) ∧
      (∀ c ∈ before, isBlank c = true) ∧ ∀ c ∈ behind, isBlank c = true :=
  ⟨leading t, trailing (trimStart t), leading_append_trim t, isBlank_of_mem_leading,
    isBlank_of_mem_trailing⟩

/-- A character of a text is a separator or stands in one of the pieces. -/
theorem mem_of_mem_splitOn (separator : Char) {c : Char} {t : Text} (h : c ∈ t) :
    c = separator ∨ ∃ piece ∈ t.splitOn separator, c ∈ piece := by
  induction t with
  | nil => cases h
  | cons d r ih =>
    obtain ⟨piece, pieces, hs⟩ := List.exists_cons_of_ne_nil (List.splitOn_ne_nil separator r)
    by_cases hd : d = separator
    · rw [hd, splitOn_cons_self]
      rcases List.mem_cons.1 h with rfl | h
      · exact .inl hd
      · exact (ih h).imp_right fun ⟨found, hp, hc⟩ => ⟨found, List.mem_cons_of_mem _ hp, hc⟩
    · rw [splitOn_cons_of_ne hd hs]
      rcases List.mem_cons.1 h with rfl | h
      · exact .inr ⟨c :: piece, List.mem_cons_self, List.mem_cons_self⟩
      · rcases ih h with hc | ⟨found, hp, hc⟩
        · exact .inl hc
        · rcases List.mem_cons.1 (hs ▸ hp) with rfl | hp
          · exact .inr ⟨d :: found, List.mem_cons_self, List.mem_cons_of_mem _ hc⟩
          · exact .inr ⟨found, List.mem_cons_of_mem _ hp, hc⟩

end Text

/-- A text of blanks is calm. -/
theorem calm_of_isBlank {t : Text} (h : ∀ c ∈ t, isBlank c = true) : Calm t :=
  fun c hc => isCalm_of_isBlank (h c hc)

/-- Blanks around a text do not matter. -/
theorem calm_trim_iff {t : Text} : Calm (Text.trim t) ↔ Calm t := by
  obtain ⟨before, behind, ht, hbefore, hbehind⟩ := Text.exists_trim t
  constructor
  · intro h
    rw [ht]
    exact calm_append.2 ⟨calm_of_isBlank hbefore, calm_append.2 ⟨h, calm_of_isBlank hbehind⟩⟩
  · intro h
    rw [ht] at h
    exact (calm_append.1 (calm_append.1 h).2).1

/-- The white space at the start does not matter to whether a text is calm. -/
theorem calm_trimStart_iff {t : Text} : Calm (Text.trimStart t) ↔ Calm t := by
  obtain ⟨blank, hb, ht⟩ := Text.exists_blank_append t
  constructor
  · intro h
    rw [ht]
    exact calm_append.2 ⟨calm_of_isBlank hb, h⟩
  · intro h
    rw [ht] at h
    exact (calm_append.1 h).2

/-- A text without comments has none when it is trimmed. -/
theorem Comments.Free.trim {t : Text} (h : Comments.Free t) : Comments.Free (Text.trim t) := by
  obtain ⟨before, behind, ht, _⟩ := Text.exists_trim t
  rw [ht] at h
  exact h.of_append_left.of_append_right

namespace Matcher

/-- A piece is calm. -/
def TakesCalm (m : Matcher) : Prop := ∀ t piece rest, m t = some (piece, rest) → Calm piece

section TakesCalm

variable {first second : Matcher}

/-- A calm word is taken as a calm piece. -/
theorem literal_takesCalm {word : Text} (h : Calm word) : TakesCalm (literal word) :=
  fun t piece rest hm => by rw [(literal_eq_some_iff.1 hm).1]; exact h

/-- Blanks are a calm piece. -/
theorem blanks_takesCalm : TakesCalm blanks := by
  intro t piece rest hm
  simp only [blanks, Option.some.injEq, Prod.mk.injEq] at hm
  rw [← hm.1]
  exact calm_of_isBlank (List.all_eq_true.1 List.all_takeWhile)

/-- A gap is a calm piece. -/
theorem gap_takesCalm : TakesCalm gap :=
  fun t piece rest hm => blanks_takesCalm t piece rest (gap_eq_some_iff.1 hm).1

/-- An identifier is a calm piece. -/
theorem identifier_takesCalm : TakesCalm identifier := by
  intro t piece rest hm
  cases t with
  | nil => cases hm
  | cons c r =>
    simp only [identifier] at hm
    split at hm
    · next hs =>
      simp only [Option.some.injEq, Prod.mk.injEq] at hm
      rw [← hm.1]
      intro d hd
      rcases List.mem_cons.1 hd with rfl | hd
      · exact isCalm_of_isIdentifierStart hs
      · exact isCalm_of_isIdentifierPart (List.all_eq_true.1 List.all_takeWhile d hd)
    · cases hm

/-- Two matchers in a row take a calm piece when both do. -/
theorem andThen_takesCalm (h₁ : TakesCalm first) (h₂ : TakesCalm second) :
    TakesCalm (andThen first second) := by
  intro t piece rest hm
  obtain ⟨a, r, b, ha, hb, rfl⟩ := andThen_eq_some_iff.1 hm
  exact calm_append.2 ⟨h₁ _ _ _ ha, h₂ _ _ _ hb⟩

/-- A text is calm if what a matcher leaves of it is. -/
theorem calm_of_exact {m : Matcher} (he : Exact m) (hc : TakesCalm m) {t piece rest : Text}
    (h : m t = some (piece, rest)) (hr : Calm rest) : Calm t := by
  rw [he _ _ _ h]
  exact calm_append.2 ⟨hc _ _ _ h, hr⟩

end TakesCalm

end Matcher

section Bindings

open Matcher

/-- A binding that can be read is calm. -/
theorem calm_of_rename {item : Text} {r : Rename} (h : Rename.parse? item = some r) :
    Calm item := by
  have hword : Exact renameWord :=
    andThen_exact (andThen_exact gap_exact (literal_exact _)) gap_exact
  have hcalm : TakesCalm renameWord :=
    andThen_takesCalm (andThen_takesCalm gap_takesCalm (literal_takesCalm (by decide)))
      gap_takesCalm
  unfold Rename.parse? at h
  split at h
  · cases h
  · next name hn => exact calm_of_exact identifier_exact identifier_takesCalm hn (by decide)
  · next name rest _ hn =>
    refine calm_of_exact identifier_exact identifier_takesCalm hn ?_
    split at h
    · cases h
    · next word rest hw =>
      refine calm_of_exact hword hcalm hw ?_
      split at h
      · next newName hm =>
        exact calm_of_exact identifier_exact identifier_takesCalm hm (by decide)
      · cases h

/-- The items of a list that can be read are calm. -/
theorem calm_of_parseItems {items : List Text} {names : List Rename}
    (h : parseItems items = .ok names) : ∀ item ∈ items, Calm item := by
  induction items generalizing names with
  | nil => exact fun item hi => absurd hi List.not_mem_nil
  | cons first items ih =>
    unfold parseItems at h
    split at h
    · cases h
    · next r hr =>
      obtain ⟨others, ho, _⟩ := map_eq_ok h
      intro item hi
      rcases List.mem_cons.1 hi with rfl | hi
      · exact calm_of_rename hr
      · exact ih ho item hi

/-- What is left of a binding list without its comments is calm. -/
theorem calm_of_parseBindings {list : Text} {names : List Rename}
    (h : parseBindings list = .ok names) : Calm (Comments.remove list) := by
  have hitems := calm_of_parseItems h
  unfold bindingItems at hitems
  dsimp only at hitems
  intro c hc
  by_cases hn : c = '\n'
  · subst hn
    rfl
  · have hm : c ∈ (Comments.remove list).map fun c => if c = '\n' then ' ' else c :=
      List.mem_map.2 ⟨c, hc, if_neg hn⟩
    rcases Text.mem_of_mem_splitOn ',' hm with rfl | ⟨piece, hp, hcp⟩
    · rfl
    · have hpiece : Calm (Text.trim piece) := by
        by_cases he : Text.trim piece = []
        · rw [he]
          decide
        · exact hitems _ (List.mem_filter.2 ⟨List.mem_map.2 ⟨piece, hp, rfl⟩, by simpa using he⟩)
      exact calm_trim_iff.1 hpiece c hcp

namespace Clause

/-- What follows the default name of a clause: if it is calm the clause is, and
a comment in it is one in the clause. -/
theorem calm_of_splitDefault {clause rest : Text} {name : Option Text}
    (h : splitDefault clause = (name, rest)) :
    (Calm rest → Calm clause) ∧ (Comments.Free clause → Comments.Free rest) := by
  unfold splitDefault at h
  split at h
  · cases h
    exact ⟨id, id⟩
  · next found rest hi =>
    have hx := identifier_exact _ _ _ hi
    have hc := identifier_takesCalm _ _ _ hi
    split at h
    · next ht =>
      cases h
      refine ⟨fun _ => ?_, fun _ => trivial⟩
      rw [hx]
      exact calm_append.2 ⟨hc, calm_trimStart_iff.1 (by rw [ht]; decide)⟩
    · next behind ht =>
      cases h
      refine ⟨fun hr => ?_, fun hf => ?_⟩
      · rw [hx]
        refine calm_append.2 ⟨hc, calm_trimStart_iff.1 ?_⟩
        rw [ht]
        exact calm_cons.2 ⟨by decide, calm_trim_iff.1 hr⟩
      · rw [hx] at hf
        obtain ⟨blank, _, hb⟩ := Text.exists_blank_append rest
        rw [hb, ht] at hf
        exact hf.of_append_left.of_append_left.2.trim
    · cases h
      exact ⟨id, id⟩

/-- What follows the star of a namespace import that can be read is calm. -/
theorem calm_of_namespaceName {afterStar name : Text} (h : namespaceName? afterStar = some name) :
    Calm afterStar := by
  unfold namespaceName? at h
  split at h
  · cases h
  · next word rest hw =>
    refine calm_of_exact (andThen_exact (andThen_exact blanks_exact (literal_exact _)) gap_exact)
      (andThen_takesCalm (andThen_takesCalm blanks_takesCalm (literal_takesCalm (by decide)))
        gap_takesCalm) hw ?_
    split at h
    · next found hi => exact calm_of_exact identifier_exact identifier_takesCalm hi (by decide)
    · cases h

/-- A list in a clause was rid of comments with the clause already. -/
theorem calm_of_parseRest {name : Option Text} {statement rest : Text} {c : Clause}
    (h : parseRest name statement rest = .ok c) (hf : Comments.Free rest) : Calm rest := by
  cases rest with
  | nil => decide
  | cons d rest =>
    simp only [parseRest] at h
    split at h
    · next hd =>
      subst hd
      split at h
      · next found hn => exact calm_cons.2 ⟨by decide, calm_of_namespaceName hn⟩
      · cases h
    · split at h
      · next hd =>
        subst hd
        split at h
        · next hlast =>
          obtain ⟨named, hb, _⟩ := map_eq_ok h
          have hrest : rest = rest.dropLast ++ ['}'] :=
            (List.dropLast_append_getLast? '}' hlast).symm
          have hcalm := calm_of_parseBindings hb
          have hfree : Comments.Free rest.dropLast := by
            have := hf.2
            rw [hrest] at this
            exact this.of_append_right
          rw [hfree.remove_eq] at hcalm
          rw [hrest]
          exact calm_cons.2 ⟨by decide, calm_append.2 ⟨hcalm, by decide⟩⟩
        · cases h
      · cases h

/-- What is left of an import clause without its comments is calm. -/
theorem calm_of_parse {statement clause : Text} {c : Clause}
    (h : Clause.parse statement clause = .ok c) : Calm (Comments.remove clause) := by
  unfold Clause.parse at h
  dsimp only at h
  cases hs : splitDefault (Text.trim (Comments.remove clause)) with
  | mk name rest =>
    rw [hs] at h
    obtain ⟨hcalm, hfree⟩ := calm_of_splitDefault hs
    have hclause : Comments.Free (Comments.remove clause) := Comments.free_removeFrom .code clause
    exact calm_trim_iff.1 (hcalm (calm_of_parseRest h (hfree hclause.trim)))

end Clause

end Bindings

end ModuleScripts
