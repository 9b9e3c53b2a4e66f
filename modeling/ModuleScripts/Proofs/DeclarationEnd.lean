import ModuleScripts.Proofs.Scanning
import ModuleScripts.Proofs.StatementEnd
import ModuleScripts.Source.Declarators

/-!
# Where a variable export ends

A variable export that something follows ends at a semicolon, and that semicolon
ends it in every text that goes on differently or not at all. Only a text that
is the declaration as a whole can end otherwise, for instance inside a string.
-/

namespace ModuleScripts

namespace Pieces

/-- Behind the semicolon that ends a cut everything else is free. -/
theorem cut_rest {depth : Int} {marked : List (Char × Bool)} {rest : Text}
    (h : (cut depth marked).rest = some rest) :
    ∃ before behind, marked = before ++ (';', true) :: behind ∧ rest = behind.map Prod.fst ∧
      ∀ other, cut depth (before ++ (';', true) :: other) =
        { cut depth marked with rest := some (other.map Prod.fst) } := by
  induction marked generalizing depth with
  | nil => cases h
  | cons head r ih =>
    obtain ⟨c, mark⟩ := head
    by_cases hcomma : (mark && depth == 0 && c == ',') = true
    · rw [cut, if_pos hcomma] at h ⊢
      obtain ⟨before, behind, rfl, hr, hc⟩ := ih h
      refine ⟨(c, mark) :: before, behind, rfl, hr, fun other => ?_⟩
      rw [List.cons_append, cut, if_pos hcomma, hc other]
      rfl
    · by_cases hsemi : (mark && depth == 0 && c == ';') = true
      · rw [cut, if_neg hcomma, if_pos hsemi] at h ⊢
        simp only [Option.some.injEq] at h
        have hmark : mark = true ∧ c = ';' := by simp_all
        obtain ⟨rfl, rfl⟩ := hmark
        refine ⟨[], r, rfl, h.symm, fun other => ?_⟩
        rw [List.nil_append, cut, if_neg hcomma, if_pos hsemi]
      · rw [cut, if_neg hcomma, if_neg hsemi] at h ⊢
        obtain ⟨before, behind, rfl, hr, hc⟩ := ih h
        refine ⟨(c, mark) :: before, behind, rfl, hr, fun other => ?_⟩
        rw [List.cons_append, cut, if_neg hcomma, if_neg hsemi, hc other]
        rfl

end Pieces

namespace Lexer

/-- A marked character that something follows, with the marks before it, in any
text that starts the same way up to it. -/
theorem marked_split {context : Context} {t : Text} {before behind : List (Char × Bool)} {c : Char}
    (h : marked context t = before ++ (c, true) :: behind) (hc : c ≠ '/') (hb : behind ≠ [])
    (other : Text) :
    t = before.map Prod.fst ++ c :: behind.map Prod.fst ∧
      ∃ later, marked context (before.map Prod.fst ++ c :: other) = before ++ (c, true) :: later ∧
        later.map Prod.fst = other := by
  have ht : t = before.map Prod.fst ++ c :: behind.map Prod.fst := by
    have := map_fst_marked context t
    rw [h] at this
    simpa using this.symm
  refine ⟨ht, ?_⟩
  obtain ⟨d, hd⟩ : ∃ d, (behind.map Prod.fst).head? = some d := by
    cases behind with
    | nil => exact absurd rfl hb
    | cons d r => exact ⟨d.1, rfl⟩
  let s := (walk (some c) ⟨.plain, context⟩ (before.map Prod.fst)).2
  have hlen : (walk (some c) ⟨.plain, context⟩ (before.map Prod.fst)).1.length = before.length := by
    rw [length_walk, List.length_map]
  have hmarks : marks context t = before.map Prod.snd ++ true :: behind.map Prod.snd := by
    have hz : (marked context t).map Prod.snd = marks context t :=
      List.map_snd_zip (Nat.le_of_eq (length_marks context t))
    rw [← hz, h]
    simp
  rw [ht, marks_append_cons, hd] at hmarks
  obtain ⟨hbefore, htail⟩ := List.append_inj hmarks (by rw [hlen, List.length_map])
  obtain ⟨hmark, _⟩ := List.cons.inj htail
  have hother := step_marks hc hmark other.head?
  refine ⟨other.zip (run (step s c other.head?).2 other).1, ?_, ?_⟩
  · rw [marked, marks_append_cons, hbefore, hother, List.zip_append (by simp)]
    have hzip : (before.map Prod.fst).zip (before.map Prod.snd) = before := by
      rw [List.zip_map']
      simp
    rw [hzip]
    rfl
  · exact List.map_fst_zip (Nat.le_of_eq (length_run _ _).symm)

end Lexer

open Matcher

/-- The keyword of a variable declaration is one of three words that no other
word character follows. -/
theorem variableKeyword_eq_some_iff {t piece rest : Text} :
    variableKeyword t = some (piece, rest) ↔
      (piece = "const".toList ∨ piece = "let".toList ∨ piece = "var".toList) ∧
        t = piece ++ rest ∧ atWordEnd rest = true := by
  constructor
  · intro h
    rcases orElse_eq_some h with hc | h
    · obtain ⟨rfl, ht, he⟩ := keyword_eq_some_iff.1 hc
      exact ⟨.inl rfl, ht, he⟩
    rcases orElse_eq_some h with hl | hv
    · obtain ⟨rfl, ht, he⟩ := keyword_eq_some_iff.1 hl
      exact ⟨.inr (.inl rfl), ht, he⟩
    · obtain ⟨rfl, ht, he⟩ := keyword_eq_some_iff.1 hv
      exact ⟨.inr (.inr rfl), ht, he⟩
  · rintro ⟨rfl | rfl | rfl, rfl, he⟩
    · exact orElse_of_some (keyword_eq_some_iff.2 ⟨rfl, rfl, he⟩)
    · refine (orElse_of_none (keyword_cons_eq_none (by decide) _ _)).trans ?_
      exact orElse_of_some (keyword_eq_some_iff.2 ⟨rfl, rfl, he⟩)
    · refine (orElse_of_none (keyword_cons_eq_none (by decide) _ _)).trans ?_
      refine (orElse_of_none (keyword_cons_eq_none (by decide) _ _)).trans ?_
      exact keyword_eq_some_iff.2 ⟨rfl, rfl, he⟩

/-- The keyword of a variable declaration is cut off without loss. -/
theorem variableKeyword_exact : Exact variableKeyword :=
  fun _ _ _ h => (variableKeyword_eq_some_iff.1 h).2.1

/-- The keyword of a variable declaration is not changed by more text when
something follows it. -/
theorem variableKeyword_settles : Settles variableKeyword := by
  intro t piece rest more hr h
  rw [variableKeyword_eq_some_iff] at h ⊢
  obtain ⟨hp, rfl, he⟩ := h
  refine ⟨hp, List.append_assoc _ _ _, ?_⟩
  cases rest with
  | nil => exact absurd rfl hr
  | cons c r => exact he

/-- The keyword of a variable declaration stays what it is when text behind it
is cut off. -/
theorem variableKeyword_stable : Stable variableKeyword := by
  intro piece kept dropped h
  rw [variableKeyword_eq_some_iff] at h ⊢
  refine ⟨h.1, rfl, ?_⟩
  cases kept with
  | nil => rfl
  | cons c r => exact h.2.2

/-- The words of a variable export up to its declarators, without the blanks
before them. -/
theorem variableHead_eq :
    variableHead =
      blanks.andThen ((literal "export".toList).andThen (gap.andThen variableKeyword)) := by
  unfold variableHead
  rw [andThen_assoc, andThen_assoc]

/-- The parts that the head of a variable export is read from: blanks, the word, blanks
again, and a keyword. -/
theorem exists_parts_of_variableHead {t head list : Text} (h : variableHead t = some (head, list)) :
    ∃ indent behind between keyword, blanks t = some (indent, "export".toList ++ behind) ∧
      gap behind = some (between, keyword ++ list) ∧
      (keyword = "const".toList ∨ keyword = "let".toList ∨ keyword = "var".toList) ∧
      atWordEnd list = true ∧ head = indent ++ ("export".toList ++ (between ++ keyword)) := by
  rw [variableHead_eq] at h
  obtain ⟨indent, words, b, hindent, hwords, rfl⟩ := andThen_eq_some_iff.1 h
  obtain ⟨word, behind, b, hword, hbehind, rfl⟩ := andThen_eq_some_iff.1 hwords
  obtain ⟨between, rest, keyword, hgap, hkeyword, rfl⟩ := andThen_eq_some_iff.1 hbehind
  obtain ⟨rfl, rfl⟩ := literal_eq_some_iff.1 hword
  obtain ⟨hcases, rfl, hend⟩ := variableKeyword_eq_some_iff.1 hkeyword
  exact ⟨indent, behind, between, keyword, hindent, hgap, hcases, hend, rfl⟩

/-- The head of a variable declaration is not changed by more text when
something follows it. -/
theorem variableHead_settles : Settles variableHead :=
  andThen_settles (andThen_settles (andThen_settles blanks_settles (literal_firm _).settles
    (literal_exact _)) gap_settles gap_exact) variableKeyword_settles variableKeyword_exact

/-- The head of a variable declaration stays what it is when text behind it is
cut off. -/
theorem variableHead_stable : Stable variableHead :=
  andThen_stable (andThen_stable (andThen_stable blanks_stable (literal_stable _)
    (literal_exact _)) gap_stable gap_exact) variableKeyword_stable variableKeyword_exact

/-- What follows a semicolon does not matter to the head. -/
theorem variableHead_semicolon {head start r : Text}
    (h : variableHead (head ++ (start ++ ';' :: r)) = some (head, start ++ ';' :: r))
    (other : Text) :
    variableHead (head ++ (start ++ ';' :: other)) = some (head, start ++ ';' :: other) := by
  have hs := variableHead_stable head (start ++ [';']) r (by simpa using h)
  have hm := variableHead_settles _ _ _ other (by simp) hs
  simpa using hm

/-- The head is found without the blanks before it. -/
theorem variableHead_trimStart {t head list : Text} (h : variableHead t = some (head, list)) :
    ∃ words, variableHead (Text.trimStart t) = some (words, list) := by
  rw [variableHead_eq] at h ⊢
  obtain ⟨a, r, b, hb, hw, rfl⟩ := andThen_eq_some_iff.1 h
  simp only [blanks, Option.some.injEq, Prod.mk.injEq] at hb
  refine ⟨Text.leading (Text.trimStart t) ++ b, andThen_eq_some_iff.2
    ⟨Text.leading (Text.trimStart t), r, b, ?_, hw, rfl⟩⟩
  rw [blanks, Text.trimStart_trimStart, hb.2]

namespace Declaration

/-- A declaration is split when it has a head, and its list is cut and does not
go on beyond the text. -/
theorem split?_eq_some_iff {t : Text} {d : Declaration} :
    split? t = some d ↔
      ∃ list, variableHead t = some (d.head, list) ∧
        d.pieces = Pieces.cut 0 (Lexer.marked [] list) ∧
        (d.pieces.rest.isNone && continues list) = false := by
  unfold split?
  cases hv : variableHead t with
  | none => simp
  | some found =>
    obtain ⟨head, list⟩ := found
    obtain ⟨dhead, dpieces⟩ := d
    dsimp only
    simp only [Option.some.injEq, Prod.mk.injEq]
    constructor
    · intro h
      split at h
      · cases h
      · next hc =>
        simp only [Option.some.injEq, Declaration.mk.injEq] at h
        obtain ⟨rfl, rfl⟩ := h
        exact ⟨list, ⟨rfl, rfl⟩, rfl, by simpa using hc⟩
    · rintro ⟨_, ⟨rfl, rfl⟩, rfl, hc⟩
      rw [hc]
      rfl

/-- A declaration that something follows is a head, a list and a semicolon, and
the list is cut in the same way whatever follows the semicolon. -/
theorem exists_semicolon {t : Text} {d : Declaration} (h : split? t = some d) (hr : d.rest ≠ []) :
    ∃ list, d.text = d.head ++ (list ++ [';']) ∧
      variableHead (d.head ++ (list ++ ';' :: d.rest)) = some (d.head, list ++ ';' :: d.rest) ∧
      ∀ other, Pieces.cut 0 (Lexer.marked [] (list ++ ';' :: other)) =
        { d.pieces with rest := some other } := by
  obtain ⟨behindHead, hv, hp, _⟩ := split?_eq_some_iff.1 h
  obtain ⟨rest, hrest⟩ : ∃ rest, d.pieces.rest = some rest := by
    cases hn : d.pieces.rest with
    | none => exact absurd (by rw [rest, hn]; rfl) hr
    | some rest => exact ⟨rest, rfl⟩
  have hd : d.rest = rest := by rw [Declaration.rest, hrest]; rfl
  obtain ⟨before, behind, hm, hb, hcut⟩ := Pieces.cut_rest (hp ▸ hrest)
  have hbehind : behind ≠ [] := by
    rintro rfl
    exact hr (hd.trans hb)
  have hsplit := Lexer.marked_split hm (by decide) hbehind
  have hlist := (hsplit []).1
  rw [← hb, ← hd] at hlist
  refine ⟨before.map Prod.fst, ?_, ?_, ?_⟩
  · have ht := text_append_rest h
    rw [variableHead_exact _ _ _ hv, hlist] at ht
    refine (List.append_left_inj d.rest).1 ?_
    simpa using ht.symm
  · rw [← hlist, ← variableHead_exact _ _ _ hv]
    exact hv
  · intro other
    obtain ⟨later, hl, hl'⟩ := (hsplit other).2
    rw [hl, hcut later, hl', hp]

/-- A declaration that something follows is cut in the same way whatever
follows it. -/
theorem split?_append {t : Text} {d : Declaration} (h : split? t = some d) (hr : d.rest ≠ [])
    (other : Text) :
    split? (d.text ++ other) =
      some { d with pieces := { d.pieces with rest := some other } } := by
  obtain ⟨list, ht, hv, hp⟩ := exists_semicolon h hr
  have htext : d.text ++ other = d.head ++ (list ++ ';' :: other) := by
    rw [ht]
    simp
  rw [htext]
  exact split?_eq_some_iff.2 ⟨_, variableHead_semicolon hv other, (hp other).symm, rfl⟩

/-- It is found as well when the text is trimmed. -/
theorem split?_trim {t : Text} {d : Declaration} (h : split? t = some d) (hr : d.rest ≠ [])
    (other : Text) : (split? (Text.trim (d.text ++ other))).isSome := by
  obtain ⟨list, ht, hv, hp⟩ := exists_semicolon h hr
  obtain ⟨words, hw⟩ := variableHead_trimStart (variableHead_semicolon hv other)
  have hx := variableHead_exact _ _ _ hw
  have hsolid : Text.EndsSolid (words ++ (list ++ [';'])) :=
    ((Text.endsSolid_singleton rfl).append _).append _
  have htrim : Text.trim (d.text ++ other) = words ++ (list ++ ';' :: Text.trimEnd other) := by
    have hstart : d.text ++ other = d.head ++ (list ++ ';' :: other) := by
      rw [ht]
      simp
    have hend := Text.trimEnd_append hsolid other
    rw [hstart, Text.trim, hx]
    simpa using hend
  rw [hx] at hw
  rw [htrim]
  exact Option.isSome_iff_exists.2
    ⟨⟨words, { d.pieces with rest := some (Text.trimEnd other) }⟩, split?_eq_some_iff.2
      ⟨_, variableHead_semicolon hw _, (hp _).symm, rfl⟩⟩

end Declaration

/-- The declaration at the start of a text and what follows it. -/
def declarationEnd : Matcher := fun t => (Declaration.split? t).map fun d => (d.text, d.rest)

/-- A declaration has an end when it is split. -/
theorem declarationEnd_isSome (t : Text) :
    (declarationEnd t).isSome = (Declaration.split? t).isSome := Option.isSome_map

/-- A declaration is cut off without loss at its end. -/
theorem declarationEnd_exact : Exact declarationEnd := by
  intro t piece rest h
  simp only [declarationEnd, Option.map_eq_some_iff, Prod.mk.injEq] at h
  obtain ⟨d, hd, rfl, rfl⟩ := h
  exact Declaration.text_append_rest hd

namespace Matcher

/-- An end of a statement behind which something follows is the same end, and
the trimmed text has an end too, when less follows. -/
def Ends (m : Matcher) : Prop :=
  ∀ piece kept dropped, kept ++ dropped ≠ [] →
    m (piece ++ (kept ++ dropped)) = some (piece, kept ++ dropped) →
      m (piece ++ kept) = some (piece, kept) ∧ (m (Text.trim (piece ++ kept))).isSome

end Matcher

/-- The end of an import is an end of a statement. -/
theorem importEnd_ends : Ends Boundary.importEnd := by
  intro piece kept dropped _ h
  have hk := Boundary.importEnd_stable piece kept dropped h
  exact ⟨hk, Boundary.importEnd_trim_iff.2 (by rw [hk]; rfl)⟩

/-- The end of an export list is an end of a statement. -/
theorem exportListEnd_ends : Ends Boundary.exportListEnd := by
  intro piece kept dropped _ h
  have hk := Boundary.exportListEnd_stable piece kept dropped h
  exact ⟨hk, Boundary.exportListEnd_trim_iff.2 (by rw [hk]; rfl)⟩

/-- The end of a variable declaration is an end of a statement. -/
theorem declarationEnd_ends : Ends declarationEnd := by
  intro piece kept dropped hne h
  simp only [declarationEnd, Option.map_eq_some_iff, Prod.mk.injEq] at h
  obtain ⟨d, hd, rfl, hrest⟩ := h
  have hr : d.rest ≠ [] := by rw [hrest]; exact hne
  obtain ⟨rest, hsome⟩ : ∃ rest, d.pieces.rest = some rest := by
    cases hn : d.pieces.rest with
    | none => exact absurd (by rw [Declaration.rest, hn]; rfl) hr
    | some rest => exact ⟨rest, rfl⟩
  refine ⟨?_, by rw [declarationEnd_isSome]; exact Declaration.split?_trim hd hr kept⟩
  simp only [declarationEnd, Declaration.split?_append hd hr kept, Option.map_some]
  simp [Declaration.text, Declaration.rest, hsome]

end ModuleScripts
