import ModuleScripts.Proofs.StatementLayout

/-!
# Reading the layouts of an export

A star export ends with the specifier behind its star, an export list with its
closing brace and the specifier on the line of the brace, if there is one.
-/

namespace ModuleScripts

open Matcher

section Opening

variable {b₀ indent t text : Text}

/-- What stands before the star or the brace holds blanks and the keyword. -/
theorem exportWord_notMem (hi : Blank indent) (h₀ : Blank b₀) {c : Char} (hc : isBlank c = false)
    (hw : c ∉ "export".toList) : c ∉ indent ++ ("export".toList ++ b₀) := by
  simp only [List.mem_append, not_or]
  exact ⟨hi.notMem hc, hw, h₀.notMem hc⟩

/-- What stands up to the keyword of an export is calm. -/
theorem exportWord_calm (hi : Blank indent) (h₀ : Blank b₀) :
    Calm (indent ++ ("export".toList ++ b₀)) :=
  calm_append.2 ⟨hi.calm, calm_append.2 ⟨by decide, h₀.calm⟩⟩

/-- Behind the keyword of an export its first visible character is read
next. -/
theorem trimStart_dropPrefix_export (h₀ : Blank b₀) {c : Char} (hc : isBlank c = false)
    (htrim : Text.trim text = "export".toList ++ (b₀ ++ c :: t)) :
    (Text.dropPrefix? "export".toList (Text.trim text)).map Text.trimStart = some (c :: t) := by
  rw [Text.dropPrefix?_eq_some_iff.2 htrim, Option.map_some, Text.trimStart_blank_append h₀ hc]

end Opening

section Stars

variable {b₀ b₁ b₂ c e g g' indent r s t : Text} {q : Char}

/-- A star export ends where its star says. -/
theorem Boundary.exportListEnd_star {piece rest : Text} (hi : Blank indent) (h₀ : Blank b₀)
    (hstar : star ('*' :: t) = some (piece, rest)) (hc : terminator rest = some (c, r)) :
    exportListEnd ((indent ++ ("export".toList ++ b₀)) ++ '*' :: t) =
      some ((indent ++ ("export".toList ++ b₀)) ++ (piece ++ c), r) := by
  refine exportListEnd_append ?_ (exportWord_notMem hi h₀ (by decide) (by decide)) ?_
  · exact andThen_eq_some_iff.2 ⟨piece, rest, c, orElse_of_some hstar, hc, rfl⟩
  · intro u v hw
    exact absurd (by rw [hw]; simp) (exportWord_notMem (c := '*') hi h₀ (by decide) (by decide))

/-- A star export is read in every layout with blanks. -/
theorem Export.parseStar_append (h₁ : Blank b₁) (h₂ : Blank b₂) (hs : Encloses q s) (he : Ended e)
    (line : Nat) (text : Text) :
    Export.parseStar? line text (b₁ ++ ("from".toList ++ (b₂ ++ q :: (s ++ q :: e)))) =
      some ⟨.star, line, text, [], [], some s⟩ := by
  have hword : (blanks.andThen (literal "as".toList))
      (b₁ ++ ("from".toList ++ (b₂ ++ q :: (s ++ q :: e)))) = none := by
    have hblanks := blanks_append h₁ (c := 'f') rfl ("rom".toList ++ (b₂ ++ q :: (s ++ q :: e)))
    exact andThen_eq_none_of_some hblanks rfl
  have hname : starName? (b₁ ++ ("from".toList ++ (b₂ ++ q :: (s ++ q :: e)))) = none := by
    rw [starName?, andThen_eq_none hword]
  rw [Export.parseStar?, hname, fromSpecifier_append h₁ h₂ hs he.atStatementEnd]
  rfl

/-- A named star export is read in every layout with blanks. -/
theorem Export.parseStarAs_append (h₁ : Blank b₁) (hg : Blank g) (hne : g ≠ []) (n : Name)
    (hg' : Blank g') (hne' : g' ≠ []) (h₂ : Blank b₂) (hs : Encloses q s) (he : Ended e)
    (line : Nat) (text : Text) :
    Export.parseStar? line text (b₁ ++ ("as".toList ++ (g ++ (n.text ++ (g' ++
        ("from".toList ++ (b₂ ++ q :: (s ++ q :: e)))))))) =
      some ⟨.reexport, line, text, [], [⟨['*'], n.text⟩], some s⟩ := by
  have hname : starName? (b₁ ++ ("as".toList ++ (g ++ (n.text ++ (g' ++
      ("from".toList ++ (b₂ ++ q :: (s ++ q :: e)))))))) =
      some (n.text, g' ++ ("from".toList ++ (b₂ ++ q :: (s ++ q :: e)))) := by
    rw [starName?, asWord_append h₁ hg hne n]
    exact n.identifier_append_gap hg' hne' _
  have hleading : (Text.leading (g' ++ ("from".toList ++ (b₂ ++ q :: (s ++ q :: e))))).isEmpty =
      false := by
    have hblanks := Text.leading_blank_append hg' (c := 'f') rfl
      ("rom".toList ++ (b₂ ++ q :: (s ++ q :: e)))
    cases hgap : g' with
    | nil => exact absurd hgap hne'
    | cons d g' =>
      rw [hgap] at hblanks
      exact congrArg List.isEmpty hblanks
  rw [Export.parseStar?, hname]
  dsimp only
  rw [hleading, fromSpecifier_append hg' h₂ hs he.atStatementEnd]
  rfl

/-- A star export is read from what follows its star. -/
theorem Export.parseList_star {x : Text} {export? : Export} (line : Nat) {text : Text}
    (h₀ : Blank b₀) (htrim : Text.trim text = "export".toList ++ (b₀ ++ '*' :: x))
    (hx : Export.parseStar? line text x = some export?) :
    Export.parseList line text = .ok export? := by
  have hstart := trimStart_dropPrefix_export h₀ (by decide) htrim
  unfold Export.parseList
  simp only [hstart, hx]

end Stars

section Lists

variable {b₀ b₁ b₂ c e indent list r s t : Text} {q : Char}

namespace Listable

/-- The brace that closes a list is the first one in the export. -/
theorem brace_notMem (hl : Listable list) (hi : Blank indent) (h₀ : Blank b₀) :
    '}' ∉ (indent ++ ("export".toList ++ b₀)) ++ '{' :: list := by
  rw [List.mem_append, not_or]
  refine ⟨exportWord_notMem hi h₀ (by decide) (by decide), ?_⟩
  rw [List.mem_cons, not_or]
  exact ⟨by decide, hl.brace⟩

/-- The stars before the closing brace are those of the list. -/
theorem not_leadsToQuote (hl : Listable list) (hi : Blank indent) (h₀ : Blank b₀) {u v : Text}
    (h : (indent ++ ("export".toList ++ b₀)) ++ '{' :: list = u ++ '*' :: v) : ¬LeadsToQuote v := by
  have hnot : '*' ∉ (indent ++ ("export".toList ++ b₀)) ++ ['{'] := by
    rw [List.mem_append, not_or]
    exact ⟨exportWord_notMem hi h₀ (by decide) (by decide), by decide⟩
  have hlist : ((indent ++ ("export".toList ++ b₀)) ++ ['{']) ++ list = u ++ '*' :: v := by
    rw [← h]
    simp only [List.append_assoc, List.cons_append, List.nil_append]
  rcases Text.exists_of_append_eq hlist with ⟨v', hstar, _⟩ | ⟨u', _, hstar⟩
  · exact absurd (by rw [hstar]; simp) hnot
  · exact hl.star u' v hstar

/-- An export list ends where its closing brace says. -/
theorem exportListEnd_append (hl : Listable list) (hi : Blank indent) (h₀ : Blank b₀)
    {piece rest : Text} (hbrace : Boundary.closingBrace ('}' :: t) = some (piece, rest))
    (hc : Boundary.terminator rest = some (c, r)) :
    Boundary.exportListEnd (((indent ++ ("export".toList ++ b₀)) ++ '{' :: list) ++ '}' :: t) =
      some (((indent ++ ("export".toList ++ b₀)) ++ '{' :: list) ++ (piece ++ c), r) := by
  have hstar : Boundary.star ('}' :: t) = none :=
    andThen_eq_none (literal_cons_eq_none (by decide) _ t)
  refine Boundary.exportListEnd_append ?_ (hl.brace_notMem hi h₀) ?_
  · exact andThen_eq_some_iff.2 ⟨piece, rest, c, (orElse_of_none hstar).trans hbrace, hc, rfl⟩
  · intro u v h hleads
    exact hl.not_leadsToQuote hi h₀ h hleads.of_append

/-- Before its closing brace it has no end. -/
theorem exportListEnd_eq_none (hl : Listable list) (hi : Blank indent) (h₀ : Blank b₀) :
    Boundary.exportListEnd ((indent ++ ("export".toList ++ b₀)) ++ '{' :: list) = none :=
  Boundary.exportListEnd_inside (hl.brace_notMem hi h₀) fun _ _ h => hl.not_leadsToQuote hi h₀ h

end Listable

/-- A closing brace with a specifier. -/
theorem Boundary.closingBrace_append (h₁ : Blank b₁) (h₂ : Blank b₂) (hs : Encloses q s)
    (t : Text) :
    closingBrace ('}' :: (b₁ ++ ("from".toList ++ (b₂ ++ q :: (s ++ q :: t))))) =
      some ('}' :: (b₁ ++ (("from".toList ++ b₂) ++ q :: (s ++ [q]))), t) := by
  refine andThen_eq_some_iff.2 ⟨['}'], _, _, literal_append ['}'] _, orElse_of_some ?_, rfl⟩
  exact andThen_eq_some_iff.2 ⟨b₁, _, _, blanks_append h₁ (c := 'f') rfl _,
    source_append h₂ hs t, rfl⟩

/-- A closing brace without one. -/
theorem Boundary.closingBrace_bare (h : (blanks.andThen source) t = none) :
    closingBrace ('}' :: t) = some (['}'], t) :=
  andThen_eq_some_iff.2 ⟨['}'], t, [], literal_append ['}'] t, orElse_of_none h, rfl⟩

section Braces

variable {α : Type} {tail : Text → Option α}

/-- A list without braces goes up to the first brace. -/
theorem braced_append {found : α} (hl : '}' ∉ list) (h : tail t = some found) :
    braced? tail (list ++ '}' :: t) = some (list, found) := by
  induction list with
  | nil =>
    rw [List.nil_append, braced?, if_pos rfl, h]
  | cons d list ih =>
    rw [List.mem_cons, not_or] at hl
    rw [List.cons_append, braced?, if_neg fun hd => hl.1 hd.symm, ih hl.2]
    rfl

/-- Without a closing brace there is no list. -/
theorem braced_eq_none (ht : '}' ∉ t) : braced? tail t = none := by
  by_contra hn
  obtain ⟨⟨list, found⟩, hb⟩ := Option.ne_none_iff_exists'.1 hn
  obtain ⟨behind, rfl, _⟩ := exists_of_braced hb
  exact ht (by simp)

/-- If no list can end at the only brace there is none. -/
theorem braced_append_eq_none (hl : '}' ∉ list) (ht : '}' ∉ t) (h : tail t = none) :
    braced? tail (list ++ '}' :: t) = none := by
  induction list with
  | nil =>
    rw [List.nil_append, braced?, if_pos rfl, h, braced_eq_none ht]
    rfl
  | cons d list ih =>
    rw [List.mem_cons, not_or] at hl
    rw [List.cons_append, braced?, if_neg fun hd => hl.1 hd.symm, ih hl.2]
    rfl

end Braces

/-- What stands behind the end of a statement closes it. -/
theorem Ended.closing (he : Ended e) : Closing e := closing_of_atStatementEnd he.atStatementEnd

/-- A list with a specifier is read to its items and the specifier. -/
theorem Export.parseList_names {bindings : List Binding} (line : Nat) {text : Text}
    (h₀ : Blank b₀) (hw : BindingsWritten .filled bindings list) (hl : '}' ∉ list)
    (h₁ : Blank b₁) (h₂ : Blank b₂) (hs : Encloses q s) (he : Ended e)
    (htrim : Text.trim text = "export".toList ++ (b₀ ++ '{' :: (list ++ '}' :: (b₁ ++
      ("from".toList ++ (b₂ ++ q :: (s ++ q :: e))))))) :
    Export.parseList line text =
      .ok ⟨.reexport, line, text, [], bindings.map Binding.rename, some s⟩ := by
  obtain ⟨kept, hkept, hblank⟩ := hw.cleared
  have hstart := trimStart_dropPrefix_export h₀ (by decide) htrim
  have hsource := fromSpecifier_append h₁ h₂ hs he.atStatementEnd
  have hread := hblank.parseBindings hkept
  unfold Export.parseList
  simp only [hstart, Export.parseBraced, braced_append hl hsource, hread]
  rfl

/-- A list without one is read to its items. -/
theorem Export.parseList_list {bindings : List Binding} (line : Nat) {text : Text}
    (h₀ : Blank b₀) (hw : BindingsWritten .filled bindings list) (hl : '}' ∉ list) (he : Ended e)
    (htrim : Text.trim text = "export".toList ++ (b₀ ++ '{' :: (list ++ '}' :: e))) :
    Export.parseList line text = .ok ⟨.named, line, text, [], bindings.map Binding.rename, none⟩ := by
  obtain ⟨kept, hkept, hblank⟩ := hw.cleared
  have hstart := trimStart_dropPrefix_export h₀ (by decide) htrim
  have hnone : fromSpecifier? e = none := by
    by_contra hn
    obtain ⟨found, hf⟩ := Option.ne_none_iff_exists'.1 hn
    obtain ⟨word, _, d, closing, rfl, hd, _⟩ := literalBehind_of_fromSpecifier hf
    have hquote := he.closing.quoteFree d (by simp)
    rw [hd] at hquote
    cases hquote
  have hbrace : '}' ∉ e := fun hm => absurd (he.closing _ hm) (by decide)
  have hend : (if atStatementEnd e then some () else none) = some () := if_pos he.atStatementEnd
  have hread := hblank.parseBindings hkept
  unfold Export.parseList
  simp only [hstart, Export.parseBraced, braced_append_eq_none hl hbrace hnone]
  rw [braced_append hl hend]
  simp only [hread]
  rfl

end Lists

end ModuleScripts
