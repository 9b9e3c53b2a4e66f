import ModuleScripts.Proofs.ContextThread
import ModuleScripts.Proofs.ExportLayout
import ModuleScripts.Proofs.ImportLayout

/-!
# Reading a statement in any of its layouts

A statement in one of its layouts is taken as one step of the parser: its first
line announces it, no line but its last completes it, the cut falls behind it and
nothing is open there. So every layout is followed by the same remaining
statements.
-/

namespace ModuleScripts

open Matcher

/-- A text starts its first line. -/
theorem Text.exists_first_of_lines {w t first : Text} {others : List Text} (hw : '\n' ∉ w)
    (hl : lines (w ++ t) = first :: others) : ∃ t', first = w ++ t' := by
  induction w generalizing first others with
  | nil => exact ⟨first, rfl⟩
  | cons c w ih =>
    rw [List.mem_cons, not_or] at hw
    obtain ⟨start, more, hlines⟩ := List.exists_cons_of_ne_nil (lines_ne_nil (w ++ t))
    have hcons := lines_cons_of_ne (fun hc => hw.1 hc.symm) hlines
    rw [List.cons_append, hcons] at hl
    obtain ⟨t', rfl⟩ := ih hw.2 hlines
    exact ⟨t', (List.cons.inj hl).1.symm⟩

namespace LineHead

variable {b₀ first indent t : Text} {others : List Text}

/-- The first line of a text that starts as an import announces one. -/
theorem ofLine_of_import (hi : Text.OneLineBlank indent) {c : Char} (hc : opensImport c = true)
    (hn : c ≠ '\n') (hl : Text.lines (indent ++ ("import".toList ++ c :: t)) = first :: others) :
    ofLine first = importing := by
  have hsplit : indent ++ ("import".toList ++ c :: t) =
      (indent ++ ("import".toList ++ [c])) ++ t := by
    simp only [List.append_assoc, List.cons_append, List.nil_append]
  have hline : '\n' ∉ indent ++ ("import".toList ++ [c]) := by
    simp only [List.mem_append, List.mem_singleton, not_or]
    exact ⟨hi.2, by decide, fun he => hn he.symm⟩
  rw [hsplit] at hl
  obtain ⟨t', rfl⟩ := Text.exists_first_of_lines hline hl
  refine ofLine_eq_importing_iff.2 ⟨c, t', ?_, hc⟩
  rw [List.append_assoc, Text.trimStart_append_of_blank hi.blank, List.append_assoc]
  rfl

/-- The first line of a text that starts as an export list announces one. -/
theorem ofLine_of_exportList (hi : Text.OneLineBlank indent) (h₀ : Text.OneLineBlank b₀) {c : Char}
    (hc : c = '{' ∨ c = '*')
    (hl : Text.lines (indent ++ ("export".toList ++ (b₀ ++ c :: t))) = first :: others) :
    ofLine first = exportList := by
  have hvisible : c ≠ '\n' ∧ isBlank c = false ∧ ∀ r, opensList (c :: r) = true := by
    rcases hc with rfl | rfl <;> exact ⟨by decide, by decide, fun _ => rfl⟩
  have hsplit : indent ++ ("export".toList ++ (b₀ ++ c :: t)) =
      (indent ++ ("export".toList ++ (b₀ ++ [c]))) ++ t := by
    simp only [List.append_assoc, List.cons_append, List.nil_append]
  have hline : '\n' ∉ indent ++ ("export".toList ++ (b₀ ++ [c])) := by
    simp only [List.mem_append, List.mem_singleton, not_or]
    exact ⟨hi.2, by decide, h₀.2, fun he => hvisible.1 he.symm⟩
  rw [hsplit] at hl
  obtain ⟨t', rfl⟩ := Text.exists_first_of_lines hline hl
  refine ofLine_eq_exportList_iff.2 ⟨b₀ ++ c :: t', ?_, ?_⟩
  · simp only [List.append_assoc, List.cons_append, List.nil_append]
    rw [Text.trimStart_append_of_blank hi.blank]
    rfl
  · rw [Text.trimStart_blank_append h₀.blank hvisible.2.1]
    exact hvisible.2.2 t'

end LineHead

namespace Keyword

variable {k : Keyword} {a c first l r : Text} {lines others : List Text}

/-- A text with the end of such a statement has one when it goes on. -/
theorem grows (k : Keyword) : k.ending.Grows := by
  cases k with
  | importing => exact Boundary.importEnd_grows
  | exporting => exact Boundary.exportListEnd_grows

/-- The white space around a text does not matter to whether the statement ends
in it. -/
theorem ending_trim_iff {t : Text} : (k.ending (Text.trim t)).isSome ↔ (k.ending t).isSome := by
  cases k with
  | importing => exact Boundary.importEnd_trim_iff
  | exporting => exact Boundary.exportListEnd_trim_iff

/-- A step takes what it reads of a statement that is announced and cut off. -/
theorem next_of_cut {line : Nat} {raw text piece rest : Text} {following : List Text}
    (ho : LineHead.ofLine raw = k.head)
    (hc : collect (fun t => (k.ending t).isSome) raw lines = some (text, following))
    (hm : k.ending text = some (piece, rest)) :
    Taken.next [] line raw lines =
      (k.read line piece).map fun s => ⟨s, rest, line + Text.lineFeeds text, following⟩ := by
  have hcut : Taken.cutAt k.ending text = (piece, rest) := by rw [Taken.cutAt, hm, Option.getD_some]
  unfold Taken.next
  rw [if_neg (by decide), ho]
  cases k with
  | importing =>
    simp only [head, Taken.importing]
    rw [show collect (fun t => (Boundary.importEnd t).isSome) raw lines = _ from hc]
    dsimp only
    rw [show Taken.cutAt Boundary.importEnd text = _ from hcut, read, except_map_map]
    rfl
  | exporting =>
    simp only [head, Taken.exportList]
    rw [show collect (fun t => (Boundary.exportListEnd t).isSome) raw lines = _ from hc]
    dsimp only
    rw [show Taken.cutAt Boundary.exportListEnd text = _ from hcut, read, except_map_map]
    rfl

/-- Of a statement in front of the rest of a line one step takes what it reads. -/
theorem next_of_statement {line : Nat} (hl : Text.lines (a ++ l) = first :: others)
    (hn : '\n' ∉ l) (ho : LineHead.ofLine first = k.head)
    (hcut : k.ending (a ++ l) = some (a ++ c, r))
    (hearly : ∀ before behind, a = before ++ '\n' :: behind → k.ending before = none)
    (following : List Text) :
    Taken.next [] line first (others ++ following) =
      (k.read line (a ++ c)).map fun s => ⟨s, r, line + Text.lineFeeds a, following⟩ := by
  have hfeeds := Text.lineFeeds_append_oneLine a hn
  have hcollect : collect (fun t => (k.ending t).isSome) first (others ++ following) =
      some (a ++ l, following) := by
    refine collect_of_lines hl (ending_trim_iff.2 (by rw [hcut]; rfl)) ?_ following
    intro before behind htext
    rcases Text.exists_of_append_eq htext with ⟨behind', ha, _⟩ | ⟨before', _, hb⟩
    · have hnone := hearly _ _ ha
      rw [Bool.eq_false_iff]
      intro hsome
      rw [ending_trim_iff, hnone] at hsome
      cases hsome
    · exact absurd (by rw [hb]; simp) hn
  rw [← hfeeds]
  exact next_of_cut ho hcollect hcut

/-- Where a statement has no end before its last line, none of its lines but the last
completes it. -/
theorem early_of_open {opened closed before behind : Text} (hsplit : a = opened ++ closed)
    (hclosed : '\n' ∉ closed) (hnone : k.ending opened = none)
    (ha : a = before ++ '\n' :: behind) : k.ending before = none := by
  rw [hsplit] at ha
  rcases Text.exists_of_append_eq ha with ⟨behind', hopened, _⟩ | ⟨before', _, hfeed⟩
  · rw [hopened] at hnone
    exact k.grows.eq_none hnone
  · exact absurd (by rw [hfeed]; simp) hclosed

end Keyword

namespace Lead.Written

variable {lead : Lead} {c e front r s t : Text} {q : Char}

/-- The statement is cut off behind its specifier. -/
theorem cut (h : lead.Written front) (hs : Encloses q s)
    (hc : Boundary.terminator t = some (c, r)) :
    lead.keyword.ending (front ++ q :: (s ++ q :: t)) =
      some (front ++ q :: (s ++ q :: c), r) := by
  cases h with
  | run hi hb hline => exact Boundary.importEnd_run hi.blank hb hs hc
  | binding hi hblank hline hg hclause hg' hend hb hfrom =>
    have hmiddle := middle_of_written (hg.blank hblank) hclause hg' hend hfrom
    simpa only [List.append_assoc, List.cons_append, Lead.keyword, Keyword.ending] using
      hmiddle.importEnd_append hi.blank hb hs hc
  | names hi h₀ hw hl h₁ h₂ =>
    simpa only [List.append_assoc, List.cons_append, List.nil_append,
      Lead.keyword, Keyword.ending] using
      hl.exportListEnd_append hi.blank h₀.blank
        (Boundary.closingBrace_append h₁.blank h₂.blank hs t) hc
  | star hi h₀ h₁ h₂ =>
    simpa only [List.append_assoc, List.cons_append, List.nil_append,
      Lead.keyword, Keyword.ending] using
      Boundary.exportListEnd_star hi.blank h₀.blank (Boundary.star_append h₁ h₂ hs t) hc
  | starAs hi h₀ h₁ hg hne hg' hne' h₂ =>
    simpa only [List.append_assoc, List.cons_append, List.nil_append,
      Lead.keyword, Keyword.ending] using
      Boundary.exportListEnd_star hi.blank h₀.blank
        (Boundary.starAs_append h₁ hg hne _ hg' hne' h₂ hs t) hc

/-- Nothing before the last line that the layout reaches can be taken for it. -/
theorem exists_open (h : lead.Written front) :
    ∃ opened closed, front = opened ++ closed ∧ '\n' ∉ closed ∧ lead.keyword.ending opened = none := by
  have hwhole : lead.keyword.ending front = none → ∃ opened closed, front = opened ++ closed ∧
      '\n' ∉ closed ∧ lead.keyword.ending opened = none := fun hnone =>
    ⟨front, [], (List.append_nil front).symm, List.not_mem_nil, hnone⟩
  have hword : QuoteFree "from".toList ∧ '}' ∉ "from".toList ∧ '\n' ∉ "from".toList := by decide
  cases h with
  | run hi hb _ =>
    refine hwhole (Boundary.importEnd_eq_none ?_)
    simp only [QuoteFree, List.forall_mem_append]
    exact ⟨hi.blank.quoteFree, by decide, hb.quoteFree⟩
  | binding hi hblank hline hg hclause hg' hend hb hfrom =>
    have hmiddle := middle_of_written (hg.blank hblank) hclause hg' hend hfrom
    refine hwhole ?_
    simpa only [List.append_assoc, List.cons_append, Lead.keyword, Keyword.ending] using
      hmiddle.importEnd_eq_none hi.blank hb
  | @names bindings indent b₀ list b₁ b₂ hi h₀ hw hl h₁ h₂ =>
    refine ⟨(indent ++ ("export".toList ++ b₀)) ++ '{' :: list, '}' :: (b₁ ++ ("from".toList ++ b₂)),
      ?_, ?_, hl.exportListEnd_eq_none hi.blank h₀.blank⟩
    · simp only [List.append_assoc, List.cons_append]
    · simp only [List.mem_cons, List.mem_append, not_or]
      exact ⟨by decide, h₁.2, hword.2.2, h₂.2⟩
  | @star indent b₀ b₁ b₂ hi h₀ h₁ h₂ =>
    refine hwhole (Boundary.exportListEnd_eq_none ?_ ?_)
    · simp only [QuoteFree, List.forall_mem_append, List.forall_mem_cons]
      exact ⟨hi.blank.quoteFree, by decide, h₀.blank.quoteFree, by decide, h₁.quoteFree, hword.1,
        h₂.quoteFree⟩
    · simp only [List.mem_cons, List.mem_append, not_or]
      exact ⟨hi.blank.notMem (by decide), by decide, h₀.blank.notMem (by decide), by decide,
        h₁.notMem (by decide), hword.2.1, h₂.notMem (by decide)⟩
  | @starAs name indent b₀ b₁ g g' b₂ hi h₀ h₁ hg hne hg' hne' h₂ =>
    refine hwhole (Boundary.exportListEnd_eq_none ?_ ?_)
    · simp only [QuoteFree, List.forall_mem_append, List.forall_mem_cons]
      exact ⟨hi.blank.quoteFree, by decide, h₀.blank.quoteFree, by decide, h₁.quoteFree, by decide,
        hg.quoteFree, name.quoteFree, hg'.quoteFree, hword.1, h₂.quoteFree⟩
    · simp only [List.mem_cons, List.mem_append, not_or]
      exact ⟨hi.blank.notMem (by decide), by decide, h₀.blank.notMem (by decide), by decide,
        h₁.notMem (by decide), by decide, hg.notMem (by decide),
        name.notMem (by decide) (by decide +kernel), hg'.notMem (by decide), hword.2.1,
        h₂.notMem (by decide)⟩

/-- The first line announces the statement. -/
theorem head (h : lead.Written front) (hq : isQuote q = true) {first : Text} {others : List Text}
    (hl : Text.lines (front ++ q :: t) = first :: others) :
    LineHead.ofLine first = lead.keyword.head := by
  cases h with
  | @run indent b hi hb hline =>
    cases b with
    | nil =>
      rw [List.append_nil, List.append_assoc] at hl
      have hopens : LineHead.opensImport q = true ∧ q ≠ '\n' := by
        have hquote : q = '\'' ∨ q = '"' := by simpa [isQuote] using hq
        rcases hquote with rfl | rfl <;> decide
      exact LineHead.ofLine_of_import hi hopens.1 hopens.2 hl
    | cons c b =>
      have hc : c ≠ '\n' := fun he => hline (by rw [he]; rfl)
      have hblank : LineHead.opensImport c = true := by
        simp [LineHead.opensImport, (blank_cons.1 hb).1]
      rw [List.append_assoc, List.append_assoc, List.cons_append] at hl
      exact LineHead.ofLine_of_import hi hblank hc hl
  | @binding bound indent g kept clause g' kept' b c hi hblank hline hg hclause hg' hend hb hfrom =>
    have hopens : LineHead.opensImport c = true := by
      simp [LineHead.opensImport, hblank]
    rw [List.append_assoc, List.append_assoc, List.cons_append] at hl
    exact LineHead.ofLine_of_import hi hopens hline hl
  | names hi h₀ hw hlist h₁ h₂ =>
    simp only [List.append_assoc, List.cons_append] at hl
    exact LineHead.ofLine_of_exportList hi h₀ (.inl rfl) hl
  | star hi h₀ h₁ h₂ =>
    simp only [List.append_assoc, List.cons_append] at hl
    exact LineHead.ofLine_of_exportList hi h₀ (.inr rfl) hl
  | starAs hi h₀ h₁ hg hne hg' hne' h₂ =>
    simp only [List.append_assoc, List.cons_append] at hl
    exact LineHead.ofLine_of_exportList hi h₀ (.inr rfl) hl

/-- Nothing before the specifier opens a string or stays open. -/
theorem tame (h : lead.Written front) : Tame front := by
  cases h with
  | run hi hb _ =>
    exact (calm_append.2 ⟨hi.blank.calm, calm_append.2 ⟨by decide, hb.calm⟩⟩).tame
  | binding hi hblank hline hg hclause hg' hend hb hfrom =>
    have hmiddle := middle_of_written (hg.blank hblank) hclause hg' hend hfrom
    simpa only [List.append_assoc, List.cons_append] using hmiddle.tame hi.blank hb
  | @names bindings indent b₀ list b₁ b₂ hi h₀ hw hl h₁ h₂ =>
    obtain ⟨kept, hkept, hblank⟩ := hw.cleared
    refine ⟨(indent ++ ("export".toList ++ b₀)) ++ ['{'], list, '}' :: (b₁ ++ ("from".toList ++ b₂)),
      ?_, ?_, ?_, ?_⟩
    · simp only [List.append_assoc, List.cons_append, List.nil_append]
    · exact calm_append.2 ⟨exportWord_calm hi.blank h₀.blank, by decide⟩
    · rw [hkept.remove_eq]
      exact hblank.calm
    · exact calm_cons.2 ⟨by decide, calm_append.2 ⟨h₁.blank.calm, calm_append.2 ⟨by decide,
        h₂.blank.calm⟩⟩⟩
  | @star indent b₀ b₁ b₂ hi h₀ h₁ h₂ =>
    refine Calm.tame ?_
    rw [← List.append_assoc, ← List.append_assoc, List.append_assoc indent]
    exact calm_append.2 ⟨exportWord_calm hi.blank h₀.blank, calm_cons.2 ⟨by decide,
      calm_append.2 ⟨h₁.calm, calm_append.2 ⟨by decide, h₂.calm⟩⟩⟩⟩
  | @starAs name indent b₀ b₁ g g' b₂ hi h₀ h₁ hg hne hg' hne' h₂ =>
    refine Calm.tame ?_
    rw [← List.append_assoc, ← List.append_assoc, List.append_assoc indent]
    exact calm_append.2 ⟨exportWord_calm hi.blank h₀.blank, calm_cons.2 ⟨by decide,
      calm_append.2 ⟨h₁.calm, calm_append.2 ⟨by decide, calm_append.2 ⟨hg.calm, calm_append.2
        ⟨name.calm, calm_append.2 ⟨hg'.calm, calm_append.2 ⟨by decide, h₂.calm⟩⟩⟩⟩⟩⟩⟩⟩

/-- The statement that was cut off is read as what it says. -/
theorem read (h : lead.Written front) (hs : Encloses q s) (he : Ended e) {blank : Text}
    (hblank : Blank blank) (line : Nat) :
    lead.keyword.read line (front ++ q :: (s ++ q :: (e ++ blank))) =
      .ok (lead.statement line (front ++ q :: (s ++ q :: (e ++ blank))) s) := by
  have hquote := isBlank_of_isQuote hs.isQuote
  cases h with
  | @run indent b hi hb hline =>
    have htrim := he.trim (r := "import".toList ++ (b ++ q :: s)) (d := 'i') hi.blank hblank
      (by decide) hquote rfl
    simp only [List.append_assoc, List.cons_append] at htrim ⊢
    have hdrop := Text.dropPrefix?_eq_some_iff.2 htrim
    have hbare : bareSpecifier? (b ++ q :: (s ++ q :: e)) = some s := by
      rw [bareSpecifier?, Text.trimStart_blank_append hb hquote]
      exact finalSpecifier_append hs he.atStatementEnd
    unfold Lead.keyword Keyword.read Import.parse
    simp only [hdrop, hbare]
    rfl
  | binding hi hc hline hg hclause hg' hend hb hfrom =>
    have hmiddle := middle_of_written (hg.blank hc) hclause hg' hend hfrom
    refine hmiddle.parse rfl hc hi.blank hb hs he hblank line _ ?_
    simp only [List.append_assoc, List.cons_append]
  | @names bindings indent b₀ list b₁ b₂ hi h₀ hw hl h₁ h₂ =>
    have htrim := he.trim (r := "export".toList ++ (b₀ ++ '{' :: (list ++ '}' :: (b₁ ++
      ("from".toList ++ (b₂ ++ q :: s)))))) (d := 'e') hi.blank hblank (by decide) hquote rfl
    simp only [List.append_assoc, List.cons_append] at htrim ⊢
    have hread := Export.parseList_names line h₀.blank hw hl.brace h₁.blank h₂.blank hs he
      htrim
    unfold Lead.keyword Keyword.read
    simp only [hread]
    rfl
  | @star indent b₀ b₁ b₂ hi h₀ h₁ h₂ =>
    have htrim := he.trim (r := "export".toList ++ (b₀ ++ '*' :: (b₁ ++ ("from".toList ++
      (b₂ ++ q :: s))))) (d := 'e') hi.blank hblank (by decide) hquote rfl
    simp only [List.append_assoc, List.cons_append] at htrim ⊢
    have hread := Export.parseList_star line h₀.blank htrim
      (Export.parseStar_append h₁ h₂ hs he line _)
    unfold Lead.keyword Keyword.read
    simp only [hread]
    rfl
  | @starAs name indent b₀ b₁ g g' b₂ hi h₀ h₁ hg hne hg' hne' h₂ =>
    have htrim := he.trim (r := "export".toList ++ (b₀ ++ '*' :: (b₁ ++ ("as".toList ++ (g ++
      (name.text ++ (g' ++ ("from".toList ++ (b₂ ++ q :: s))))))))) (d := 'e') hi.blank hblank
      (by decide) hquote rfl
    simp only [List.append_assoc, List.cons_append] at htrim ⊢
    have hread := Export.parseList_star line h₀.blank htrim
      (Export.parseStarAs_append h₁ hg hne name hg' hne' h₂ hs he line _)
    unfold Lead.keyword Keyword.read
    simp only [hread]
    rfl

end Lead.Written

/-- The text does not make a list a re-export. -/
def Form.EndsBefore (l : Text) : Form → Prop
  | sourced _ _ => True
  | list _ => (blanks.andThen Boundary.source) l = none

namespace Form.Written

variable {form : Form} {a c l r : Text}

/-- A written statement ends behind its terminator, and the rest is left. -/
theorem cut (h : form.Written a) (hl : form.EndsBefore l)
    (hc : Boundary.terminator l = some (c, r)) :
    form.keyword.ending (a ++ l) = some (a ++ c, r) := by
  cases h with
  | sourced hfront hs =>
    simpa only [List.append_assoc, List.cons_append, List.nil_append, Form.keyword] using
      hfront.cut hs hc
  | list hi h₀ hw hlist =>
    simpa only [List.append_assoc, List.cons_append, List.nil_append, Form.keyword,
      Keyword.ending] using
      hlist.exportListEnd_append hi.blank h₀.blank (Boundary.closingBrace_bare hl) hc

/-- A written statement does not end before one of its line feeds. -/
theorem early (h : form.Written a) {before behind : Text} (ha : a = before ++ '\n' :: behind) :
    form.keyword.ending before = none := by
  cases h with
  | @sourced lead front s q hfront hs =>
    obtain ⟨opened, closed, rfl, hclosed, hnone⟩ := hfront.exists_open
    refine Keyword.early_of_open (List.append_assoc _ _ _) ?_ hnone ha
    rw [List.mem_append, not_or]
    exact ⟨hclosed, hs.lineFeed_notMem⟩
  | @list bindings indent b₀ list hi h₀ hw hl =>
    have hsplit : indent ++ ("export".toList ++ (b₀ ++ '{' :: (list ++ ['}']))) =
        ((indent ++ ("export".toList ++ b₀)) ++ '{' :: list) ++ ['}'] := by
      simp only [List.append_assoc, List.cons_append]
    exact Keyword.early_of_open (k := .exporting) hsplit (by decide)
      (hl.exportListEnd_eq_none hi.blank h₀.blank) ha

/-- The first line of a written statement announces it. -/
theorem head (h : form.Written a) {first : Text} {others : List Text}
    (hl : Text.lines (a ++ l) = first :: others) :
    LineHead.ofLine first = form.keyword.head := by
  cases h with
  | sourced hfront hs =>
    rw [List.append_assoc, List.cons_append] at hl
    exact hfront.head hs.isQuote hl
  | list hi h₀ hw hlist =>
    simp only [List.append_assoc, List.cons_append] at hl
    exact LineHead.ofLine_of_exportList hi h₀ (.inl rfl) hl

/-- A written statement is read to what it stands for. -/
theorem read (h : form.Written a) (hc : Boundary.terminator l = some (c, r)) (line : Nat) :
    form.keyword.read line (a ++ c) = .ok (form.statement line (a ++ c)) := by
  obtain ⟨e, blank, rfl, he, hblank⟩ := Boundary.ended_of_terminator hc
  cases h with
  | sourced hfront hs =>
    simpa only [List.append_assoc, List.cons_append, List.nil_append, Form.keyword,
      Form.statement] using hfront.read hs he hblank line
  | @list bindings indent b₀ list hi h₀ hw hl =>
    have htrim := he.trim (r := "export".toList ++ (b₀ ++ '{' :: list)) (c := '}') (d := 'e')
      hi.blank hblank (by decide) (by decide) rfl
    simp only [List.append_assoc, List.cons_append, List.nil_append] at htrim ⊢
    have hread := Export.parseList_list line h₀.blank hw hl.brace he htrim
    unfold Form.keyword Keyword.read
    simp only [hread]
    rfl

/-- Behind the statement nothing is open. -/
theorem after_eq_nil (h : form.Written a) (hc : Boundary.terminator l = some (c, r)) :
    Lexer.after [] (a ++ c) = [] := by
  have hclosing := Boundary.terminator_closing hc
  cases h with
  | sourced hfront hs =>
    simpa only [List.append_assoc, List.cons_append, List.nil_append] using
      Lexer.after_literal hfront.tame hs.isQuote hs.notMem hs.oneLine hclosing
  | @list bindings indent b₀ list hi h₀ hw hl =>
    obtain ⟨kept, hkept, hblank⟩ := hw.cleared
    have htame : Tame ((indent ++ ("export".toList ++ (b₀ ++ '{' :: (list ++ ['}'])))) ++ c) := by
      refine ⟨(indent ++ ("export".toList ++ b₀)) ++ ['{'], list, '}' :: c, ?_, ?_, ?_, ?_⟩
      · simp only [List.append_assoc, List.cons_append, List.nil_append]
      · exact calm_append.2 ⟨exportWord_calm hi.blank h₀.blank, by decide⟩
      · rw [hkept.remove_eq]
        exact hblank.calm
      · exact calm_cons.2 ⟨by decide, hclosing.calm⟩
    rw [Lexer.after, Lexer.run_eq_walk]
    exact (htame.walk_resting none).1

/-- A statement in any of its layouts is taken as one step. -/
theorem next (h : form.Written a) (hn : '\n' ∉ l) (hend : form.EndsBefore l)
    (hc : Boundary.terminator l = some (c, r)) {first : Text} {others : List Text}
    (hl : Text.lines (a ++ l) = first :: others) (line : Nat) (following : List Text) :
    Taken.next [] line first (others ++ following) =
      .ok ⟨form.statement line (a ++ c), r, line + Text.lineFeeds a, following⟩ :=
  (Keyword.next_of_statement hl hn (h.head hl) (h.cut hend hc) (fun _ _ ha => h.early ha)
    following).trans (by rw [h.read hc line]; rfl)

end Form.Written

/-- A step rejects an import with braces or a star right behind the keyword. -/
theorem Form.Tight.next {form : Form} {a c l r : Text} (h : form.Tight a) (hn : '\n' ∉ l)
    (hc : Boundary.terminator l = some (c, r)) {first : Text} {others : List Text}
    (hl : Text.lines (a ++ l) = first :: others) (line : Nat) (following : List Text) :
    Taken.next [] line first (others ++ following) =
      .error (.invalidImport (Text.trim (a ++ c))) := by
  cases h with
  | @binding group indent clause g' kept' b s q hi hclause hg' hend hb hfrom hs =>
    have hmiddle : Middle (.group group) (clause ++ g') :=
      middle_of_written .nil (.group hclause) hg' hend hfrom
    obtain ⟨d, u, hd, hopens⟩ : ∃ d u, clause ++ g' = d :: u ∧
        (LineHead.opensImport d = true ∧ d ≠ '\n' ∧ isBlank d = false) := by
      cases hclause with
      | namespaceObject _ _ _ => exact ⟨'*', _, rfl, by decide⟩
      | named _ => exact ⟨'{', _, rfl, by decide⟩
    have hfront : indent ++ ("import".toList ++ (clause ++ (g' ++ ("from".toList ++ b)))) =
        indent ++ ("import".toList ++ ((clause ++ g') ++ ("from".toList ++ b))) := by
      rw [List.append_assoc clause]
    rw [hfront] at hl ⊢
    generalize clause ++ g' = x at hmiddle hd hl ⊢
    have hhead : LineHead.ofLine first = Keyword.importing.head := by
      simp only [hd, List.append_assoc, List.cons_append] at hl
      exact LineHead.ofLine_of_import hi hopens.1 hopens.2.1 hl
    have hcut := hmiddle.importEnd_append hi.blank hb hs hc
    refine (Keyword.next_of_statement (k := .importing) hl hn hhead
      (by simpa only [List.append_assoc, List.cons_append, List.nil_append, Keyword.ending]
        using hcut)
      (fun _ _ ha => Keyword.early_of_open rfl hs.lineFeed_notMem
        (hmiddle.importEnd_eq_none hi.blank hb) ha) following).trans ?_
    obtain ⟨e, blank, rfl, he, hblank⟩ := Boundary.ended_of_terminator hc
    have hread := hmiddle.parse_tight hd hopens.2.2 hi.blank hs he hblank (b := b) line _ rfl
    rw [Keyword.read]
    simp only [List.append_assoc, List.cons_append, List.nil_append] at hread ⊢
    rw [hread]
    rfl

/-- Behind the keyword of an export alone on its line comes neither a list nor a
declaration. -/
theorem LineHead.ofLine_of_exportWord {indent b : Text} (hi : Blank indent) (hb : Blank b)
    (hne : b ≠ []) : ofLine (indent ++ ("export".toList ++ b)) = exportOther := by
  have hkeyword : Text.trimStart (indent ++ ("export".toList ++ b)) = "export".toList ++ b := by
    rw [Text.trimStart_append_of_blank hi]
    rfl
  have hblank : Text.trimStart b = [] := List.dropWhile_eq_nil_iff.2 hb
  have hvariable : (variableHead (indent ++ ("export".toList ++ b))).isSome = false := by
    rw [Bool.eq_false_iff]
    intro h
    obtain ⟨behind, c, r, hbehind, hr, -⟩ := exists_keyword_of_variableHead h
    rw [← List.append_cancel_left (hkeyword.symm.trans hbehind), hblank] at hr
    cases hr
  obtain ⟨c, r, rfl⟩ := List.exists_cons_of_ne_nil hne
  have hopens : opensExport c = true := by simp [opensExport, (blank_cons.1 hb).1]
  rw [ofLine_of_export hkeyword, ofExport_eq, hblank, ofDeclaration, hvariable]
  simp [opensList, hopens]

/-- A step rejects an export whose keyword stands alone on its line. -/
theorem Taken.next_of_exportWord {indent b : Text} (hi : Blank indent) (hb : Blank b)
    (hne : b ≠ []) (line : Nat) (following : List Text) :
    Taken.next [] line (indent ++ ("export".toList ++ b)) following =
      .error (.invalidExport "export".toList) := by
  have htrim : Text.trim (indent ++ ("export".toList ++ b)) = "export".toList :=
    Text.trim_blank_append hi hb (c := 'e') (d := 't') rfl rfl (by decide) (by decide)
  have hgap : ((literal "export".toList).andThen gap) "export".toList = none := by decide
  rw [Taken.next, if_neg (by decide), LineHead.ofLine_of_exportWord hi hb hne]
  simp only [exportOther, Export.parseLine, htrim, hgap]
  rfl

/-- A step rejects an export that starts on a later line than its keyword. -/
theorem Form.Parted.next {form : Form} {a t first : Text} {others : List Text}
    (h : form.Parted a) (hl : Text.lines (a ++ t) = first :: others) (line : Nat) :
    Taken.next [] line first others = .error (.invalidExport "export".toList) := by
  cases h with
  | @feed indent b b' behind hi hb hne hb' h =>
    have hline : '\n' ∉ indent ++ ("export".toList ++ b) := by
      simp only [List.mem_append, not_or]
      exact ⟨hi.2, by decide, hb.2⟩
    have htext : (indent ++ ("export".toList ++ (b ++ '\n' :: (b' ++ behind)))) ++ t =
        (indent ++ ("export".toList ++ b)) ++ '\n' :: ((b' ++ behind) ++ t) := by
      simp only [List.append_assoc, List.cons_append]
    rw [htext, Text.lines_append_lineFeed, Text.lines_of_oneLine hline] at hl
    obtain ⟨rfl, rfl⟩ := List.cons.inj hl
    exact Taken.next_of_exportWord hi.blank hb.blank hne line _

end ModuleScripts
