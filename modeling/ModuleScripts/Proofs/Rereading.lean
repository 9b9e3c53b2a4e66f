import ModuleScripts.Proofs.Announcing
import ModuleScripts.Proofs.Layout
import ModuleScripts.Proofs.Numbering

/-!
# Reading a statement again

The text of a statement, on lines of its own, is taken as the same statement
whatever lines follow it. Its first line announces what the line it was cut from
announced, and joining its lines stops exactly at its end.
-/

namespace ModuleScripts

namespace Text

/-- A line feed in front adds an empty line. -/
theorem lines_cons_lineFeed (t : Text) : lines ('\n' :: t) = [] :: lines t :=
  splitOn_cons_self '\n' t

/-- The lines of a text that a line feed parts in two. -/
theorem lines_append_lineFeed (a b : Text) : lines (a ++ '\n' :: b) = lines a ++ lines b :=
  List.splitOn_append_cons_self a b

/-- A text without a line feed is its only line. -/
theorem lines_of_oneLine {t : Text} (h : '\n' ∉ t) : lines t = [t] :=
  List.splitOn_eq_singleton h

/-- Every text has a line. -/
theorem lines_ne_nil (t : Text) : lines t ≠ [] := List.splitOn_ne_nil '\n' t

end Text

/-- What is still to be read has the line at hand and the lines that follow. -/
theorem lines_unread {raw : Text} {lines : List Text} (hraw : '\n' ∉ raw)
    (hl : ∀ l ∈ lines, '\n' ∉ l) : Text.lines (unread raw lines) = raw :: lines := by
  induction lines generalizing raw with
  | nil => rw [unread_nil, Text.lines_of_oneLine hraw]
  | cons line lines ih =>
    have hu : unread raw (line :: lines) = raw ++ '\n' :: unread line lines := by simp [unread]
    rw [hu, Text.lines_append_lineFeed, Text.lines_of_oneLine hraw,
      ih (hl line List.mem_cons_self) fun l hm => hl l (List.mem_cons_of_mem _ hm)]
    rfl

/-- The first line of a statement is the line it was cut from, or the statement
is the start of that line. -/
theorem firstLine_of_cut {raw rest t first : Text} {lines following others : List Text}
    (hraw : '\n' ∉ raw) (hl : ∀ l ∈ lines, '\n' ∉ l) (hrest : '\n' ∉ rest)
    (hfollowing : ∀ l ∈ following, '\n' ∉ l)
    (hu : unread raw lines = t ++ unread rest following) (hf : Text.lines t = first :: others) :
    first = raw ∨ first = t ∧ raw = t ++ rest := by
  have hlines := lines_unread hraw hl
  rw [hu] at hlines
  by_cases ht : '\n' ∈ t
  · obtain ⟨a, b, rfl⟩ := List.append_of_mem ht
    rw [List.append_assoc, List.cons_append, Text.lines_append_lineFeed] at hlines
    rw [Text.lines_append_lineFeed] at hf
    obtain ⟨l, more, ha⟩ := List.exists_cons_of_ne_nil (Text.lines_ne_nil a)
    rw [ha, List.cons_append] at hlines hf
    exact .inl ((List.cons.inj hf).1.symm.trans (List.cons.inj hlines).1)
  · have happ : t ++ unread rest following = unread (t ++ rest) following := by simp [unread]
    have htr : '\n' ∉ t ++ rest := by simp [ht, hrest]
    rw [happ, lines_unread htr hfollowing] at hlines
    rw [Text.lines_of_oneLine ht] at hf
    exact .inr ⟨(List.cons.inj hf).1.symm, (List.cons.inj hlines).1.symm⟩

/-- Joining stops at the end of a text that is complete and is not before any of its line
feeds. -/
theorem collect_of_lines {complete : Text → Bool} {first t : Text} {others : List Text}
    (hl : Text.lines t = first :: others) (hc : complete (Text.trim t) = true)
    (hi : ∀ before behind, t = before ++ '\n' :: behind → complete (Text.trim before) = false)
    (more : List Text) : collect complete first (others ++ more) = some (t, more) := by
  have ht := unread_lines hl
  refine collect_eq_some_iff.2 ⟨others, rfl, ht.symm, hc, ?_⟩
  rintro before line behind rfl
  refine hi _ (unread line behind) ?_
  rw [← ht, unread_append]
  simp [unread]

/-- A text is as a whole one statement with this end, seen also when it is
trimmed and not seen in any of its lines but the last. -/
structure Matcher.Cuts (m : Matcher) (t : Text) : Prop where
  /-- The end of the text is the end of the statement. -/
  whole : m t = some (t, [])
  /-- The trimmed text is complete. -/
  trimmed : (m (Text.trim t)).isSome
  /-- No text up to a line feed is complete. -/
  incomplete : ∀ before behind, t = before ++ '\n' :: behind →
    (m (Text.trim before)).isSome = false

section Cuts

variable {m : Matcher} {first t : Text} {others : List Text}

/-- Joined lines whose tail is cut off behind a statement are cut at the same end, are
complete and are not complete before any of their line feeds. -/
theorem Matcher.cut_of_collect (he : m.Exact) (hm : m.Ends) {raw text kept dropped : Text}
    {lines following : List Text} (hraw : '\n' ∉ raw) (hl : ∀ l ∈ lines, '\n' ∉ l)
    (hc : collect (fun t => (m t).isSome) raw lines = some (text, following))
    (h : m text = some (t, kept ++ dropped)) :
    m (t ++ kept) = some (t, kept) ∧ (m (Text.trim (t ++ kept))).isSome ∧
      ∀ before behind, t ++ kept = before ++ '\n' :: behind →
        (m (Text.trim before)).isSome = false := by
  have ht := he _ _ _ h
  have hi : ∀ before behind, t ++ kept = before ++ '\n' :: behind →
      (m (Text.trim before)).isSome = false := by
    intro before behind hb
    have htext : text = before ++ '\n' :: (behind ++ dropped) := by
      rw [ht, ← List.append_assoc, hb, List.append_assoc, List.cons_append]
    exact incomplete_before_lineFeed hraw hl hc htext
  by_cases hr : kept ++ dropped = []
  · obtain ⟨rfl, rfl⟩ := List.append_eq_nil_iff.1 hr
    rw [List.append_nil] at h ht ⊢
    rw [List.append_nil] at ht
    subst ht
    exact ⟨h, complete_of_collect hc, by simpa using hi⟩
  · rw [ht] at h
    obtain ⟨hcut, htrim⟩ := hm t kept dropped hr h
    exact ⟨hcut, htrim, hi⟩

/-- A statement that was cut off joined lines is one as a whole. -/
theorem Matcher.cuts_of_collect (he : m.Exact) (hm : m.Ends) {raw text rest : Text}
    {lines following : List Text} (hraw : '\n' ∉ raw) (hl : ∀ l ∈ lines, '\n' ∉ l)
    (hc : collect (fun t => (m t).isSome) raw lines = some (text, following))
    (h : m text = some (t, rest)) : m.Cuts t := by
  have hrest : m text = some (t, [] ++ rest) := h
  obtain ⟨hcut, htrim, hi⟩ := Matcher.cut_of_collect he hm hraw hl hc hrest
  rw [List.append_nil] at hcut htrim hi
  exact ⟨hcut, htrim, hi⟩

/-- Joining these lines stops at the end of what is kept, where the cut is the same. -/
theorem Matcher.collect_of_cut (he : m.Exact) (hm : m.Ends) {raw text kept dropped : Text}
    {lines following : List Text} (hraw : '\n' ∉ raw) (hl : ∀ l ∈ lines, '\n' ∉ l)
    (hc : collect (fun t => (m t).isSome) raw lines = some (text, following))
    (h : m text = some (t, kept ++ dropped)) (hf : Text.lines (t ++ kept) = first :: others)
    (more : List Text) :
    collect (fun t => (m t).isSome) first (others ++ more) = some (t ++ kept, more) ∧
      m (t ++ kept) = some (t, kept) := by
  obtain ⟨hcut, htrim, hi⟩ := Matcher.cut_of_collect he hm hraw hl hc h
  exact ⟨collect_of_lines hf htrim hi more, hcut⟩

/-- Joining the lines of a statement stops at its end. -/
theorem Matcher.Cuts.collect (h : m.Cuts t) (hl : Text.lines t = first :: others)
    (more : List Text) :
    collect (fun t => (m t).isSome) first (others ++ more) = some (t, more) :=
  collect_of_lines hl h.trimmed h.incomplete more

end Cuts

namespace Taken

section Again

variable {context : Lexer.Context} {line : Nat} {raw first kept dropped : Text}
  {lines others more : List Text} {t : Taken}

/-- A step that takes an import as a whole. -/
theorem next_of_importing {text : Text} {i : Import} (hl : Text.lines text = first :: others)
    (ho : LineHead.ofLine first = .importing) (hc : Boundary.importEnd.Cuts text)
    (hi : Import.parse line text = .ok i) :
    next [] line first (others ++ more) =
      .ok ⟨.importing i, [], line + Text.lineFeeds text, more⟩ := by
  refine next_eq_ok_iff.2 (.importing ho ?_)
  exact importing_eq_ok_iff.2 ⟨text, more, text, [], i, hc.collect hl more, hc.whole, hi, rfl⟩

/-- A step that takes an export list or a star export as a whole. -/
theorem next_of_exportList {text : Text} {e : Export} (hl : Text.lines text = first :: others)
    (ho : LineHead.ofLine first = .exportList) (hc : Boundary.exportListEnd.Cuts text)
    (he : Export.parseList line text = .ok e) :
    next [] line first (others ++ more) =
      .ok ⟨.exporting e, [], line + Text.lineFeeds text, more⟩ := by
  refine next_eq_ok_iff.2 (.exportList ho ?_)
  exact exportList_eq_ok_iff.2 ⟨text, more, text, [], e, hc.collect hl more, hc.whole, he, rfl⟩

/-- The first line of what is kept of the lines is the line at hand, or all that is kept is
the start of that line. -/
theorem Follows.firstLine_cases (h : Follows line raw lines t) (hraw : '\n' ∉ raw)
    (hl : ∀ l ∈ lines, '\n' ∉ l) (hr : t.rest = kept ++ dropped)
    (hf : Text.lines (t.statement.text ++ kept) = first :: others) :
    first = raw ∨
      first = t.statement.text ++ kept ∧ raw = t.statement.text ++ kept ++ dropped := by
  have hrest := h.rest_oneLine
  rw [hr, List.mem_append, not_or] at hrest
  refine firstLine_of_cut hraw hl hrest.2 h.following_oneLine ?_ hf
  rw [h.unread_eq, hr]
  simp [unread]

/-- What is left behind a statement brings no line feed with it. -/
theorem Follows.lineFeeds_kept (h : Follows line raw lines t) (hr : t.rest = kept ++ dropped) :
    Text.lineFeeds (t.statement.text ++ kept) = Text.lineFeeds t.statement.text := by
  have hrest := h.rest_oneLine
  rw [hr, List.mem_append, not_or] at hrest
  exact Text.lineFeeds_append_oneLine _ hrest.1

/-- An import that is taken from its own lines and the start of what stood behind it
announces itself there and is the same import. -/
theorem importing_cut (hraw : '\n' ∉ raw) (hl : ∀ l ∈ lines, '\n' ∉ l)
    (ho : LineHead.ofLine raw = .importing) (h : importing line raw lines = .ok t)
    (hr : t.rest = kept ++ dropped)
    (hf : Text.lines (t.statement.text ++ kept) = first :: others) :
    LineHead.ofLine first = .importing ∧ ∀ line' more, importing line' first (others ++ more) =
      .ok ⟨t.statement.atLine line', kept, line' + Text.lineFeeds t.statement.text, more⟩ := by
  have hfollows := importing_follows hraw hl h
  have hfirst := hfollows.firstLine_cases hraw hl hr hf
  have hfeeds := hfollows.lineFeeds_kept hr
  obtain ⟨text, following, piece, rest, i, hc, hm, hi, rfl⟩ := importing_eq_ok_iff.1 h
  obtain rfl := (Import.parse_line_text hi).2
  obtain rfl : rest = kept ++ dropped := hr
  have hagain :=
    Matcher.collect_of_cut Boundary.importEnd_exact importEnd_ends hraw hl hc hm hf
  refine ⟨?_, fun line' more => ?_⟩
  · rcases hfirst with rfl | ⟨rfl, rfl⟩
    · exact ho
    · obtain ⟨c, hmem, hquote⟩ := Boundary.importEnd_shows _ _ _ hm
      exact LineHead.ofLine_importing_of_cut ho ⟨c, List.mem_append_left kept hmem, hquote⟩
  · obtain ⟨hjoin, hcut⟩ := hagain more
    refine importing_eq_ok_iff.2
      ⟨_, more, i.text, kept, _, hjoin, hcut, Import.parse_atLine hi line', ?_⟩
    rw [← hfeeds]
    rfl

/-- So is an export list or a star export. -/
theorem exportList_cut (hraw : '\n' ∉ raw) (hl : ∀ l ∈ lines, '\n' ∉ l)
    (ho : LineHead.ofLine raw = .exportList) (h : exportList line raw lines = .ok t)
    (hr : t.rest = kept ++ dropped)
    (hf : Text.lines (t.statement.text ++ kept) = first :: others) :
    LineHead.ofLine first = .exportList ∧ ∀ line' more, exportList line' first (others ++ more) =
      .ok ⟨t.statement.atLine line', kept, line' + Text.lineFeeds t.statement.text, more⟩ := by
  have hfollows := exportList_follows hraw hl h
  have hfirst := hfollows.firstLine_cases hraw hl hr hf
  have hfeeds := hfollows.lineFeeds_kept hr
  obtain ⟨text, following, piece, rest, e, hc, hm, he, rfl⟩ := exportList_eq_ok_iff.1 h
  obtain rfl := (Export.parseList_line_text he).2
  obtain rfl : rest = kept ++ dropped := hr
  have hagain :=
    Matcher.collect_of_cut Boundary.exportListEnd_exact exportListEnd_ends hraw hl hc hm hf
  refine ⟨?_, fun line' more => ?_⟩
  · rcases hfirst with rfl | ⟨rfl, rfl⟩
    · exact ho
    · obtain ⟨c, hmem, hends⟩ := Boundary.exportListEnd_shows _ _ _ hm
      exact LineHead.ofLine_exportList_of_cut ho ⟨c, List.mem_append_left kept hmem, hends⟩
  · obtain ⟨hjoin, hcut⟩ := hagain more
    refine exportList_eq_ok_iff.2
      ⟨_, more, e.text, kept, _, hjoin, hcut, Export.parseList_atLine he line', ?_⟩
    rw [← hfeeds]
    rfl

/-- A variable export is a head and its list also in front of the start of what stood
behind it. -/
theorem split?_kept {text : Text} {d : Declaration} (h : Declaration.split? text = some d)
    (hr : d.rest = kept ++ dropped) :
    ∃ d', Declaration.split? (d.text ++ kept) = some d' ∧ d'.text = d.text ∧ d'.rest = kept ∧
      d'.pieces.declarators = d.pieces.declarators := by
  by_cases hnil : d.rest = []
  · have ht := Declaration.text_append_rest h
    obtain ⟨rfl, rfl⟩ := List.append_eq_nil_iff.1 (hr.symm.trans hnil)
    rw [hnil] at ht
    exact ⟨d, ht ▸ h, rfl, hnil, rfl⟩
  · have hs := Declaration.split?_append h hnil kept
    have ht := Declaration.text_append_rest hs
    exact ⟨_, hs, (List.append_cancel_right ht).symm, rfl, rfl⟩

/-- So is a variable export. -/
theorem exportVariables_cut (hraw : '\n' ∉ raw) (hl : ∀ l ∈ lines, '\n' ∉ l)
    (ho : LineHead.ofLine raw = .exportVariables) (h : exportVariables line raw lines = .ok t)
    (hr : t.rest = kept ++ dropped)
    (hf : Text.lines (t.statement.text ++ kept) = first :: others) :
    LineHead.ofLine first = .exportVariables ∧
      ∀ line' more, exportVariables line' first (others ++ more) =
        .ok ⟨t.statement.atLine line', kept, line' + Text.lineFeeds t.statement.text, more⟩ := by
  have hfollows := exportVariables_follows hraw hl h
  have hfirst := hfollows.firstLine_cases hraw hl hr hf
  have hfeeds := hfollows.lineFeeds_kept hr
  obtain ⟨text, following, d, e, hc, hd, he, rfl⟩ := exportVariables_eq_ok_iff.1 h
  have hrest : d.rest = kept ++ dropped := hr
  have hm : declarationEnd text = some (d.text, kept ++ dropped) := by
    rw [declarationEnd, hd, Option.map_some, hrest]
  have htext : (Statement.exporting e).text = d.text := (Export.parseVariables_line_text he).2
  simp only [htext] at hf hfirst hfeeds ⊢
  have hagain :=
    Matcher.collect_of_cut declarationEnd_exact declarationEnd_ends hraw hl hc hm hf
  obtain ⟨d', hs, ht', hr', hp⟩ := split?_kept hd hrest
  refine ⟨?_, fun line' more => ?_⟩
  · rcases hfirst with rfl | ⟨rfl, _⟩
    · exact ho
    · obtain ⟨list, hv, _⟩ := Declaration.split?_eq_some_iff.1 hs
      exact LineHead.ofLine_eq_exportVariables_iff.2 (by rw [hv]; rfl)
  · refine exportVariables_eq_ok_iff.2 ⟨_, more, d', { e with line := line' },
      (hagain more).1, hs, ?_, ?_⟩
    · rw [ht', hp]
      exact Export.parseVariables_atLine he line'
    · rw [hr', hfeeds]
      rfl

/-- An import that is taken announces itself on its own lines, which as a whole
are one import. -/
theorem importing_whole (hraw : '\n' ∉ raw) (hl : ∀ l ∈ lines, '\n' ∉ l)
    (ho : LineHead.ofLine raw = .importing) (h : importing line raw lines = .ok t) :
    ∃ i, t.statement = .importing i ∧ Import.parse line i.text = .ok i ∧
      Boundary.importEnd.Cuts i.text ∧
      ∀ first others, Text.lines i.text = first :: others → LineHead.ofLine first = .importing := by
  have hhead : ∀ first others, Text.lines t.statement.text = first :: others →
      LineHead.ofLine first = .importing := fun first others hf =>
    (importing_cut hraw hl ho h (List.nil_append t.rest).symm
      (by rw [List.append_nil]; exact hf)).1
  obtain ⟨text, following, piece, rest, i, hc, hm, hi, rfl⟩ := importing_eq_ok_iff.1 h
  obtain rfl := (Import.parse_line_text hi).2
  exact ⟨i, rfl, hi,
    Matcher.cuts_of_collect Boundary.importEnd_exact importEnd_ends hraw hl hc hm, hhead⟩

/-- So does an export list or a star export. -/
theorem exportList_whole (hraw : '\n' ∉ raw) (hl : ∀ l ∈ lines, '\n' ∉ l)
    (ho : LineHead.ofLine raw = .exportList) (h : exportList line raw lines = .ok t) :
    ∃ e, t.statement = .exporting e ∧ Export.parseList line e.text = .ok e ∧
      Boundary.exportListEnd.Cuts e.text ∧
      ∀ first others, Text.lines e.text = first :: others → LineHead.ofLine first = .exportList := by
  have hhead : ∀ first others, Text.lines t.statement.text = first :: others →
      LineHead.ofLine first = .exportList := fun first others hf =>
    (exportList_cut hraw hl ho h (List.nil_append t.rest).symm
      (by rw [List.append_nil]; exact hf)).1
  obtain ⟨text, following, piece, rest, e, hc, hm, he, rfl⟩ := exportList_eq_ok_iff.1 h
  obtain rfl := (Export.parseList_line_text he).2
  exact ⟨e, rfl, he,
    Matcher.cuts_of_collect Boundary.exportListEnd_exact exportListEnd_ends hraw hl hc hm, hhead⟩

/-- The line at hand, taken as a whole, is the only line of its statement. -/
theorem lines_of_wholeLine {s : Statement} (hs : s.text = raw) (hraw : '\n' ∉ raw)
    (hr : ([] : Text) = kept ++ dropped) (hf : Text.lines (s.text ++ kept) = first :: others) :
    kept = [] ∧ first = raw ∧ others = [] ∧ Text.lineFeeds s.text = 0 := by
  obtain ⟨rfl, rfl⟩ := List.append_eq_nil_iff.1 hr.symm
  rw [List.append_nil, hs, Text.lines_of_oneLine hraw] at hf
  obtain ⟨rfl, rfl⟩ := List.cons.inj hf
  exact ⟨rfl, rfl, rfl, by rw [hs]; exact Text.lineFeeds_of_oneLine hraw⟩

/-- The statement that a step takes is taken again from its own lines and the start of what
stood behind it in its line, whatever lines follow. -/
theorem next_cut (hraw : '\n' ∉ raw) (hl : ∀ l ∈ lines, '\n' ∉ l)
    (h : next context line raw lines = .ok t) (hr : t.rest = kept ++ dropped)
    (hf : Text.lines (t.statement.text ++ kept) = first :: others) (line' : Nat)
    (more : List Text) :
    next context line' first (others ++ more) =
      .ok ⟨t.statement.atLine line', kept, line' + Text.lineFeeds t.statement.text, more⟩ := by
  cases next_eq_ok_iff.1 h with
  | code ho =>
    have htext : (Statement.code line raw).text = raw := rfl
    obtain ⟨rfl, rfl, rfl, hfeeds⟩ := lines_of_wholeLine htext hraw hr hf
    rw [hfeeds]
    exact next_eq_ok_iff.2 (.code ho)
  | importing ho h =>
    obtain ⟨hhead, hcut⟩ := importing_cut hraw hl ho h hr hf
    exact next_eq_ok_iff.2 (.importing hhead (hcut line' more))
  | exportList ho h =>
    obtain ⟨hhead, hcut⟩ := exportList_cut hraw hl ho h hr hf
    exact next_eq_ok_iff.2 (.exportList hhead (hcut line' more))
  | exportVariables ho h =>
    obtain ⟨hhead, hcut⟩ := exportVariables_cut hraw hl ho h hr hf
    exact next_eq_ok_iff.2 (.exportVariables hhead (hcut line' more))
  | @exportOther e ho he =>
    have htext : (Statement.exporting e).text = raw := (Export.parseLine_line_text he).2
    obtain ⟨rfl, rfl, rfl, hfeeds⟩ := lines_of_wholeLine htext hraw hr hf
    rw [hfeeds]
    exact next_eq_ok_iff.2 (.exportOther ho (Export.parseLine_atLine he line'))

/-- The statement that a step takes is taken again from its own lines, whatever
lines follow them. -/
theorem next_again (hraw : '\n' ∉ raw) (hl : ∀ l ∈ lines, '\n' ∉ l)
    (h : next context line raw lines = .ok t)
    (hf : Text.lines t.statement.text = first :: others) (line' : Nat) (more : List Text) :
    next context line' first (others ++ more) =
      .ok ⟨t.statement.atLine line', [], line' + Text.lineFeeds t.statement.text, more⟩ :=
  next_cut hraw hl h (List.nil_append t.rest).symm (by rw [List.append_nil]; exact hf) line' more

end Again

end Taken

end ModuleScripts
