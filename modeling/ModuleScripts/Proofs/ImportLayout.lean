import ModuleScripts.Proofs.StatementLayout

/-!
# Reading the layouts of an import

An import without bindings ends with the specifier behind its keyword. One with
bindings ends with the first specifier behind the word `from`, and is read to
its bindings: the clause that is split off is what stands between the keyword
and that word, without the blanks at its ends.
-/

namespace ModuleScripts

open Matcher

section Imports

variable {b g kept s t x : Text} {q : Char}

/-- Behind blanks and comments the first character that is not blank is that of a
comment, or the one the gap ends before. -/
theorem Gap.exists_visible (h : Gap g kept) {d : Char} (hb : isBlank d = false)
    (hq : isQuote d = false) (t : Text) :
    ∃ blank e r, g ++ d :: t = blank ++ e :: r ∧ Blank blank ∧ isBlank e = false ∧
      isQuote e = false := by
  induction h with
  | nil => exact ⟨[], d, t, rfl, blank_nil, hb, hq⟩
  | @blank c g kept hc _ ih =>
    obtain ⟨blank, e, r, hg, hblank, he, heq⟩ := ih
    exact ⟨c :: blank, e, r, by rw [List.cons_append, hg]; rfl, blank_cons.2 ⟨hc, hblank⟩, he, heq⟩
  | line _ _ _ => exact ⟨[], '/', _, rfl, blank_nil, by decide, by decide⟩
  | block _ _ _ => exact ⟨[], '/', _, rfl, blank_nil, by decide, by decide⟩

/-- No word goes on behind blanks and comments. -/
theorem Gap.exists_last (h : Gap g kept) (hne : g ≠ []) :
    ∃ e, g.getLast? = some e ∧ isWord e = false := by
  induction h with
  | nil => exact absurd rfl hne
  | @blank c g kept hc hg ih =>
    by_cases hn : g = []
    · obtain rfl := hn
      exact ⟨c, rfl, isWord_of_isBlank hc⟩
    · obtain ⟨e, he, hword⟩ := ih hn
      exact ⟨e, by simp [List.getLast?_cons, he], hword⟩
  | @line body g kept _ hg ih =>
    by_cases hn : g = []
    · obtain rfl := hn
      exact ⟨'\n', by simp [List.getLast?_cons, List.getLast?_append], by decide +kernel⟩
    · obtain ⟨e, he, hword⟩ := ih hn
      exact ⟨e, by simp [List.getLast?_cons, List.getLast?_append, he], hword⟩
  | @block body g kept _ hg ih =>
    by_cases hn : g = []
    · obtain rfl := hn
      exact ⟨'/', by simp [List.getLast?_cons, List.getLast?_append], by decide +kernel⟩
    · obtain ⟨e, he, hword⟩ := ih hn
      exact ⟨e, by simp [List.getLast?_cons, List.getLast?_append, he], hword⟩

/-- A clause starts with a visible character that is no quote. -/
theorem Bound.Written.exists_cons {spacing : Spacing} {bound : Bound} (h : bound.Written spacing t) :
    ∃ d r, t = d :: r ∧ isBlank d = false ∧ isQuote d = false := by
  have hname : ∀ (n : Name) (t : Text), ∃ d r, n.text ++ t = d :: r ∧ isBlank d = false ∧
      isQuote d = false := by
    intro n t
    obtain ⟨d, r, hn, _⟩ := n.exists_cons
    have hmem : d ∈ n.text := by rw [hn]; exact List.mem_cons_self
    exact ⟨d, r ++ t, by rw [hn]; rfl, n.isBlank_of_mem hmem, n.quoteFree d hmem⟩
  cases h with
  | default name => simpa using hname name []
  | group hg =>
    cases hg with
    | namespaceObject _ _ _ => exact ⟨'*', _, rfl, by decide, by decide⟩
    | named _ => exact ⟨'{', _, rfl, by decide, by decide⟩
  | both name _ _ _ => exact hname name _

namespace Boundary

variable {c indent r : Text}

/-- The keyword of an import is taken with the blanks around it. -/
theorem importKeyword_append (hi : Blank indent) (hb : Blank b) {d : Char} (hd : isBlank d = false)
    (t : Text) :
    ((blanks.andThen (literal "import".toList)).andThen blanks)
        (indent ++ ("import".toList ++ (b ++ d :: t))) =
      some ((indent ++ "import".toList) ++ b, d :: t) := by
  have hword : (blanks.andThen (literal "import".toList))
      (indent ++ ("import".toList ++ (b ++ d :: t))) = some (indent ++ "import".toList, b ++ d :: t) :=
    andThen_eq_some_iff.2 ⟨indent, _, _, blanks_append hi (c := 'i') rfl _, literal_append _ _, rfl⟩
  exact andThen_eq_some_iff.2 ⟨_, _, b, hword, blanks_append hb hd t, rfl⟩

/-- An import without bindings ends with the specifier behind its keyword. -/
theorem importEnd_run (hi : Blank indent) (hb : Blank b) (hs : Encloses q s)
    (hc : terminator t = some (c, r)) :
    importEnd ((indent ++ ("import".toList ++ b)) ++ q :: (s ++ q :: t)) =
      some ((indent ++ ("import".toList ++ b)) ++ q :: (s ++ q :: c), r) := by
  have hkeyword := importKeyword_append hi hb (isBlank_of_isQuote hs.isQuote) (s ++ q :: t)
  have hbare : bareImport (indent ++ ("import".toList ++ (b ++ q :: (s ++ q :: t)))) =
      some ((((indent ++ "import".toList) ++ b) ++ q :: (s ++ [q])) ++ c, r) :=
    andThen_eq_some_iff.2 ⟨_, t, c,
      andThen_eq_some_iff.2 ⟨_, _, _, hkeyword, quoted_append hs t, rfl⟩, hc, rfl⟩
  have hpiece : (((indent ++ "import".toList) ++ b) ++ q :: (s ++ [q])) ++ c =
      (indent ++ ("import".toList ++ b)) ++ q :: (s ++ q :: c) := by simp
  have htext : (indent ++ ("import".toList ++ b)) ++ q :: (s ++ q :: t) =
      indent ++ ("import".toList ++ (b ++ q :: (s ++ q :: t))) := by simp
  rw [htext, ← hpiece]
  exact orElse_of_some hbare

/-- The keyword of an import with bindings has no specifier right behind it. -/
theorem bareImport_eq_none (hi : Blank indent) (hb : Blank b) {d : Char} (hd : isBlank d = false)
    (hq : isQuote d = false) (t : Text) :
    bareImport (indent ++ ("import".toList ++ (b ++ d :: t))) = none := by
  have hkeyword := importKeyword_append hi hb hd t
  have hnot : ¬(d = '\'' ∨ d = '"') := ne_of_isQuote_false hq
  refine andThen_eq_none (andThen_eq_none_of_some hkeyword ?_)
  rw [quoted, if_neg hnot]

/-- Without a quote an import has no end. -/
theorem importEnd_eq_none (h : QuoteFree t) : importEnd t = none := by
  by_contra hn
  obtain ⟨⟨piece, rest⟩, hs⟩ := Option.ne_none_iff_exists'.1 hn
  obtain ⟨d, hd, hq⟩ := importEnd_shows _ _ _ hs
  have hfree := h d (by rw [importEnd_exact _ _ _ hs]; exact List.mem_append_left rest hd)
  rw [hq] at hfree
  cases hfree

end Boundary

/-- What an import binds, with the blanks and comments around it. -/
structure Middle (bound : Bound) (x : Text) : Prop where
  /-- Behind the keyword and blanks stands no quote. -/
  visible : ∃ blank d r, x = blank ++ d :: r ∧ Blank blank ∧ isBlank d = false ∧
    isQuote d = false
  /-- Without the comments it is the bindings and blanks around them. -/
  clears : ∃ k clause k', Clears x (k ++ (clause ++ k')) ∧ Blank k ∧ Blank k' ∧
    bound.Written .blank clause
  /-- A word can start behind it. -/
  last : ∃ d, x.getLast? = some d ∧ isWord d = false
  /-- No quote in a comment follows the word `from`. -/
  unsourced : Unsourced x

/-- Bindings between blanks and comments stand in the middle of an import. -/
theorem middle_of_written {bound : Bound} {g kept clause g' kept' : Text} (hg : Gap g kept)
    (hclause : bound.Written .filled clause) (hg' : Gap g' kept')
    (hend : g' ≠ [] ∨ clause.getLast? = some '}') (hfrom : Unsourced (g ++ (clause ++ g'))) :
    Middle bound (g ++ (clause ++ g')) where
  visible := by
    obtain ⟨d, r, hd, hblank, hquote⟩ := hclause.exists_cons
    obtain ⟨blank, e, u, hx, hb, he, hq⟩ := hg.exists_visible hblank hquote (r ++ g')
    refine ⟨blank, e, u, ?_, hb, he, hq⟩
    rw [hd, List.cons_append, hx]
  clears := by
    obtain ⟨t, ht, hw⟩ := hclause.cleared
    exact ⟨kept, t, kept', hg.clears.append (ht.append hg'.clears), hg.blank_kept,
      hg'.blank_kept, hw⟩
  last := by
    by_cases hn : g' = []
    · obtain rfl := hn
      have hbrace : clause.getLast? = some '}' := hend.resolve_left fun h => h rfl
      exact ⟨'}', by simp [List.getLast?_append, hbrace], by decide +kernel⟩
    · obtain ⟨e, he, hword⟩ := hg'.exists_last hn
      exact ⟨e, by simp [List.getLast?_append, he], hword⟩
  unsourced := hfrom

/-- Without the blanks around it an import starts with its keyword. -/
theorem Ended.trim_import {e indent : Text} (he : Ended e) (hi : Blank indent) (hq : isBlank q = false)
    {blank : Text} (hblank : Blank blank) :
    Text.trim ((indent ++ ("import".toList ++ (x ++ ("from".toList ++ b)))) ++
        q :: (s ++ q :: (e ++ blank))) =
      "import".toList ++ (x ++ ("from".toList ++ (b ++ q :: (s ++ q :: e)))) := by
  have hparts := he.trim (r := "import".toList ++ (x ++ ("from".toList ++ (b ++ q :: s)))) (d := 'i')
    hi hblank (by decide) hq rfl
  simpa only [List.append_assoc, List.cons_append] using hparts

namespace Middle

variable {bound : Bound} {c e indent r : Text}

/-- Comments before the specifier of an import are closed. -/
theorem tame (h : Middle bound x) (hi : Blank indent) (hb : Blank b) :
    Tame (indent ++ ("import".toList ++ (x ++ ("from".toList ++ b)))) := by
  obtain ⟨k, clause, k', hclears, hk, hk', hw⟩ := h.clears
  refine ⟨indent ++ "import".toList, x, "from".toList ++ b, by simp, ?_, ?_, ?_⟩
  · exact calm_append.2 ⟨hi.calm, by decide⟩
  · rw [hclears.remove_eq]
    exact calm_append.2 ⟨hk.calm, calm_append.2 ⟨hw.calm, hk'.calm⟩⟩
  · exact calm_append.2 ⟨by decide, hb.calm⟩

/-- No quote before the specifier follows the word `from`. -/
theorem unsourced_front (h : Middle bound x) (hi : Blank indent) (hb : Blank b) :
    Unsourced ((indent ++ ("import".toList ++ x)) ++ ("from".toList ++ b)) := by
  have hfree : QuoteFree (indent ++ "import".toList) := by
    intro d hd
    rcases List.mem_append.1 hd with hd | hd
    · exact hi.quoteFree d hd
    · exact (by decide : QuoteFree "import".toList) d hd
  have hnot : 'f' ∉ indent ++ "import".toList := by
    rw [List.mem_append, not_or]
    exact ⟨hi.notMem (by decide), by decide⟩
  have hword : QuoteFree ("from".toList ++ b) := by
    intro d hd
    rcases List.mem_append.1 hd with hd | hd
    · exact (by decide : QuoteFree "from".toList) d hd
    · exact hb.quoteFree d hd
  rw [← List.append_assoc indent]
  exact (h.unsourced.quoteFree_append hfree hnot).append_quoteFree hword

/-- An import with bindings ends with the specifier behind the word `from`. -/
theorem importEnd_append (h : Middle bound x) (hi : Blank indent) (hb : Blank b)
    (hs : Encloses q s) (hc : Boundary.terminator t = some (c, r)) :
    Boundary.importEnd ((indent ++ ("import".toList ++ (x ++ ("from".toList ++ b)))) ++
        q :: (s ++ q :: t)) =
      some ((indent ++ ("import".toList ++ (x ++ ("from".toList ++ b)))) ++ q :: (s ++ q :: c),
        r) := by
  have hstart : wordMayStart ((indent ++ ("import".toList ++ x)).getLast?.or none) = true := by
    obtain ⟨d, hd, hword⟩ := h.last
    rw [List.getLast?_append, List.getLast?_append, hd]
    simp [wordMayStart, hword]
  have hfound := (h.unsourced_front hi hb).upTo_append hb hs hstart hc
  have htext : (indent ++ ("import".toList ++ (x ++ ("from".toList ++ b)))) ++ q :: (s ++ q :: t) =
      (indent ++ ("import".toList ++ x)) ++ ("from".toList ++ (b ++ q :: (s ++ q :: t))) := by
    simp only [List.append_assoc]
  have hpiece : (indent ++ ("import".toList ++ (x ++ ("from".toList ++ b)))) ++
        q :: (s ++ q :: c) =
      (indent ++ ("import".toList ++ x)) ++ ((("from".toList ++ b) ++ q :: (s ++ [q])) ++ c) := by
    simp only [List.append_assoc, List.cons_append, List.nil_append]
  obtain ⟨blank, d, u, rfl, hblank, hd, hq⟩ := h.visible
  have hbare := Boundary.bareImport_eq_none hi hblank hd hq
    (u ++ ("from".toList ++ (b ++ q :: (s ++ q :: t))))
  rw [hpiece, htext]
  refine (orElse_of_none ?_).trans hfound
  simpa only [List.append_assoc, List.cons_append] using hbare

/-- Before its specifier it has no end. -/
theorem importEnd_eq_none (h : Middle bound x) (hi : Blank indent) (hb : Blank b) :
    Boundary.importEnd (indent ++ ("import".toList ++ (x ++ ("from".toList ++ b)))) = none := by
  have hnone := (h.unsourced_front hi hb).upTo_eq_none none
  obtain ⟨blank, d, u, rfl, hblank, hd, hq⟩ := h.visible
  have hbare := Boundary.bareImport_eq_none hi hblank hd hq (u ++ ("from".toList ++ b))
  simp only [List.append_assoc, List.cons_append] at hnone hbare ⊢
  exact (orElse_of_none hbare).trans hnone

/-- Without the blanks around it and without its comments it is the bindings. -/
theorem bindings (h : Middle bound x) {gap found more : Text} (hx : x = gap ++ (found ++ more))
    (hgap : Blank gap) (hmore : Blank more) :
    bound.Written .blank (Text.trim (Comments.remove found)) := by
  obtain ⟨k, clause, k', hclears, hk, hk', hw⟩ := h.clears
  obtain ⟨f, l, hf, hl, hfs, hls⟩ := hw.ends
  have hwhole : gap ++ Comments.remove (found ++ more) = k ++ (clause ++ k') := by
    rw [← hclears.remove_eq, hx]
    exact (clears_of_notMem (hgap.notMem (by decide)) (found ++ more)).symm
  have hleft := Text.trim_append_blank hgap blank_nil (Comments.remove (found ++ more))
  rw [List.append_nil, hwhole, Text.trim_blank_append hk hk' hf hl hfs hls,
    Comments.trim_remove_append_blank found hmore] at hleft
  rw [← hleft]
  exact hw

/-- Behind its keyword stands no specifier. -/
theorem bareSpecifier_eq_none (h : Middle bound x) (t : Text) : bareSpecifier? (x ++ t) = none := by
  obtain ⟨blank, d, u, rfl, hblank, hd, hq⟩ := h.visible
  rw [bareSpecifier?, List.append_assoc, List.cons_append, Text.trimStart_blank_append hblank hd]
  exact finalSpecifier_cons_eq_none hq _

/-- Behind a blank the bindings are split off their specifier. -/
theorem splitImport_append (h : Middle bound x) {c : Char} {r : Text} (hx : x = c :: r)
    (hc : isBlank c = true) (hb : Blank b) (hs : Encloses q s) (he : Ended e) :
    ∃ found, splitImport? (x ++ ("from".toList ++ (b ++ q :: (s ++ q :: e)))) = some (found, s) ∧
      bound.Written .blank (Text.trim (Comments.remove found)) := by
  obtain ⟨gap, d, u, hgapped, hgap, hd, hq⟩ := h.visible
  have hne : gap ≠ [] := by
    rintro rfl
    obtain ⟨rfl, -⟩ := List.cons.inj (hx.symm.trans hgapped)
    rw [hc] at hd
    cases hd
  have hunsourced : Unsourced ((d :: u) ++ ("from".toList ++ b)) := by
    have hrest : Unsourced (d :: u) := (hgapped ▸ h.unsourced).of_append_left
    refine hrest.append_quoteFree fun f hf => ?_
    rcases List.mem_append.1 hf with hf | hf
    · exact (by decide : QuoteFree "from".toList) f hf
    · exact hb.quoteFree f hf
  obtain ⟨found, more, hfound, hmore, hclause⟩ :=
    hunsourced.clauseFrom_append (List.cons_ne_nil d u) hb hs he.atStatementEnd
  refine ⟨found, ?_, h.bindings (by rw [hgapped, hfound]) hgap hmore⟩
  rw [splitImport?, hgapped, List.append_assoc, List.cons_append, gap_append hgap hne hd,
    ← List.cons_append]
  dsimp only
  rw [hclause]

/-- Behind a blank the bindings are read without the comments. -/
theorem parse (h : Middle bound x) {c : Char} {r : Text} (hx : x = c :: r)
    (hc : isBlank c = true) (hi : Blank indent) (hb : Blank b) (hs : Encloses q s)
    (he : Ended e) {blank : Text} (hblank : Blank blank) (line : Nat) (text : Text)
    (htext : text = (indent ++ ("import".toList ++ (x ++ ("from".toList ++ b)))) ++
      q :: (s ++ q :: (e ++ blank))) :
    (Import.parse line text).map .importing = .ok ((Lead.binding bound).statement line text s) := by
  have htrim := he.trim_import hi (isBlank_of_isQuote hs.isQuote) hblank (x := x) (b := b) (s := s)
  obtain ⟨found, hsplit, hbindings⟩ := h.splitImport_append hx hc hb hs he
  have hdrop := Text.dropPrefix?_eq_some_iff.2 (htext ▸ htrim)
  unfold Import.parse
  simp only [hdrop, h.bareSpecifier_eq_none, hsplit, hbindings.parse rfl]
  rfl

/-- Right behind the keyword nothing is read. -/
theorem parse_tight (h : Middle bound x) {d : Char} {r : Text} (hx : x = d :: r)
    (hd : isBlank d = false) (hi : Blank indent) (hs : Encloses q s) (he : Ended e)
    {blank : Text} (hblank : Blank blank) (line : Nat) (text : Text)
    (htext : text = (indent ++ ("import".toList ++ (x ++ ("from".toList ++ b)))) ++
      q :: (s ++ q :: (e ++ blank))) :
    Import.parse line text = .error (.invalidImport (Text.trim text)) := by
  have htrim := he.trim_import hi (isBlank_of_isQuote hs.isQuote) hblank (x := x) (b := b) (s := s)
  have hdrop := Text.dropPrefix?_eq_some_iff.2 (htext ▸ htrim)
  have hsplit : splitImport? (x ++ ("from".toList ++ (b ++ q :: (s ++ q :: e)))) = none := by
    have hgap : Matcher.gap (x ++ ("from".toList ++ (b ++ q :: (s ++ q :: e)))) = none := by
      rw [hx, List.cons_append, Matcher.gap, Text.leading, List.takeWhile_cons, hd]
      rfl
    rw [splitImport?, hgap]
  unfold Import.parse
  simp only [hdrop, h.bareSpecifier_eq_none, hsplit]

end Middle

end Imports

end ModuleScripts
