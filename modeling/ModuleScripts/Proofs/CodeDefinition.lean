import ModuleScripts.Output.Transform
import ModuleScripts.Proofs.CodeLines
import ModuleScripts.Proofs.LayoutReading
import ModuleScripts.Proofs.QuietNames

/-!
# A definition is code only

Of a module without the meta object a definition takes over the code as it is:
the opaque lines, and the bodies of exports, which are their texts without the
words in front. These leave open what the statements do, and what is dropped
leaves nothing open, so every line of code is read again in the context in which
it was read first. The lines around it are generated.

Two things can come in between. A variable export is read as a whole, but its
body line by line; and a quote inside a specifier can hide the mark of a template
that opens one in the source only.
-/

namespace ModuleScripts

open Lexer

section Substitution

namespace Meta

variable {word replacement t : Text}

/-- Where a word does not occur nothing is replaced. -/
theorem replaceFrom_of_not_infix (h : ¬word <:+: t) (previous : Option Char) :
    replaceFrom word replacement previous 0 t = t := by
  induction t generalizing previous with
  | nil => rfl
  | cons c r ih =>
    have hword : wordAt word previous (c :: r) = false := by
      have hnone : Text.dropPrefix? word (c :: r) = none := by
        cases hd : Text.dropPrefix? word (c :: r) with
        | none => rfl
        | some rest =>
          exact absurd ⟨[], rest, (Text.dropPrefix?_eq_some_iff.1 hd).symm⟩ h
      rw [wordAt, hnone, Bool.and_false]
    have hrest : ¬word <:+: r := fun hr => h (hr.trans (List.suffix_cons c r).isInfix)
    simp only [replaceFrom, hword, Bool.false_eq_true, if_false, ih hrest]

/-- Code without the meta object stays as it is. -/
theorem Substitution.apply_of_not_infix (s : Substitution)
    (h : ¬"import.meta".toList <:+: t) : s.apply t = t := by
  have hurl : ¬"import.meta.url".toList <:+: t := fun hu =>
    h (List.IsInfix.trans ⟨[], ".url".toList, rfl⟩ hu)
  rw [Substitution.apply, replaceWord, replaceWord, replaceFrom_of_not_infix hurl,
    replaceFrom_of_not_infix h]

end Meta

end Substitution

section Bodies

/-- The body of an export is its text without the words in front and without the
blanks at the end. -/
def Shortened (text body : Text) : Prop :=
  ∃ indent words value blank, text = indent ++ (words ++ (value ++ blank)) ∧
    body = indent ++ value ∧ Blank indent ∧ Calm words ∧ Blank blank

variable {text body : Text}

/-- The words in front open nothing. -/
theorem Shortened.after_eq (h : Shortened text body) : after [] body = after [] text := by
  obtain ⟨indent, words, value, blank, rfl, rfl, hi, hw, hb⟩ := h
  rw [after_calm_append hi.calm, after_calm_append hi.calm, after_calm_append hw,
    after_append_blank [] value hb]

/-- The body has no character that the text does not have. -/
theorem Shortened.mem (h : Shortened text body) {c : Char} (hc : c ∈ body) : c ∈ text := by
  obtain ⟨indent, words, value, blank, rfl, rfl, _⟩ := h
  rcases List.mem_append.1 hc with hc | hc
  · exact List.mem_append_left _ hc
  · simp [hc]

/-- A word that starts with a visible character does not start in blanks. -/
theorem infix_of_infix_blank_append {c : Char} {word b t : Text} (hc : isBlank c = false)
    (hb : Blank b) (h : c :: word <:+: b ++ t) : c :: word <:+: t := by
  induction b with
  | nil => exact h
  | cons d b ih =>
    obtain ⟨hd, hb⟩ := blank_cons.1 hb
    rcases List.infix_cons_iff.1 h with hp | hi
    · obtain ⟨r, hr⟩ := hp
      rw [(List.cons.inj hr).1, hd] at hc
      cases hc
    · exact ih hb hi

/-- A word of the body that starts visibly is a word of the text. -/
theorem Shortened.infix_text (h : Shortened text body) {c : Char} {word : Text}
    (hc : isBlank c = false) (hw : c :: word <:+: body) : c :: word <:+: text := by
  obtain ⟨indent, words, value, blank, rfl, rfl, hi, _⟩ := h
  have hvalue := infix_of_infix_blank_append hc hi hw
  exact hvalue.trans ⟨indent ++ words, blank, by simp⟩

/-- The first line of a text that starts with blanks is blank, or it reaches to
the first visible character. -/
theorem Text.trimStart_first {blank r first : Text} {c : Char} {others : List Text}
    (hb : Blank blank) (hc : isBlank c = false) (hl : lines (blank ++ c :: r) = first :: others) :
    trimStart first = [] ∨ ∃ r', trimStart first = c :: r' := by
  induction blank generalizing first others with
  | nil =>
    have hone : '\n' ∉ [c] := by
      rw [List.mem_singleton]
      rintro rfl
      cases hc
    obtain ⟨r', rfl⟩ := exists_first_of_lines hone hl
    exact .inr ⟨r', trimStart_cons_of_not_isBlank hc r'⟩
  | cons d blank ih =>
    obtain ⟨hd, hb⟩ := blank_cons.1 hb
    by_cases hn : d = '\n'
    · rw [hn, List.cons_append, lines_cons_lineFeed] at hl
      rw [← (List.cons.inj hl).1]
      exact .inl rfl
    · obtain ⟨start, more, hlines⟩ := List.exists_cons_of_ne_nil (lines_ne_nil (blank ++ c :: r))
      rw [List.cons_append, lines_cons_of_ne hn hlines] at hl
      rw [← (List.cons.inj hl).1, trimStart_cons_of_isBlank hd]
      exact ih hb hlines

/-- The first visible character of a text is there and is not that of the keyword
of an import or an export. -/
def Unannounced (t : Text) : Prop :=
  ∃ blank c r, t = blank ++ c :: r ∧ Blank blank ∧ isBlank c = false ∧ c ≠ 'i' ∧ c ≠ 'e'

/-- Such a text announces code in its first line. -/
theorem Unannounced.ofLine_first {t first : Text} (h : Unannounced t) {others : List Text}
    (hl : Text.lines t = first :: others) : LineHead.ofLine first = .code := by
  obtain ⟨blank, c, r, rfl, hb, hc, hi, he⟩ := h
  rcases Text.trimStart_first hb hc hl with hnil | ⟨r', hcons⟩
  · exact LineHead.ofLine_eq_code (fun d s hd => nomatch hnil.symm.trans hd)
      fun d s hd => nomatch hnil.symm.trans hd
  · exact LineHead.ofLine_of_head hcons hi he

/-- What a definition takes over of an export that it has code of. -/
structure Export.Spliced (e : Export) : Prop where
  /-- The code is the text without the words before it. -/
  shortened : e.kind = .declaration ∨ e.kind = .defaultValue → Shortened e.text e.body
  /-- A declaration starts with its own keyword. -/
  unannounced : e.kind = .declaration → Unannounced e.body

section Reading

open Matcher

variable {line : Nat} {e : Export}

/-- The word of a function declaration is its first or its second one. -/
theorem functionHead_start {t piece rest : Text} (h : functionHead t = some (piece, rest)) :
    ∃ c r, piece = c :: r ∧ (c = 'a' ∨ c = 'f') := by
  obtain ⟨_, _, _, hstar, _, rfl⟩ := andThen_eq_some_iff.1 h
  obtain ⟨_, _, _, hblanks, _, rfl⟩ := andThen_eq_some_iff.1 hstar
  obtain ⟨_, _, _, hwords, _, rfl⟩ := andThen_eq_some_iff.1 hblanks
  obtain ⟨first, _, word, hfirst, hword, rfl⟩ := andThen_eq_some_iff.1 hwords
  obtain ⟨rfl, _⟩ := keyword_eq_some_iff.1 hword
  rcases orElse_eq_some hfirst with ha | hn
  · obtain ⟨async, _, gap, hasync, _, rfl⟩ := andThen_eq_some_iff.1 ha
    obtain ⟨rfl, _⟩ := literal_eq_some_iff.1 hasync
    exact ⟨'a', _, rfl, .inl rfl⟩
  · simp only [nothing, Option.some.injEq, Prod.mk.injEq] at hn
    obtain ⟨rfl, _⟩ := hn
    exact ⟨'f', _, rfl, .inr rfl⟩

/-- The head of a class starts with the first letter of its keyword. -/
theorem classHead_start {t piece rest : Text} (h : classHead t = some (piece, rest)) :
    ∃ c r, piece = c :: r ∧ c = 'c' := by
  obtain ⟨word, _, gap, hword, _, rfl⟩ := andThen_eq_some_iff.1 h
  obtain ⟨rfl, _⟩ := literal_eq_some_iff.1 hword
  exact ⟨'c', _, rfl, rfl⟩

/-- The head of a function is cut off without loss. -/
theorem functionHead_exact : Exact functionHead := by
  refine andThen_exact (andThen_exact (andThen_exact (andThen_exact ?_ (keyword_exact _))
    blanks_exact) (optional_exact (literal_exact _))) blanks_exact
  exact optional_exact (andThen_exact (literal_exact _) gap_exact)

/-- A declaration whose name is read starts with one of its keywords. -/
theorem unannounced_of_declaredName {indent value name : Text} (hi : Blank indent)
    (h : declaredName? value = some name) : Unannounced (indent ++ value) := by
  have hstart : ∃ c r, value = c :: r ∧ (c = 'a' ∨ c = 'f' ∨ c = 'c') := by
    have hpiece : ∀ {head : Matcher}, nameBehind? head value = some name →
        ∃ piece rest, head value = some (piece, rest) := by
      intro head hh
      unfold nameBehind? at hh
      split at hh
      · cases hh
      · next piece rest hm => exact ⟨piece, rest, hm⟩
    unfold declaredName? at h
    split at h
    · next found hf =>
      cases h
      obtain ⟨piece, rest, hm⟩ := hpiece hf
      obtain ⟨c, r, rfl, hc⟩ := functionHead_start hm
      exact ⟨c, r ++ rest, functionHead_exact _ _ _ hm, hc.imp_right .inl⟩
    · obtain ⟨piece, rest, hm⟩ := hpiece h
      obtain ⟨c, r, rfl, hc⟩ := classHead_start hm
      have hexact : Exact classHead := andThen_exact (literal_exact _) gap_exact
      exact ⟨c, r ++ rest, hexact _ _ _ hm, .inr (.inr hc)⟩
  obtain ⟨c, r, rfl, hc⟩ := hstart
  refine ⟨indent, c, r, rfl, hi, ?_⟩
  rcases hc with rfl | rfl | rfl <;> decide

/-- What an export on one line leaves to the definition is cut from its
text. -/
theorem Export.parseLine_spliced {text : Text} (h : Export.parseLine line text = .ok e) :
    e.Spliced := by
  have hwords : ∀ {word t piece rest : Text}, Calm word →
      ((literal word).andThen gap) t = some (piece, rest) → t = piece ++ rest ∧ Calm piece := by
    intro word t piece rest hw hm
    exact ⟨andThen_exact (literal_exact word) gap_exact _ _ _ hm,
      andThen_takesCalm (literal_takesCalm hw) gap_takesCalm _ _ _ hm⟩
  have hshort : ∀ {words value : Text}, Text.trim text = words ++ value → Calm words →
      Shortened text (Text.leading text ++ value) := by
    intro words value ht hw
    refine ⟨Text.leading text, words, value, Text.trailing (Text.trimStart text), ?_, rfl,
      Text.isBlank_of_mem_leading, hw, Text.isBlank_of_mem_trailing⟩
    rw [← List.append_assoc words, ← ht]
    exact Text.leading_append_trim text
  have hdefault : ∀ {words behind more value : Text},
      ((literal "export".toList).andThen gap) (Text.trim text) = some (words, behind) →
      ((literal "default".toList).andThen gap) behind = some (more, value) →
      Shortened text (Text.leading text ++ value) := by
    intro words behind more value hm hd
    obtain ⟨htrim, hcalm⟩ := hwords (by decide) hm
    obtain ⟨rfl, hmore⟩ := hwords (by decide) hd
    rw [← List.append_assoc] at htrim
    exact hshort htrim (calm_append.2 ⟨hcalm, hmore⟩)
  have hindent : Blank (Text.leading text) := Text.isBlank_of_mem_leading
  cases Export.lineForm_of_parseLine h with
  | declaration hm hn =>
    obtain ⟨htrim, hcalm⟩ := hwords (by decide) hm
    exact ⟨fun _ => hshort htrim hcalm, fun _ => unannounced_of_declaredName hindent hn⟩
  | defaultDeclaration hm hd hn =>
    exact ⟨fun _ => hdefault hm hd, fun _ => unannounced_of_declaredName hindent hn⟩
  | defaultValue hm hd => exact ⟨fun _ => hdefault hm hd, fun hk => nomatch hk⟩

/-- What is cut off as a variable export starts with the head of one. -/
theorem Declaration.variableHead_text {t : Text} {d : Declaration} (h : split? t = some d) :
    (variableHead d.text).isSome := by
  obtain ⟨list, hv, _, _⟩ := split?_eq_some_iff.1 h
  have htext := text_append_rest h
  have hlist := variableHead_exact _ _ _ hv
  rw [text, List.append_assoc] at htext
  rw [htext, List.append_cancel_left (hlist.symm.trans htext)] at hv
  rw [text, variableHead_stable _ _ _ hv]
  rfl

/-- What exported variables leave to the definition is cut from their text. -/
theorem Export.parseVariables_spliced {text : Text} {declarators : List Text}
    (h : Export.parseVariables line text declarators = .ok e)
    (hv : (variableHead text).isSome) : e.Spliced := by
  obtain ⟨names, _, rfl⟩ := map_eq_ok h
  obtain ⟨a, c, r, ha, hr, hc⟩ := LineHead.exists_keyword_of_variableHead hv
  obtain ⟨gap, hg, hgap⟩ := Text.exists_blank_append a
  rw [hr] at hgap
  have hvisible : isBlank c = false ∧ c ≠ 'i' ∧ c ≠ 'e' := by
    rcases hc with rfl | rfl | rfl <;> decide
  have hindent : Blank (Text.leading text) := Text.isBlank_of_mem_leading
  have htrim : Text.trim text = "export".toList ++ (gap ++ c :: Text.trimEnd r) := by
    have hsolid : Text.EndsSolid ("export".toList ++ (gap ++ [c])) :=
      ((Text.endsSolid_singleton hvisible.1).append gap).append _
    have hsplit : "export".toList ++ a = ("export".toList ++ (gap ++ [c])) ++ r := by
      rw [hgap]
      simp
    rw [Text.trim, ha, hsplit, Text.trimEnd_append hsolid]
    simp
  have hbody : Text.trimStart ((Text.trim text).drop "export".toList.length) =
      c :: Text.trimEnd r := by
    rw [htrim, List.drop_left, Text.trimStart_blank_append hg hvisible.1]
  have htext : text = Text.leading text ++
      (("export".toList ++ gap) ++ ((c :: Text.trimEnd r) ++ Text.trailing r)) := by
    have hr' := Text.trimEnd_append_trailing r
    rw [List.cons_append, hr', List.append_assoc, ← hgap, ← ha]
    exact (Text.leading_append_trimStart text).symm
  refine ⟨fun _ => ?_, fun _ => ?_⟩
  · exact ⟨Text.leading text, _, _, Text.trailing r, htext, by rw [← hbody], hindent,
      calm_append.2 ⟨by decide, calm_of_isBlank hg⟩, Text.isBlank_of_mem_trailing⟩
  · exact ⟨Text.leading text, c, Text.trimEnd r, by rw [← hbody], hindent, hvisible⟩

/-- A list or a star export has no code. -/
theorem Export.parseList_code {text : Text} (h : Export.parseList line text = .ok e) :
    e.code? = none := by
  cases Export.listForm_of_parseList h <;> rfl

/-- An export without code takes nothing over. -/
theorem Export.spliced_of_code (h : e.code? = none) : e.Spliced := by
  have hdeclaration : e.kind ≠ .declaration := by
    intro hk
    rw [Export.code?, hk] at h
    cases h
  have hdefault : e.kind ≠ .defaultValue := by
    intro hk
    rw [Export.code?, hk] at h
    cases h
  exact ⟨fun hk => absurd hk (not_or.2 ⟨hdeclaration, hdefault⟩), fun hk => absurd hk hdeclaration⟩

/-- Every export that is taken is spliced into the definition. -/
theorem Taken.next_spliced {context : Lexer.Context} {raw : Text} {lines : List Text} {t : Taken}
    (h : Taken.next context line raw lines = .ok t) (he : t.statement = .exporting e) :
    e.Spliced := by
  cases Taken.next_eq_ok_iff.1 h with
  | code => cases he
  | importing _ h =>
    obtain ⟨_, _, _, _, i, _, _, _, rfl⟩ := Taken.importing_eq_ok_iff.1 h
    cases he
  | exportList _ h =>
    obtain ⟨_, _, _, _, e', _, _, hparse, rfl⟩ := Taken.exportList_eq_ok_iff.1 h
    cases he
    exact Export.spliced_of_code (Export.parseList_code hparse)
  | exportVariables _ h =>
    obtain ⟨_, _, d, e', _, hd, hparse, rfl⟩ := Taken.exportVariables_eq_ok_iff.1 h
    cases he
    exact Export.parseVariables_spliced hparse (Declaration.variableHead_text hd)
  | exportOther _ hparse =>
    cases he
    exact Export.parseLine_spliced hparse

end Reading

end Bodies

/-- The lines that a definition takes over of a statement. -/
def Statement.codeLines (s : Statement) : List Text :=
  s.code?.toList.flatMap fun line => Text.lines line.render

/-- The lines of a statement with code are those of its rendered code. -/
theorem Statement.codeLines_of_code {s : Statement} {line : FactoryLine}
    (h : s.code? = some line) : s.codeLines = Text.lines line.render := by
  rw [Statement.codeLines, h, Option.toList_some, List.flatMap_singleton]

section Statements

variable {context : Lexer.Context} {line : Nat} {raw : Text} {lines : List Text} {t : Taken}
  {e : Export}

/-- The lines of a declaration are code, and leave open what the export does. -/
theorem Export.Spliced.codeLines_declaration (h : e.Spliced) (hk : e.kind = .declaration)
    (hbody : ReadsByLine e.body) :
    AllCode [] (Statement.exporting e).codeLines ∧
      afterLines [] (Statement.exporting e).codeLines = after [] e.text := by
  have hcode : (Statement.exporting e).code? = some (.code e.body) := by
    rw [Statement.code?, Export.code?, hk]
  have hlines : (Statement.exporting e).codeLines = Text.lines e.body :=
    Statement.codeLines_of_code hcode
  rw [hlines]
  refine ⟨hbody.allCode fun first others hl => (h.unannounced hk).ofLine_first hl, ?_⟩
  rw [hbody.afterLines_eq, (h.shortened (.inl hk)).after_eq]

/-- The assignment of a default value is a line of code, and leaves open what the
export does. -/
theorem Export.Spliced.codeLines_default (h : e.Spliced) (hk : e.kind = .defaultValue)
    (hline : '\n' ∉ e.text) :
    AllCode [] (Statement.exporting e).codeLines ∧
      afterLines [] (Statement.exporting e).codeLines = after [] e.text := by
  have hshort := h.shortened (.inr hk)
  obtain ⟨blank, hb, hsplit⟩ := Text.exists_blank_append e.body
  have hword : Calm (FactoryLine.exportsObject ++ ".default = ".toList) ∧
      '\n' ∉ FactoryLine.exportsObject ++ ".default = ".toList := by decide
  have hvalue : '\n' ∉ Text.trimStart e.body := by
    intro hm
    refine hline (hshort.mem ?_)
    rw [hsplit]
    exact List.mem_append_right blank hm
  have hcode : (Statement.exporting e).code? = some (.assignDefault (Text.trimStart e.body)) := by
    rw [Statement.code?, Export.code?, hk]
  have hlines : (Statement.exporting e).codeLines =
      [(FactoryLine.exportsObject ++ ".default = ".toList) ++ Text.trimStart e.body] := by
    rw [Statement.codeLines_of_code hcode]
    exact Text.lines_of_oneLine (List.not_mem_append hword.2 hvalue)
  have hbody : after [] e.body = after [] (Text.trimStart e.body) := by
    conv => lhs; rw [hsplit]
    exact after_calm_append (calm_of_isBlank hb) _
  rw [hlines]
  refine ⟨allCode_of_forall (List.forall_mem_singleton.2 ?_) [], ?_⟩
  · exact LineHead.ofLine_of_head (c := '_') rfl (by decide) (by decide)
  · rw [afterLines, List.foldl_cons, List.foldl_nil, after_calm_append hword.1, ← hbody,
      hshort.after_eq]

/-- What a definition takes over of a statement is code, and leaves open what the
statement does. -/
theorem Taken.next_codeLines (hraw : '\n' ∉ raw) (hl : ∀ l ∈ lines, '\n' ∉ l)
    (h : next context line raw lines = .ok t)
    (hbody : ∀ e, t.statement = .exporting e → ReadsByLine e.body)
    (hquotes : ∀ specifier, t.statement.specifier? = some specifier →
      QuoteFree specifier ∨ after [] t.statement.text = []) :
    AllCode context t.statement.codeLines ∧
      afterLines context t.statement.codeLines = after context t.statement.text := by
  have hspliced := fun e => Taken.next_spliced (e := e) h
  have hnone : ∀ {s : Statement}, s.code? = none → after [] s.text = [] →
      AllCode [] s.codeLines ∧ afterLines [] s.codeLines = after [] s.text := by
    intro s hs ha
    rw [ha, Statement.codeLines, hs]
    exact ⟨trivial, rfl⟩
  cases next_eq_ok_iff.1 h with
  | code ho =>
    have hcode : (Statement.code line raw).code? = some (.code raw) := rfl
    have hlines : (Statement.code line raw).codeLines = [raw] := by
      rw [Statement.codeLines_of_code hcode]
      exact Text.lines_of_oneLine hraw
    rw [hlines]
    exact ⟨⟨ho, trivial⟩, rfl⟩
  | importing ho h =>
    obtain ⟨i, hi, hparse, hcut, _⟩ := importing_whole hraw hl ho h
    rw [hi] at hquotes ⊢
    refine hnone rfl ((hquotes _ rfl).elim (fun hq => ?_) id)
    exact Import.after_eq_nil hparse hcut.whole hq
  | exportList ho h =>
    obtain ⟨e, he, hparse, hcut, _⟩ := exportList_whole hraw hl ho h
    rw [he] at hquotes ⊢
    refine hnone (Export.parseList_code hparse) ?_
    by_cases hq : ∀ s, e.specifier = some s → QuoteFree s
    · exact Export.after_eq_nil hparse hcut.whole hq
    · obtain ⟨s, hs⟩ := not_forall.1 hq
      obtain ⟨hspecifier, hquote⟩ := Classical.not_imp.1 hs
      exact (hquotes s hspecifier).resolve_left hquote
  | exportVariables _ h =>
    obtain ⟨text, following, d, e, _, _, hparse, rfl⟩ := exportVariables_eq_ok_iff.1 h
    obtain ⟨names, _, rfl⟩ := map_eq_ok hparse
    exact (hspliced _ rfl).codeLines_declaration rfl (hbody _ rfl)
  | exportOther _ hparse =>
    have htext := (Export.parseLine_line_text hparse).2
    rcases Export.parseLine_kind hparse with hk | hk
    · exact (hspliced _ rfl).codeLines_declaration hk (hbody _ rfl)
    · exact (hspliced _ rfl).codeLines_default hk (by rwa [htext])

/-- What a definition takes over of a run of statements is code. -/
theorem Reads.codeLines {statements : List Statement}
    (h : Reads context line raw lines statements) (hraw : '\n' ∉ raw) (hl : ∀ l ∈ lines, '\n' ∉ l)
    (hbody : ∀ e, .exporting e ∈ statements → ReadsByLine e.body)
    (hquotes : ∀ s ∈ statements, ∀ specifier, s.specifier? = some specifier →
      QuoteFree specifier ∨ after [] s.text = []) :
    AllCode context (statements.flatMap Statement.codeLines) := by
  induction h with
  | last ht _ _ =>
    have hstep := Taken.next_codeLines hraw hl ht
      (fun e he => hbody e (he ▸ List.mem_singleton_self _))
      (hquotes _ (List.mem_singleton_self _))
    simpa using hstep.1
  | nextLine ht _ hf _ ih =>
    have hstep := Taken.next_codeLines hraw hl ht
      (fun e he => hbody e (he ▸ List.mem_cons_self)) (hquotes _ List.mem_cons_self)
    obtain ⟨hnext, hmore⟩ := (Taken.next_follows hraw hl ht).next_oneLine hf
    have hrest := ih hnext hmore (fun e he => hbody e (List.mem_cons_of_mem _ he))
      fun s hs => hquotes s (List.mem_cons_of_mem _ hs)
    rw [List.flatMap_cons, allCode_append, hstep.2]
    exact ⟨hstep.1, hrest⟩
  | sameLine ht _ _ ih =>
    have hstep := Taken.next_codeLines hraw hl ht
      (fun e he => hbody e (he ▸ List.mem_cons_self)) (hquotes _ List.mem_cons_self)
    have hfollows := Taken.next_follows hraw hl ht
    have hrest := ih hfollows.rest_oneLine hfollows.following_oneLine
      (fun e he => hbody e (List.mem_cons_of_mem _ he))
      fun s hs => hquotes s (List.mem_cons_of_mem _ hs)
    rw [List.flatMap_cons, allCode_append, hstep.2]
    exact ⟨hstep.1, hrest⟩

end Statements

section Definition

variable {m : Module} {base param : Text}

/-- A substitution leaves the code of an export alone when its text does not
name the meta object. -/
theorem Export.Spliced.substitute {e : Export} (h : e.Spliced) {line : FactoryLine}
    (hl : e.code? = some line) (hmeta : ¬"import.meta".toList <:+: e.text)
    (s : Meta.Substitution) : line.substitute s = line := by
  have hbody : (e.kind = .declaration ∨ e.kind = .defaultValue) →
      ¬"import.meta".toList <:+: e.body := fun hk hw =>
    hmeta ((h.shortened hk).infix_text (c := 'i') (by decide) hw)
  unfold Export.code? at hl
  split at hl
  · next hk =>
    cases hl
    exact congrArg FactoryLine.code (s.apply_of_not_infix (hbody (.inl hk)))
  · next hk =>
    cases hl
    have hvalue : ¬"import.meta".toList <:+: Text.trimStart e.body := fun hw =>
      hbody (.inr hk) (hw.trans (List.dropWhile_suffix isBlank).isInfix)
    exact congrArg FactoryLine.assignDefault (s.apply_of_not_infix hvalue)
  · cases hl

/-- Lines without the meta object are a body as they are. -/
theorem substituteAll_eq_self (hb : ∀ c ∈ base, isPlain c = true) {lines : List FactoryLine}
    (h : ∀ line ∈ lines, ∀ s, line.substitute s = line) : substituteAll base lines = .ok lines := by
  have hmap : lines.map (FactoryLine.substitute (Meta.Substitution.undoing base)) = lines :=
    (List.map_congr_left fun line hl => h line hl _).trans (List.map_id lines)
  rw [substituteAll_of_isShort (.inr fun c hc => Meta.isShort_of_isPlain (hb c hc)), hmap]

/-- The lines of rendered lines of a factory. -/
def FactoryLine.renderLines (lines : List FactoryLine) : List Text :=
  lines.flatMap fun line => Text.lines line.render

/-- Rendered lines are listed part by part. -/
theorem FactoryLine.renderLines_append (a b : List FactoryLine) :
    renderLines (a ++ b) = renderLines a ++ renderLines b := List.flatMap_append

/-- Generated lines are code wherever they stand, and leave nothing open. -/
theorem FactoryLine.renderLines_of_isQuiet {lines : List FactoryLine}
    (h : ∀ line ∈ lines, line.IsQuiet) :
    (∀ t ∈ renderLines lines, LineHead.ofLine t = .code) ∧
      ∀ t ∈ renderLines lines, after [] t = [] := by
  have hmem : ∀ t ∈ renderLines lines, ∃ line : FactoryLine, line.IsQuiet ∧ t = line.render := by
    intro t ht
    obtain ⟨line, hl, ht⟩ := List.mem_flatMap.1 ht
    have hquiet := h line hl
    rw [Text.lines_of_oneLine (render_keeps hquiet).oneLine, List.mem_singleton] at ht
    exact ⟨line, hquiet, ht⟩
  refine ⟨fun t ht => ?_, fun t ht => ?_⟩
  · obtain ⟨line, hquiet, rfl⟩ := hmem t ht
    exact ofLine_render hquiet
  · obtain ⟨line, hquiet, rfl⟩ := hmem t ht
    exact (render_keeps hquiet).after_eq_nil

/-- The code of statements, line by line. -/
theorem FactoryLine.renderLines_filterMap (statements : List Statement) :
    renderLines (statements.filterMap Statement.code?) = statements.flatMap Statement.codeLines := by
  induction statements with
  | nil => rfl
  | cons s statements ih =>
    rw [List.flatMap_cons, ← ih, List.filterMap_cons]
    cases hs : s.code? with
    | none => rw [Statement.codeLines, hs]; rfl
    | some line => rw [Statement.codeLines_of_code hs]; rfl

namespace Definition

variable {d : Definition}

/-- The opening of a definition leaves nothing open. -/
theorem opening_keeps (h : ∀ p ∈ d.params, Quiet p) : Keeps top d.opening := by
  have hdefine : Keeps top "define(".toList := Quiet.keeps (by decide)
  have hfactory : Keeps top ", function (".toList := Quiet.keeps (by decide)
  have hbrace : Keeps top ") \x7b".toList := Quiet.keeps (by decide)
  have hparams : Keeps top (List.intercalate ", ".toList d.params) :=
    keeps_intercalate (Quiet.keeps (by decide)) fun p hp => (h p hp).keeps
  exact (((hdefine.append (jsonList_keeps d.dependencies)).append hfactory).append hparams).append
    hbrace

/-- A definition is rendered as its opening, its lines and its closing. -/
theorem lines_render (d : Definition) :
    Text.lines d.render = Text.lines d.opening ++ (FactoryLine.renderLines d.lines ++
      Text.lines "\x7d);".toList) := by
  have hparts : d.render = List.intercalate ['\n']
      (d.opening :: (d.lines.map FactoryLine.render ++ ["\x7d);".toList])) := rfl
  rw [hparts, Text.lines_intercalate (List.cons_ne_nil _ _), List.flatMap_cons,
    List.flatMap_append, List.flatMap_map, List.flatMap_singleton]
  rfl

/-- A definition is code if what it takes over of its module is. -/
theorem allCode (hparams : ∀ p ∈ d.params, Quiet p) (hprologue : ∀ line ∈ d.prologue, line.IsQuiet)
    (hhoisted : ∀ line ∈ d.hoisted, line.IsQuiet)
    (hepilogue : ∀ line ∈ d.epilogue, line.IsQuiet)
    (hbody : AllCode [] (FactoryLine.renderLines d.body)) : AllCode [] (Text.lines d.render) := by
  have hopening := opening_keeps hparams
  have hfront : ∀ line ∈ d.prologue ++ d.hoisted, line.IsQuiet :=
    List.forall_mem_append.2 ⟨hprologue, hhoisted⟩
  obtain ⟨hfrontCode, hfrontAfter⟩ := FactoryLine.renderLines_of_isQuiet hfront
  have hbehind := (FactoryLine.renderLines_of_isQuiet hepilogue).1
  have hclosing : Text.lines "\x7d);".toList = ["\x7d);".toList] :=
    Text.lines_of_oneLine (by decide)
  have hdefine : LineHead.ofLine d.opening = .code :=
    LineHead.ofLine_of_head (c := 'd') rfl (by decide) (by decide)
  have hbrace : LineHead.ofLine "\x7d);".toList = .code :=
    LineHead.ofLine_of_head (c := '\x7d') rfl (by decide) (by decide)
  have hlines : FactoryLine.renderLines d.lines =
      FactoryLine.renderLines (d.prologue ++ d.hoisted) ++ (FactoryLine.renderLines d.body ++
        FactoryLine.renderLines d.epilogue) := by
    rw [lines, FactoryLine.renderLines_append, FactoryLine.renderLines_append, List.append_assoc]
  rw [lines_render, Text.lines_of_oneLine hopening.oneLine, hlines, hclosing]
  refine allCode_append.2 ⟨⟨fun _ => hdefine, trivial⟩, ?_⟩
  have htop : afterLines [] [d.opening] = [] := hopening.after_eq_nil
  rw [htop, List.append_assoc, List.append_assoc]
  refine allCode_append.2 ⟨allCode_of_forall hfrontCode [], ?_⟩
  rw [afterLines_of_forall hfrontAfter]
  refine allCode_append.2 ⟨hbody, allCode_of_forall ?_ _⟩
  -- behind the code of the module something may still be open
  exact List.forall_mem_append.2 ⟨hbehind, List.forall_mem_singleton.2 hbrace⟩

end Definition

/-- The definition of a module of which all code is taken over as it is. -/
def Module.plainDefinition (param : Text) (m : Module) : Definition :=
  ⟨m.dependencies param, m.reservedParams ++ m.dependencyParams.map Prod.snd, m.prologue,
    m.exports.flatMap Export.hoistedLines, m.body.filterMap Statement.code?,
    m.exports.flatMap Export.epilogueLines⟩

/-- Code without the meta object is taken over as it is. -/
theorem Module.definition_eq (hb : ∀ c ∈ base, isPlain c = true)
    (hspliced : ∀ e ∈ m.exports, e.Spliced)
    (hmeta : ∀ s ∈ m.body, ¬"import.meta".toList <:+: s.text) (param : Text) :
    m.definition base param = .ok (m.plainDefinition param) := by
  have hkept : ∀ line ∈ m.body.filterMap Statement.code?, ∀ s, line.substitute s = line := by
    intro line hl s
    obtain ⟨statement, hs, hcode⟩ := List.mem_filterMap.1 hl
    cases statement with
    | code number text =>
      cases hcode
      exact congrArg FactoryLine.code (s.apply_of_not_infix (hmeta _ hs))
    | importing i => cases hcode
    | exporting e =>
      exact (hspliced e (Module.mem_exports.2 hs)).substitute hcode (hmeta _ hs) s
  rw [Module.definition, substituteAll_eq_self hb hkept]
  rfl

/-- The definition that a module becomes is read again as code only, if every
export that goes over several lines reads by line and no quote inside a specifier
leaves anything open. -/
theorem Module.parse_transform_amd {source : Text} (options : ModuleOptions)
    (h : Module.parse source = .ok m) (hamd : options.capabilities.modulesAmd = true)
    (hb : ∀ c ∈ options.base, isPlain c = true)
    (hmeta : ∀ s ∈ m.body, ¬"import.meta".toList <:+: s.text)
    (hbodies : ∀ e ∈ m.exports, ReadsByLine e.body)
    (hquotes : ∀ s ∈ m.body, ∀ specifier, s.specifier? = some specifier →
      QuoteFree specifier ∨ after [] s.text = []) :
    ∃ text m', (m.transform options).result = .ok text ∧ Module.parse text = .ok m' ∧
      ∀ s ∈ m'.body, ∃ line code, s = .code line code := by
  obtain ⟨first, following, hfirst, hreads⟩ := Module.reads_of_parse h
  have hlines : ∀ l ∈ first :: following, '\n' ∉ l := fun l hl =>
    Text.lineFeed_notMem_of_mem_lines (t := source) (by rw [hfirst]; exact hl)
  have hspliced : ∀ s ∈ m.body, ∀ e, s = .exporting e → e.Spliced :=
    hreads.forall_mem fun ht e he => Taken.next_spliced ht he
  obtain ⟨hprologue, hhoisted, hepilogue⟩ :=
    Module.generated_isQuiet (hreads.forall_mem Taken.next_isQuiet)
  have hdefinition := Module.definition_eq hb
    (fun e he => hspliced _ (Module.mem_exports.1 he) e rfl) hmeta options.param
  have hbody : AllCode [] (FactoryLine.renderLines (m.body.filterMap Statement.code?)) := by
    rw [FactoryLine.renderLines_filterMap]
    exact hreads.codeLines (hlines first List.mem_cons_self)
      (fun l hl => hlines l (List.mem_cons_of_mem _ hl))
      (fun e he => hbodies e (Module.mem_exports.2 he)) hquotes
  have hcode : AllCode [] (Text.lines (m.plainDefinition options.param).render) :=
    Definition.allCode (fun p hp => (m.params_named p hp).quiet) hprologue hhoisted hepilogue hbody
  refine ⟨_, _, ?_, Module.parse_of_allCode hcode, fun s hs => Statement.exists_of_mem_codes hs⟩
  simp only [Module.transform, Module.generate, hamd, if_true, hdefinition]

/-- A line inside the template of a variable export looks like an import. -/
theorem Module.parse_transform_amd_template :
    ∃ m text m', Module.parse
        "import a from './x.js';\nexport const d = [a,\n  `\nimport e from 'e'\n`];\nexport default 1".toList =
        .ok m ∧
      (m.transform ⟨"https://a.b/".toList, ⟨true, false⟩, "v=1".toList, []⟩).result = .ok text ∧
      Module.parse text = .ok m' ∧ ∀ s ∈ m'.body, ∃ line code, s = .code line code := by
  have h : Module.parse
      "import a from './x.js';\nexport const d = [a,\n  `\nimport e from 'e'\n`];\nexport default 1".toList =
      .ok ⟨[.importing ⟨1, "import a from './x.js';".toList, "./x.js".toList, some ['a'], none, []⟩,
        .exporting ⟨.declaration, 2, "export const d = [a,\n  `\nimport e from 'e'\n`];".toList,
          "const d = [a,\n  `\nimport e from 'e'\n`];".toList, [⟨['d'], ['d']⟩], none⟩,
        .exporting ⟨.defaultValue, 6, "export default 1".toList, ['1'], [], none⟩]⟩ := by
    decide +kernel
  obtain ⟨text, m', hresult, hparse, hcode⟩ := Module.parse_transform_amd
    ⟨"https://a.b/".toList, ⟨true, false⟩, "v=1".toList, []⟩ h rfl (by decide)
    (by decide +kernel) (by decide +kernel) (by
      have hplain : ∀ c ∈ "./x.js".toList, isQuote c = false := by decide
      rintro s hs specifier hspecifier
      simp only [List.mem_cons, List.not_mem_nil, or_false] at hs
      rcases hs with rfl | rfl | rfl
      · cases hspecifier
        exact .inl hplain
      · cases hspecifier
      · cases hspecifier)
  exact ⟨_, text, m', h, hresult, hparse, hcode⟩

/-- Code that is read again as a statement of a module: a line of a variable
export that starts at the top level with the word `import`, a line that was
inside a template which a specifier had opened, and a line that is inside a
template only if a string goes on behind the end of its line. -/
theorem Module.parse_transform_amd_announced :
    (∃ m text, Module.parse "export const f =\n  import ('x');".toList = .ok m ∧
      (∀ s ∈ m.body, ¬"import.meta".toList <:+: s.text) ∧
      (m.transform ⟨"https://a.b/".toList, ⟨true, false⟩, [], []⟩).result = .ok text ∧
      Module.parse text = .error ⟨4, .unterminatedImport⟩) ∧
    (∃ m text m' i, Module.parse "import 'x\n`\n from 'y'\nimport a from 'b'".toList = .ok m ∧
      (∀ s ∈ m.body, ¬"import.meta".toList <:+: s.text) ∧
      (m.transform ⟨"https://a.b/".toList, ⟨true, false⟩, [], []⟩).result = .ok text ∧
      Module.parse text = .ok m' ∧ .importing i ∈ m'.body) ∧
    ∃ m text m' i, Module.parse
        "export const a = [\"\\\n`\"];\nconst s = `\nimport a from 'b'\n`;".toList = .ok m ∧
      (∀ s ∈ m.body, ¬"import.meta".toList <:+: s.text) ∧
      (m.transform ⟨"https://a.b/".toList, ⟨true, false⟩, [], []⟩).result = .ok text ∧
      Module.parse text = .ok m' ∧ .importing i ∈ m'.body := by
  have hfirst : Module.parse "export const f =\n  import ('x');".toList =
      .ok ⟨[.exporting ⟨.declaration, 1, "export const f =\n  import ('x');".toList,
        "const f =\n  import ('x');".toList, [⟨['f'], ['f']⟩], none⟩]⟩ := by
    decide +kernel
  have hsecond : Module.parse "import 'x\n`\n from 'y'\nimport a from 'b'".toList =
      .ok ⟨[.importing ⟨1, "import 'x\n`\n from 'y'".toList, "x\n`\n from 'y".toList, none, none,
        []⟩, .code 4 "import a from 'b'".toList]⟩ := by
    decide +kernel
  have hthird : Module.parse "export const a = [\"\\\n`\"];\nconst s = `\nimport a from 'b'\n`;".toList =
      .ok ⟨[.exporting ⟨.declaration, 1, "export const a = [\"\\\n`\"];".toList,
          "const a = [\"\\\n`\"];".toList, [⟨['a'], ['a']⟩], none⟩,
        .code 3 "const s = `".toList, .code 4 "import a from 'b'".toList, .code 5 "`;".toList]⟩ := by
    decide +kernel
  let i (line : Nat) : Import :=
    ⟨line, "import a from 'b'".toList, ['b'], some ['a'], none, []⟩
  refine ⟨⟨_, "define([\"exports\"], function (_exports) \x7b\n\"use strict\";\nconst f =\n  import ('x');\n_exports.f = f;\n\x7d);".toList,
      hfirst, by decide +kernel, by decide +kernel, by decide +kernel⟩,
    ⟨_, "define([\"x\\n`\\n from 'y\"], function () \x7b\n\"use strict\";\nimport a from 'b'\n\x7d);".toList,
      ⟨[.code 1 "define([\"x\\n`\\n from 'y\"], function () \x7b".toList,
        .code 2 "\"use strict\";".toList, .importing (i 3), .code 4 "\x7d);".toList]⟩, i 3,
      hsecond, by decide +kernel, by decide +kernel, by decide +kernel, by decide +kernel⟩,
    ⟨_, "define([\"exports\"], function (_exports) \x7b\n\"use strict\";\nconst a = [\"\\\n`\"];\nconst s = `\nimport a from 'b'\n`;\n_exports.a = a;\n\x7d);".toList,
      ⟨[.code 1 "define([\"exports\"], function (_exports) \x7b".toList,
        .code 2 "\"use strict\";".toList, .code 3 "const a = [\"\\".toList, .code 4 "`\"];".toList,
        .code 5 "const s = `".toList, .importing (i 6), .code 7 "`;".toList,
        .code 8 "_exports.a = a;".toList, .code 9 "\x7d);".toList]⟩, i 6,
      hthird, by decide +kernel, by decide +kernel, by decide +kernel, by decide +kernel⟩⟩

end Definition

end ModuleScripts
