import ModuleScripts.Proofs.ClosedLists
import ModuleScripts.Proofs.SameTokens

/-!
# Exports of variables

A keyword before closed declarators and a semicolon is taken as one statement that ends
at this semicolon, whatever follows it in the line and in the lines after it. Every
declarator is exported under the name it starts with.
-/

namespace ModuleScripts

/-- The characters that stand for more than themselves in a statement. -/
def Lexer.codeMarks : Text :=
  ['/', '\'', '"', templateMark, '(', '[', '{', ')', ']', '}', ',', ';', '\n']

/-- Text without these characters before a closed text. -/
theorem Lexer.Closed.unmarked_append {a t : Text} (ha : ∀ c ∈ a, c ∉ codeMarks)
    (ht : Closed .statement t) : Closed .statement (a ++ t) := by
  induction a with
  | nil => exact ht
  | cons c a ih =>
    obtain ⟨hc, ha⟩ := List.forall_mem_cons.1 ha
    refine .plain ?_ (ih ha)
    simp only [codeMarks, List.mem_cons, List.not_mem_nil, or_false, not_or] at hc
    obtain ⟨hslash, hsingle, hdouble, htemplate, hopen, hopen', hopen'', hclose, hclose', hclose'',
      hcomma, hsemicolon, hfeed⟩ := hc
    refine ⟨⟨?_, htemplate, fun h => hslash h.1⟩, ?_, hcomma, hsemicolon, hfeed⟩
    · simp [isQuote, hsingle, hdouble]
    · simp [bracketStep, *]

/-- A declarator: a name and an initialiser in which everything is closed. -/
structure Declarator where
  /-- The name. -/
  name : Name
  /-- The initialiser. -/
  value : Text
  /-- Everything in the initialiser is closed. -/
  isClosed : Lexer.Closed .statement value

namespace Declarator

variable (d : Declarator)

/-- The declarator as it is written behind the keyword or a comma. -/
def text : Text := ' ' :: (d.name.text ++ (" = ".toList ++ d.value))

/-- The name under which it is exported. -/
def rename : Rename := ⟨d.name.text, d.name.text⟩

/-- The text of a declarator is closed. -/
theorem closed_text : Lexer.Closed .statement d.text := by
  have hname : ∀ c ∈ d.name.text, c ∉ Lexer.codeMarks := by
    intro c hc hmark
    have hforeign : ∀ c ∈ Lexer.codeMarks,
        isIdentifierStart c = false ∧ isIdentifierPart c = false := by decide +kernel
    exact d.name.notMem (hforeign c hmark).1 (hforeign c hmark).2 hc
  exact Lexer.Closed.unmarked_append (a := [' ']) (by decide)
    (Lexer.Closed.unmarked_append hname (Lexer.Closed.unmarked_append (by decide) d.isClosed))

/-- A declarator is read to its name. -/
theorem parse_text : parseDeclarator d.text = .ok d.rename := by
  obtain ⟨c, r, hn, hstart, -⟩ := d.name.exists_cons
  have hvisible : isBlank c = false := d.name.isBlank_of_mem (by rw [hn]; exact List.mem_cons_self)
  have hclears : Clears (' ' :: (d.name.text ++ " = ".toList))
      (' ' :: (d.name.text ++ " = ".toList)) :=
    clears_of_calm (calm_cons.2 ⟨rfl, calm_append.2 ⟨d.name.calm, by decide⟩⟩)
  have hremove : Comments.remove d.text =
      ' ' :: (d.name.text ++ (" = ".toList ++ Comments.remove d.value)) := by
    have h := hclears d.value
    simp only [List.cons_append, List.append_assoc] at h
    exact h
  have htrim : Text.trim (Comments.remove d.text) =
      d.name.text ++ (" =".toList ++ Text.trimEnd (' ' :: Comments.remove d.value)) := by
    have hsolid : Text.EndsSolid (d.name.text ++ " =".toList) :=
      ⟨d.name.text ++ [' '], '=', by simp, rfl⟩
    have hend := Text.trimEnd_append hsolid (' ' :: Comments.remove d.value)
    have hstart : Text.trimStart
        (' ' :: (d.name.text ++ (" = ".toList ++ Comments.remove d.value))) =
        d.name.text ++ (" = ".toList ++ Comments.remove d.value) := by
      rw [Text.trimStart_cons_of_isBlank rfl, hn]
      exact Text.trimStart_cons_of_not_isBlank hvisible _
    rw [hremove, Text.trim, hstart]
    simpa using hend
  have hname : Matcher.identifier (d.name.text ++
      (" =".toList ++ Text.trimEnd (' ' :: Comments.remove d.value))) =
      some (d.name.text, " =".toList ++ Text.trimEnd (' ' :: Comments.remove d.value)) :=
    d.name.identifier_append fun c hc => by
      obtain rfl := Option.some.inj hc
      decide +kernel
  have hpattern : isPattern (d.name.text ++
      (" =".toList ++ Text.trimEnd (' ' :: Comments.remove d.value))) = false := by
    have hbrackets : c ≠ '{' ∧ c ≠ '[' := by
      refine ⟨?_, ?_⟩ <;>
      · rintro rfl
        cases hstart
    rw [hn]
    simp [isPattern, hbrackets]
  rw [parseDeclarator, htrim]
  simp only [hpattern, declaratorName?, hname]
  rfl

/-- Declarators are read to their names in order. -/
theorem parse_texts (ds : List Declarator) :
    parseDeclarators (ds.map text) = .ok (ds.map rename) := by
  induction ds with
  | nil => rfl
  | cons d ds ih =>
    rw [List.map_cons, parseDeclarators, d.parse_text, ih]
    rfl

end Declarator

/-- The keywords of variable declarations. -/
def variableKeywords : List Text := ["const".toList, "let".toList, "var".toList]

/-- Whether a text in front of a list is the head of a variable export: blanks, the word
that exports, blanks again, and a keyword that ends where the list starts. -/
def IsVariableHead (head list : Text) : Prop :=
  ∃ indent gap keyword, Blank indent ∧ (Blank gap ∧ gap ≠ []) ∧ keyword ∈ variableKeywords ∧
    atWordEnd list = true ∧ head = indent ++ ("export".toList ++ (gap ++ keyword))

/-- There are three keywords of variables. -/
theorem mem_variableKeywords_iff {keyword : Text} :
    keyword ∈ variableKeywords ↔
      keyword = "const".toList ∨ keyword = "let".toList ∨ keyword = "var".toList := by
  simp only [variableKeywords, List.mem_cons, List.not_mem_nil, or_false]

/-- A keyword of variables starts visibly. -/
theorem exists_cons_of_mem_variableKeywords {keyword : Text} (h : keyword ∈ variableKeywords) :
    ∃ c r, keyword = c :: r ∧ isBlank c = false := by
  rcases mem_variableKeywords_iff.1 h with h | h | h <;> exact ⟨_, _, h, rfl⟩

/-- The head of a variable export is found, and nothing else is taken for one. -/
theorem variableHead_eq_some_iff {t head list : Text} :
    variableHead t = some (head, list) ↔ t = head ++ list ∧ IsVariableHead head list := by
  constructor
  · intro h
    obtain ⟨indent, behind, gap, keyword, hindent, hgap, hcases, hend, rfl⟩ :=
      exists_parts_of_variableHead h
    obtain ⟨hgap, hne⟩ := Matcher.gap_eq_some_iff.1 hgap
    obtain ⟨rfl, hblank⟩ := Matcher.blanks_eq_some hindent
    obtain ⟨rfl, hblank'⟩ := Matcher.blanks_eq_some hgap
    exact ⟨by simp only [List.append_assoc], indent, gap, keyword, hblank, ⟨hblank', hne⟩,
      mem_variableKeywords_iff.2 hcases, hend, rfl⟩
  · rintro ⟨rfl, indent, gap, keyword, hindent, ⟨hgap, hne⟩, hmem, hend, rfl⟩
    obtain ⟨c, r, hk, hc⟩ := exists_cons_of_mem_variableKeywords hmem
    have hkeyword : variableKeyword (keyword ++ list) = some (keyword, list) :=
      variableKeyword_eq_some_iff.2 ⟨mem_variableKeywords_iff.1 hmem, rfl, hend⟩
    have hblanks : Matcher.gap (gap ++ (keyword ++ list)) = some (gap, keyword ++ list) := by
      rw [hk]
      exact gap_append hgap hne hc _
    have hindent : Matcher.blanks (indent ++ ("export".toList ++ (gap ++ (keyword ++ list)))) =
        some (indent, "export".toList ++ (gap ++ (keyword ++ list))) :=
      blanks_append hindent (c := 'e') rfl _
    have hhead := Matcher.andThen_of_some hindent (Matcher.andThen_of_some
      (literal_append "export".toList _) (Matcher.andThen_of_some hblanks hkeyword))
    rw [variableHead_eq]
    simpa only [List.append_assoc] using hhead

/-- A keyword before declarators, of which there is at least one. -/
structure VariableDeclaration where
  /-- The keyword. -/
  keyword : Text
  /-- It is one of the three. -/
  isKeyword : keyword ∈ variableKeywords
  /-- The first declarator. -/
  first : Declarator
  /-- The declarators behind the commas. -/
  others : List Declarator

namespace VariableDeclaration

variable (v : VariableDeclaration)

/-- Its export up to the declarators. -/
def head : Text := "export ".toList ++ v.keyword

/-- The declarators with this text behind their semicolon. -/
def pieces (rest : Text) : Pieces := ⟨v.first.text, v.others.map Declarator.text, some rest⟩

/-- The declaration with its semicolon. -/
def body : Text := v.keyword ++ (v.pieces []).join

/-- Its export. -/
def text : Text := "export ".toList ++ v.body

/-- The export as it is read. -/
def asExport : Export :=
  ⟨.declaration, 1, v.text, v.body, (v.first :: v.others).map Declarator.rename, none⟩

/-- The declarators with their commas. -/
def list : Text := v.first.text ++ (v.others.map Declarator.text).flatMap (',' :: ·)

/-- The pieces are the list and what stands behind its semicolon. -/
theorem join_pieces (rest : Text) : (v.pieces rest).join = v.list ++ ';' :: rest := rfl

/-- The declaration is its head, its list and a semicolon. -/
theorem text_append (rest : Text) : v.text ++ rest = v.head ++ (v.list ++ ';' :: rest) := by
  unfold text body head
  rw [join_pieces]
  simp only [List.append_assoc]
  rfl

/-- Every declarator of the list is closed. -/
theorem closed_declarators :
    ∀ t ∈ v.first.text :: v.others.map Declarator.text, Lexer.Closed .statement t := by
  intro t ht
  obtain ⟨d, -, rfl⟩ := List.mem_map.1 (List.map_cons ▸ ht : t ∈ (v.first :: v.others).map _)
  exact d.closed_text

/-- The list is read at the top level, up to its semicolon. -/
theorem scans_list : Lexer.Scans [';'] (some ';') ⟨.plain, []⟩ 0 v.list ⟨.plain, []⟩ 0 :=
  Pieces.scans_list v.closed_declarators

/-- The keyword is one of three. -/
theorem keyword_cases :
    v.keyword = "const".toList ∨ v.keyword = "let".toList ∨ v.keyword = "var".toList :=
  mem_variableKeywords_iff.1 v.isKeyword

/-- The keyword is calm. -/
theorem calm_keyword : Calm v.keyword := by
  rcases v.keyword_cases with h | h | h <;> rw [h] <;> decide

/-- The head is one line and ends with a visible character. -/
theorem head_line : '\n' ∉ v.head ∧ Text.EndsSolid v.head := by
  unfold head
  rcases v.keyword_cases with h | h | h <;> rw [h]
  · exact ⟨by decide, "export cons".toList, 't', rfl, rfl⟩
  · exact ⟨by decide, "export le".toList, 't', rfl, rfl⟩
  · exact ⟨by decide, "export va".toList, 'r', rfl, rfl⟩

/-- The declaration ends with its semicolon. -/
theorem endsSolid_text : Text.EndsSolid v.text := by
  have htext := v.text_append []
  rw [List.append_nil] at htext
  rw [htext]
  exact ((Text.endsSolid_singleton rfl).append _).append _

/-- The head is found before everything that does not go on with the keyword. -/
theorem variableHead_append {list : Text} (h : atWordEnd list = true) :
    variableHead (v.head ++ list) = some (v.head, list) :=
  variableHead_eq_some_iff.2 ⟨rfl, [], [' '], v.keyword, blank_nil, by decide, v.isKeyword, h, rfl⟩

/-- The export is cut at its own commas and its own semicolon. -/
theorem split?_append (rest : Text) :
    Declaration.split? (v.text ++ rest) = some ⟨v.head, v.pieces rest⟩ := by
  rw [v.text_append, ← v.join_pieces]
  exact Declaration.split?_eq_some_iff.2 ⟨_, v.variableHead_append rfl,
    (Pieces.cut_join (p := v.pieces rest) v.closed_declarators).symm, rfl⟩

/-- Before a line feed of the export something is open. -/
theorem split?_before_lineFeed {rest before behind : Text} (hrest : '\n' ∉ rest)
    (h : v.text ++ rest = before ++ '\n' :: behind) :
    Declaration.split? (Text.trim before) = none := by
  obtain ⟨hhead, hsolid⟩ := v.head_line
  rw [v.text_append] at h
  -- the line feed stands among the declarators
  obtain ⟨p, rfl, hp⟩ : ∃ p, before = v.head ++ p ∧
      v.list ++ ';' :: rest = p ++ '\n' :: behind := by
    rcases Text.exists_of_append_eq h with ⟨behind', hfeed, -⟩ | hsplit
    · exact absurd (by rw [hfeed]; simp) hhead
    · exact hsplit
  obtain ⟨behind', hlist⟩ : ∃ behind', v.list = p ++ '\n' :: behind' := by
    rcases Text.exists_of_append_eq hp with ⟨behind', hfeed, -⟩ | ⟨q, -, hfeed⟩
    · exact ⟨behind', hfeed⟩
    · have hmem : '\n' ∈ ';' :: rest := by rw [hfeed]; simp
      exact absurd ((List.mem_cons.1 hmem).resolve_left (by decide)) hrest
  have hscan := v.scans_list
  rw [hlist] at hscan
  obtain ⟨now, depth, hbefore, hheld⟩ := hscan.held_at_lineFeed
  obtain ⟨hnone, hgoes⟩ := hbefore.incomplete_before_lineFeed hheld
  have hword : atWordEnd (Text.trimEnd p) = true := by
    have hstart : v.list = ' ' :: v.list.tail := rfl
    rw [hstart, ← Text.trimEnd_append_trailing p] at hlist
    cases ht : Text.trimEnd p with
    | nil => rfl
    | cons c r =>
      rw [ht] at hlist
      rw [← (List.cons.inj hlist).1]
      rfl
  have htrim : Text.trim (v.head ++ p) = v.head ++ Text.trimEnd p :=
    Text.trimEnd_append hsolid p
  rw [htrim, Declaration.split?, v.variableHead_append hword]
  simp [hnone, hgoes]

/-- The export is read to its names and its declaration. -/
theorem parseVariables_text :
    Export.parseVariables 1 v.text (v.pieces []).declarators = .ok v.asExport := by
  have hnames : parseDeclarators (v.pieces []).declarators =
      .ok ((v.first :: v.others).map Declarator.rename) :=
    Declarator.parse_texts (v.first :: v.others)
  have hleading : Text.leading v.text = [] := Text.leading_blank_append blank_nil (c := 'e') rfl _
  have htrim : Text.trim v.text = v.text := by
    have hend := Text.trimEnd_append v.endsSolid_text []
    rw [List.append_nil] at hend
    exact hend.trans (List.append_nil _)
  have hbody : Text.trimStart (v.text.drop "export".toList.length) = v.body := by
    obtain ⟨c, r, hk, hc⟩ := exists_cons_of_mem_variableKeywords v.isKeyword
    have hdrop : v.text.drop "export".toList.length = ' ' :: v.body := rfl
    rw [hdrop, Text.trimStart_cons_of_isBlank rfl, body, hk]
    exact Text.trimStart_cons_of_not_isBlank hc _
  rw [Export.parseVariables, hnames, hleading, htrim, hbody]
  rfl

/-- Nothing is open behind the export. -/
theorem after_text : Lexer.after [] v.text = [] := by
  have hcalm : Calm v.head := calm_append.2 ⟨by decide, v.calm_keyword⟩
  have htext := v.text_append []
  rw [List.append_nil] at htext
  rw [htext, Lexer.after_calm_append hcalm, Lexer.after, Lexer.run_eq, Lexer.walk_append]
  have hlist : (Lexer.walk (some ';') ⟨.plain, []⟩ v.list).2 = ⟨.plain, []⟩ := v.scans_list.walk_eq
  simp only [List.head?_cons, Option.some_or, hlist]
  rfl

/-- The first step takes the export and leaves what follows its semicolon. -/
theorem next_eq {l first : Text} {others : List Text}
    (hl : Text.lines (v.text ++ l) = first :: others) (hn : '\n' ∉ l) (following : List Text) :
    Taken.next [] 1 first (others ++ following) =
      .ok ⟨.exporting v.asExport, l, 1 + Text.lineFeeds v.text, following⟩ := by
  have hfeeds := Text.lineFeeds_append_oneLine v.text hn
  have htrim : Text.trim (v.text ++ l) = v.text ++ Text.trimEnd l :=
    Text.trimEnd_append v.endsSolid_text l
  have hcollect : collect (fun t => (declarationEnd t).isSome) first (others ++ following) =
      some (v.text ++ l, following) := by
    refine collect_of_lines hl ?_ (fun before behind h => ?_) following
    · rw [declarationEnd_isSome, htrim, v.split?_append]
      rfl
    · rw [declarationEnd_isSome, v.split?_before_lineFeed hn h]
      rfl
  have hhead : LineHead.ofLine first = .exportVariables := by
    refine LineHead.ofLine_eq_exportVariables_iff.2 ?_
    have hsplit : v.text ++ l = (v.head ++ [' ']) ++ (v.list.tail ++ ';' :: l) := by
      rw [v.text_append, List.append_assoc]
      rfl
    have hline : '\n' ∉ v.head ++ [' '] := by
      rw [List.mem_append, not_or]
      exact ⟨v.head_line.1, by decide⟩
    rw [hsplit] at hl
    obtain ⟨t, rfl⟩ := Text.exists_first_of_lines hline hl
    rw [List.append_assoc, v.variableHead_append rfl]
    rfl
  rw [← hfeeds]
  refine Taken.next_eq_ok_iff.2 (.exportVariables hhead (Taken.exportVariables_eq_ok_iff.2 ?_))
  exact ⟨_, _, _, _, hcollect, v.split?_append l, v.parseVariables_text, rfl⟩

end VariableDeclaration

/-- An export of variables is taken as a whole, and what follows its semicolon is read on
its own. -/
theorem Module.parse_text_append (v : VariableDeclaration) (behind : Text) :
    Module.parse (v.text ++ behind) =
      (lowered (Text.lineFeeds v.text) (Module.parseRest behind)).map
        fun more => ⟨.exporting v.asExport :: more⟩ := by
  obtain ⟨l, following, hl⟩ := List.exists_cons_of_ne_nil (Text.lines_ne_nil behind)
  obtain ⟨first, others, hfirst⟩ := List.exists_cons_of_ne_nil (Text.lines_ne_nil (v.text ++ l))
  have hn : '\n' ∉ l := Text.lineFeed_notMem_of_lines hl l List.mem_cons_self
  have hparse := Module.parse_of_next hfirst hl hn (v.next_eq hfirst hn following) v.after_text
  rwa [unread_lines hl] at hparse

/-- If the source can be read, the export is its first statement: all declarators are
exported under their own names, and the declaration ends at its own semicolon. -/
theorem Module.parse_variableDeclaration {v : VariableDeclaration} {behind : Text} {m : Module}
    (h : Module.parse (v.text ++ behind) = .ok m) :
    m.body.head? = some (.exporting v.asExport) := by
  rw [Module.parse_text_append] at h
  obtain ⟨more, -, rfl⟩ := map_eq_ok h
  rfl

/-- A list that goes over a line, with a template in it, and a string and a comment that
hold separators. -/
theorem Module.parse_variableDeclaration_lines : ∃ v : VariableDeclaration, ∃ m,
    v.text = "export const a = [1,\n\x60$\x7bb\x7d;\x60], c = ';' /* , */;".toList ∧
      Module.parse (v.text ++ " d();\nf(c)".toList) = .ok m ∧
      m.body.head? = some (.exporting v.asExport) := by
  have htemplate : Lexer.Closed .template ['$', '{', 'b', '}', ';'] :=
    .substitution (.plain (by decide) (.nil _)) (.plain (by decide) (.nil _))
  have hbody : Lexer.Closed .bracket ("1,\n".toList ++ Lexer.templateMark ::
      (['$', '{', 'b', '}', ';'] ++ [Lexer.templateMark])) :=
    .plain (by decide) (.plain (by decide) (.plain (by decide)
      (.template (by decide) htemplate (.nil _))))
  have hlist : Lexer.Closed .statement "[1,\n\x60$\x7bb\x7d;\x60]".toList :=
    .group (o := '[') (c := ']') (.inl rfl) rfl rfl hbody (.nil _)
  have hcomment : Lexer.Closed .statement ('/' :: '*' :: (" , ".toList ++ ['*', '/'])) :=
    .comment (by decide) rfl (.nil _)
  have hstring : Lexer.Closed .statement
      ('\'' :: ([';'] ++ '\'' :: ' ' :: '/' :: '*' :: (" , ".toList ++ ['*', '/']))) :=
    .string (by decide) rfl (.char (by decide) (by decide) (by decide) .nil) (by decide)
      (.plain (by decide) hcomment)
  let v : VariableDeclaration :=
    ⟨"const".toList, by decide, ⟨⟨['a'], rfl⟩, _, hlist⟩, [⟨⟨['c'], rfl⟩, _, hstring⟩]⟩
  have htext : v.text = "export const a = [1,\n\x60$\x7bb\x7d;\x60], c = ';' /* , */;".toList := rfl
  have hparse : Module.parse
      "export const a = [1,\n\x60$\x7bb\x7d;\x60], c = ';' /* , */; d();\nf(c)".toList =
      .ok ⟨[.exporting ⟨.declaration, 1,
          "export const a = [1,\n\x60$\x7bb\x7d;\x60], c = ';' /* , */;".toList,
          "const a = [1,\n\x60$\x7bb\x7d;\x60], c = ';' /* , */;".toList,
          [⟨['a'], ['a']⟩, ⟨['c'], ['c']⟩], none⟩,
        .code 2 " d();".toList, .code 3 "f(c)".toList]⟩ := by
    decide +kernel
  have happend : v.text ++ " d();\nf(c)".toList =
      "export const a = [1,\n\x60$\x7bb\x7d;\x60], c = ';' /* , */; d();\nf(c)".toList := rfl
  rw [← happend] at hparse
  exact ⟨v, _, htext, hparse, Module.parse_variableDeclaration hparse⟩

end ModuleScripts
