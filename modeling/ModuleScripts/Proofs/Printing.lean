import ModuleScripts.Proofs.SameTokens

/-!
# Parsing what was printed

Statements are printed one to a line, each in its plain form: single blanks
between words, both names of an item only if they differ, the specifier in
single quotes and a semicolon at the end. The parser reads the printed lines back
to the same statements, whatever the names and the specifiers are.
-/

namespace ModuleScripts

/-- A line of code that cannot be taken for anything else and leaves nothing
open. -/
structure CodeLine where
  /-- The line. -/
  text : Text
  /-- It is a single line. -/
  oneLine : '\n' ∉ text
  /-- It does not start as an import. -/
  notImport : ∀ c r, Text.trimStart text = "import".toList ++ c :: r → LineHead.opensImport c = false
  /-- It does not start as an export. -/
  notExport : ∀ c r, Text.trimStart text = "export".toList ++ c :: r → LineHead.opensExport c = false
  /-- The lexer is at the top level behind it. -/
  grounded : Lexer.after [] text = []

/-- The specifier of a statement. -/
def Form.specifier? : Form → Option Text
  | sourced _ specifier => some specifier
  | list _ => none

/-- A statement in its plain form. -/
inductive Plain where
  /-- An import or an export, whose specifier can stand between single quotes. -/
  | stated (form : Form) (quotable : ∀ s, form.specifier? = some s → '\'' ∉ s ∧ '\n' ∉ s)
  /-- A line of code. -/
  | code (line : CodeLine)

section Printers

/-- An item, with its second name if that is another one. -/
def Binding.print (b : Binding) : Text :=
  if b.name = b.newName then b.name.text
  else b.name.text ++ ' ' :: ("as".toList ++ ' ' :: b.newName.text)

/-- Items between commas, and what stands behind them. -/
def Binding.printAll (behind : Text) : List Binding → Text
  | [] => behind
  | [b] => b.print ++ behind
  | b :: c :: others => b.print ++ ',' :: ' ' :: printAll behind (c :: others)

/-- A namespace object, or names in braces with the padding inside the braces. -/
def Group.print (padding : Text) : Group → Text
  | namespaceObject name => '*' :: ' ' :: ("as".toList ++ ' ' :: name.text)
  | named bindings => '{' :: ((padding ++ Binding.printAll padding bindings) ++ ['}'])

/-- What an import binds. -/
def Bound.print (padding : Text) : Bound → Text
  | default name => name.text
  | group g => g.print padding
  | both name g => name.text ++ ',' :: ' ' :: g.print padding

/-- What stands before the specifier. -/
def Lead.print (padding : Text) : Lead → Text
  | run => "import".toList ++ [' ']
  | binding bound =>
    "import".toList ++ ' ' :: (bound.print padding ++ ' ' :: ("from".toList ++ [' ']))
  | names bindings =>
    "export".toList ++ ' ' :: '{' :: ((padding ++ Binding.printAll padding bindings) ++
      '}' :: ' ' :: ("from".toList ++ [' ']))
  | star => "export".toList ++ ' ' :: '*' :: ' ' :: ("from".toList ++ [' '])
  | starAs name =>
    "export".toList ++ ' ' :: '*' :: ' ' :: ("as".toList ++ ' ' :: (name.text ++
      ' ' :: ("from".toList ++ [' '])))

/-- The statement without its semicolon. -/
def Form.print (padding : Text) : Form → Text
  | sourced lead specifier => lead.print padding ++ '\'' :: (specifier ++ ['\''])
  | list bindings =>
    "export".toList ++ ' ' :: '{' :: ((padding ++ Binding.printAll padding bindings) ++ ['}'])

/-- The printed line. -/
def Plain.print (padding : Text) : Plain → Text
  | stated form _ => form.print padding ++ [';']
  | code line => line.text

/-- The statement on its line. -/
def Plain.statement (padding : Text) (line : Nat) : Plain → Statement
  | stated form h => form.statement line ((stated form h).print padding)
  | code c => .code line c.text

end Printers

section Layouts

variable {padding : Text}

/-- Blanks are enough wherever the spacing asks for something. -/
structure Spacing.AllowsBlanks (spacing : Spacing) : Prop where
  /-- Blanks are a gap. -/
  gap : ∀ {b : Text}, Blank b → spacing.gap b
  /-- A blank parts words. -/
  parting : ∀ {b : Text}, Blank b → b ≠ [] → spacing.parting b

/-- Where comments may stand blanks may, too. -/
theorem Spacing.filled_allowsBlanks : Spacing.filled.AllowsBlanks :=
  ⟨fun h => ⟨_, gap_of_blank h⟩, fun h hne => ⟨_, gap_of_blank h, hne⟩⟩

/-- Where blanks may stand blanks may. -/
theorem Spacing.blank_allowsBlanks : Spacing.blank.AllowsBlanks :=
  ⟨fun h => h, fun h hne => ⟨h, hne⟩⟩

variable {spacing : Spacing}

/-- A printed binding is laid out. -/
theorem Binding.print_written (ha : spacing.AllowsBlanks) (b : Binding) :
    b.Written spacing b.print := by
  obtain ⟨name, newName⟩ := b
  by_cases h : name = newName
  · obtain rfl := h
    have hprint : Binding.print ⟨name, name⟩ = name.text := if_pos rfl
    rw [hprint]
    exact .same name
  · have hprint : Binding.print ⟨name, newName⟩ =
        name.text ++ ([' '] ++ ("as".toList ++ ([' '] ++ newName.text))) := by
      rw [Binding.print, if_neg h]
      rfl
    rw [hprint]
    exact .renamed name newName (ha.parting (by decide) (by decide))
      (ha.parting (by decide) (by decide))

/-- Printed bindings are laid out, behind any blanks. -/
theorem Binding.printAll_written (ha : spacing.AllowsBlanks) (hp : Blank padding)
    (bs : List Binding) {g : Text} (hg : Blank g) :
    BindingsWritten spacing bs (g ++ Binding.printAll padding bs) := by
  induction bs generalizing g with
  | nil => exact .nil (ha.gap (blank_append.2 ⟨hg, hp⟩))
  | cons b others ih =>
    cases others with
    | nil => exact .last (ha.gap hg) (b.print_written ha) (ha.gap hp)
    | cons c others =>
      have hlater := ih (g := [' ']) (by decide)
      have hsplit : g ++ Binding.printAll padding (b :: c :: others) =
          g ++ (b.print ++ ([] ++ ',' :: ([' '] ++ Binding.printAll padding (c :: others)))) := rfl
      rw [hsplit]
      exact .cons (ha.gap hg) (b.print_written ha) (ha.gap blank_nil) hlater

/-- A printed group is laid out. -/
theorem Group.print_written (ha : spacing.AllowsBlanks) (hp : Blank padding) (g : Group) :
    g.Written spacing (g.print padding) := by
  cases g with
  | namespaceObject name =>
    have hgap : spacing.gap [' '] := ha.gap (by decide)
    have hparting : spacing.parting [' '] := ha.parting (by decide) (by decide)
    have hwritten := Group.Written.namespaceObject name hgap hparting
    exact hwritten
  | named bindings => exact .named (Binding.printAll_written ha hp bindings hp)

/-- A printed clause is laid out. -/
theorem Bound.print_written (ha : spacing.AllowsBlanks) (hp : Blank padding) (b : Bound) :
    b.Written spacing (b.print padding) := by
  cases b with
  | default name => exact .default name
  | group g => exact .group (g.print_written ha hp)
  | both name g =>
    have hsplit : Bound.print padding (.both name g) =
        name.text ++ ([] ++ ',' :: ([' '] ++ g.print padding)) := rfl
    rw [hsplit]
    exact .both name (ha.gap blank_nil) (ha.gap (by decide)) (g.print_written ha hp)

/-- Without comments a list holds only names, blanks and commas. -/
theorem BindingsWritten.notMem {bs : List Binding} {t : Text} (h : BindingsWritten .blank bs t)
    {c : Char} (hb : isBlank c = false) (hc : c ≠ ',')
    (hn : isIdentifierStart c = false ∧ isIdentifierPart c = false) (has : c ∉ "as".toList) :
    c ∉ t := by
  have hitem : ∀ {b : Binding} {t : Text}, b.Written .blank t → c ∉ t := by
    intro b t hw
    cases hw with
    | same name => exact name.notMem hn.1 hn.2
    | renamed name newName hg hg' =>
      simp only [List.mem_append, not_or]
      exact ⟨name.notMem hn.1 hn.2, hg.1.notMem hb, has, hg'.1.notMem hb, newName.notMem hn.1 hn.2⟩
  induction h with
  | nil hg => exact Blank.notMem hg hb
  | last hg ht hg' =>
    simp only [List.mem_append, not_or]
    exact ⟨Blank.notMem hg hb, hitem ht, Blank.notMem hg' hb⟩
  | cons hg ht hg' _ ih =>
    simp only [List.mem_append, List.mem_cons, not_or]
    exact ⟨Blank.notMem hg hb, hitem ht, Blank.notMem hg' hb, hc, ih⟩

/-- A printed list has no comment that could end it. -/
theorem Binding.printAll_listable (hp : Blank padding) (bs : List Binding) :
    Listable (padding ++ Binding.printAll padding bs) := by
  have hw := Binding.printAll_written Spacing.blank_allowsBlanks hp bs hp
  have hbrace := hw.notMem (c := '}') (by decide) (by decide) (by decide +kernel) (by decide)
  have hstar := hw.notMem (c := '*') (by decide) (by decide) (by decide +kernel) (by decide)
  refine ⟨hbrace, fun u v h => ?_⟩
  exact absurd (by rw [h]; simp) hstar

/-- What is printed before a specifier is laid out. -/
theorem Lead.print_written (hp : Text.OneLineBlank padding) (lead : Lead) :
    lead.Written (lead.print padding) := by
  have hnone : Text.OneLineBlank [] := ⟨by decide, by decide⟩
  have hone : Text.OneLineBlank [' '] := ⟨by decide, by decide⟩
  have hspace : Blank [' '] := by decide
  have hfilled := Spacing.filled_allowsBlanks
  cases lead with
  | run =>
    have hwritten := Lead.Written.run hnone hspace (by decide)
    exact hwritten
  | binding bound =>
    have hcalm := (bound.print_written Spacing.blank_allowsBlanks hp.blank).calm
    have hfree : QuoteFree (' ' :: ([] ++ (bound.print padding ++ [' ']))) :=
      (calm_cons.2 ⟨by decide, calm_append.2 ⟨hcalm, by decide⟩⟩).quoteFree
    have hwritten := Lead.Written.binding hnone (by decide) (by decide) .nil
      (bound.print_written hfilled hp.blank) (gap_of_blank hspace) (.inl (by decide)) hspace
      hfree.unsourced
    exact hwritten
  | names bindings =>
    have hwritten := Lead.Written.names hnone hone
      (Binding.printAll_written hfilled hp.blank bindings hp.blank)
      (Binding.printAll_listable hp.blank bindings) hone hone
    exact hwritten
  | star =>
    have hwritten := Lead.Written.star hnone hone hspace hspace
    exact hwritten
  | starAs name =>
    have hne : [' '] ≠ [] := List.cons_ne_nil _ _
    have hwritten : Lead.Written (.starAs name) _ :=
      .starAs hnone hone hspace hspace hne hspace hne hspace
    exact hwritten

/-- The plain form is a layout. -/
theorem Form.print_written (hp : Text.OneLineBlank padding) (form : Form)
    (hs : ∀ s, form.specifier? = some s → '\'' ∉ s ∧ '\n' ∉ s) :
    form.Written (form.print padding) := by
  cases form with
  | sourced lead s =>
    obtain ⟨hquote, hline⟩ := hs s rfl
    exact .sourced (lead.print_written hp) ⟨by decide, hquote, hline⟩
  | list bindings =>
    have hnone : Text.OneLineBlank [] := ⟨by decide, by decide⟩
    have hone : Text.OneLineBlank [' '] := ⟨by decide, by decide⟩
    have hfilled := Spacing.filled_allowsBlanks
    have hwritten := Form.Written.list hnone hone
      (Binding.printAll_written hfilled hp.blank bindings hp.blank)
      (Binding.printAll_listable hp.blank bindings)
    exact hwritten

section OneLine

open List (not_mem_append not_mem_cons_of_ne_of_not_mem)

/-- A name stands on one line. -/
theorem Name.lineFeed_notMem (n : Name) : '\n' ∉ n.text := n.notMem (by decide) (by decide +kernel)

/-- A binding is printed on one line. -/
theorem Binding.print_oneLine (b : Binding) : '\n' ∉ b.print := by
  unfold Binding.print
  split
  · exact b.name.lineFeed_notMem
  · exact not_mem_append b.name.lineFeed_notMem (not_mem_cons_of_ne_of_not_mem (by decide)
      (not_mem_append (by decide) (not_mem_cons_of_ne_of_not_mem (by decide)
        b.newName.lineFeed_notMem)))

/-- Bindings are printed on one line when the padding is on one. -/
theorem Binding.printAll_oneLine (hp : '\n' ∉ padding) (bs : List Binding) :
    '\n' ∉ Binding.printAll padding bs := by
  induction bs with
  | nil => exact hp
  | cons b others ih =>
    cases others with
    | nil => exact not_mem_append b.print_oneLine hp
    | cons c others =>
      exact not_mem_append b.print_oneLine (not_mem_cons_of_ne_of_not_mem (by decide)
        (not_mem_cons_of_ne_of_not_mem (by decide) ih))

/-- Padded names before what stands behind them. -/
theorem Binding.braces_oneLine (hp : '\n' ∉ padding) (bs : List Binding) {behind : Text}
    (hb : '\n' ∉ behind) :
    '\n' ∉ '{' :: ((padding ++ Binding.printAll padding bs) ++ behind) :=
  not_mem_cons_of_ne_of_not_mem (by decide)
    (not_mem_append (not_mem_append hp (Binding.printAll_oneLine hp bs)) hb)

/-- A group is printed on one line when the padding is on one. -/
theorem Group.print_oneLine (hp : '\n' ∉ padding) (g : Group) : '\n' ∉ g.print padding := by
  cases g with
  | namespaceObject name =>
    have hword : '\n' ∉ '*' :: ' ' :: ("as".toList ++ [' ']) := by decide
    have hsplit : Group.print padding (.namespaceObject name) =
        ('*' :: ' ' :: ("as".toList ++ [' '])) ++ name.text := rfl
    rw [hsplit]
    exact not_mem_append hword name.lineFeed_notMem
  | named bindings => exact Binding.braces_oneLine hp bindings (by decide)

/-- A clause is printed on one line when the padding is on one. -/
theorem Bound.print_oneLine (hp : '\n' ∉ padding) (b : Bound) : '\n' ∉ b.print padding := by
  cases b with
  | default name => exact name.lineFeed_notMem
  | group g => exact g.print_oneLine hp
  | both name g =>
    exact not_mem_append name.lineFeed_notMem (not_mem_cons_of_ne_of_not_mem (by decide)
      (not_mem_cons_of_ne_of_not_mem (by decide) (g.print_oneLine hp)))

/-- What stands before a specifier is printed on one line when the padding is
on one. -/
theorem Lead.print_oneLine (hp : '\n' ∉ padding) (lead : Lead) : '\n' ∉ lead.print padding := by
  have hword : '\n' ∉ "import".toList ∧ '\n' ∉ "export".toList := by decide
  have hfrom : '\n' ∉ ' ' :: ("from".toList ++ [' ']) := by decide
  have hblank : ∀ {t : Text}, '\n' ∉ t → '\n' ∉ ' ' :: t :=
    fun h => not_mem_cons_of_ne_of_not_mem (by decide) h
  have hstar : ∀ {t : Text}, '\n' ∉ t → '\n' ∉ '*' :: t :=
    fun h => not_mem_cons_of_ne_of_not_mem (by decide) h
  cases lead with
  | run => exact not_mem_append hword.1 (by decide)
  | binding bound =>
    exact not_mem_append hword.1 (hblank (not_mem_append (bound.print_oneLine hp) hfrom))
  | names bindings =>
    exact not_mem_append hword.2 (hblank (Binding.braces_oneLine hp bindings
      (not_mem_cons_of_ne_of_not_mem (by decide) hfrom)))
  | star => exact not_mem_append hword.2 (hblank (hstar hfrom))
  | starAs name =>
    exact not_mem_append hword.2 (hblank (hstar (hblank (not_mem_append (by decide)
      (hblank (not_mem_append name.lineFeed_notMem hfrom))))))

/-- A printed statement is one line. -/
theorem Form.print_oneLine (hp : '\n' ∉ padding) (form : Form)
    (hs : ∀ s, form.specifier? = some s → '\'' ∉ s ∧ '\n' ∉ s) : '\n' ∉ form.print padding := by
  cases form with
  | sourced lead s =>
    exact not_mem_append (lead.print_oneLine hp) (not_mem_cons_of_ne_of_not_mem (by decide)
      (not_mem_append (hs s rfl).2 (by decide)))
  | list bindings =>
    exact not_mem_append (by decide) (not_mem_cons_of_ne_of_not_mem (by decide)
      (Binding.braces_oneLine hp bindings (by decide)))

end OneLine

end Layouts

section Runs

variable {padding tail : Text}

/-- A line of code is read as such. -/
theorem CodeLine.parse (c : CodeLine) {following : List Text}
    (ht : Text.lines tail = [] :: following) :
    Module.parse (c.text ++ tail) =
      (Module.parseRest tail).map fun more => ⟨.code 1 c.text :: more⟩ := by
  have hfirst : Text.lines (c.text ++ []) = [c.text] := by
    rw [List.append_nil, Text.lines_of_oneLine c.oneLine]
  have hfeeds := Text.lineFeeds_of_oneLine c.oneLine
  have hstep : Taken.next [] 1 c.text following =
      .ok ⟨.code 1 c.text, [], 1 + Text.lineFeeds c.text, following⟩ := by
    rw [hfeeds]
    exact Taken.next_eq_ok_iff.2 (.code fun _ => LineHead.ofLine_eq_code c.notImport c.notExport)
  have hparse := Module.parse_of_next hfirst ht List.not_mem_nil hstep c.grounded
  rwa [hfeeds, lowered_zero, unread_lines ht] at hparse

/-- A printed statement is read back, and then what follows its line. -/
theorem Plain.parse (hp : Text.OneLineBlank padding) (p : Plain) {following : List Text}
    (ht : Text.lines tail = [] :: following) :
    Module.parse (p.print padding ++ tail) =
      (Module.parseRest tail).map fun more => ⟨p.statement padding 1 :: more⟩ := by
  cases p with
  | stated form hs =>
    have hread := (form.print_written hp hs).parse_semicolon (.semicolon (b := []) ⟨rfl, by decide⟩)
      tail
    have hfeeds := Text.lineFeeds_of_oneLine (form.print_oneLine hp.2 hs)
    rw [hfeeds, lowered_zero] at hread
    rw [Plain.print, List.append_assoc]
    exact hread
  | code c => exact c.parse ht

/-- A plain statement that is moved down stands on a later line. -/
theorem Plain.lower_statement (padding : Text) (line k : Nat) (p : Plain) :
    (p.statement padding line).lower k = p.statement padding (line + k) := by
  cases p with
  | stated form hs =>
    cases form with
    | sourced lead s => cases lead <;> rfl
    | list bindings => rfl
  | code c => rfl

/-- Plain statements that are moved down by one stand one line later each. -/
theorem Plain.map_lower_statements (padding : Text) (ps : List Plain) (line : Nat) :
    ((ps.zipIdx line).map fun p => p.1.statement padding p.2).map (Statement.lower 1) =
      (ps.zipIdx (line + 1)).map fun p => p.1.statement padding p.2 := by
  induction ps generalizing line with
  | nil => rfl
  | cons p ps ih =>
    rw [List.zipIdx_cons, List.zipIdx_cons, List.map_cons, List.map_cons, List.map_cons, ih,
      p.lower_statement padding line 1]

/-- Printed statements are read back, each on its line. -/
theorem Module.parse_printed (hp : Text.OneLineBlank padding) {ps : List Plain} (hne : ps ≠ []) :
    Module.parse (List.intercalate ['\n'] (ps.map (Plain.print padding))) =
      .ok ⟨(ps.zipIdx 1).map fun p => p.1.statement padding p.2⟩ := by
  induction ps with
  | nil => exact absurd rfl hne
  | cons p ps ih =>
    cases ps with
    | nil =>
      have hnil : Text.lines [] = [[]] := rfl
      have hlast := p.parse hp hnil
      rw [List.append_nil, Module.parseRest_nil] at hlast
      simpa [List.intercalate, Except.map] using hlast
    | cons next ps =>
      have hrest := ih (List.cons_ne_nil next ps)
      have hsplit : List.intercalate ['\n'] ((p :: next :: ps).map (Plain.print padding)) =
          p.print padding ++
            '\n' :: List.intercalate ['\n'] ((next :: ps).map (Plain.print padding)) := by
        simp [List.intercalate]
      rw [hsplit, p.parse hp (Text.lines_cons_lineFeed _), Module.parseRest_lineFeed, hrest]
      have hlower := Plain.map_lower_statements padding (next :: ps) 1
      simp only [Except.map, lowered, hlower, List.zipIdx_cons (a := p), List.map_cons]

/-- Keywords as names, a template mark and a backslash in a specifier, and a line
of code that starts with the word `import`. -/
theorem Module.parse_printed_keywords :
    Module.parse
        "import from, \x7b as as from \x7d from '`from \\';\nimport(x)\nexport \x7b from \x7d;".toList =
      .ok ⟨[.importing ⟨1, "import from, \x7b as as from \x7d from '`from \\';".toList,
          "`from \\".toList, some "from".toList, none, [⟨"as".toList, "from".toList⟩]⟩,
        .code 2 "import(x)".toList,
        .exporting ⟨.named, 3, "export \x7b from \x7d;".toList, [],
          [⟨"from".toList, "from".toList⟩], none⟩]⟩ := by
  let nameFrom : Name := ⟨"from".toList, by decide +kernel⟩
  let nameAs : Name := ⟨"as".toList, by decide +kernel⟩
  let bound : Bound := .both nameFrom (.named [⟨nameAs, nameFrom⟩])
  have hquotable : ∀ s, (Form.sourced (.binding bound) "`from \\".toList).specifier? = some s →
      '\'' ∉ s ∧ '\n' ∉ s := by
    rintro s ⟨⟩
    decide
  have hlist : ∀ s, (Form.list [⟨nameFrom, nameFrom⟩]).specifier? = some s →
      '\'' ∉ s ∧ '\n' ∉ s := by
    rintro s ⟨⟩
  have himport : ∀ c r, Text.trimStart "import(x)".toList = "import".toList ++ c :: r →
      LineHead.opensImport c = false := by
    intro c r h
    have hsplit : "import".toList ++ "(x)".toList = "import".toList ++ c :: r := h
    have hrest : "(x)".toList = c :: r := List.append_cancel_left hsplit
    have hc : '(' = c := (List.cons.inj hrest).1
    rw [← hc]
    decide
  have hexport : ∀ c r, Text.trimStart "import(x)".toList = "export".toList ++ c :: r →
      LineHead.opensExport c = false := by
    intro c r h
    exact absurd (List.cons.inj h).1 (by decide)
  let call : CodeLine := ⟨"import(x)".toList, by decide, himport, hexport, by decide +kernel⟩
  let ps : List Plain := [.stated _ hquotable, .code call, .stated _ hlist]
  have hpadding : Text.OneLineBlank [' '] := ⟨by decide, by decide⟩
  have hps : ps ≠ [] := List.cons_ne_nil _ _
  have hread := Module.parse_printed hpadding hps
  have htext : List.intercalate ['\n'] (ps.map (Plain.print [' '])) =
      "import from, \x7b as as from \x7d from '`from \\';\nimport(x)\nexport \x7b from \x7d;".toList := rfl
  rw [htext] at hread
  exact hread

end Runs

end ModuleScripts
