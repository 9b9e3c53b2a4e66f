import ModuleScripts.Proofs.LayoutReading

/-!
# Layouts of the same statement

Two layouts of one statement in front of the same text are read to the same
statement, and what follows is read to the same statements. Only the lines
differ, by the line feeds of the layouts. A layout is always rejected if the braces
or the star of an import stand right behind its keyword, or those of an export on a
later line than its keyword.
-/

namespace ModuleScripts

/-- The end of a statement with or without its semicolon. Only blanks of the same
line stand before it. -/
inductive Closes : Bool → Text → Prop where
  /-- No semicolon. -/
  | bare : Closes false []
  /-- Blanks and a semicolon. -/
  | semicolon {b : Text} (hb : Text.OneLineBlank b) : Closes true (b ++ [';'])

/-- What is read from a text behind a statement that ends on its first line. -/
def Module.parseRest (rest : Text) : Except SyntaxError (List Statement) :=
  match Text.lines rest with
  | [] => .ok []
  | first :: following => parseBehind [] 1 first following

/-- Nothing is left of the empty source. -/
theorem Module.parseRest_nil : Module.parseRest [] = .ok [] := rfl

/-- What stands behind a statement is read on a later line alike. -/
theorem parseBehind_lower (k : Nat) (context : Lexer.Context) (line : Nat) (rest : Text)
    (following : List Text) :
    parseBehind context (line + k) rest following =
      lowered k (parseBehind context line rest following) := by
  unfold parseBehind
  split
  · cases following with
    | nil => rfl
    | cons next more =>
      have hline : line + k + 1 = line + 1 + k := by omega
      dsimp only
      rw [hline]
      exact parseFrom_lower k context (line + 1) next more
  · exact parseFrom_lower k context line rest following

/-- What follows on the next line is a module of its own. -/
theorem Module.parseRest_lineFeed (t : Text) :
    Module.parseRest ('\n' :: t) = lowered 1 ((Module.parse t).map Module.body) := by
  obtain ⟨first, following, hl⟩ := List.exists_cons_of_ne_nil (Text.lines_ne_nil t)
  have hrun : (Module.parse t).map Module.body = parseFrom [] 1 first following := by
    unfold Module.parse
    rw [hl]
    dsimp only
    cases parseFrom [] 1 first following <;> rfl
  rw [hrun, ← parseFrom_lower 1 [] 1 first following]
  unfold Module.parseRest
  rw [Text.lines_cons_lineFeed, hl]
  rfl

section Terminators

variable {b : Text}

/-- The semicolon of a statement closes it whatever follows. -/
theorem Boundary.terminator_semicolon (hb : Blank b) (l : Text) :
    terminator (b ++ ';' :: l) = some (b ++ [';'], l) :=
  Matcher.andThen_eq_some_iff.2 ⟨b, _, _, blanks_append hb (by decide) _,
    Matcher.orElse_of_some (literal_append [';'] l), rfl⟩

/-- A semicolon ends every form. -/
theorem Form.endsBefore_semicolon (form : Form) (hb : Blank b) (l : Text) :
    form.EndsBefore (b ++ ';' :: l) := by
  cases form with
  | sourced lead s => trivial
  | list bindings =>
    exact Matcher.andThen_eq_none_of_some (blanks_append hb (by decide) l) rfl

end Terminators

/-- Two texts that share a line have the lines of both. -/
theorem Text.lines_append_of_lines {a l tail first : Text} {others following : List Text}
    (hfirst : lines (a ++ l) = first :: others) (hl : lines tail = l :: following) :
    lines (a ++ tail) = first :: (others ++ following) := by
  obtain ⟨hraw, hothers⟩ := List.forall_mem_cons.1 (lineFeed_notMem_of_lines hfirst)
  obtain ⟨-, hfollowing⟩ := List.forall_mem_cons.1 (lineFeed_notMem_of_lines hl)
  have htext : a ++ tail = unread first (others ++ following) := by
    rw [unread_append, unread_lines hfirst, ← unread_lines hl]
    simp [unread]
  rw [htext]
  exact lines_unread hraw (List.forall_mem_append.2 ⟨hothers, hfollowing⟩)

/-- A first step that takes a statement which leaves nothing open, and the run behind it. -/
theorem Module.parse_of_next {a l r tail first : Text} {others following : List Text}
    {s : Statement} (hfirst : Text.lines (a ++ l) = first :: others)
    (hl : Text.lines tail = l :: following) (hr : '\n' ∉ r)
    (hnext : Taken.next [] 1 first (others ++ following) =
      .ok ⟨s, r, 1 + Text.lineFeeds a, following⟩)
    (hafter : Lexer.after [] s.text = []) :
    Module.parse (a ++ tail) = (lowered (Text.lineFeeds a)
      (Module.parseRest (unread r following))).map fun more => ⟨s :: more⟩ := by
  obtain ⟨-, hfollowing⟩ := List.forall_mem_cons.1 (Text.lineFeed_notMem_of_lines hl)
  have hrest : Module.parseRest (unread r following) = parseBehind [] 1 r following := by
    rw [Module.parseRest, lines_unread hr hfollowing]
  have hrun := parseFrom_of_next hnext
  dsimp only at hrun
  rw [hafter, parseBehind_lower] at hrun
  rw [Module.parse, Text.lines_append_of_lines hfirst hl, hrest]
  dsimp only
  rw [hrun]
  cases lowered (Text.lineFeeds a) (parseBehind [] 1 r following) <;> rfl

/-- A first step that fails. -/
theorem Module.parse_of_error {source first : Text} {others : List Text} {fault : Fault}
    (hl : Text.lines source = first :: others) (h : Taken.next [] 1 first others = .error fault) :
    Module.parse source = .error ⟨1, fault⟩ := by
  rw [Module.parse, hl]
  dsimp only
  rw [parseFrom_of_error h]
  rfl

section Layouts

variable {form : Form} {a k l c r tail : Text} {following : List Text}

/-- A statement in any of its layouts, and the run behind it. -/
theorem Form.Written.parse (h : form.Written a) (hl : Text.lines tail = l :: following)
    (hend : form.EndsBefore l) (hc : Boundary.terminator l = some (c, r)) :
    Module.parse (a ++ tail) = (lowered (Text.lineFeeds a) (Module.parseRest (unread r following))).map
      fun more => ⟨form.statement 1 (a ++ c) :: more⟩ := by
  have hn : '\n' ∉ l := Text.lineFeed_notMem_of_lines hl l List.mem_cons_self
  have hr : '\n' ∉ r := by
    intro hm
    rw [Boundary.terminator_exact _ _ _ hc] at hn
    exact hn (List.mem_append_right c hm)
  obtain ⟨first, others, hfirst⟩ := List.exists_cons_of_ne_nil (Text.lines_ne_nil (a ++ l))
  have htext : (form.statement 1 (a ++ c)).text = a ++ c := by
    cases form with
    | sourced lead s => cases lead <;> rfl
    | list bindings => rfl
  refine Module.parse_of_next hfirst hl hr (h.next hn hend hc hfirst 1 following) ?_
  rw [htext]
  exact h.after_eq_nil hc

/-- An import with braces or a star right behind its keyword is rejected. -/
theorem Form.Tight.parse (h : form.Tight a) (hl : Text.lines tail = l :: following)
    (hc : Boundary.terminator l = some (c, r)) :
    Module.parse (a ++ tail) = .error ⟨1, .invalidImport (Text.trim (a ++ c))⟩ := by
  have hn : '\n' ∉ l := Text.lineFeed_notMem_of_lines hl l List.mem_cons_self
  obtain ⟨first, others, hfirst⟩ := List.exists_cons_of_ne_nil (Text.lines_ne_nil (a ++ l))
  exact Module.parse_of_error (Text.lines_append_of_lines hfirst hl)
    (h.next hn hc hfirst 1 following)

/-- An export that starts on a later line than its keyword is rejected. -/
theorem Form.Parted.parse (h : form.Parted a) (tail : Text) :
    Module.parse (a ++ tail) = .error ⟨1, .invalidExport "export".toList⟩ := by
  obtain ⟨first, others, hfirst⟩ := List.exists_cons_of_ne_nil (Text.lines_ne_nil (a ++ tail))
  exact Module.parse_of_error hfirst (h.next hfirst 1)

/-- A semicolon closes a statement on the line that it shares with what follows. -/
theorem Closes.exists_line (hk : Closes true k) (hl : Text.lines tail = l :: following) :
    ∃ line, Text.lines (k ++ tail) = line :: following ∧
      Boundary.terminator line = some (k, l) ∧ ∀ form : Form, form.EndsBefore line := by
  cases hk with
  | @semicolon b hb =>
    obtain ⟨hn, hfollowing⟩ := List.forall_mem_cons.1 (Text.lineFeed_notMem_of_lines hl)
    have htext : (b ++ [';']) ++ tail = unread (b ++ ';' :: l) following := by
      rw [← unread_lines hl]
      simp [unread]
    have hline : '\n' ∉ b ++ ';' :: l := by
      simp only [List.mem_append, List.mem_cons, not_or]
      exact ⟨hb.2, by decide, hn⟩
    refine ⟨b ++ ';' :: l, ?_, Boundary.terminator_semicolon hb.blank l,
      fun form => form.endsBefore_semicolon hb.blank l⟩
    rw [htext]
    exact lines_unread hline hfollowing

/-- Behind the semicolon of a statement the rest of the text is read. -/
theorem Form.Written.parse_semicolon (h : form.Written a) (hk : Closes true k) (tail : Text) :
    Module.parse (a ++ (k ++ tail)) =
      (lowered (Text.lineFeeds a) (Module.parseRest tail)).map
        fun more => ⟨form.statement 1 (a ++ k) :: more⟩ := by
  obtain ⟨l, following, hl⟩ := List.exists_cons_of_ne_nil (Text.lines_ne_nil tail)
  obtain ⟨line, hlines, hc, hend⟩ := hk.exists_line hl
  rw [h.parse hlines (hend form) hc, unread_lines hl]

/-- What follows a statement depends on whether it has a semicolon and not on the blanks
before that. -/
theorem Closes.exists_rest {semicolon : Bool} (hl : Text.lines tail = l :: following)
    (hend : semicolon = true ∨ form.EndsBefore l) :
    ∃ r, ∀ k, Closes semicolon k → ∃ line c, Text.lines (k ++ tail) = line :: following ∧
      Boundary.terminator line = some (c, r) ∧ form.EndsBefore line ∧
      k ++ tail = c ++ unread r following := by
  cases semicolon with
  | true =>
    refine ⟨l, fun k hk => ?_⟩
    obtain ⟨line, hlines, hc, hends⟩ := hk.exists_line hl
    exact ⟨line, k, hlines, hc, hends form, by rw [unread_lines hl]⟩
  | false =>
    obtain ⟨⟨c, r⟩, hc⟩ := Option.isSome_iff_exists.1 (Boundary.terminator_total l)
    refine ⟨r, fun k hk => ?_⟩
    cases hk with
    | bare =>
      refine ⟨l, c, hl, hc, hend.resolve_left Bool.false_ne_true, ?_⟩
      rw [List.nil_append, ← unread_lines hl, Boundary.terminator_exact _ _ _ hc]
      simp [unread]

/-- Two layouts of one statement, with its semicolon or without, in front of the
same text: both are read to the statement with the same bindings, names and
specifier, and then to what the same text is read to. Layouts with the braces or the star
right behind the word `import`, and on a later line than the word `export`, are rejected
where these are accepted. -/
theorem Module.parse_layouts {semicolon : Bool} {a' k' : Text} (ha : form.Written a)
    (ha' : form.Written a') (hk : Closes semicolon k) (hk' : Closes semicolon k')
    (htail : semicolon = true ∨
      ∀ first others, Text.lines tail = first :: others → form.EndsBefore first) :
    ∃ c c' rest, k ++ tail = c ++ rest ∧ k' ++ tail = c' ++ rest ∧
      Module.parse (a ++ (k ++ tail)) =
        (lowered (Text.lineFeeds a) (Module.parseRest rest)).map
          (fun more => ⟨form.statement 1 (a ++ c) :: more⟩) ∧
      Module.parse (a' ++ (k' ++ tail)) =
        (lowered (Text.lineFeeds a') (Module.parseRest rest)).map
          (fun more => ⟨form.statement 1 (a' ++ c') :: more⟩) ∧
      (∀ tight, form.Tight tight → Module.parse (tight ++ (k ++ tail)) =
        .error ⟨1, .invalidImport (Text.trim (tight ++ c))⟩) ∧
      (∀ parted, form.Parted parted → Module.parse (parted ++ (k ++ tail)) =
        .error ⟨1, .invalidExport "export".toList⟩) := by
  obtain ⟨l, following, hl⟩ := List.exists_cons_of_ne_nil (Text.lines_ne_nil tail)
  obtain ⟨r, hrest⟩ :=
    Closes.exists_rest hl (htail.imp_right fun h => h l following hl)
  obtain ⟨line, c, hlines, hc, hend, hsplit⟩ := hrest k hk
  obtain ⟨line', c', hlines', hc', hend', hsplit'⟩ := hrest k' hk'
  exact ⟨c, c', unread r following, hsplit, hsplit', ha.parse hlines hend hc,
    ha'.parse hlines' hend' hc', fun _ h => h.parse hlines hc, fun _ h => h.parse _⟩

/-- A named import on one line and on three, with a brace in a comment, and one with its
braces right behind the keyword. -/
theorem Module.parse_layouts_comment :
    ∃ (form : Form) (a a' tight : Text),
      form = .sourced (.binding (.group (.named [⟨⟨['a'], rfl⟩, ⟨['b'], rfl⟩⟩]))) ['x'] ∧
      a = "import \x7b a as b \x7d from 'x'".toList ∧
      a' = "import \x7b\n  a as b, // \x7d\n\x7dfrom\n\"x\"".toList ∧
      tight = "import\x7b a as b \x7d from 'x'".toList ∧
      form.Written a ∧ form.Written a' ∧ form.Tight tight ∧
      ∃ c c' rest, [';'] ++ "\nf();".toList = c ++ rest ∧
        " ;".toList ++ "\nf();".toList = c' ++ rest ∧
        Module.parse (a ++ ([';'] ++ "\nf();".toList)) =
          (lowered (Text.lineFeeds a) (Module.parseRest rest)).map
            (fun more => ⟨form.statement 1 (a ++ c) :: more⟩) ∧
        Module.parse (a' ++ (" ;".toList ++ "\nf();".toList)) =
          (lowered (Text.lineFeeds a') (Module.parseRest rest)).map
            (fun more => ⟨form.statement 1 (a' ++ c') :: more⟩) ∧
        Module.parse (tight ++ ([';'] ++ "\nf();".toList)) =
          .error ⟨1, .invalidImport (Text.trim (tight ++ c))⟩ := by
  refine ⟨_, _, _, _, rfl, rfl, rfl, rfl, ?_⟩
  have hspace : Blank [' '] := by decide
  have hparting : Spacing.filled.parting [' '] := ⟨[' '], gap_of_blank hspace, by decide⟩
  have hrenamed := Binding.Written.renamed ⟨['a'], rfl⟩ ⟨['b'], rfl⟩ hparting hparting
  have hitem : Binding.Written .filled ⟨⟨['a'], rfl⟩, ⟨['b'], rfl⟩⟩ "a as b".toList := hrenamed
  have hgap : Spacing.filled.gap [' '] := ⟨_, gap_of_blank hspace⟩
  have hnone : Spacing.filled.gap [] := ⟨_, .nil⟩
  have hindent : Spacing.filled.gap "\n  ".toList := ⟨_, gap_of_blank (by decide)⟩
  have hbody : '\n' ∉ " \x7d".toList := by decide
  have hline := Gap.blank (by decide : isBlank ' ' = true) (.line hbody .nil)
  have hcomment : Spacing.filled.gap " // \x7d\n".toList := ⟨_, hline⟩
  have hlast := BindingsWritten.last hgap hitem hgap
  have hone : BindingsWritten .filled [⟨⟨['a'], rfl⟩, ⟨['b'], rfl⟩⟩] " a as b ".toList := hlast
  have hcons := BindingsWritten.cons hindent hitem hnone (.nil hcomment)
  have hthree : BindingsWritten .filled [⟨⟨['a'], rfl⟩, ⟨['b'], rfl⟩⟩]
      "\n  a as b, // \x7d\n".toList := hcons
  have hindentless : Text.OneLineBlank [] := ⟨by decide, by decide⟩
  have hencloses : Encloses '\'' ['x'] := ⟨by decide, by decide, by decide⟩
  have hleadFirst := Lead.Written.binding hindentless (by decide : isBlank ' ' = true) (by decide)
    .nil (.group (.named hone)) (gap_of_blank hspace) (.inl (by decide)) hspace
    (QuoteFree.unsourced (by decide))
  have hfirst : Form.Written
      (.sourced (.binding (.group (.named [⟨⟨['a'], rfl⟩, ⟨['b'], rfl⟩⟩]))) ['x'])
      "import \x7b a as b \x7d from 'x'".toList := Form.Written.sourced hleadFirst hencloses
  have hfeed : Blank ['\n'] := by decide
  have hleadSecond := Lead.Written.binding hindentless (by decide : isBlank ' ' = true) (by decide)
    .nil (.group (.named hthree)) .nil (.inr rfl) hfeed (QuoteFree.unsourced (by decide))
  have hsecond : Form.Written
      (.sourced (.binding (.group (.named [⟨⟨['a'], rfl⟩, ⟨['b'], rfl⟩⟩]))) ['x'])
      "import \x7b\n  a as b, // \x7d\n\x7dfrom\n\"x\"".toList :=
    Form.Written.sourced (q := '"') hleadSecond ⟨by decide, by decide, by decide⟩
  have hthird : Form.Tight
      (.sourced (.binding (.group (.named [⟨⟨['a'], rfl⟩, ⟨['b'], rfl⟩⟩]))) ['x'])
      "import\x7b a as b \x7d from 'x'".toList :=
    Form.Tight.binding hindentless (.named hone) (gap_of_blank hspace) (.inl (by decide)) hspace
      (QuoteFree.unsourced (by decide)) hencloses
  obtain ⟨c, c', rest, hc, hc', hparse, hparse', htight, -⟩ := Module.parse_layouts hfirst hsecond
    (.semicolon (b := []) ⟨by decide, by decide⟩)
    (.semicolon (b := [' ']) ⟨by decide, by decide⟩) (.inl rfl)
  exact ⟨hfirst, hsecond, hthird, c, c', rest, hc, hc', hparse, hparse', htight _ hthird⟩

/-- Where layouts do part. Braces or a star right behind the word `import` are not read as
those behind a blank are, nor are those on a later line than the word `export`. Nor is a
comment before a specifier, before the braces of a list, in a star export, in place of
the blank before `as` or before the semicolon, a line feed before the word `from` or the
specifier of a list, a brace or a star with a specifier in a comment of a list, a specifier
in a comment of an import, and a line feed before the semicolon. -/
theorem Module.parse_layouts_apart :
    Module.parse "import \x7ba\x7d from 'x'".toList =
        .ok ⟨[.importing ⟨1, "import \x7ba\x7d from 'x'".toList, ['x'], none, none,
          [⟨['a'], ['a']⟩]⟩]⟩ ∧
      Module.parse "import\x7ba\x7d from 'x'".toList =
        .error ⟨1, .invalidImport "import\x7ba\x7d from 'x'".toList⟩ ∧
      Module.parse "import * as n from 'x'".toList =
        .ok ⟨[.importing ⟨1, "import * as n from 'x'".toList, ['x'], none, some ['n'], []⟩]⟩ ∧
      Module.parse "import* as n from 'x'".toList =
        .error ⟨1, .invalidImport "import* as n from 'x'".toList⟩ ∧
      Module.parse "export\x7ba as b\x7d from 'x'".toList =
        .ok ⟨[.exporting ⟨.reexport, 1, "export\x7ba as b\x7d from 'x'".toList, [],
          [⟨['a'], ['b']⟩], some ['x']⟩]⟩ ∧
      Module.parse "export \n\x7ba as b\x7d from 'x'".toList =
        .error ⟨1, .invalidExport "export".toList⟩ ∧
      Module.parse "import 'x'".toList =
        .ok ⟨[.importing ⟨1, "import 'x'".toList, ['x'], none, none, []⟩]⟩ ∧
      Module.parse "import /**/ 'x'".toList = .error ⟨1, .unterminatedImport⟩ ∧
      Module.parse "import a from /**/ 'x'".toList = .error ⟨1, .unterminatedImport⟩ ∧
      Module.parse "export /**/ \x7ba as b\x7d from 'x'".toList =
        .error ⟨1, .invalidExport "export /**/ \x7ba as b\x7d from 'x'".toList⟩ ∧
      Module.parse "export * /**/ from 'x'".toList = .error ⟨1, .unterminatedExport⟩ ∧
      Module.parse "export \x7ba/**/as b\x7d from 'x'".toList =
        .error ⟨1, .invalidBinding "aas b".toList⟩ ∧
      Module.parse "import 'x' /**/;".toList =
        .ok ⟨[.importing ⟨1, "import 'x' ".toList, ['x'], none, none, []⟩,
          .code 1 "/**/;".toList]⟩ ∧
      Module.parse "export \x7ba as b\x7d\nfrom 'x'".toList =
        .ok ⟨[.exporting ⟨.named, 1, "export \x7ba as b\x7d".toList, [], [⟨['a'], ['b']⟩], none⟩,
          .code 2 "from 'x'".toList]⟩ ∧
      Module.parse "export \x7ba as b\x7d from\n'x'".toList =
        .ok ⟨[.exporting ⟨.named, 1, "export \x7ba as b\x7d ".toList, [], [⟨['a'], ['b']⟩], none⟩,
          .code 1 "from".toList, .code 2 "'x'".toList]⟩ ∧
      Module.parse "export \x7ba as b /* \x7d */\x7d from 'x'".toList =
        .error ⟨1, .invalidBinding "a as b /*".toList⟩ ∧
      Module.parse "export \x7ba /* * from 'y' */\x7d from 'x'".toList =
        .error ⟨1, .invalidExport "export \x7ba /* * from 'y'".toList⟩ ∧
      Module.parse "import a /* from 'y' */ from 'x'".toList =
        .error ⟨1, .invalidImport "import a /* from 'y'".toList⟩ ∧
      Module.parse "import 'x'\n;".toList =
        .ok ⟨[.importing ⟨1, "import 'x'".toList, ['x'], none, none, []⟩, .code 2 [';']]⟩ := by
  decide +kernel

end Layouts

end ModuleScripts
