import ModuleScripts.Output.Transform
import ModuleScripts.Proofs.SingleLiteral

/-!
# Reading versioned source again

Module source with versioned specifiers is the source of the same module with
other specifiers. Each statement stands on lines of its own, is taken from them
as before, and leaves the lexer in the context in which the statement it comes
from left it.
-/

namespace ModuleScripts

/-- A statement read again from versioned source: all of it is as before but its
specifier, and its text where it has one. -/
inductive Statement.Revised (param : Text) : Statement → Statement → Prop where
  /-- Code is the same code. -/
  | code {line line' : Nat} {text : Text} :
      Statement.Revised param (.code line text) (.code line' text)
  /-- An import binds the same names. A path gets the parameter, any other specifier
  stays. -/
  | importing {i j : Import}
      (specifier : j.specifier =
        if Specifier.isPath i.specifier then Url.appendQuery i.specifier param else i.specifier)
      (defaultName : j.defaultName = i.defaultName)
      (namespaceName : j.namespaceName = i.namespaceName) (named : j.named = i.named) :
      Statement.Revised param (.importing i) (.importing j)
  /-- An export has the same form, names and body, and so has its specifier if it has
  one. -/
  | exporting {e f : Export} (kind : f.kind = e.kind) (names : f.names = e.names)
      (body : f.body = e.body)
      (specifier : f.specifier = e.specifier.map fun s =>
        if Specifier.isPath s then Url.appendQuery s param else s)
      (text : e.specifier = none → f.text = e.text) :
      Statement.Revised param (.exporting e) (.exporting f)

/-- Where no specifier changes, the same statement on another line is revised. -/
theorem Statement.revised_atLine {param : Text} {s : Statement}
    (h : ∀ specifier, s.specifier? = some specifier → Specifier.version param specifier = specifier)
    (line : Nat) : s.Revised param (s.atLine line) := by
  cases s with
  | code l text => exact .code
  | importing i => exact .importing (h i.specifier rfl).symm rfl rfl rfl
  | exporting e =>
    refine .exporting rfl rfl rfl ?_ fun _ => rfl
    change e.specifier = e.specifier.map (Specifier.version param)
    cases hs : e.specifier with
    | none => rfl
    | some specifier => rw [Option.map_some, h specifier hs]

/-- A statement whose specifier stays has its text as versioned text. -/
theorem Statement.versioned_eq_text {param : Text} {s : Statement}
    (h : ∀ specifier, s.specifier? = some specifier →
      Specifier.version param specifier = specifier) : s.versioned param = s.text := by
  unfold Statement.versioned
  split
  · rfl
  · next specifier hs => rw [h specifier hs, Specifier.replaceQuoted_self]

/-- With an empty parameter every text stays what it is. -/
theorem Statement.versioned_nil (s : Statement) : s.versioned [] = s.text :=
  Statement.versioned_eq_text fun specifier _ => Specifier.version_nil specifier

namespace Taken

/-- A text is taken as this statement from lines of its own, whatever follows. -/
def TakesWhole (context : Lexer.Context) (line : Nat) (text : Text) (s : Statement) : Prop :=
  ∀ first others more, Text.lines text = first :: others →
    next context line first (others ++ more) = .ok ⟨s, [], line + Text.lineFeeds text, more⟩

/-- The versioned text of a statement takes its place: it is taken in the same
context and leaves the same context behind. -/
structure Recurs (param : Text) (context : Lexer.Context) (s : Statement) : Prop where
  /-- What is open behind the text is what was open behind the statement. -/
  after_eq : Lexer.after context (s.versioned param) = Lexer.after context s.text
  /-- On every line the text is taken as a revision of the statement. -/
  taken : ∀ line, ∃ s' : Statement, s.Revised param s' ∧ s'.text = s.versioned param ∧
    TakesWhole context line (s.versioned param) s'

section Recurs

variable {context : Lexer.Context} {line : Nat} {param raw : Text} {lines : List Text} {t : Taken}

/-- A statement whose specifier stays is taken again from its own text. -/
theorem recurs_of_unchanged (hraw : '\n' ∉ raw) (hl : ∀ l ∈ lines, '\n' ∉ l)
    (h : next context line raw lines = .ok t)
    (hv : ∀ specifier, t.statement.specifier? = some specifier →
      Specifier.version param specifier = specifier) : Recurs param context t.statement := by
  have ht := Statement.versioned_eq_text hv
  refine ⟨by rw [ht], fun line' => ⟨t.statement.atLine line', Statement.revised_atLine hv line',
    (Statement.text_atLine line' _).trans ht.symm, ?_⟩⟩
  rw [ht]
  exact fun first others more hf => next_again hraw hl h hf line' more

/-- A statement whose text holds one literal, that of its specifier. -/
structure HasLiteral (s : Statement) (a : Text) (q : Char) (specifier b : Text) : Prop where
  /-- The text is the literal with something before and behind it. -/
  text_eq : s.text = a ++ q :: (specifier ++ q :: b)
  /-- The literal is the specifier. -/
  specifier_eq : s.specifier? = some specifier
  /-- There is no other literal before it. -/
  front : QuoteFree a
  /-- Comments before it are closed. -/
  tame : Tame a
  /-- It stands between quotes. -/
  quote : isQuote q = true
  /-- It can stand between them. -/
  quotable : Quotable specifier
  /-- There is no other literal behind it. -/
  back : QuoteFree b
  /-- Behind it the statement ends. -/
  closing : Matcher.Closing b

/-- Versioning changes the literal only. -/
theorem HasLiteral.versioned_eq {s : Statement} {a specifier b : Text} {q : Char}
    (h : HasLiteral s a q specifier b) :
    s.versioned param = a ++ q :: (Specifier.version param specifier ++ q :: b) := by
  rw [Statement.versioned, h.specifier_eq, h.text_eq]
  have hfront : ¬Specifier.quoteWith '\'' specifier <:+: a :=
    Specifier.not_quoted_of_quoteFree rfl h.front specifier
  exact Specifier.replaceQuoted_literal h.quote h.quotable.quoteFree h.back
    (fun hsingle => hfront hsingle.2) _

/-- A statement with a single literal recurs, if its kind of statement is cut and
announced in the same way with any literal and is read with the new one. -/
theorem recurs_of_literal {kind : LineHead} {m : Matcher} {s : Statement} {a specifier b : Text}
    {q : Char} (h : HasLiteral s a q specifier b) (hp : Quotable param)
    (hcarries : Matcher.Carries Boundary.terminator m)
    (htrim : ∀ t, (m (Text.trim t)).isSome ↔ (m t).isSome)
    (hkind : ∀ r, LineHead.ofLine (a ++ q :: r) = kind → ∀ r', LineHead.ofLine (a ++ q :: r') = kind)
    (hc : m.Cuts s.text)
    (hhead : ∀ first others, Text.lines s.text = first :: others → LineHead.ofLine first = kind)
    (htaken : ∀ line text, text = a ++ q :: (Specifier.version param specifier ++ q :: b) →
      m.Cuts text → ∃ s' : Statement, s.Revised param s' ∧ s'.text = text ∧
        ∀ first others more, Text.lines text = first :: others → LineHead.ofLine first = kind →
          next [] line first (others ++ more) = .ok ⟨s', [], line + Text.lineFeeds text, more⟩) :
    Recurs param [] s := by
  have hs' : Quotable (Specifier.version param specifier) :=
    Specifier.version_quotable hp h.quotable
  have hv : s.versioned param = a ++ q :: (Specifier.version param specifier ++ q :: b) :=
    h.versioned_eq
  rw [h.text_eq] at hc
  obtain ⟨hcuts, hline⟩ := hc.carry hcarries htrim h.front h.quote h.quotable hs' h.closing
  refine ⟨?_, fun line' => ?_⟩
  · have hafter : ∀ other, Quotable other →
        Lexer.after [] (a ++ q :: (other ++ q :: b)) = [] := fun other ho =>
      Lexer.after_literal h.tame h.quote (notMem_of_quoteFree h.quote ho.quoteFree) ho.oneLine
        h.closing
    rw [hv, h.text_eq, hafter _ hs', hafter _ h.quotable]
  · obtain ⟨s', hrevised, htext, htakes⟩ := htaken line' _ hv (hv ▸ hcuts)
    refine ⟨s', hrevised, htext, fun first others more hf => htakes first others more hf ?_⟩
    obtain ⟨old, rest, hold⟩ := List.exists_cons_of_ne_nil (Text.lines_ne_nil s.text)
    have hfirst := hhead old rest hold
    rw [h.text_eq] at hold
    rw [hv] at hf
    rcases firstLine_literal h.quotable hs' h.quote hline hold hf with rfl | ⟨rfl, rfl⟩
    · exact hfirst
    · exact hkind _ hfirst _

/-- An import with a single literal. -/
theorem importing_recurs {i : Import} (hp : Quotable param) (hi : Import.parse line i.text = .ok i)
    (hc : Boundary.importEnd.Cuts i.text)
    (hhead : ∀ first others, Text.lines i.text = first :: others →
      LineHead.ofLine first = .importing)
    (hq : Text.quotes i.text = 2) : Recurs param [] (.importing i) := by
  obtain ⟨_, _, hbehind⟩ := Import.literalBehind hi
  obtain ⟨a, q, b, hat, hread⟩ := Import.exists_specifierAt hi
    (Boundary.importEnd_takesQuoted _ _ _ hc.whole) (hbehind.quoteFree hq)
  have hliteral : HasLiteral (.importing i) a q i.specifier b :=
    ⟨hat.text_eq, rfl, hat.quoteFree_front hq, hat.tame, hat.quote, hat.quotable,
      hat.last.quoteFree, hat.last⟩
  refine recurs_of_literal hliteral hp Boundary.importEnd_carries
    (fun _ => Boundary.importEnd_trim_iff)
    (fun _ => LineHead.ofLine_importing_literal hat.quote) hc hhead
    fun line' text htext hcuts => ?_
  subst htext
  refine ⟨.importing { i with
    line := line', text := a ++ q :: (Specifier.version param i.specifier ++ q :: b),
    specifier := Specifier.version param i.specifier }, .importing rfl rfl rfl rfl, rfl, ?_⟩
  intro first others more hf hfirst
  exact next_of_importing hf hfirst hcuts
    (hread line' _ (Specifier.version_quotable hp hat.quotable))

/-- A re-export with a single literal. -/
theorem exportList_recurs {e : Export} (hp : Quotable param)
    (he : Export.parseList line e.text = .ok e) (hsome : e.specifier.isSome)
    (hc : Boundary.exportListEnd.Cuts e.text)
    (hhead : ∀ first others, Text.lines e.text = first :: others →
      LineHead.ofLine first = .exportList)
    (hq : Text.quotes e.text = 2) : Recurs param [] (.exporting e) := by
  obtain ⟨specifier, hspec⟩ := Option.isSome_iff_exists.1 hsome
  have hends := Export.endsQuoted_of_parseList he hsome hc.whole
  have hfree : QuoteFree specifier := by
    rcases Export.tame_of_parseList he with ⟨s, _, hs, _, hbehind⟩ | ⟨hnone, _⟩
    · obtain rfl := Option.some.inj (hs.symm.trans hspec)
      exact hbehind.quoteFree hq
    · cases hspec.symm.trans hnone
  obtain ⟨a, q, b, hat, hread⟩ := Export.exists_specifierAt he hspec hends hfree
  have hliteral : HasLiteral (.exporting e) a q specifier b :=
    ⟨hat.text_eq, hspec, hat.quoteFree_front hq, hat.tame, hat.quote, hat.quotable,
      hat.last.quoteFree, hat.last⟩
  refine recurs_of_literal hliteral hp Boundary.exportListEnd_carries
    (fun _ => Boundary.exportListEnd_trim_iff)
    (fun _ => LineHead.ofLine_exportList_literal hat.quote) hc hhead
    fun line' text htext hcuts => ?_
  subst htext
  refine ⟨.exporting { e with
    line := line', text := a ++ q :: (Specifier.version param specifier ++ q :: b),
    specifier := some (Specifier.version param specifier) },
    .exporting rfl rfl rfl (by rw [hspec]; rfl)
      (fun hn => absurd hsome (by rw [hn]; simp)), rfl, ?_⟩
  intro first others more hf hfirst
  exact next_of_exportList hf hfirst hcuts
    (hread line' _ (Specifier.version_quotable hp hat.quotable))

/-- Every statement that a step takes recurs in versioned source. Without a
parameter nothing changes; with one, a statement that has a specifier must hold
no other literal. -/
theorem next_recurs (hraw : '\n' ∉ raw) (hl : ∀ l ∈ lines, '\n' ∉ l)
    (h : next context line raw lines = .ok t) (hp : Quotable param)
    (hq : param = [] ∨ (t.statement.specifier?.isSome → Text.quotes t.statement.text = 2)) :
    Recurs param context t.statement := by
  rcases hq with rfl | hq
  · exact recurs_of_unchanged hraw hl h fun specifier _ => Specifier.version_nil specifier
  · by_cases hsome : t.statement.specifier?.isSome
    · have hcode : ∀ line text, t.statement ≠ .code line text := by
        intro line text hs
        rw [hs] at hsome
        cases hsome
      cases next_eq_ok_iff.1 h with
      | code => exact absurd rfl (hcode line raw)
      | importing ho h =>
        obtain ⟨i, hi, hparse, hc, hhead⟩ := importing_whole hraw hl ho h
        rw [hi] at hq hsome ⊢
        exact importing_recurs hp hparse hc hhead (hq hsome)
      | exportList ho h =>
        obtain ⟨e, he, hparse, hc, hhead⟩ := exportList_whole hraw hl ho h
        rw [he] at hq hsome ⊢
        exact exportList_recurs hp hparse hsome hc hhead (hq hsome)
      | exportVariables _ h =>
        obtain ⟨text, following, d, e, _, _, he, rfl⟩ := exportVariables_eq_ok_iff.1 h
        obtain ⟨names, _, rfl⟩ := map_eq_ok he
        cases hsome
      | exportOther _ he =>
        have hnone := Export.specifier_of_parseLine he
        rw [Statement.specifier?, hnone] at hsome
        cases hsome
    · have hnone : t.statement.specifier? = none := by simpa using hsome
      exact recurs_of_unchanged hraw hl h fun specifier hs => by rw [hnone] at hs; cases hs

end Recurs

end Taken

section Runs

variable {context : Lexer.Context} {param : Text}

/-- The statements of versioned source. -/
def versionedSource (param : Text) (statements : List Statement) : Text :=
  List.intercalate ['\n'] (statements.map (Statement.versioned param))

/-- The first versioned statement stands on lines of its own. -/
theorem versionedSource_cons (s : Statement) {statements : List Statement}
    (h : statements ≠ []) :
    versionedSource param (s :: statements) =
      s.versioned param ++ '\n' :: versionedSource param statements := by
  cases statements with
  | nil => exact absurd rfl h
  | cons next more => simp [versionedSource, List.intercalate]

/-- Some run reads revisions of the statements from their versioned source. -/
def Rereads (param : Text) (context : Lexer.Context) (statements : List Statement) : Prop :=
  ∀ line first others, Text.lines (versionedSource param statements) = first :: others →
    ∃ statements', List.Forall₂ (Statement.Revised param) statements statements' ∧
      statements'.map Statement.text = statements.map (Statement.versioned param) ∧
      Reads context line first others statements'

/-- A single statement that takes its place is read again. -/
theorem rereads_single {s : Statement} (h : Taken.Recurs param context s) :
    Rereads param context [s] := by
  intro line first others hf
  obtain ⟨s', hr, ht, hw⟩ := h.taken line
  have hsource : versionedSource param [s] = s.versioned param := by
    simp [versionedSource, List.intercalate]
  rw [hsource] at hf
  have htaken := hw first others [] hf
  rw [List.append_nil] at htaken
  exact ⟨[s'], .cons hr .nil, by rw [List.map_singleton, ht, List.map_singleton],
    .last htaken rfl rfl⟩

/-- A statement recurs before others that are read in the context behind it. -/
theorem rereads_cons {s : Statement} {statements : List Statement}
    (h : Taken.Recurs param context s) (hne : statements ≠ [])
    (hs : Rereads param (Lexer.after context s.text) statements) :
    Rereads param context (s :: statements) := by
  intro line first others hf
  obtain ⟨s', hr, ht, hw⟩ := h.taken line
  rw [versionedSource_cons s hne, Text.lines_append_lineFeed] at hf
  obtain ⟨head, tail, hhead⟩ := List.exists_cons_of_ne_nil (Text.lines_ne_nil (s.versioned param))
  obtain ⟨next, more, hnext⟩ :=
    List.exists_cons_of_ne_nil (Text.lines_ne_nil (versionedSource param statements))
  rw [hhead, hnext, List.cons_append] at hf
  obtain ⟨rfl, rfl⟩ := List.cons.inj hf
  obtain ⟨statements', hrevised, htexts, hreads⟩ :=
    hs (line + Text.lineFeeds (s.versioned param) + 1) next more hnext
  refine ⟨s' :: statements', .cons hr hrevised, ?_, ?_⟩
  · rw [List.map_cons, List.map_cons, ht, htexts]
  · refine .nextLine (hw head tail (next :: more) hhead) rfl rfl ?_
    dsimp only
    rw [ht, h.after_eq]
    exact hreads

/-- What a run reads is read again from its versioned source. -/
theorem Reads.rereads {line : Nat} {raw : Text} {lines : List Text} {statements : List Statement}
    (h : Reads context line raw lines statements) (hraw : '\n' ∉ raw)
    (hl : ∀ l ∈ lines, '\n' ∉ l) (hp : Quotable param)
    (hq : param = [] ∨ ∀ s ∈ statements, s.specifier?.isSome → Text.quotes s.text = 2) :
    statements ≠ [] ∧ Rereads param context statements := by
  induction h with
  | @last context line raw lines t ht hb hd =>
    refine ⟨by simp, rereads_single (Taken.next_recurs hraw hl ht hp ?_)⟩
    exact hq.imp_right fun hall => hall t.statement List.mem_cons_self
  | @nextLine context line raw next lines more t statements ht hb hd _ ih =>
    have hf := Taken.next_follows hraw hl ht
    obtain ⟨hnext, hmore⟩ := hf.next_oneLine hd
    obtain ⟨hne, hs⟩ := ih hnext hmore
      (hq.imp_right fun hall s hs => hall s (List.mem_cons_of_mem _ hs))
    refine ⟨by simp, rereads_cons (Taken.next_recurs hraw hl ht hp ?_) hne hs⟩
    exact hq.imp_right fun hall => hall t.statement List.mem_cons_self
  | @sameLine context line raw lines t statements ht hb _ ih =>
    have hf := Taken.next_follows hraw hl ht
    obtain ⟨hne, hs⟩ := ih hf.rest_oneLine hf.following_oneLine
      (hq.imp_right fun hall s hs => hall s (List.mem_cons_of_mem _ hs))
    refine ⟨by simp, rereads_cons (Taken.next_recurs hraw hl ht hp ?_) hne hs⟩
    exact hq.imp_right fun hall => hall t.statement List.mem_cons_self

end Runs

/-- Module source with versioned specifiers is read as the same module with
versioned specifiers, unless a parameter is given and a statement with a
specifier holds more quotes than those of its literal. -/
theorem Module.parse_transform {source : Text} {m : Module} {options : ModuleOptions}
    (h : Module.parse source = .ok m) (hamd : options.capabilities.modulesAmd = false)
    (hp : Quotable options.param)
    (hq : options.param = [] ∨
      ∀ s ∈ m.body, s.specifier?.isSome → Text.quotes s.text = 2) :
    ∃ text m', (m.transform options).result = .ok text ∧ Module.parse text = .ok m' ∧
      List.Forall₂ (Statement.Revised options.param) m.body m'.body ∧
      (options.param = [] → m'.body.map Statement.text = m.body.map Statement.text) := by
  obtain ⟨first, following, hlines, hr⟩ := Module.reads_of_parse h
  have hl : ∀ l ∈ first :: following, '\n' ∉ l := fun l hm =>
    Text.lineFeed_notMem_of_mem_lines (t := source) (by rw [hlines]; exact hm)
  obtain ⟨_, hrereads⟩ := hr.rereads (hl first List.mem_cons_self)
    (fun l hm => hl l (List.mem_cons_of_mem _ hm)) hp hq
  obtain ⟨next, more, hnext⟩ :=
    List.exists_cons_of_ne_nil (Text.lines_ne_nil (versionedSource options.param m.body))
  obtain ⟨body, hrevised, htexts, hreads⟩ := hrereads 1 next more hnext
  refine ⟨versionedSource options.param m.body, ⟨body⟩, ?_, ?_, hrevised, fun hnil => ?_⟩
  · simp only [Module.transform, Module.generate, hamd, Bool.false_eq_true, if_false]
    rfl
  · rw [Module.parse, hnext]
    simp only [parseFrom_of_reads hreads]
    rfl
  · rw [htexts, hnil]
    exact List.map_congr_left fun s _ => s.versioned_nil

/-- An import of a path with code behind it in its line, a star export of a package and
an import of a URL, under a parameter: the path and the URL get it. -/
theorem Module.parse_transform_path :
    let source := "import a from './x.js'; f(a)\nexport * from \"y\"\nimport 'https://z?k'".toList
    let revised := "import a from './x.js?v=1';\n f(a)\nexport * from \"y\"\n".toList ++
      "import 'https://z?k&v=1'".toList
    ∃ m m', Module.parse source = .ok m ∧
      (∀ s ∈ m.body, s.specifier?.isSome → Text.quotes s.text = 2) ∧
      (m.transform ⟨[], ⟨false, false⟩, "v=1".toList, []⟩).result = .ok revised ∧
      Module.parse revised = .ok m' ∧
      List.Forall₂ (Statement.Revised "v=1".toList) m.body m'.body ∧
      m'.body.map Statement.specifier? =
        [some "./x.js?v=1".toList, none, some ['y'], some "https://z?k&v=1".toList] := by
  intro source revised
  let body : List Statement :=
    [.importing ⟨1, "import a from './x.js';".toList, "./x.js".toList, some ['a'], none, []⟩,
      .code 1 " f(a)".toList,
      .exporting ⟨.star, 2, "export * from \"y\"".toList, [], [], some ['y']⟩,
      .importing ⟨3, "import 'https://z?k'".toList, "https://z?k".toList, none, none, []⟩]
  let body' : List Statement :=
    [.importing ⟨1, "import a from './x.js?v=1';".toList, "./x.js?v=1".toList, some ['a'], none, []⟩,
      .code 2 " f(a)".toList,
      .exporting ⟨.star, 3, "export * from \"y\"".toList, [], [], some ['y']⟩,
      .importing ⟨4, "import 'https://z?k&v=1'".toList, "https://z?k&v=1".toList, none, none, []⟩]
  have h : Module.parse source = .ok ⟨body⟩ := by decide +kernel
  have h' : Module.parse revised = .ok ⟨body'⟩ := by decide +kernel
  have hquotes : ∀ s ∈ body, s.specifier?.isSome → Text.quotes s.text = 2 := by decide
  let options : ModuleOptions := ⟨[], ⟨false, false⟩, "v=1".toList, []⟩
  have hamd : options.capabilities.modulesAmd = false := rfl
  obtain ⟨text, m', ht, hm, hr, -⟩ :=
    Module.parse_transform h hamd ⟨by decide, by decide⟩ (.inr hquotes)
  have htext : (Module.transform options ⟨body⟩).result = .ok revised := by decide +kernel
  obtain rfl := Except.ok.inj (htext.symm.trans ht)
  obtain rfl := Except.ok.inj (h'.symm.trans hm)
  exact ⟨_, _, h, hquotes, ht, hm, hr, rfl⟩

end ModuleScripts
