import ModuleScripts.Proofs.CodeDefinition
import ModuleScripts.Proofs.EndTags
import ModuleScripts.Proofs.MetaObject

/-!
# End tags in generated code

The transform of a module writes parts of its source, names, specifiers with a
query parameter, and the base URL. All that is not taken over as it is stands
between characters that an end tag does not hold. So the code that a module
becomes has an end tag only if its source has one, or the base URL.
-/

namespace ModuleScripts

open Text

section Specifiers

variable {url param specifier old new t u : Text}

/-- A query parameter that opens no tag makes none. -/
theorem Url.appendQuery_endTagFree (hurl : url.EndTagFree) (hparam : '<' ∉ param) :
    (appendQuery url param).EndTagFree := by
  have hsplit := beforeFragment_append_fragmentPart url
  have hfragment : (fragmentPart url).EndTagFree :=
    hurl.of_part ⟨beforeFragment url, [], by rw [List.append_nil, hsplit]⟩
  have hadded : EndTagFree (param ++ fragmentPart url) := hfragment.append_left hparam
  have hbefore : (beforeFragment url).EndTagFree := hurl.of_part ⟨[], fragmentPart url, hsplit⟩
  have hlast : ∀ {c}, (beforeFragment url).getLast? = some c → isApart c = true →
      EndTagFree (beforeFragment url ++ (param ++ fragmentPart url)) := by
    intro c hc hapart
    obtain ⟨front, hfront⟩ := List.getLast?_eq_some_iff.1 hc
    rw [hfront] at hbefore ⊢
    rw [List.append_assoc]
    exact (hbefore.of_part ⟨[], [c], rfl⟩).append_cons hapart hadded
  unfold appendQuery
  split
  · exact hurl
  · rw [List.append_assoc, List.append_assoc]
    unfold querySeparator
    split
    · exact hbefore.append_cons (by decide) hadded
    · split
      · next hopen =>
        rw [Bool.or_eq_true, decide_eq_true_eq, decide_eq_true_eq] at hopen
        rw [List.nil_append]
        rcases hopen with hc | hc
        · exact hlast hc (by decide)
        · exact hlast hc (by decide)
      · exact hbefore.append_cons (by decide) hadded

/-- A query parameter that opens no tag brings no end tag into a specifier. -/
theorem Specifier.version_endTagFree (h : specifier.EndTagFree) (hparam : '<' ∉ param) :
    (version param specifier).EndTagFree := by
  unfold version
  split
  · exact Url.appendQuery_endTagFree h hparam
  · exact h

/-- A new specifier between the quotes of the old one. -/
theorem Specifier.replaceQuoted_endTagFree (h : t.EndTagFree) (hnew : new.EndTagFree) :
    (replaceQuoted old new t).EndTagFree := by
  have hreplace : ∀ {q u}, isApart q = true →
      replaceLast? (quoteWith q old) (quoteWith q new) t = some u → u.EndTagFree := by
    intro q u hq hu
    have hquote : Sealed [q] := sealed_cons hq List.not_mem_nil
    have hquoted : (quoteWith q new).Sealed := hquote.around hnew hquote
    obtain ⟨before, behind, rfl, rfl⟩ := replaceLast?_eq_some hu
    refine hquoted before behind ?_ ?_
    · exact h.of_part ⟨[], quoteWith q old ++ behind, rfl⟩
    · exact h.of_part ⟨before ++ quoteWith q old, [], by simp⟩
  unfold replaceQuoted
  split
  · next u hu => exact hreplace (by decide) hu
  · cases hu : replaceLast? (quoteWith '"' old) (quoteWith '"' new) t with
    | none => exact h
    | some u => exact hreplace (by decide) hu

/-- A stub holds an end tag exactly if its source does. -/
theorem defineStub_endTagFree_iff : (defineStub t).EndTagFree ↔ t.EndTagFree := by
  have hopening : Sealed "define(['".toList := sealed_of_head (by decide) (by decide)
  have hclosing : Sealed "']);".toList := sealed_of_head (by decide) (by decide)
  unfold defineStub
  rw [List.append_assoc]
  constructor
  · exact fun h => escapeSingle_endTagFree_iff.1 (h.of_part ⟨_, _, List.append_assoc _ _ _⟩)
  · exact fun h => (hopening.around (escapeSingle_endTagFree_iff.2 h) hclosing).endTagFree

end Specifiers

section Meta

variable {word replacement t base : Text}

/-- Replacing whole words replaces parts of the text. -/
theorem Meta.resealed_replaceFrom (h : replacement.Sealed) (previous : Option Char) (skip : Nat) :
    Resealed (t.drop skip) (replaceFrom word replacement previous skip t) := by
  induction t generalizing previous skip with
  | nil =>
    rw [List.drop_nil]
    exact .nil
  | cons c t ih =>
    cases skip with
    | succ skip => exact ih (some c) skip
    | zero =>
      rw [replaceFrom, List.drop_zero]
      split
      · have hrest := ih (some c) (word.length - 1)
        have hsplit : c :: t = (c :: t.take (word.length - 1)) ++ t.drop (word.length - 1) := by
          rw [List.cons_append, List.take_append_drop]
        rw [hsplit]
        exact .swap _ h hrest
      · exact (ih (some c) 0).keep c

/-- A base URL without end tags brings none into the code. -/
theorem Meta.apply_undoing_endTagFree (ht : t.EndTagFree) (hbase : base.EndTagFree) :
    ((Substitution.undoing base).apply t).EndTagFree := by
  have hopening : Sealed "(\x7b url: ".toList := sealed_of_head (by decide) (by decide)
  have hclosing : Sealed " \x7d)".toList := sealed_of_head (by decide) (by decide)
  have hurl : (undone base).Sealed := undone_sealed hbase
  have hobject : (objectOf (undone base)).Sealed := (hopening.append hurl).append hclosing
  have hfirst : (replaceWord "import.meta.url".toList (undone base) t).EndTagFree :=
    (resealed_replaceFrom hurl none 0).endTagFree ht
  exact (resealed_replaceFrom hobject none 0).endTagFree hfirst

end Meta

section Statements

/-- A statement whose specifier and code are drawn from its text, and whose names
are quiet. -/
structure Statement.Drawn (s : Statement) : Prop where
  /-- The specifier is a part of the text. -/
  specifier_part : ∀ specifier, s.specifier? = some specifier → specifier <:+: s.text
  /-- The code has no end tag unless the text has one. -/
  code_endTagFree : s.text.EndTagFree → ∀ line, s.code? = some line → line.codeText.EndTagFree
  /-- The names are quiet. -/
  quiet : s.IsQuiet

variable {text body front specifier : Text} {line : Nat}

/-- A specifier is a part of the statement that ends in its literal. -/
theorem LiteralBehind.infix_text (h : LiteralBehind front specifier text) :
    specifier <:+: text := by
  obtain ⟨q, closing, rfl, -⟩ := h
  exact ⟨front ++ [q], q :: closing, by simp⟩

/-- The words in front of a declaration are blanks once they are dropped. -/
theorem Shortened.endTagFree (h : Shortened text body) (ht : text.EndTagFree) :
    body.EndTagFree := by
  obtain ⟨indent, words, value, blank, rfl, rfl, hindent, -⟩ := h
  have hvalue : value.EndTagFree := ht.of_part ⟨indent ++ words, blank, by simp⟩
  exact hvalue.append_left (open_notMem_of_blank hindent)

/-- A text without the white space at its start is a part of it. -/
theorem Text.trimStart_part (t : Text) : trimStart t <:+: t :=
  ⟨leading t, [], by rw [List.append_nil, leading_append_trimStart]⟩

/-- The code of an export has no end tag unless its text has one. -/
theorem Export.Spliced.code_endTagFree {e : Export} (h : e.Spliced) (ht : e.text.EndTagFree)
    {line : FactoryLine} (hline : e.code? = some line) : line.codeText.EndTagFree := by
  unfold Export.code? at hline
  split at hline
  · next hk =>
    cases hline
    exact (h.shortened (.inl hk)).endTagFree ht
  · next hk =>
    cases hline
    exact ((h.shortened (.inr hk)).endTagFree ht).of_part (trimStart_part e.body)
  · cases hline

/-- Every statement that is taken is drawn from its text. -/
theorem Taken.next_drawn {context : Lexer.Context} {raw : Text} {lines : List Text} {t : Taken}
    (h : Taken.next context line raw lines = .ok t) : t.statement.Drawn := by
  have hquiet := Taken.next_isQuiet h
  have hspliced := fun e => Taken.next_spliced (e := e) h
  cases Taken.next_eq_ok_iff.1 h with
  | code =>
    refine ⟨fun specifier hs => ?_, fun htext line hline => ?_, hquiet⟩
    · cases hs
    · cases hline
      exact htext
  | importing _ h =>
    obtain ⟨_, _, piece, _, i, _, _, hi, rfl⟩ := Taken.importing_eq_ok_iff.1 h
    obtain ⟨front, -, hliteral⟩ := Import.literalBehind hi
    refine ⟨fun specifier hs => ?_, fun _ line hline => ?_, hquiet⟩
    · cases hs
      change i.specifier <:+: i.text
      rw [(Import.parse_line_text hi).2]
      exact hliteral.infix_text
    · cases hline
  | exportList _ h =>
    obtain ⟨_, _, piece, _, e, _, _, he, rfl⟩ := Taken.exportList_eq_ok_iff.1 h
    refine ⟨fun specifier hs => ?_, fun ht line => (hspliced e rfl).code_endTagFree ht, hquiet⟩
    change specifier <:+: e.text
    rw [(Export.parseList_line_text he).2]
    rcases Export.tame_of_parseList he with ⟨s, front, hspecifier, -, hliteral⟩ | ⟨hnone, -⟩
    · cases hspecifier.symm.trans hs
      exact hliteral.infix_text
    · cases hnone.symm.trans hs
  | exportVariables _ h =>
    obtain ⟨_, _, d, e, _, _, he, rfl⟩ := Taken.exportVariables_eq_ok_iff.1 h
    obtain ⟨names, -, rfl⟩ := map_eq_ok he
    refine ⟨fun specifier hs => ?_, fun ht line => (hspliced _ rfl).code_endTagFree ht, hquiet⟩
    cases hs
  | exportOther _ he =>
    refine ⟨fun specifier hs => ?_, fun ht line => (hspliced _ rfl).code_endTagFree ht, hquiet⟩
    cases (Export.specifier_of_parseLine he).symm.trans hs

/-- A statement is a part of the source that its statements make up. -/
theorem infix_weave {body : List Statement} {separators : List Text}
    (hlength : separators.length = body.length) {s : Statement} (h : s ∈ body) :
    s.text <:+: weave body separators := by
  induction body generalizing separators with
  | nil => cases h
  | cons first body ih =>
    cases separators with
    | nil => cases hlength
    | cons separator separators =>
      rw [weave_cons]
      rcases List.mem_cons.1 h with rfl | h
      · exact ⟨[], separator ++ weave body separators, by simp⟩
      · have hrest := ih (by simpa using hlength) h
        exact hrest.trans ⟨first.text ++ separator, [], by simp⟩

/-- All statements of a module are drawn from their texts, which are parts of the
source. -/
theorem Module.drawn_of_parse {source : Text} {m : Module} (h : Module.parse source = .ok m) :
    ∀ s ∈ m.body, s.Drawn ∧ s.text <:+: source := by
  obtain ⟨first, following, hlines, hreads⟩ := Module.reads_of_parse h
  obtain ⟨hfirst, hfollowing⟩ := List.forall_mem_cons.1 (lineFeed_notMem_of_lines hlines)
  obtain ⟨separators, hlayout⟩ := hreads.layout hfirst hfollowing
  intro s hs
  refine ⟨Reads.forall_mem Taken.next_drawn hreads s hs, ?_⟩
  rw [← unread_lines hlines, hlayout.source_eq]
  exact infix_weave hlayout.length_eq hs

end Statements

section Lines

variable {name param t : Text}

/-- No slash stands in a quiet text. -/
theorem Quiet.slash_notMem (h : Quiet t) : '/' ∉ t := fun hm => absurd (h.1 _ hm) (by decide)

/-- A character other than a slash is quoted without one. -/
theorem Text.slash_notMem_jsonChar {c : Char} (h : c ≠ '/') : '/' ∉ jsonChar c := by
  have hunit : ∀ unit, '/' ∉ unitEscape unit := by
    intro unit hm
    rcases List.mem_cons.1 hm with hm | hm
    · exact absurd hm (by decide)
    rcases List.mem_cons.1 hm with hm | hm
    · exact absurd hm (by decide)
    exact of_mem_ofNatHex (p := (· ≠ '/')) (by decide) hm rfl
  unfold jsonChar
  repeat' split
  all_goals first
    | decide
    | exact hunit _
    | exact List.not_mem_append (hunit _) (hunit _)
    | simpa using Ne.symm h

/-- A text without a slash is quoted without one. -/
theorem Text.slash_notMem_json (h : '/' ∉ t) : '/' ∉ json t := by
  have hinner : '/' ∉ t.flatMap jsonChar := fun hm => by
    obtain ⟨c, hc, hchar⟩ := List.mem_flatMap.1 hm
    exact slash_notMem_jsonChar (fun heq => h (heq ▸ hc)) hchar
  rw [json, List.mem_cons, not_or]
  exact ⟨by decide, List.not_mem_append hinner (by decide)⟩

/-- No slash stands in the access to a property with a quiet name. -/
theorem slash_notMem_property (h : Quiet name) : '/' ∉ property name := by
  unfold property
  split
  · rw [List.mem_cons, not_or]
    exact ⟨by decide, h.slash_notMem⟩
  · rw [List.mem_cons, not_or]
    exact ⟨by decide, List.not_mem_append (slash_notMem_json h.slash_notMem) (by decide)⟩

/-- No slash stands in the value that a name of another module has. -/
theorem slash_notMem_sourceValue (hp : Quiet param) (hn : Quiet name) :
    '/' ∉ FactoryLine.sourceValue param name := by
  unfold FactoryLine.sourceValue
  split
  · exact hp.slash_notMem
  · exact List.not_mem_append hp.slash_notMem (slash_notMem_property hn)

/-- No slash stands in a binding between quiet names. -/
theorem slash_notMem_binding {r : Rename} (h : r.IsQuiet) : '/' ∉ r.binding := by
  unfold Rename.binding
  split
  · exact h.2.slash_notMem
  · split
    · exact List.not_mem_append (by decide) h.2.slash_notMem
    · exact List.not_mem_append (List.not_mem_append h.1.slash_notMem (by decide)) h.2.slash_notMem

/-- A line that is generated from quiet names has no slash, so no end tag. -/
theorem FactoryLine.slash_notMem_render {line : FactoryLine} (h : line.IsQuiet) :
    '/' ∉ line.render := by
  have hjoin : ∀ {a b : Text}, '/' ∉ a → '/' ∉ b → '/' ∉ a ++ b := List.not_mem_append
  have hassign : ∀ {exported value : Text}, Quiet exported → '/' ∉ value →
      '/' ∉ exportsObject ++ property exported ++ " = ".toList ++ value ++ [';'] :=
    fun he hv => hjoin (hjoin (hjoin (hjoin (by decide) (slash_notMem_property he)) (by decide)) hv)
      (by decide)
  cases line with
  | strict => exact (by decide : '/' ∉ "\"use strict\";".toList)
  | bindNamespace name param =>
    exact hjoin (hjoin (hjoin (hjoin (by decide) h.1.slash_notMem) (by decide)) h.2.slash_notMem)
      (by decide)
  | bindDefault name param =>
    exact hjoin (hjoin (hjoin (hjoin (by decide) h.1.slash_notMem) (by decide)) h.2.slash_notMem)
      (by decide)
  | bindNamed names param =>
    have hbinding : ∀ part ∈ names.map Rename.binding, '/' ∉ part := by
      intro part hpart
      obtain ⟨r, hr, rfl⟩ := List.mem_map.1 hpart
      exact slash_notMem_binding (h.1 r hr)
    have hnames : '/' ∉ List.intercalate ", ".toList (names.map Rename.binding) :=
      Text.intercalate_induction List.not_mem_nil hbinding fun part hpart _ ht =>
        hjoin (hbinding part hpart) (hjoin (by decide) ht)
    exact hjoin (hjoin (hjoin (hjoin (by decide) hnames) (by decide)) h.2.slash_notMem) (by decide)
  | assign exported name => exact hassign h.1 h.2.slash_notMem
  | copy exported param name => exact hassign h.1 (slash_notMem_sourceValue h.2.1 h.2.2)
  | copyAll param =>
    exact hjoin (hjoin (hjoin (hjoin (hjoin (by decide) h.slash_notMem) (by decide)) (by decide))
      h.slash_notMem) (by decide)
  | assignDefault value => exact absurd h id
  | code text => exact absurd h id

end Lines

section Code

variable {m : Module} {base param text source : Text} {options : ModuleOptions}

/-- The opening of a definition has no end tag when its dependencies have
none. -/
theorem Definition.opening_endTagFree {d : Definition}
    (hdependencies : ∀ dependency ∈ d.dependencies, dependency.EndTagFree)
    (hparams : ∀ p ∈ d.params, IsParameter p) : d.opening.EndTagFree := by
  have hdefine : Sealed "define(".toList := sealed_of_head (by decide) (by decide)
  have hfunction : Sealed ", function (".toList := sealed_of_head (by decide) (by decide)
  have hcomma : Sealed ", ".toList := sealed_of_head (by decide) (by decide)
  have hbody : Sealed ") \x7b".toList := sealed_of_head (by decide) (by decide)
  have hlist : EndTagFree (List.intercalate ", ".toList d.params) :=
    endTagFree_intercalate hcomma fun p hp =>
      endTagFree_of_notMem_slash (hparams p hp).quiet.slash_notMem
  unfold opening
  rw [List.append_assoc, List.append_assoc, List.append_assoc]
  exact (hdefine.append ((jsonList_sealed hdependencies).append
    (hfunction.around hlist hbody))).endTagFree

/-- A definition is the lines between its opening and its end. -/
theorem Definition.render_endTagFree {d : Definition} (hopening : d.opening.EndTagFree)
    (hlines : ∀ line ∈ d.lines, line.render.EndTagFree) : d.render.EndTagFree := by
  have hline : Sealed ['\n'] := sealed_cons (by decide) List.not_mem_nil
  refine endTagFree_intercalate hline fun part hpart => ?_
  rw [List.cons_append, List.mem_cons, List.mem_append, List.mem_singleton] at hpart
  rcases hpart with rfl | hpart | rfl
  · exact hopening
  · obtain ⟨line, hmem, rfl⟩ := List.mem_map.1 hpart
    exact hlines line hmem
  · exact endTagFree_of_notMem_slash (by decide)

/-- A definition that is made has the base URL quoted in its code. -/
theorem Module.definition_eq_ok {d : Definition} (h : m.definition base param = .ok d) :
    d = ⟨m.dependencies param, m.reservedParams ++ m.dependencyParams.map Prod.snd, m.prologue,
      m.exports.flatMap Export.hoistedLines,
      (m.body.filterMap Statement.code?).map
        (FactoryLine.substitute (Meta.Substitution.undoing base)),
      m.exports.flatMap Export.epilogueLines⟩ := by
  by_cases hshort : m.body.filterMap Statement.code? = [] ∨ ∀ c ∈ base, Meta.isShort c = true
  · rw [definition_of_isShort hshort] at h
    exact (Except.ok.inj h).symm
  · obtain ⟨e, he⟩ := substituteAll_eq_error hshort
    rw [definition, he] at h
    cases h

/-- A substituted line has no end tag when neither the line nor the base URL
has one. -/
theorem FactoryLine.render_substitute_endTagFree {line : FactoryLine}
    (hline : (∃ text, line = .code text) ∨ ∃ value, line = .assignDefault value)
    (htext : line.codeText.EndTagFree) (hbase : base.EndTagFree) :
    (line.substitute (Meta.Substitution.undoing base)).render.EndTagFree := by
  have happly := Meta.apply_undoing_endTagFree htext hbase
  rcases hline with ⟨text, rfl⟩ | ⟨value, rfl⟩
  · exact happly
  · have hassign : Sealed (exportsObject ++ ".default = ".toList) :=
      sealed_of_head (by decide) (by decide)
    exact hassign.append_free happly

/-- The dependencies are specifiers of the source with the query parameter. -/
theorem Module.dependencies_endTagFree (hparam : '<' ∉ param)
    (h : ∀ s ∈ m.body, ∀ specifier, s.specifier? = some specifier → specifier.EndTagFree) :
    ∀ dependency ∈ m.dependencies param, dependency.EndTagFree := by
  have hspecifiers : ∀ specifier ∈ m.specifiers, specifier.EndTagFree := by
    intro specifier hm
    rw [specifiers, mem_distinct] at hm
    obtain ⟨s, hs, hspecifier⟩ := List.mem_filterMap.1 hm
    exact h s hs specifier hspecifier
  intro dependency hd
  rcases List.mem_append.1 hd with hd | hd
  · split at hd
    · cases hd
    · rw [List.mem_singleton.1 hd]
      exact endTagFree_of_notMem_slash (by decide)
  · obtain ⟨specifier, hspecifier, rfl⟩ := List.mem_map.1 hd
    rw [dependencyParams_fst] at hspecifier
    refine Specifier.version_endTagFree (hspecifiers specifier ?_) hparam
    rcases List.mem_append.1 hspecifier with hs | hs
    · exact (List.mem_filter.1 hs).1
    · exact (List.mem_filter.1 hs).1

/-- The definition of a module has no end tag unless its source or the base URL
has one. -/
theorem Module.definition_endTagFree {d : Definition} (hparse : Module.parse source = .ok m)
    (hsource : source.EndTagFree) (hparam : '<' ∉ param) (hbase : base.EndTagFree)
    (h : m.definition base param = .ok d) : d.render.EndTagFree := by
  have hdrawn := drawn_of_parse hparse
  have hquiet : ∀ s ∈ m.body, s.IsQuiet := fun s hs => (hdrawn s hs).1.quiet
  obtain ⟨hprologue, hhoisted, hepilogue⟩ := generated_isQuiet hquiet
  have hgenerated : ∀ {line : FactoryLine}, line.IsQuiet → line.render.EndTagFree :=
    fun hline => endTagFree_of_notMem_slash (FactoryLine.slash_notMem_render hline)
  have hcode : ∀ line ∈ m.body.filterMap Statement.code?,
      (line.substitute (Meta.Substitution.undoing base)).render.EndTagFree := by
    intro line hline
    obtain ⟨s, hs, hcode⟩ := List.mem_filterMap.1 hline
    obtain ⟨hdraw, hpart⟩ := hdrawn s hs
    exact FactoryLine.render_substitute_endTagFree (Statement.code?_cases hcode)
      (hdraw.code_endTagFree (hsource.of_part hpart) line hcode) hbase
  have hdependencies := @dependencies_endTagFree m param hparam fun s hs specifier hspecifier => by
    obtain ⟨hdraw, hpart⟩ := hdrawn s hs
    exact hsource.of_part ((hdraw.specifier_part specifier hspecifier).trans hpart)
  obtain rfl := definition_eq_ok h
  refine Definition.render_endTagFree
    (Definition.opening_endTagFree hdependencies m.params_named) fun line hline => ?_
  simp only [Definition.lines, List.mem_append] at hline
  rcases hline with ((hline | hline) | hline) | hline
  · exact hgenerated (hprologue line hline)
  · exact hgenerated (hhoisted line hline)
  · obtain ⟨code, hmem, rfl⟩ := List.mem_map.1 hline
    exact hcode code hmem
  · exact hgenerated (hepilogue line hline)

/-- The source with versioned specifiers has no end tag unless it had one. -/
theorem Module.versioned_endTagFree (hparse : Module.parse source = .ok m)
    (hsource : source.EndTagFree) (hparam : '<' ∉ param) : (m.versioned param).EndTagFree := by
  have hline : Sealed ['\n'] := sealed_cons (by decide) List.not_mem_nil
  refine endTagFree_intercalate hline fun part hpart => ?_
  obtain ⟨s, hs, rfl⟩ := List.mem_map.1 hpart
  obtain ⟨hdraw, hpart⟩ := drawn_of_parse hparse s hs
  have htext : s.text.EndTagFree := hsource.of_part hpart
  unfold Statement.versioned
  split
  · exact htext
  · next specifier hspecifier =>
    have hfree := htext.of_part (hdraw.specifier_part specifier hspecifier)
    exact Specifier.replaceQuoted_endTagFree htext (Specifier.version_endTagFree hfree hparam)

/-- What the transform makes of a module has no end tag unless the source has
one, or the base URL where modules become definitions. -/
theorem Module.generate_endTagFree (hparse : Module.parse source = .ok m)
    (hsource : source.EndTagFree) (hparam : '<' ∉ options.param)
    (hbase : options.capabilities.modulesAmd = true → options.base.EndTagFree)
    (h : m.generate options = .ok text) : text.EndTagFree := by
  unfold generate at h
  split at h
  · next hamd =>
    split at h
    · cases h
    · next d hd =>
      cases h
      exact definition_endTagFree hparse hsource hparam (hbase hamd) hd
  · cases h
    exact versioned_endTagFree hparse hsource hparam

/-- The same of both strategies that come with the program. -/
theorem Strategy.endTagFree {strategy : Strategy}
    (hstrategy : strategy = standard ∨ strategy = passthrough) (hsource : source.EndTagFree)
    (hparam : '<' ∉ options.param)
    (hbase : options.capabilities.modulesAmd = true → options.base.EndTagFree)
    (h : (strategy source (Module.transform options)).result = .ok text) : text.EndTagFree := by
  rcases hstrategy with rfl | rfl
  · unfold standard at h
    split at h
    · cases h
    · next m hparse => exact Module.generate_endTagFree hparse hsource hparam hbase h
  · cases h
    exact hsource

end Code

end ModuleScripts
