import ModuleScripts.Proofs.DeclarationEnd
import ModuleScripts.Source.Parser

/-!
# Taking one statement

A step of the parser joins lines until the statement is complete and cuts the
statement off. Since the statement was not complete a line earlier, the cut
falls in the last of the joined lines: what is left is part of one line, and
the step loses nothing.
-/

namespace ModuleScripts

section Collecting

variable {complete : Text → Bool} {raw text : Text} {lines following : List Text}

/-- The last line is all that is still to be read. -/
theorem unread_nil (raw : Text) : unread raw [] = raw := List.append_nil raw

/-- A further line is joined behind its line feed. -/
theorem unread_cons (raw line : Text) (lines : List Text) :
    unread raw (line :: lines) = unread (raw ++ '\n' :: line) lines := by
  simp [unread]

/-- More lines come behind those that are still to be read. -/
theorem unread_append (raw : Text) (lines more : List Text) :
    unread raw (lines ++ more) = unread (unread raw lines) more := by
  simp [unread]

/-- Joining stops at the first text that is complete. -/
theorem collect_eq_some_iff :
    collect complete raw lines = some (text, following) ↔
      ∃ joined, lines = joined ++ following ∧ text = unread raw joined ∧
        complete (Text.trim text) = true ∧
        ∀ before line behind, joined = before ++ line :: behind →
          complete (Text.trim (unread raw before)) = false := by
  induction lines generalizing raw with
  | nil =>
    unfold collect
    constructor
    · intro h
      split at h
      · next hc =>
        simp only [Option.some.injEq, Prod.mk.injEq] at h
        obtain ⟨rfl, rfl⟩ := h
        exact ⟨[], rfl, (unread_nil raw).symm, hc, by simp⟩
      · cases h
    · rintro ⟨joined, hj, rfl, hc, _⟩
      obtain ⟨rfl, rfl⟩ := List.append_eq_nil_iff.1 hj.symm
      rw [unread_nil] at hc ⊢
      rw [if_pos hc]
  | cons line lines ih =>
    unfold collect
    cases hc : complete (Text.trim raw) with
    | true =>
      simp only [if_true, Option.some.injEq, Prod.mk.injEq]
      constructor
      · rintro ⟨rfl, rfl⟩
        exact ⟨[], rfl, (unread_nil raw).symm, hc, by simp⟩
      · rintro ⟨joined, hj, rfl, _, hi⟩
        cases joined with
        | nil => exact ⟨(unread_nil raw).symm, hj⟩
        | cons first others =>
          have := hi [] first others rfl
          rw [unread_nil, hc] at this
          cases this
    | false =>
      simp only [Bool.false_eq_true, if_false]
      rw [ih]
      constructor
      · rintro ⟨joined, rfl, rfl, ht, hi⟩
        refine ⟨line :: joined, rfl, (unread_cons raw line joined).symm, ht, ?_⟩
        intro before l behind hj
        cases before with
        | nil => rwa [unread_nil]
        | cons first others =>
          obtain ⟨rfl, rfl⟩ := List.cons.inj hj
          rw [unread_cons]
          exact hi others l behind rfl
      · rintro ⟨joined, hj, rfl, ht, hi⟩
        cases joined with
        | nil =>
          rw [unread_nil, hc] at ht
          cases ht
        | cons first others =>
          obtain ⟨rfl, rfl⟩ := List.cons.inj hj
          refine ⟨others, rfl, unread_cons raw line others, ht, ?_⟩
          intro before l behind hj
          rw [← unread_cons]
          exact hi (line :: before) l behind (by rw [hj]; rfl)

/-- What was joined is complete. -/
theorem complete_of_collect (h : collect complete raw lines = some (text, following)) :
    complete (Text.trim text) = true := by
  obtain ⟨_, _, _, hc, _⟩ := collect_eq_some_iff.1 h
  exact hc

/-- A line feed of joined lines stands between two of them. -/
theorem unread_eq_append_cons (hraw : '\n' ∉ raw) (hl : ∀ l ∈ lines, '\n' ∉ l)
    {before behind : Text} (h : unread raw lines = before ++ '\n' :: behind) :
    ∃ first line others, lines = first ++ line :: others ∧ before = unread raw first := by
  induction lines generalizing raw before with
  | nil =>
    rw [unread_nil] at h
    exact absurd (by rw [h]; simp) hraw
  | cons line lines ih =>
    have hsplit : raw ++ '\n' :: unread line lines = before ++ '\n' :: behind := by
      rw [← h]
      simp [unread]
    rcases List.append_eq_append_iff.1 hsplit with ⟨added, rfl, ha⟩ | ⟨more, rfl, hm⟩
    · cases added with
      | nil => exact ⟨[], line, lines, rfl, by rw [unread_nil, List.append_nil]⟩
      | cons c r =>
        obtain ⟨rfl, hr⟩ := List.cons.inj ha
        obtain ⟨first, l, others, rfl, rfl⟩ :=
          ih (hl line List.mem_cons_self) (fun l hm => hl l (List.mem_cons_of_mem _ hm)) hr
        refine ⟨line :: first, l, others, rfl, ?_⟩
        simp [unread]
    · cases more with
      | nil => exact ⟨[], line, lines, rfl, by simp [unread]⟩
      | cons c r =>
        obtain ⟨rfl, _⟩ := List.cons.inj hm
        exact absurd (by simp) hraw

/-- The lines that joining leaves are the last of those there were. -/
theorem following_suffix (h : collect complete raw lines = some (text, following)) :
    following <:+ lines := by
  obtain ⟨joined, rfl, _⟩ := collect_eq_some_iff.1 h
  exact List.suffix_append joined following

/-- Joined lines are not complete before any of the line feeds between them. -/
theorem incomplete_before_lineFeed (hraw : '\n' ∉ raw) (hl : ∀ l ∈ lines, '\n' ∉ l)
    (h : collect complete raw lines = some (text, following)) {before behind : Text}
    (ht : text = before ++ '\n' :: behind) : complete (Text.trim before) = false := by
  obtain ⟨joined, rfl, rfl, _, hi⟩ := collect_eq_some_iff.1 h
  obtain ⟨first, line, others, rfl, rfl⟩ :=
    unread_eq_append_cons hraw (fun l hm => hl l (List.mem_append_left _ hm)) ht
  exact hi first line others rfl

/-- A cut of joined lines falls in the last of them. -/
theorem lineFeed_notMem_rest {m : Matcher} (he : m.Exact) (hm : m.Ends) (hraw : '\n' ∉ raw)
    (hl : ∀ l ∈ lines, '\n' ∉ l)
    (hc : collect (fun t => (m t).isSome) raw lines = some (text, following)) {piece rest : Text}
    (h : m text = some (piece, rest)) : '\n' ∉ rest := by
  intro hn
  obtain ⟨kept, dropped, rfl⟩ := List.append_of_mem hn
  have ht := he _ _ _ h
  rw [ht] at h
  have hs := (hm piece kept ('\n' :: dropped) (by simp) h).2
  have htext : text = (piece ++ kept) ++ '\n' :: dropped := by
    rw [ht, List.append_assoc]
  have hi := incomplete_before_lineFeed hraw hl hc htext
  rw [hi] at hs
  cases hs

end Collecting

section Readers

/-- An import has the line and the text that it is read from. -/
theorem Import.parse_line_text {line : Nat} {text : Text} {i : Import}
    (h : Import.parse line text = .ok i) : i.line = line ∧ i.text = text := by
  unfold Import.parse at h
  dsimp only at h
  split at h
  · cases h
  · split at h
    · cases h; exact ⟨rfl, rfl⟩
    · split at h
      · cases h
      · obtain ⟨c, _, rfl⟩ := map_eq_ok h
        exact ⟨rfl, rfl⟩

/-- A name that is read as an identifier. -/
def IsIdentifier (name : Text) : Prop := ∃ t rest, Matcher.identifier t = some (name, rest)

/-- What the names of a clause are read as. -/
structure Clause.NamesRead (c : Clause) : Prop where
  /-- The local name of the default export. -/
  default_read : ∀ name, c.defaultName = some name → IsIdentifier name
  /-- The local name of the namespace object. -/
  namespace_read : ∀ name, c.namespaceName = some name → IsIdentifier name
  /-- The named bindings. -/
  named_read : c.named = [] ∨ ∃ list, parseBindings list = .ok c.named

/-- A default name that is split off is an identifier. -/
theorem Clause.isIdentifier_of_splitDefault {clause name : Text}
    (h : (Clause.splitDefault clause).1 = some name) : IsIdentifier name := by
  unfold Clause.splitDefault at h
  split at h
  · cases h
  · next hi =>
    split at h
    · cases h
      exact ⟨_, _, hi⟩
    · cases h
      exact ⟨_, _, hi⟩
    · cases h

/-- The name of a namespace is an identifier. -/
theorem Clause.isIdentifier_of_namespaceName {afterStar name : Text}
    (h : Clause.namespaceName? afterStar = some name) : IsIdentifier name := by
  unfold Clause.namespaceName? at h
  split at h
  · cases h
  · split at h
    · next hi =>
      cases h
      exact ⟨_, _, hi⟩
    · cases h

/-- A clause that can be read has the names that are read from it. -/
theorem Clause.namesRead_of_parseRest {defaultName : Option Text} {statement rest : Text}
    {c : Clause} (h : Clause.parseRest defaultName statement rest = .ok c)
    (hd : ∀ name, defaultName = some name → IsIdentifier name) : c.NamesRead := by
  have hnone : ∀ name, (none : Option Text) = some name → IsIdentifier name :=
    fun _ hn => nomatch hn
  cases rest with
  | nil =>
    cases h
    exact ⟨hd, hnone, .inl rfl⟩
  | cons d rest =>
    simp only [Clause.parseRest] at h
    split at h
    · split at h
      · next name hn =>
        cases h
        exact ⟨hd, fun _ hname => Option.some.inj hname ▸ Clause.isIdentifier_of_namespaceName hn,
          .inl rfl⟩
      · cases h
    · split at h
      · split at h
        · obtain ⟨named, hb, rfl⟩ := map_eq_ok h
          exact ⟨hd, hnone, .inr ⟨_, hb⟩⟩
        · cases h
      · cases h

/-- An import that can be read has the names that are read from its clause. -/
theorem Import.namesRead_of_parse {line : Nat} {text : Text} {i : Import}
    (h : Import.parse line text = .ok i) :
    Clause.NamesRead ⟨i.defaultName, i.namespaceName, i.named⟩ := by
  unfold Import.parse at h
  dsimp only at h
  split at h
  · cases h
  · split at h
    · cases h
      exact ⟨(fun _ hn => nomatch hn), (fun _ hn => nomatch hn), .inl rfl⟩
    · split at h
      · cases h
      · obtain ⟨c, hc, rfl⟩ := map_eq_ok h
        exact Clause.namesRead_of_parseRest hc fun _ hn => Clause.isIdentifier_of_splitDefault hn

/-- The forms of an export that is read from a whole statement. -/
inductive Export.ListForm (line : Nat) (text : Text) : Export → Prop where
  /-- A star export. -/
  | star (specifier : Text) : ListForm line text ⟨.star, line, text, [], [], some specifier⟩
  /-- A star export with a name. -/
  | starAs {afterStar name rest : Text} (hn : starName? afterStar = some (name, rest))
    (specifier : Text) :
    ListForm line text ⟨.reexport, line, text, [], [⟨['*'], name⟩], some specifier⟩
  /-- An export list of another module. -/
  | reexport {list : Text} {names : List Rename} (hn : parseBindings list = .ok names)
    (specifier : Text) : ListForm line text ⟨.reexport, line, text, [], names, some specifier⟩
  /-- An export list. -/
  | named {list : Text} {names : List Rename} (hn : parseBindings list = .ok names) :
    ListForm line text ⟨.named, line, text, [], names, none⟩

/-- An export that is read from a whole statement has one of these forms. -/
theorem Export.listForm_of_parseList {line : Nat} {text : Text} {e : Export}
    (h : Export.parseList line text = .ok e) : Export.ListForm line text e := by
  unfold Export.parseList at h
  dsimp only at h
  split at h
  · split at h
    · next hs =>
      cases h
      unfold Export.parseStar? at hs
      split at hs
      · next hn =>
        split at hs
        · cases hs
        · obtain ⟨specifier, _, rfl⟩ := Option.map_eq_some_iff.1 hs
          exact .starAs hn specifier
      · obtain ⟨specifier, _, rfl⟩ := Option.map_eq_some_iff.1 hs
        exact .star specifier
    · cases h
  · unfold Export.parseBraced at h
    split at h
    · next specifier _ =>
      obtain ⟨names, hn, rfl⟩ := map_eq_ok h
      exact .reexport hn specifier
    · split at h
      · obtain ⟨names, hn, rfl⟩ := map_eq_ok h
        exact .named hn
      · cases h
  · cases h

/-- The forms of an export that is read from its first line. -/
inductive Export.LineForm (line : Nat) (text : Text) : Export → Prop where
  /-- A declaration with its own name. -/
  | declaration {words value name : Text}
    (hm : ((Matcher.literal "export".toList).andThen Matcher.gap) (Text.trim text) =
      some (words, value)) (hn : declaredName? value = some name) :
    LineForm line text
      ⟨.declaration, line, text, Text.leading text ++ value, [⟨name, name⟩], none⟩
  /-- A declaration under the name of the default export. -/
  | defaultDeclaration {words behind more value name : Text}
    (hm : ((Matcher.literal "export".toList).andThen Matcher.gap) (Text.trim text) =
      some (words, behind))
    (hd : ((Matcher.literal "default".toList).andThen Matcher.gap) behind = some (more, value))
    (hn : declaredName? value = some name) :
    LineForm line text
      ⟨.declaration, line, text, Text.leading text ++ value, [⟨name, "default".toList⟩], none⟩
  /-- A default value. -/
  | defaultValue {words behind more value : Text}
    (hm : ((Matcher.literal "export".toList).andThen Matcher.gap) (Text.trim text) =
      some (words, behind))
    (hd : ((Matcher.literal "default".toList).andThen Matcher.gap) behind = some (more, value)) :
    LineForm line text ⟨.defaultValue, line, text, Text.leading text ++ value, [], none⟩

/-- An export that is read from one line has one of these forms. -/
theorem Export.lineForm_of_parseLine {line : Nat} {text : Text} {e : Export}
    (h : Export.parseLine line text = .ok e) : Export.LineForm line text e := by
  unfold Export.parseLine at h
  dsimp only at h
  split at h
  · cases h
  · next hm =>
    split at h
    · next hd =>
      split at h
      · next hn =>
        cases h
        exact .defaultDeclaration hm hd hn
      · cases h
        exact .defaultValue hm hd
    · split at h
      · next hn =>
        cases h
        exact .declaration hm hn
      · cases h

/-- An export list has the line and the text that it is read from. -/
theorem Export.parseList_line_text {line : Nat} {text : Text} {e : Export}
    (h : Export.parseList line text = .ok e) : e.line = line ∧ e.text = text := by
  cases Export.listForm_of_parseList h <;> exact ⟨rfl, rfl⟩

/-- Exported variables have the line and the text that they are read from. -/
theorem Export.parseVariables_line_text {line : Nat} {text : Text} {declarators : List Text}
    {e : Export} (h : Export.parseVariables line text declarators = .ok e) :
    e.line = line ∧ e.text = text := by
  obtain ⟨names, _, rfl⟩ := map_eq_ok h
  exact ⟨rfl, rfl⟩

/-- An export on one line has the line and the text that it is read from. -/
theorem Export.parseLine_line_text {line : Nat} {text : Text} {e : Export}
    (h : Export.parseLine line text = .ok e) : e.line = line ∧ e.text = text := by
  cases Export.lineForm_of_parseLine h <;> exact ⟨rfl, rfl⟩

/-- A declaration or a default value is exported from no other module. -/
theorem Export.specifier_of_parseLine {line : Nat} {text : Text} {e : Export}
    (h : Export.parseLine line text = .ok e) : e.specifier = none := by
  cases Export.lineForm_of_parseLine h <;> rfl

end Readers

namespace Taken

/-- What a step does to the lines: the statement starts on the line at hand, it
and what is left are all there was, and what is left of a line is in one line. -/
structure Follows (line : Nat) (raw : Text) (lines : List Text) (t : Taken) : Prop where
  /-- The statement is numbered by the line at hand. -/
  line_eq : t.statement.line = line
  /-- Nothing is lost. -/
  unread_eq : unread raw lines = t.statement.text ++ unread t.rest t.following
  /-- The cut falls in the last line that was read. -/
  lastLine_eq : t.lastLine = line + Text.lineFeeds t.statement.text
  /-- What is left of that line has no line feed. -/
  rest_oneLine : '\n' ∉ t.rest
  /-- The lines that follow are lines still. -/
  following_oneLine : ∀ l ∈ t.following, '\n' ∉ l

section Steps

variable {line : Nat} {raw : Text} {lines : List Text} {t : Taken}

/-- The lines that follow a statement are lines. -/
theorem Follows.next_oneLine (h : Follows line raw lines t) {next : Text} {more : List Text}
    (hf : t.following = next :: more) : '\n' ∉ next ∧ ∀ l ∈ more, '\n' ∉ l :=
  List.forall_mem_cons.1 (hf ▸ h.following_oneLine)

/-- A statement that takes its line as a whole follows it. -/
theorem follows_of_line (hraw : '\n' ∉ raw) (hl : ∀ l ∈ lines, '\n' ∉ l) {s : Statement}
    (hs : s.line = line ∧ s.text = raw) : Follows line raw lines ⟨s, [], line, lines⟩ where
  line_eq := hs.1
  unread_eq := by rw [hs.2]; simp [unread]
  lastLine_eq := by
    rw [hs.2, Text.lineFeeds_of_oneLine hraw]
    rfl
  rest_oneLine := List.not_mem_nil
  following_oneLine := hl

/-- A boundary that is there is where the text is cut. -/
theorem cutAt_eq_of_isSome {m : Matcher} {text : Text} (h : (m text).isSome) :
    m text = some (cutAt m text) := by
  obtain ⟨found, hf⟩ := Option.isSome_iff_exists.1 h
  rw [cutAt, hf]
  rfl

/-- An import is taken exactly if the joined lines are cut into one that can be
read and what follows it. -/
theorem importing_eq_ok_iff :
    importing line raw lines = .ok t ↔
      ∃ text following piece rest i,
        collect (fun t => (Boundary.importEnd t).isSome) raw lines = some (text, following) ∧
        Boundary.importEnd text = some (piece, rest) ∧ Import.parse line piece = .ok i ∧
        t = ⟨.importing i, rest, line + Text.lineFeeds text, following⟩ := by
  unfold importing
  constructor
  · intro h
    split at h
    · cases h
    · next text following hc =>
      obtain ⟨i, hi, rfl⟩ := map_eq_ok h
      have hm := Boundary.importEnd_trim_iff.1 (complete_of_collect hc)
      exact ⟨text, following, _, _, i, hc, cutAt_eq_of_isSome hm, hi, rfl⟩
  · rintro ⟨text, following, piece, rest, i, hc, hm, hi, rfl⟩
    simp only [hc, cutAt, hm, Option.getD_some, hi]
    rfl

/-- An export list or a star export is taken in the same way. -/
theorem exportList_eq_ok_iff :
    exportList line raw lines = .ok t ↔
      ∃ text following piece rest e,
        collect (fun t => (Boundary.exportListEnd t).isSome) raw lines = some (text, following) ∧
        Boundary.exportListEnd text = some (piece, rest) ∧ Export.parseList line piece = .ok e ∧
        t = ⟨.exporting e, rest, line + Text.lineFeeds text, following⟩ := by
  unfold exportList
  constructor
  · intro h
    split at h
    · cases h
    · next text following hc =>
      obtain ⟨e, he, rfl⟩ := map_eq_ok h
      have hm := Boundary.exportListEnd_trim_iff.1 (complete_of_collect hc)
      exact ⟨text, following, _, _, e, hc, cutAt_eq_of_isSome hm, he, rfl⟩
  · rintro ⟨text, following, piece, rest, e, hc, hm, he, rfl⟩
    simp only [hc, cutAt, hm, Option.getD_some, he]
    rfl

/-- A variable export is read from its declarators. -/
theorem exportVariables_eq_ok_iff :
    exportVariables line raw lines = .ok t ↔
      ∃ text following d e,
        collect (fun t => (declarationEnd t).isSome) raw lines = some (text, following) ∧
        Declaration.split? text = some d ∧
        Export.parseVariables line d.text d.pieces.declarators = .ok e ∧
        t = ⟨.exporting e, d.rest, line + Text.lineFeeds text, following⟩ := by
  simp only [declarationEnd_isSome]
  unfold exportVariables
  constructor
  · intro h
    split at h
    · cases h
    · next text following hc =>
      split at h
      · cases h
      · next d hd =>
        obtain ⟨e, he, rfl⟩ := map_eq_ok h
        exact ⟨text, following, d, e, hc, hd, he, rfl⟩
  · rintro ⟨text, following, d, e, hc, hd, he, rfl⟩
    simp only [hc, hd, he]
    rfl

/-- A statement cut off joined lines, by a matcher that sees the end of it. -/
theorem follows_of_cut {m : Matcher} (he : m.Exact) (hm : m.Ends) (hraw : '\n' ∉ raw)
    (hl : ∀ l ∈ lines, '\n' ∉ l) {text rest : Text} {following : List Text} {s : Statement}
    (hc : collect (fun t => (m t).isSome) raw lines = some (text, following))
    (hcut : m text = some (s.text, rest)) (hline : s.line = line) :
    Follows line raw lines ⟨s, rest, line + Text.lineFeeds text, following⟩ := by
  have hrest := lineFeed_notMem_rest he hm hraw hl hc hcut
  have htext := he _ _ _ hcut
  refine ⟨hline, ?_, ?_, hrest, fun l h => hl l ((following_suffix hc).subset h)⟩
  · rw [← unread_collect hc, htext]
    simp [unread]
  · rw [htext, Text.lineFeeds_append_oneLine s.text hrest]

/-- An import follows the text that is still to be read. -/
theorem importing_follows (hraw : '\n' ∉ raw) (hl : ∀ l ∈ lines, '\n' ∉ l)
    (h : importing line raw lines = .ok t) : Follows line raw lines t := by
  obtain ⟨text, following, piece, rest, i, hc, hm, hi, rfl⟩ := importing_eq_ok_iff.1 h
  obtain ⟨hline, htext⟩ := Import.parse_line_text hi
  refine follows_of_cut Boundary.importEnd_exact importEnd_ends hraw hl hc ?_ hline
  rwa [Statement.text, htext]

/-- An export list follows the text that is still to be read. -/
theorem exportList_follows (hraw : '\n' ∉ raw) (hl : ∀ l ∈ lines, '\n' ∉ l)
    (h : exportList line raw lines = .ok t) : Follows line raw lines t := by
  obtain ⟨text, following, piece, rest, e, hc, hm, he, rfl⟩ := exportList_eq_ok_iff.1 h
  obtain ⟨hline, htext⟩ := Export.parseList_line_text he
  refine follows_of_cut Boundary.exportListEnd_exact exportListEnd_ends hraw hl hc ?_ hline
  rwa [Statement.text, htext]

/-- Exported variables follow the text that is still to be read. -/
theorem exportVariables_follows (hraw : '\n' ∉ raw) (hl : ∀ l ∈ lines, '\n' ∉ l)
    (h : exportVariables line raw lines = .ok t) : Follows line raw lines t := by
  obtain ⟨text, following, d, e, hc, hd, he, rfl⟩ := exportVariables_eq_ok_iff.1 h
  obtain ⟨hline, htext⟩ := Export.parseVariables_line_text he
  refine follows_of_cut declarationEnd_exact declarationEnd_ends hraw hl hc ?_ hline
  simp only [Statement.text, htext, declarationEnd, hd, Option.map_some]

/-- What a step takes. A comment or a template holds lines of code only, and at the
top level the head of the line decides. -/
inductive Step (line : Nat) (raw : Text) (lines : List Text) : Lexer.Context → Taken → Prop where
  /-- The line at hand as code. -/
  | code {context : Lexer.Context} (ho : context = [] → LineHead.ofLine raw = .code) :
    Step line raw lines context ⟨.code line raw, [], line, lines⟩
  /-- An import. -/
  | importing {t : Taken} (ho : LineHead.ofLine raw = .importing)
    (h : Taken.importing line raw lines = .ok t) : Step line raw lines [] t
  /-- An export list or a star export. -/
  | exportList {t : Taken} (ho : LineHead.ofLine raw = .exportList)
    (h : Taken.exportList line raw lines = .ok t) : Step line raw lines [] t
  /-- A variable export. -/
  | exportVariables {t : Taken} (ho : LineHead.ofLine raw = .exportVariables)
    (h : Taken.exportVariables line raw lines = .ok t) : Step line raw lines [] t
  /-- The first line of another export. -/
  | exportOther {e : Export} (ho : LineHead.ofLine raw = .exportOther)
    (he : Export.parseLine line raw = .ok e) :
    Step line raw lines [] ⟨.exporting e, [], line, lines⟩

/-- A step that succeeds is one of these, and each of these is one. -/
theorem next_eq_ok_iff {context : Lexer.Context} :
    next context line raw lines = .ok t ↔ Step line raw lines context t := by
  unfold next
  constructor
  · intro h
    split at h
    · next hopen =>
      cases h
      exact .code fun hnil => absurd hnil (by simpa using hopen)
    · next hopen =>
      obtain rfl : context = [] := by simpa using hopen
      split at h
      · next ho => exact .importing ho h
      · next ho => exact .exportList ho h
      · next ho => exact .exportVariables ho h
      · next ho =>
        obtain ⟨e, he, rfl⟩ := map_eq_ok h
        exact .exportOther ho he
      · next ho =>
        cases h
        exact .code fun _ => ho
  · intro h
    cases h with
    | code ho =>
      cases context with
      | nil =>
        simp only [List.isEmpty_nil, Bool.not_true, Bool.false_eq_true, if_false, ho rfl]
        rfl
      | cons frame context => rfl
    | importing ho h =>
      simpa only [List.isEmpty_nil, Bool.not_true, Bool.false_eq_true, if_false, ho] using h
    | exportList ho h =>
      simpa only [List.isEmpty_nil, Bool.not_true, Bool.false_eq_true, if_false, ho] using h
    | exportVariables ho h =>
      simpa only [List.isEmpty_nil, Bool.not_true, Bool.false_eq_true, if_false, ho] using h
    | exportOther ho he =>
      simp only [List.isEmpty_nil, Bool.not_true, Bool.false_eq_true, if_false, ho, exportOther, he]
      rfl

/-- Every step follows the lines. -/
theorem next_follows {context : Lexer.Context} (hraw : '\n' ∉ raw) (hl : ∀ l ∈ lines, '\n' ∉ l)
    (h : next context line raw lines = .ok t) : Follows line raw lines t := by
  cases next_eq_ok_iff.1 h with
  | code => exact follows_of_line hraw hl ⟨rfl, rfl⟩
  | importing _ h => exact importing_follows hraw hl h
  | exportList _ h => exact exportList_follows hraw hl h
  | exportVariables _ h => exact exportVariables_follows hraw hl h
  | exportOther _ he => exact follows_of_line hraw hl (Export.parseLine_line_text he)

end Steps

end Taken

end ModuleScripts
