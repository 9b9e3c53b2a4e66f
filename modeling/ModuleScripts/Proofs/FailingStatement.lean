import ModuleScripts.Proofs.Gaps
import ModuleScripts.Proofs.LineShift
import ModuleScripts.Proofs.Rereading

/-!
# The failing statement

A run that fails has read statements up to the one at fault. Cut off in front of it,
the source is read to the same statements, since each of them was complete before what
stands behind it was looked at. From the statement at fault on, the source has the same
fault in its first line.
-/

namespace ModuleScripts

namespace LineHead

/-- A line that announces a statement starts with a keyword. -/
theorem keyword_of_ofLine {line : Text} (h : ofLine line ≠ code) :
    "import".toList <+: Text.trimStart line ∨ "export".toList <+: Text.trimStart line := by
  by_cases hi : ofLine line = importing
  · obtain ⟨c, r, hr, _⟩ := ofLine_eq_importing_iff.1 hi
    exact .inl ⟨c :: r, hr.symm⟩
  · obtain ⟨afterKeyword, ha⟩ := exists_export_of_ofLine h hi
    exact .inr ⟨afterKeyword, ha.symm⟩

/-- A line that announces a statement is not blank. -/
theorem allBlank_of_ofLine {line : Text} (h : ofLine line ≠ code) :
    Text.allBlank line = false := by
  cases hb : Text.allBlank line with
  | false => rfl
  | true =>
    have htrim := Text.trimStart_blank (Text.allBlank_iff.1 hb)
    rcases keyword_of_ofLine h with hk | hk
    · exact absurd (List.prefix_nil.1 (htrim ▸ hk)) (by decide)
    · exact absurd (List.prefix_nil.1 (htrim ▸ hk)) (by decide)

end LineHead

/-- Text behind a keyword leaves it the start. -/
theorem Text.keyword_append {word line : Text} (h : word <+: trimStart line) (hw : word ≠ [])
    (more : Text) : word <+: trimStart (line ++ more) := by
  obtain ⟨r, hr⟩ := h
  have hne : trimStart line ≠ [] := by rw [← hr]; simp [hw]
  have hrest : trimStart (line ++ more) = trimStart line ++ more :=
    (Matcher.takeWhile_dropWhile_append hne more).2
  exact ⟨r ++ more, by rw [hrest, ← hr, List.append_assoc]⟩

/-- Numbered with its own line a statement is as it was. -/
theorem Statement.atLine_line (s : Statement) : s.atLine s.line = s := by
  cases s <;> rfl

namespace Taken

variable {context : Lexer.Context} {line : Nat} {raw first kept dropped : Text}
  {lines others : List Text} {t : Taken}

/-- The first line of what is kept of the lines is the line at hand, or announces a
statement. -/
theorem announces_of_cut (hraw : '\n' ∉ raw) (hl : ∀ l ∈ lines, '\n' ∉ l)
    (h : next context line raw lines = .ok t) (hr : t.rest = kept ++ dropped)
    (hf : Text.lines (t.statement.text ++ kept) = first :: others) :
    first = raw ∨ LineHead.ofLine first ≠ .code := by
  cases next_eq_ok_iff.1 h with
  | code =>
    have htext : (Statement.code line raw).text = raw := rfl
    exact .inl (lines_of_wholeLine htext hraw hr hf).2.1
  | importing ho h =>
    have hhead := (importing_cut hraw hl ho h hr hf).1
    exact .inr (by rw [hhead]; decide)
  | exportList ho h =>
    have hhead := (exportList_cut hraw hl ho h hr hf).1
    exact .inr (by rw [hhead]; decide)
  | exportVariables ho h =>
    have hhead := (exportVariables_cut hraw hl ho h hr hf).1
    exact .inr (by rw [hhead]; decide)
  | @exportOther e ho he =>
    have htext : (Statement.exporting e).text = raw := (Export.parseLine_line_text he).2
    exact .inl (lines_of_wholeLine htext hraw hr hf).2.1

/-- The lines of a statement and of the start of what stood behind it, from which it is
taken whatever follows. -/
structure CutAt (context : Lexer.Context) (line : Nat) (raw : Text) (t : Taken) (kept first : Text)
    (others : List Text) : Prop where
  /-- They are the statement and what is kept. -/
  unread_eq : unread first others = t.statement.text ++ kept
  /-- The first of them is the line at hand or its start. -/
  start : first <+: raw
  /-- It is blank only if the line at hand is. -/
  visible : Text.allBlank raw = false → Text.allBlank first = false
  /-- The others are lines still. -/
  others_oneLine : ∀ l ∈ others, '\n' ∉ l
  /-- A step takes the statement from them. -/
  taken : ∀ more, next context line first (others ++ more) =
    .ok ⟨t.statement, kept, t.lastLine, more⟩

/-- Behind a statement that a step takes its line can be cut. -/
theorem exists_cutAt (hraw : '\n' ∉ raw) (hl : ∀ l ∈ lines, '\n' ∉ l)
    (h : next context line raw lines = .ok t) (hr : t.rest = kept ++ dropped) :
    ∃ first others, CutAt context line raw t kept first others := by
  obtain ⟨first, others, hf⟩ :=
    List.exists_cons_of_ne_nil (Text.lines_ne_nil (t.statement.text ++ kept))
  have hfollows := next_follows hraw hl h
  refine ⟨first, others, unread_lines hf, ?_, fun hv => ?_, fun l hm => ?_, fun more => ?_⟩
  · rcases hfollows.firstLine_cases hraw hl hr hf with rfl | ⟨rfl, rfl⟩
    · exact List.prefix_refl first
    · exact List.prefix_append _ dropped
  · rcases announces_of_cut hraw hl h hr hf with rfl | hhead
    · exact hv
    · exact LineHead.allBlank_of_ofLine hhead
  · exact Text.lineFeed_notMem_of_lines hf l (List.mem_cons_of_mem first hm)
  · have hsame : t.statement.atLine line = t.statement := by
      rw [← hfollows.line_eq, Statement.atLine_line]
    rw [next_cut hraw hl h hr hf line more, hsame, hfollows.lastLine_eq]

end Taken

/-- The syntax error that a run meets from a line on. -/
inductive Fails : Lexer.Context → Nat → Text → List Text → SyntaxError → Prop where
  /-- The statement at hand is at fault. -/
  | here {context : Lexer.Context} {line : Nat} {raw : Text} {lines : List Text} {fault : Fault}
      (faulty : Taken.next context line raw lines = .error fault) :
      Fails context line raw lines ⟨line, fault⟩
  /-- One in the next line or below is. -/
  | nextLine {context : Lexer.Context} {line : Nat} {raw next : Text} {lines more : List Text}
      {t : Taken} {e : SyntaxError}
      (taken : Taken.next context line raw lines = .ok t) (blank : Text.allBlank t.rest = true)
      (following : t.following = next :: more)
      (fails : Fails (Lexer.after context t.statement.text) (t.lastLine + 1) next more e) :
      Fails context line raw lines e
  /-- One in what is left of the line or below is. -/
  | sameLine {context : Lexer.Context} {line : Nat} {raw : Text} {lines : List Text} {t : Taken}
      {e : SyntaxError}
      (taken : Taken.next context line raw lines = .ok t) (left : Text.allBlank t.rest = false)
      (fails : Fails (Lexer.after context t.statement.text) t.lastLine t.rest t.following e) :
      Fails context line raw lines e

/-- A mapped failure failed before it was mapped. -/
theorem map_eq_error {ε α β : Type} {x : Except ε α} {f : α → β} {e : ε}
    (h : x.map f = .error e) : x = .error e := by
  cases x with
  | error other => exact congrArg _ (Except.error.inj h)
  | ok a => cases h

/-- A run that fails has read statements up to the one at fault. -/
theorem fails_of_parseFrom {context : Lexer.Context} {line : Nat} {raw : Text} {lines : List Text}
    {e : SyntaxError} (h : parseFrom context line raw lines = .error e) :
    Fails context line raw lines e := by
  induction context, line, raw, lines using parseFrom.induct with
  | case1 context line raw lines fault hf =>
    rw [parseFrom_of_error hf] at h
    cases h
    exact .here hf
  | case2 context line raw lines t ht hb hd =>
    rw [parseFrom_last ht hb hd] at h
    cases h
  | case3 context line raw lines t ht _ hb next more hf =>
    rename_i ih
    rw [parseFrom_nextLine ht hb hf] at h
    exact .nextLine ht hb hf (ih (map_eq_error h))
  | case4 context line raw lines t ht _ hb =>
    rename_i ih
    have hb : Text.allBlank t.rest = false := by simpa using hb
    rw [parseFrom_sameLine ht hb] at h
    exact .sameLine ht hb (ih (map_eq_error h))

/-- The first statement of a source is at fault. -/
def FaultyAtOnce (fault : Fault) (source : Text) : Prop :=
  ∃ line raw lines, source = unread raw lines ∧ '\n' ∉ raw ∧ (∀ l ∈ lines, '\n' ∉ l) ∧
    Taken.next [] line raw lines = .error fault

/-- The lines of a run in front of the statement at fault, and the source from that
statement on. -/
structure FailsBehind (context : Lexer.Context) (line : Nat) (raw : Text) (lines : List Text)
    (e : SyntaxError) (first : Text) (others : List Text) (separator source : Text) : Prop where
  /-- Nothing is lost between them but a line feed. -/
  unread_eq : unread raw lines = unread first others ++ separator ++ source
  /-- That line feed stands there if the statement starts its line. -/
  separator_eq : separator = [] ∨ separator = ['\n']
  /-- The error is numbered by the line feeds in front. -/
  line_eq : e.line = line + Text.lineFeeds (unread first others ++ separator)
  /-- The first line is the line at hand or its start. -/
  start : first <+: raw
  /-- It is blank only if the line at hand is. -/
  visible : Text.allBlank raw = false → Text.allBlank first = false
  /-- The others are lines still. -/
  others_oneLine : ∀ l ∈ others, '\n' ∉ l
  /-- The run from these lines succeeds. -/
  reads : ∃ statements, Reads context line first others statements
  /-- The fault is the one of the statement behind them. -/
  faulty : FaultyAtOnce e.fault source

/-- Where the statement at fault stands. -/
inductive FaultPlace (context : Lexer.Context) (line : Nat) (raw : Text) (lines : List Text)
    (e : SyntaxError) : Prop where
  /-- It is the one at hand. -/
  | here (line_eq : e.line = line) (faulty : FaultyAtOnce e.fault (unread raw lines))
  /-- It is behind others. -/
  | behind {first : Text} {others : List Text} {separator source : Text}
      (fails : FailsBehind context line raw lines e first others separator source)

section Steps

variable {context : Lexer.Context} {line : Nat} {raw : Text} {lines : List Text} {e : SyntaxError}

/-- Inside a comment or a template nothing is at fault. -/
theorem Taken.context_of_error {fault : Fault}
    (h : Taken.next context line raw lines = .error fault) : context = [] := by
  unfold Taken.next at h
  split at h
  · cases h
  · next hopen => simpa using hopen

variable {t : Taken} {kept first separator source : Text} {others more : List Text}

/-- A statement with some of the lines behind it, in front of the one at fault. -/
theorem Taken.CutAt.place (hcut : Taken.CutAt context line raw t kept first others)
    (hmore : ∀ l ∈ more, '\n' ∉ l)
    (hu : unread raw lines = unread (t.statement.text ++ kept) more ++ separator ++ source)
    (hs : separator = [] ∨ separator = ['\n'])
    (hline : e.line =
      line + Text.lineFeeds (unread (t.statement.text ++ kept) more ++ separator))
    (hreads : ∃ statements, Reads context line first (others ++ more) statements)
    (hfaulty : FaultyAtOnce e.fault source) : FaultPlace context line raw lines e := by
  have hfront : unread first (others ++ more) = unread (t.statement.text ++ kept) more := by
    rw [unread_append, hcut.unread_eq]
  refine .behind ⟨by rw [hfront]; exact hu, hs, by rw [hfront]; exact hline, hcut.start,
    hcut.visible, fun l hl => ?_, hreads, hfaulty⟩
  rcases List.mem_append.1 hl with hl | hl
  · exact hcut.others_oneLine l hl
  · exact hmore l hl

/-- What is at fault in the next line or below is behind the statement at hand and the
blanks that end its line. -/
theorem FaultPlace.nextLine {next : Text} (hraw : '\n' ∉ raw) (hl : ∀ l ∈ lines, '\n' ∉ l)
    (ht : Taken.next context line raw lines = .ok t) (hb : Text.allBlank t.rest = true)
    (hf : t.following = next :: more)
    (h : FaultPlace (Lexer.after context t.statement.text) (t.lastLine + 1) next more e) :
    FaultPlace context line raw lines e := by
  have hfollows := Taken.next_follows hraw hl ht
  have hfeeds := Text.lineFeeds_append_oneLine t.statement.text hfollows.rest_oneLine
  have hnext := (hfollows.next_oneLine hf).1
  obtain ⟨first, others, hcut⟩ := Taken.exists_cutAt hraw hl ht (List.append_nil t.rest).symm
  have hu : unread raw lines = t.statement.text ++ t.rest ++ ['\n'] ++ unread next more := by
    rw [hfollows.unread_eq, hf]
    simp [unread]
  cases h with
  | here hline hfaulty =>
    have hreads := Reads.last (hcut.taken []) hb rfl
    refine hcut.place (List.forall_mem_nil _) ?_ (.inr rfl) ?_ ⟨_, hreads⟩ hfaulty
    · rw [unread_nil, hu]
    · rw [unread_nil, Text.lineFeeds_append, hfeeds, hline, hfollows.lastLine_eq]
      rfl
  | @behind first' others' separator source hfails =>
    obtain ⟨statements, hreads⟩ := hfails.reads
    have hfront : unread (t.statement.text ++ t.rest) (first' :: others') =
        t.statement.text ++ t.rest ++ ['\n'] ++ unread first' others' := by
      simp [unread]
    refine hcut.place ?_ ?_ hfails.separator_eq ?_
      ⟨_, .nextLine (hcut.taken (first' :: others')) hb rfl hreads⟩ hfails.faulty
    · refine List.forall_mem_cons.2 ⟨fun hm => ?_, hfails.others_oneLine⟩
      exact hnext (hfails.start.subset hm)
    · rw [hu, hfails.unread_eq, hfront]
      simp only [List.append_assoc]
    · have hone : Text.lineFeeds ['\n'] = 1 := rfl
      rw [hfails.line_eq, hfront, hfollows.lastLine_eq]
      simp only [Text.lineFeeds_append, hone] at hfeeds ⊢
      omega

/-- What is at fault in the same line or below is behind the statement at hand. -/
theorem FaultPlace.sameLine (hraw : '\n' ∉ raw) (hl : ∀ l ∈ lines, '\n' ∉ l)
    (ht : Taken.next context line raw lines = .ok t) (hb : Text.allBlank t.rest = false)
    (h : FaultPlace (Lexer.after context t.statement.text) t.lastLine t.rest t.following e) :
    FaultPlace context line raw lines e := by
  have hfollows := Taken.next_follows hraw hl ht
  cases h with
  | here hline hfaulty =>
    -- nothing of what is left of the line is kept
    obtain ⟨first, others, hcut⟩ := Taken.exists_cutAt hraw hl ht (List.nil_append t.rest).symm
    have hreads := Reads.last (hcut.taken []) rfl rfl
    refine hcut.place (List.forall_mem_nil _) ?_ (.inl rfl) ?_ ⟨_, hreads⟩ hfaulty
    · rw [hfollows.unread_eq]
      simp [unread]
    · rw [unread_nil, List.append_nil, List.append_nil, hline, hfollows.lastLine_eq]
  | @behind first' others' separator source hfails =>
    obtain ⟨statements, hreads⟩ := hfails.reads
    -- what is kept of it is not blank, so the run goes on in this line
    obtain ⟨dropped, hr⟩ := hfails.start
    obtain ⟨first, others, hcut⟩ := Taken.exists_cutAt hraw hl ht hr.symm
    have hfront : unread (t.statement.text ++ first') others' =
        t.statement.text ++ unread first' others' := by
      simp [unread]
    refine hcut.place hfails.others_oneLine ?_ hfails.separator_eq ?_
      ⟨_, .sameLine (hcut.taken others') (hfails.visible hb) hreads⟩ hfails.faulty
    · rw [hfollows.unread_eq, hfails.unread_eq, hfront]
      simp only [List.append_assoc]
    · rw [hfails.line_eq, hfront, hfollows.lastLine_eq]
      simp only [Text.lineFeeds_append]
      omega

/-- Every syntax error is the one of a statement behind source that is read. -/
theorem Fails.place (h : Fails context line raw lines e) (hraw : '\n' ∉ raw)
    (hl : ∀ l ∈ lines, '\n' ∉ l) : FaultPlace context line raw lines e := by
  induction h with
  | @here context line raw lines fault hfault =>
    obtain rfl := Taken.context_of_error hfault
    exact .here rfl ⟨line, raw, lines, rfl, hraw, hl, hfault⟩
  | @nextLine context line raw next lines more t e ht hb hf _ ih =>
    obtain ⟨hnext, hmore⟩ := (Taken.next_follows hraw hl ht).next_oneLine hf
    exact .nextLine hraw hl ht hb hf (ih hnext hmore)
  | sameLine ht hb _ ih =>
    have hfollows := Taken.next_follows hraw hl ht
    exact .sameLine hraw hl ht hb (ih hfollows.rest_oneLine hfollows.following_oneLine)

end Steps

/-- A statement at fault starts with its keyword. -/
theorem FaultyAtOnce.keyword {fault : Fault} {source : Text} (h : FaultyAtOnce fault source) :
    "import".toList <+: Text.trimStart source ∨ "export".toList <+: Text.trimStart source := by
  obtain ⟨line, raw, lines, rfl, _, _, hfault⟩ := h
  have hhead : LineHead.ofLine raw ≠ .code := by
    intro hcode
    rw [Taken.next_eq_ok_iff.2 (.code fun _ => hcode)] at hfault
    cases hfault
  exact (LineHead.keyword_of_ofLine hhead).imp
    (fun h => Text.keyword_append h (by decide) _) (fun h => Text.keyword_append h (by decide) _)

/-- What is wrong with a statement does not depend on its line. -/
theorem Taken.next_error_line {context : Lexer.Context} {line : Nat} {raw : Text}
    {lines : List Text} {fault : Fault} (h : Taken.next context line raw lines = .error fault)
    (line' : Nat) : Taken.next context line' raw lines = .error fault := by
  have hfrom := Taken.next_lower context 0 line raw lines
  have hto := Taken.next_lower context 0 line' raw lines
  rw [Nat.zero_add] at hfrom hto
  rw [hto, map_eq_error (hfrom.symm.trans h)]
  rfl

/-- Source whose first statement is at fault has that fault in its first line. -/
theorem FaultyAtOnce.parse {fault : Fault} {source : Text} (h : FaultyAtOnce fault source) :
    Module.parse source = .error ⟨1, fault⟩ := by
  obtain ⟨line, raw, lines, rfl, hraw, hl, hfault⟩ := h
  rw [Module.parse, lines_unread hraw hl]
  dsimp only
  rw [parseFrom_of_error (Taken.next_error_line hfault 1)]
  rfl

/-- Source that reads its lines to the end is a module. -/
theorem Reads.parse {first : Text} {others : List Text} {statements : List Statement}
    (h : Reads [] 1 first others statements) (hfirst : '\n' ∉ first)
    (ho : ∀ l ∈ others, '\n' ∉ l) : Module.parse (unread first others) = .ok ⟨statements⟩ := by
  rw [Module.parse, lines_unread hfirst ho]
  dsimp only
  rw [parseFrom_of_reads h]
  rfl

/-- A syntax error points at the statement at fault and depends on nothing before it. The
source in front of that statement, but for the line feed before it, is read. From the
statement on, the source starts with its keyword and has the same fault in its first line. -/
theorem Module.parse_error_located {source : Text} {e : SyntaxError}
    (h : Module.parse source = .error e) :
    ∃ a separator b m, source = a ++ separator ++ b ∧
      (separator = [] ∨ separator = ['\n']) ∧
      e.line = 1 + Text.lineFeeds (a ++ separator) ∧ Module.parse a = .ok m ∧
      ("import".toList <+: Text.trimStart b ∨ "export".toList <+: Text.trimStart b) ∧
      ∃ e', Module.parse b = .error e' ∧ e'.line = 1 ∧ e'.fault = e.fault ∧
        e'.diagnostic.code = e.diagnostic.code ∧ e'.diagnostic.message = e.diagnostic.message := by
  obtain ⟨first, following, hlines⟩ := List.exists_cons_of_ne_nil (Text.lines_ne_nil source)
  obtain ⟨hfirst, hothers⟩ := List.forall_mem_cons.1 (Text.lineFeed_notMem_of_lines hlines)
  rw [Module.parse, hlines] at h
  have hplace := (fails_of_parseFrom (map_eq_error h)).place hfirst hothers
  rw [← unread_lines hlines]
  cases hplace with
  | here hline hfaulty =>
    exact ⟨[], [], _, ⟨[.code 1 []]⟩, rfl, .inl rfl, hline, by decide +kernel, hfaulty.keyword,
      _, hfaulty.parse, rfl, rfl, rfl, rfl⟩
  | behind hfails =>
    obtain ⟨statements, hreads⟩ := hfails.reads
    have hread := hreads.parse (fun hm => hfirst (hfails.start.subset hm)) hfails.others_oneLine
    exact ⟨_, _, _, _, hfails.unread_eq, hfails.separator_eq, hfails.line_eq, hread,
      hfails.faulty.keyword, _, hfails.faulty.parse, rfl, rfl, rfl, rfl⟩

/-- An import without a comma between its names, in the line in which an import over two
lines ends. -/
theorem Module.parse_error_located_shared_line :
    Module.parse "f()\nimport \x7ba\n\x7d from 'b'; import c d from 'e'".toList =
        .error ⟨3, .invalidImport "import c d from 'e'".toList⟩ ∧
      ∃ a separator b m, "f()\nimport \x7ba\n\x7d from 'b'; import c d from 'e'".toList =
          a ++ separator ++ b ∧
        (separator = [] ∨ separator = ['\n']) ∧ 3 = 1 + Text.lineFeeds (a ++ separator) ∧
        Module.parse a = .ok m ∧
        ("import".toList <+: Text.trimStart b ∨ "export".toList <+: Text.trimStart b) ∧
        ∃ e', Module.parse b = .error e' ∧ e'.line = 1 ∧
          e'.fault = .invalidImport "import c d from 'e'".toList := by
  have h : Module.parse "f()\nimport \x7ba\n\x7d from 'b'; import c d from 'e'".toList =
      .error ⟨3, .invalidImport "import c d from 'e'".toList⟩ := by
    decide +kernel
  obtain ⟨a, separator, b, m, hsource, hseparator, hline, hread, hkeyword, e', herror, hfirst,
    hfault, _⟩ := Module.parse_error_located h
  exact ⟨h, a, separator, b, m, hsource, hseparator, hline, hread, hkeyword, e', herror, hfirst,
    hfault⟩

end ModuleScripts
