import ModuleScripts.Proofs.ContextThread
import ModuleScripts.Proofs.LineShift

/-!
# Source below source

A statement that is complete was complete before the lines behind it were looked
at, so the parser reads what stands above a line feed in the same way whatever
stands below. If nothing is open there, what stands below is read as source of
its own, as many lines further down as there are lines above it.
-/

namespace ModuleScripts

/-- Joining that stops has not looked at the lines behind. -/
theorem collect_append {complete : Text → Bool} {raw text : Text} {lines following : List Text}
    (h : collect complete raw lines = some (text, following)) (more : List Text) :
    collect complete raw (lines ++ more) = some (text, following ++ more) := by
  obtain ⟨joined, rfl, ht, hc, hi⟩ := collect_eq_some_iff.1 h
  exact collect_eq_some_iff.2 ⟨joined, List.append_assoc .., ht, hc, hi⟩

namespace Taken

/-- What a step takes in front of more lines. -/
def above (more : List Text) (t : Taken) : Taken := { t with following := t.following ++ more }

/-- More lines below do not change the statement that is taken. -/
@[simp] theorem statement_above (more : List Text) (t : Taken) :
    (t.above more).statement = t.statement := rfl

/-- More lines below do not change the rest of the line. -/
@[simp] theorem rest_above (more : List Text) (t : Taken) : (t.above more).rest = t.rest := rfl

/-- More lines below do not change where the statement ends. -/
@[simp] theorem lastLine_above (more : List Text) (t : Taken) :
    (t.above more).lastLine = t.lastLine := rfl

/-- The lines below come behind those that follow. -/
@[simp] theorem following_above (more : List Text) (t : Taken) :
    (t.above more).following = t.following ++ more := rfl

variable {context : Lexer.Context} {line : Nat} {raw : Text} {lines : List Text} {t : Taken}

/-- A step that succeeds takes the same statement in front of more lines. -/
theorem next_append (h : next context line raw lines = .ok t) (more : List Text) :
    next context line raw (lines ++ more) = .ok (t.above more) := by
  refine next_eq_ok_iff.2 ?_
  cases next_eq_ok_iff.1 h with
  | code ho => exact .code ho
  | importing ho h =>
    obtain ⟨text, following, piece, rest, i, hc, hm, hi, rfl⟩ := importing_eq_ok_iff.1 h
    have hmore := collect_append hc more
    exact .importing ho (importing_eq_ok_iff.2 ⟨text, _, piece, rest, i, hmore, hm, hi, rfl⟩)
  | exportList ho h =>
    obtain ⟨text, following, piece, rest, e, hc, hm, he, rfl⟩ := exportList_eq_ok_iff.1 h
    have hmore := collect_append hc more
    exact .exportList ho (exportList_eq_ok_iff.2 ⟨text, _, piece, rest, e, hmore, hm, he, rfl⟩)
  | exportVariables ho h =>
    obtain ⟨text, following, d, e, hc, hd, he, rfl⟩ := exportVariables_eq_ok_iff.1 h
    have hmore := collect_append hc more
    exact .exportVariables ho (exportVariables_eq_ok_iff.2 ⟨text, _, d, e, hmore, hd, he, rfl⟩)
  | exportOther ho he => exact .exportOther ho he

end Taken

/-- The text that is still to be read has a line feed for each line that
follows. -/
theorem lineFeeds_unread {raw : Text} {lines : List Text} (hraw : '\n' ∉ raw)
    (hl : ∀ l ∈ lines, '\n' ∉ l) : Text.lineFeeds (unread raw lines) = lines.length := by
  induction lines generalizing raw with
  | nil =>
    rw [unread_nil, Text.lineFeeds_of_oneLine hraw]
    rfl
  | cons line lines ih =>
    obtain ⟨hline, hl⟩ := List.forall_mem_cons.1 hl
    have hjoin : unread raw (line :: lines) = raw ++ '\n' :: unread line lines := by simp [unread]
    have hcons : Text.lineFeeds ('\n' :: unread line lines) = Text.lineFeeds (unread line lines) + 1 :=
      List.count_cons_self
    rw [hjoin, Text.lineFeeds_append, Text.lineFeeds_of_oneLine hraw, hcons, ih hline hl,
      List.length_cons, Nat.zero_add]

/-- A step does not change how many lines there are. -/
theorem Taken.Follows.lastLine_add {line : Nat} {raw : Text} {lines : List Text} {t : Taken}
    (h : Taken.Follows line raw lines t) (hraw : '\n' ∉ raw) (hl : ∀ l ∈ lines, '\n' ∉ l) :
    t.lastLine + t.following.length = line + lines.length := by
  have hbefore := lineFeeds_unread hraw hl
  have hbehind := lineFeeds_unread h.rest_oneLine h.following_oneLine
  have hsplit : Text.lineFeeds (unread raw lines) =
      Text.lineFeeds t.statement.text + Text.lineFeeds (unread t.rest t.following) := by
    rw [h.unread_eq, Text.lineFeeds_append]
  have hlast := h.lastLine_eq
  omega

/-- A run that reads its lines to the end goes on in the lines below them, in the
context behind all its statements. -/
theorem Reads.parseFrom_append {context : Lexer.Context} {line : Nat} {raw : Text}
    {lines : List Text} {statements : List Statement}
    (h : Reads context line raw lines statements) (hraw : '\n' ∉ raw) (hl : ∀ l ∈ lines, '\n' ∉ l)
    (below : Text) (more : List Text) :
    parseFrom context line raw (lines ++ below :: more) =
      (parseFrom (threaded context statements) (line + lines.length + 1) below more).map
        (statements ++ ·) := by
  induction h with
  | @last context line raw lines t ht hb hd =>
    have hcount := (Taken.next_follows hraw hl ht).lastLine_add hraw hl
    rw [hd, List.length_nil, Nat.add_zero] at hcount
    have hbelow : (t.above (below :: more)).following = below :: more := by
      rw [Taken.following_above, hd, List.nil_append]
    rw [parseFrom_nextLine (Taken.next_append ht _) hb hbelow, ← hcount]
    rfl
  | @nextLine context line raw next lines others t statements ht hb hf _ ih =>
    have hfollows := Taken.next_follows hraw hl ht
    have hcount := hfollows.lastLine_add hraw hl
    obtain ⟨hnext, hothers⟩ := hfollows.next_oneLine hf
    have hline : t.lastLine + 1 + others.length + 1 = line + lines.length + 1 := by
      rw [hf, List.length_cons] at hcount
      omega
    have hbelow : (t.above (below :: more)).following = next :: (others ++ below :: more) := by
      rw [Taken.following_above, hf, List.cons_append]
    rw [parseFrom_nextLine (Taken.next_append ht _) hb hbelow, Taken.statement_above,
      Taken.lastLine_above, ih hnext hothers, except_map_map, hline]
    rfl
  | @sameLine context line raw lines t statements ht hb _ ih =>
    have hfollows := Taken.next_follows hraw hl ht
    have hcount := hfollows.lastLine_add hraw hl
    rw [parseFrom_sameLine (Taken.next_append ht _) hb, Taken.statement_above,
      Taken.lastLine_above, Taken.rest_above, Taken.following_above,
      ih hfollows.rest_oneLine hfollows.following_oneLine, except_map_map, hcount]
    rfl

/-- Source that leaves nothing open, with more source below it: the statements of
both, or the syntax error of the second, which is counted from its own first line. -/
theorem Module.parse_below {a b : Text} {m : Module} (ha : Module.parse a = .ok m)
    (hclosed : threaded [] m.body = []) :
    ((∃ whole, Module.parse (a ++ '\n' :: b) = .ok whole) ↔ ∃ n, Module.parse b = .ok n) ∧
      (∀ n, Module.parse b = .ok n → Module.parse (a ++ '\n' :: b) =
        .ok ⟨m.body ++ n.body.map (Statement.lower (Text.lines a).length)⟩) ∧
      ∀ e, Module.parse b = .error e → Module.parse (a ++ '\n' :: b) =
        .error ⟨e.line + (Text.lines a).length, e.fault⟩ := by
  obtain ⟨first, following, hfirst, hreads⟩ := Module.reads_of_parse ha
  obtain ⟨below, more, hbelow⟩ := List.exists_cons_of_ne_nil (Text.lines_ne_nil b)
  have hlines : ∀ l ∈ first :: following, '\n' ∉ l := fun l hl =>
    Text.lineFeed_notMem_of_mem_lines (t := a) (by rw [hfirst]; exact hl)
  have hrun := hreads.parseFrom_append (hlines first List.mem_cons_self)
    (fun l hl => hlines l (List.mem_cons_of_mem _ hl)) below more
  have hcount : 1 + following.length + 1 = 1 + (Text.lines a).length := by
    rw [hfirst, List.length_cons, Nat.add_assoc]
  rw [hclosed, hcount, parseFrom_lower] at hrun
  have hb : Module.parse b = (parseFrom [] 1 below more).map Module.mk := by
    rw [Module.parse, hbelow]
  have hwhole : Module.parse (a ++ '\n' :: b) =
      (lowered (Text.lines a).length (parseFrom [] 1 below more)).map
        fun statements => ⟨m.body ++ statements⟩ := by
    rw [Module.parse, Text.lines_append_lineFeed, hfirst, hbelow, List.cons_append]
    simp only [hrun, hfirst, except_map_map]
    rfl
  rw [hb, hwhole]
  cases parseFrom [] 1 below more with
  | error e =>
    refine ⟨⟨fun ⟨whole, h⟩ => ?_, fun ⟨n, h⟩ => ?_⟩, fun n h => ?_, fun e' h => ?_⟩
    · cases h
    · cases h
    · cases h
    · cases h
      rfl
  | ok statements =>
    refine ⟨⟨fun _ => ⟨_, rfl⟩, fun _ => ⟨_, rfl⟩⟩, fun n h => ?_, fun e h => ?_⟩
    · cases h
      rfl
    · cases h

/-- A statement that shares its line and a closed template, above a statement over
two lines and above one that is not finished. -/
theorem Module.parse_below_template :
    ∃ m n, Module.parse "import a from 'b'; f(a)\nlet s = `\n`".toList = .ok m ∧
      threaded [] m.body = [] ∧ Module.parse "export \x7b\na\x7d".toList = .ok n ∧
      Module.parse "x\nexport \x7ba".toList = .error ⟨2, .unterminatedExport⟩ ∧
      Module.parse "import a from 'b'; f(a)\nlet s = `\n`\nexport \x7b\na\x7d".toList =
        .ok ⟨m.body ++ n.body.map (Statement.lower 3)⟩ ∧
      Module.parse "import a from 'b'; f(a)\nlet s = `\n`\nx\nexport \x7ba".toList =
        .error ⟨5, .unterminatedExport⟩ := by
  have ha : Module.parse "import a from 'b'; f(a)\nlet s = `\n`".toList =
      .ok ⟨[.importing ⟨1, "import a from 'b';".toList, ['b'], some ['a'], none, []⟩,
        .code 1 " f(a)".toList, .code 2 "let s = `".toList, .code 3 "`".toList]⟩ := by
    decide +kernel
  have hb : Module.parse "export \x7b\na\x7d".toList =
      .ok ⟨[.exporting ⟨.named, 1, "export \x7b\na\x7d".toList, [], [⟨['a'], ['a']⟩], none⟩]⟩ := by
    decide +kernel
  have hfault : Module.parse "x\nexport \x7ba".toList = .error ⟨2, .unterminatedExport⟩ := by
    decide +kernel
  have hclosed : threaded [] [.importing ⟨1, "import a from 'b';".toList, ['b'], some ['a'], none,
      []⟩, .code 1 " f(a)".toList, .code 2 "let s = `".toList, .code 3 "`".toList] = [] := by
    decide +kernel
  exact ⟨_, _, ha, hclosed, hb, hfault, (Module.parse_below ha hclosed).2.1 _ hb,
    (Module.parse_below ha hclosed).2.2 _ hfault⟩

end ModuleScripts
