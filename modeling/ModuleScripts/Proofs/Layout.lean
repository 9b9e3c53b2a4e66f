import ModuleScripts.Proofs.Reading

/-!
# Layout of a parsed module

The texts of the statements, each behind the other with a separator between
them, are the source again. A separator is at most the blank end of a line with
its line feed, so the parser drops nothing else, and the line of a statement is
counted by the line feeds before it.
-/

namespace ModuleScripts

namespace Text

/-- No line holds a line feed. -/
theorem lineFeed_notMem_of_mem_lines {t l : Text} (h : l ∈ lines t) : '\n' ∉ l := by
  unfold lines at h
  induction t generalizing l with
  | nil =>
    rw [List.splitOn_nil, List.mem_singleton] at h
    rw [h]
    exact List.not_mem_nil
  | cons c r ih =>
    by_cases hc : c = '\n'
    · rw [hc, splitOn_cons_self] at h
      rcases List.mem_cons.1 h with rfl | hl
      · exact List.not_mem_nil
      · exact ih hl
    · obtain ⟨piece, pieces, hs⟩ := List.exists_cons_of_ne_nil (List.splitOn_ne_nil '\n' r)
      rw [splitOn_cons_of_ne hc hs] at h
      rcases List.mem_cons.1 h with rfl | hl
      · rw [List.mem_cons, not_or]
        exact ⟨fun he => hc he.symm, ih (hs ▸ List.mem_cons_self)⟩
      · exact ih (hs ▸ List.mem_cons_of_mem _ hl)

/-- The lines of a text hold no line feed. -/
theorem lineFeed_notMem_of_lines {t : Text} {parts : List Text} (h : lines t = parts) :
    ∀ l ∈ parts, '\n' ∉ l :=
  fun _ hl => lineFeed_notMem_of_mem_lines (h ▸ hl)

/-- Blanks of a single line. -/
def OneLineBlank (t : Text) : Prop := allBlank t = true ∧ '\n' ∉ t

end Text

/-- What is still to be read is its lines with line feeds between them. -/
theorem unread_eq_intercalate (raw : Text) (lines : List Text) :
    unread raw lines = List.intercalate ['\n'] (raw :: lines) := by
  induction lines generalizing raw with
  | nil => simp [unread, List.intercalate]
  | cons line lines ih =>
    have : unread raw (line :: lines) = raw ++ '\n' :: unread line lines := by simp [unread]
    rw [this, ih]
    simp [List.intercalate, List.intersperse]

/-- Reading starts with all of the source unread. -/
theorem unread_lines {source first : Text} {following : List Text}
    (h : Text.lines source = first :: following) : unread first following = source := by
  rw [unread_eq_intercalate, ← h]
  exact List.intercalate_splitOn '\n'

/-- The statements as written, each with the separator behind it. -/
def weave (body : List Statement) (separators : List Text) : Text :=
  (List.zipWith (fun s separator => s.text ++ separator) body separators).flatten

/-- A statement comes first with its separator, and the others behind it. -/
theorem weave_cons (s : Statement) (body : List Statement) (separator : Text)
    (separators : List Text) :
    weave (s :: body) (separator :: separators) = s.text ++ separator ++ weave body separators :=
  rfl

/-- What may stand behind a statement that others follow: nothing, or the blank
end of its last line with the line feed. -/
def IsSeparator (t : Text) : Prop := t = [] ∨ ∃ blank, Text.OneLineBlank blank ∧ t = blank ++ ['\n']

/-- Source text as statements and separators, from a line on. -/
structure Layout (first : Nat) (source : Text) (body : List Statement)
    (separators : List Text) : Prop where
  /-- Every statement has its separator. -/
  length_eq : separators.length = body.length
  /-- Together they are the source. -/
  source_eq : source = weave body separators
  /-- Only behind the last statement the line feed may be missing. -/
  separator_form : ∀ k (hk : k < separators.length),
    IsSeparator separators[k] ∨ k + 1 = separators.length ∧ Text.OneLineBlank separators[k]
  /-- A statement is numbered by the line feeds before it. -/
  line_eq : ∀ k (hk : k < body.length),
    body[k].line = first + Text.lineFeeds (weave (body.take k) (separators.take k))
  /-- Nothing stands between two statements exactly if the second starts on the
  line on which the first ends. -/
  separator_eq_nil_iff : ∀ k (hk : k + 1 < body.length) (hs : k < separators.length),
    separators[k] = [] ↔ body[k + 1].line = body[k].line + Text.lineFeeds body[k].text

/-- A separator that is there holds one line feed. -/
theorem IsSeparator.lineFeeds_eq {t : Text} (h : IsSeparator t) :
    Text.lineFeeds t = if t = [] then 0 else 1 := by
  obtain rfl | ⟨blank, hb, rfl⟩ := h
  · rfl
  · rw [Text.lineFeeds_append, Text.lineFeeds_of_oneLine hb.2, if_neg (by simp)]
    rfl

namespace Layout

variable {first : Nat} {source separator : Text} {s : Statement} {body : List Statement}
  {separators : List Text}

/-- A single statement with the blanks behind it. -/
theorem single (hs : s.line = first) (hb : Text.OneLineBlank separator) :
    Layout first (s.text ++ separator) [s] [separator] where
  length_eq := rfl
  source_eq := by simp [weave]
  separator_form := by
    intro k hk
    obtain rfl : k = 0 := by simpa using hk
    exact .inr ⟨rfl, hb⟩
  line_eq := by
    intro k hk
    obtain rfl : k = 0 := by simpa using hk
    exact hs
  separator_eq_nil_iff := by
    intro k hk
    simp at hk

/-- A statement and its separator before others. -/
theorem cons (hs : s.line = first) (hb : IsSeparator separator)
    (h : Layout (first + Text.lineFeeds s.text + Text.lineFeeds separator) source body separators) :
    Layout first (s.text ++ separator ++ source) (s :: body) (separator :: separators) where
  length_eq := congrArg (· + 1) h.length_eq
  source_eq := by rw [weave_cons, ← h.source_eq]
  separator_form := by
    intro k hk
    cases k with
    | zero => exact .inl hb
    | succ k =>
      refine (h.separator_form k (by simpa using hk)).imp_right fun hl => ⟨?_, hl.2⟩
      rw [List.length_cons, ← hl.1]
  line_eq := by
    intro k hk
    cases k with
    | zero => exact hs
    | succ k =>
      have hk := h.line_eq k (by simpa using hk)
      have hw : Text.lineFeeds (weave (s :: body.take k) (separator :: separators.take k)) =
          Text.lineFeeds s.text + Text.lineFeeds separator +
            Text.lineFeeds (weave (body.take k) (separators.take k)) := by
        simp only [weave_cons, Text.lineFeeds_append]
      rw [List.getElem_cons_succ, List.take_succ_cons, List.take_succ_cons, hk, hw]
      omega
  separator_eq_nil_iff := by
    intro k hk hsep
    cases k with
    | zero =>
      have hnext := h.line_eq 0 (by simpa using hk)
      have hn := hb.lineFeeds_eq
      simp only [List.take_zero, List.getElem_cons_succ, List.getElem_cons_zero] at hnext ⊢
      rw [hnext, hs, hn]
      have hw : Text.lineFeeds (weave [] []) = 0 := rfl
      by_cases he : separator = []
      · simp [he, hw]
      · simp [he, hw]
    | succ k => exact h.separator_eq_nil_iff k (by simpa using hk) (by simpa using hsep)

end Layout

/-- A run lays out all that was unread, each step one statement. -/
theorem Reads.layout {context : Lexer.Context} {line : Nat} {raw : Text} {lines : List Text}
    {statements : List Statement} (h : Reads context line raw lines statements)
    (hraw : '\n' ∉ raw) (hl : ∀ l ∈ lines, '\n' ∉ l) :
    ∃ separators, Layout line (unread raw lines) statements separators := by
  induction h with
  | @last context line raw lines t ht hb hd =>
    have hf := Taken.next_follows hraw hl ht
    refine ⟨[t.rest], ?_⟩
    have hu : unread raw lines = t.statement.text ++ t.rest := by
      rw [hf.unread_eq, hd, unread_nil]
    rw [hu]
    exact .single hf.line_eq ⟨hb, hf.rest_oneLine⟩
  | @nextLine context line raw next lines more t statements ht hb hd _ ih =>
    have hf := Taken.next_follows hraw hl ht
    obtain ⟨hnext, hmore⟩ := hf.next_oneLine hd
    obtain ⟨separators, hs⟩ := ih hnext hmore
    refine ⟨(t.rest ++ ['\n']) :: separators, ?_⟩
    have hu : unread raw lines = t.statement.text ++ (t.rest ++ ['\n']) ++ unread next more := by
      rw [hf.unread_eq, hd]
      simp [unread]
    have hsep : IsSeparator (t.rest ++ ['\n']) := .inr ⟨t.rest, ⟨hb, hf.rest_oneLine⟩, rfl⟩
    have hline : t.lastLine + 1 =
        line + Text.lineFeeds t.statement.text + Text.lineFeeds (t.rest ++ ['\n']) := by
      rw [hsep.lineFeeds_eq, if_neg (by simp), hf.lastLine_eq]
    rw [hu]
    exact .cons hf.line_eq hsep (hline ▸ hs)
  | @sameLine context line raw lines t statements ht hb _ ih =>
    have hf := Taken.next_follows hraw hl ht
    obtain ⟨separators, hs⟩ := ih hf.rest_oneLine hf.following_oneLine
    refine ⟨[] :: separators, ?_⟩
    have hu : unread raw lines = t.statement.text ++ [] ++ unread t.rest t.following := by
      rw [hf.unread_eq, List.append_nil]
    rw [hu]
    exact .cons hf.line_eq (.inl rfl) (hf.lastLine_eq ▸ hs)

/-- The statements of a module, each with a separator that is at most the blank
end of its last line, are its source, and their lines are counted from one. -/
theorem Module.parse_layout {source : Text} {m : Module} (h : Module.parse source = .ok m) :
    ∃ separators, Layout 1 source m.body separators := by
  obtain ⟨first, following, hs, hr⟩ := Module.reads_of_parse h
  have hl : ∀ l ∈ first :: following, '\n' ∉ l := fun l hm =>
    Text.lineFeed_notMem_of_mem_lines (t := source) (by rw [hs]; exact hm)
  obtain ⟨separators, hw⟩ := hr.layout (hl first List.mem_cons_self)
    (fun l hm => hl l (List.mem_cons_of_mem _ hm))
  rw [unread_lines hs] at hw
  exact ⟨separators, hw⟩

/-- An import with code behind it in its line, and a last line that is blank. -/
theorem Module.parse_layout_shared_line :
    ∃ m, Module.parse "import a from 'b'; f(a)\n\tx = 1 \n  ".toList = .ok m ∧
      ∃ separators, Layout 1 "import a from 'b'; f(a)\n\tx = 1 \n  ".toList m.body separators := by
  have h : Module.parse "import a from 'b'; f(a)\n\tx = 1 \n  ".toList =
      .ok ⟨[.importing ⟨1, "import a from 'b';".toList, ['b'], some ['a'], none, []⟩,
        .code 1 " f(a)".toList, .code 2 "\tx = 1 ".toList, .code 3 "  ".toList]⟩ := by
    decide +kernel
  exact ⟨_, h, Module.parse_layout h⟩

end ModuleScripts
