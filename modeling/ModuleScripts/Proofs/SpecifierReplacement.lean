import ModuleScripts.Output.Versioned
import ModuleScripts.Proofs.Grounding

/-!
# Replacing a specifier

The specifier of an import or a re-export is its last literal, and every other
specifier in the place of it is read instead. What replaces the specifier looks
for its text between single quotes first, wherever it stands, and between double
quotes only where there is none. So the literal is hit unless it is double-quoted
and the same text is single-quoted in a comment before it; then the comment
changes and the statement goes on naming the old specifier.
-/

namespace ModuleScripts

namespace Text

variable {needle replacement t u r : Text}

/-- Nothing is replaced where nothing occurs. -/
theorem replaceLast?_eq_none (h : ¬needle <:+: t) : replaceLast? needle replacement t = none := by
  by_contra hn
  obtain ⟨u, hu⟩ := Option.ne_none_iff_exists'.1 hn
  obtain ⟨before, behind, rfl, -⟩ := replaceLast?_eq_some hu
  exact h ⟨before, behind, List.append_assoc _ _ _⟩

/-- A text with more of a character than there is does not occur. -/
theorem not_infix_of_count {c : Char} (h : t.count c < needle.count c) : ¬needle <:+: t := by
  intro hi
  have hle := hi.sublist.count_le c
  omega

/-- A replacement in the end of a text is one in the text. -/
theorem replaceLast?_append (h : replaceLast? needle replacement t = some r) (a : Text) :
    replaceLast? needle replacement (a ++ t) = some (a ++ r) := by
  induction a with
  | nil => exact h
  | cons c a ih => rw [List.cons_append, replaceLast?, ih, List.cons_append]

/-- Replacing a text by itself changes nothing. -/
theorem replaceLast?_self (h : replaceLast? needle needle t = some r) : r = t := by
  obtain ⟨before, behind, rfl, rfl⟩ := replaceLast?_eq_some h
  rfl

/-- A text that occurs is replaced where it occurs last, and does not occur further on. -/
theorem replaceLast?_of_infix (hne : needle ≠ []) (h : needle <:+: t) :
    ∃ before behind, t = before ++ (needle ++ behind) ∧ ¬needle <:+: (needle ++ behind).tail ∧
      ∀ replacement, replaceLast? needle replacement t =
        some (before ++ (replacement ++ behind)) := by
  induction t with
  | nil => exact absurd (List.infix_nil.1 h) hne
  | cons c t ih =>
    by_cases hlater : needle <:+: t
    · obtain ⟨before, behind, rfl, hlast, hreplaced⟩ := ih hlater
      refine ⟨c :: before, behind, rfl, hlast, fun replacement => ?_⟩
      rw [replaceLast?, hreplaced]
      rfl
    · obtain ⟨behind, hsplit⟩ := (List.infix_cons_iff.1 h).resolve_right hlater
      have htail : (needle ++ behind).tail = t := by rw [hsplit, List.tail_cons]
      have hdrop : dropPrefix? needle (c :: t) = some behind :=
        dropPrefix?_eq_some_iff.2 hsplit.symm
      refine ⟨[], behind, hsplit.symm, by rwa [htail], fun replacement => ?_⟩
      rw [replaceLast?, replaceLast?_eq_none hlater, hdrop]
      rfl

/-- What holds a character that does not occur in the text is left as it is, and so
is everything behind it in which the text does not occur. -/
theorem replaceLast?_barrier {q : Char} (hq : q ∉ needle) (hne : needle ≠ [])
    (hr : replaceLast? needle replacement r = none) (a : Text) :
    replaceLast? needle replacement (a ++ q :: r) =
      (replaceLast? needle replacement a).map (· ++ q :: r) := by
  induction a with
  | nil =>
    have hnone : dropPrefix? needle [] = none := by
      cases needle with
      | nil => exact absurd rfl hne
      | cons p needle => rfl
    have hempty : replaceLast? needle replacement [] = none := rfl
    have hdrop := dropPrefix?_barrier (a := []) hq r
    rw [List.nil_append, hnone] at hdrop
    rw [List.nil_append, hempty, replaceLast?, hr, hdrop]
    rfl
  | cons c a ih =>
    have hdrop := dropPrefix?_barrier (a := c :: a) hq r
    rw [List.cons_append] at hdrop
    rw [List.cons_append, replaceLast?, ih, hdrop, replaceLast?]
    cases replaceLast? needle replacement a with
    | some replaced => rfl
    | none =>
      cases dropPrefix? needle (c :: a) with
      | none => rfl
      | some rest => simp

end Text

namespace Specifier

section Replacing

variable {a s s' b : Text} {q : Char}

/-- Replacing a specifier by itself leaves the text. -/
theorem replaceQuoted_self (specifier t : Text) : replaceQuoted specifier specifier t = t := by
  unfold replaceQuoted
  split
  · next r hr => exact Text.replaceLast?_self hr
  · cases hr : Text.replaceLast? (quoteWith '"' specifier) (quoteWith '"' specifier) t with
    | none => rfl
    | some r => exact Text.replaceLast?_self hr

/-- A quoted specifier without quotes has two of its quotes. -/
theorem count_quoteWith (hq : isQuote q = true) (hs : QuoteFree s) :
    (quoteWith q s).count q = 2 := by
  have hzero : s.count q = 0 := List.count_eq_zero.2 (notMem_of_quoteFree hq hs)
  simp [quoteWith, hzero]

/-- Nothing is quoted where there are no quotes. -/
theorem not_quoted_of_quoteFree (hq : isQuote q = true) (ha : QuoteFree a) (s : Text) :
    ¬quoteWith q s <:+: a :=
  fun h => notMem_of_quoteFree hq ha (h.subset List.mem_cons_self)

/-- Among texts in these quotes the last literal is the last one. -/
theorem replaceLast?_literal (hq : isQuote q = true) (hs : QuoteFree s) (hb : QuoteFree b)
    (a s' : Text) :
    Text.replaceLast? (quoteWith q s) (quoteWith q s') (a ++ q :: (s ++ q :: b)) =
      some (a ++ q :: (s' ++ q :: b)) := by
  have hfew : (s ++ q :: b).count q = 1 := by
    have hs' : s.count q = 0 := List.count_eq_zero.2 (notMem_of_quoteFree hq hs)
    have hb' : b.count q = 0 := List.count_eq_zero.2 (notMem_of_quoteFree hq hb)
    rw [List.count_append, List.count_cons_self, hs', hb']
  have hlast : ¬quoteWith q s <:+: s ++ q :: b :=
    Text.not_infix_of_count (c := q) (by rw [hfew, count_quoteWith hq hs]; decide)
  have hsplit : ∀ t, q :: (t ++ q :: b) = quoteWith q t ++ b := fun t => by simp [quoteWith]
  refine Text.replaceLast?_append ?_ a
  rw [Text.replaceLast?, Text.replaceLast?_eq_none hlast, Text.dropPrefix?_eq_some_iff.2 (hsplit s),
    hsplit s']
  rfl

/-- In front of a double-quoted literal, single-quoted texts are looked for alone. -/
theorem replaceLast?_single (hs : QuoteFree s) (hb : QuoteFree b) (a s' : Text) :
    Text.replaceLast? (quoteWith '\'' s) (quoteWith '\'' s') (a ++ '"' :: (s ++ '"' :: b)) =
      (Text.replaceLast? (quoteWith '\'' s) (quoteWith '\'' s') a).map
        (· ++ '"' :: (s ++ '"' :: b)) := by
  have hsingle : '\'' ∉ s ++ '"' :: b := by
    simp [notMem_of_quoteFree (q := '\'') rfl hs, notMem_of_quoteFree (q := '\'') rfl hb]
  have hdouble : '"' ∉ quoteWith '\'' s := by
    simp [quoteWith, notMem_of_quoteFree (q := '"') rfl hs]
  have hnone : ¬quoteWith '\'' s <:+: s ++ '"' :: b := fun h =>
    hsingle (h.subset List.mem_cons_self)
  exact Text.replaceLast?_barrier hdouble (List.cons_ne_nil _ _) (Text.replaceLast?_eq_none hnone) a

/-- The last literal is replaced, unless it is double-quoted and its text is also
single-quoted before it. -/
theorem replaceQuoted_literal (hq : isQuote q = true) (hs : QuoteFree s) (hb : QuoteFree b)
    (ha : ¬(q = '"' ∧ quoteWith '\'' s <:+: a)) (s' : Text) :
    replaceQuoted s s' (a ++ q :: (s ++ q :: b)) = a ++ q :: (s' ++ q :: b) := by
  have hquote : q = '\'' ∨ q = '"' := by simpa [isQuote] using hq
  unfold replaceQuoted
  rcases hquote with rfl | rfl
  · rw [replaceLast?_literal hq hs hb]
  · have hnone : ¬quoteWith '\'' s <:+: a := fun h => ha ⟨rfl, h⟩
    rw [replaceLast?_single hs hb, Text.replaceLast?_eq_none hnone, replaceLast?_literal hq hs hb]
    rfl

/-- In front of a double-quoted literal, the last single-quoted text of the same
characters is replaced in its stead. -/
theorem replaceQuoted_of_single (hs : QuoteFree s) (hb : QuoteFree b)
    (ha : quoteWith '\'' s <:+: a) :
    ∃ before behind, a = before ++ (quoteWith '\'' s ++ behind) ∧
      ¬quoteWith '\'' s <:+: s ++ '\'' :: behind ∧
      ∀ s', replaceQuoted s s' (a ++ '"' :: (s ++ '"' :: b)) =
        before ++ (quoteWith '\'' s' ++ (behind ++ '"' :: (s ++ '"' :: b))) := by
  have hne : quoteWith '\'' s ≠ [] := List.cons_ne_nil _ _
  obtain ⟨before, behind, hsplit, hlast, hreplaced⟩ := Text.replaceLast?_of_infix hne ha
  have htail : (quoteWith '\'' s ++ behind).tail = s ++ '\'' :: behind := by simp [quoteWith]
  rw [htail] at hlast
  refine ⟨before, behind, hsplit, hlast, fun s' => ?_⟩
  rw [replaceQuoted, replaceLast?_single hs hb, hreplaced]
  simp

end Replacing

end Specifier

/-- The text is read as the statement, but with this specifier. -/
def Statement.ReadWith (s : Statement) (specifier text : Text) : Prop :=
  match s with
  | code _ _ => False
  | importing i =>
    Import.parse i.line text = .ok { i with text := text, specifier := specifier }
  | exporting e =>
    Export.parseList e.line text = .ok { e with text := text, specifier := some specifier }

/-- The specifier of a statement that a step takes is its last literal, and every
other specifier in its place is read instead. -/
theorem Taken.exists_specifierAt {context : Lexer.Context} {line : Nat} {raw : Text}
    {lines : List Text} {t : Taken} (h : Taken.next context line raw lines = .ok t)
    {specifier : Text} (hs : t.statement.specifier? = some specifier)
    (hfree : QuoteFree specifier) :
    ∃ front q closing, SpecifierAt t.statement.text front q specifier closing ∧
      ∀ other, Quotable other →
        t.statement.ReadWith other (front ++ q :: (other ++ q :: closing)) := by
  cases Taken.next_eq_ok_iff.1 h with
  | code => cases hs
  | importing _ h =>
    obtain ⟨text, following, piece, rest, i, _, hcut, hi, rfl⟩ := Taken.importing_eq_ok_iff.1 h
    obtain rfl := Option.some.inj hs
    have hends := Boundary.importEnd_takesQuoted _ _ _ hcut
    obtain ⟨front, q, closing, hat, hread⟩ := Import.exists_specifierAt hi hends hfree
    have htext : (Statement.importing i).text = piece := (Import.parse_line_text hi).2
    rw [← htext] at hat
    exact ⟨front, q, closing, hat, fun other ho => hread i.line other ho⟩
  | exportList _ h =>
    obtain ⟨text, following, piece, rest, e, _, hcut, he, rfl⟩ := Taken.exportList_eq_ok_iff.1 h
    have hspecifier : e.specifier = some specifier := hs
    have hends : EndsQuoted piece := by
      rcases Export.tame_of_parseList he with ⟨_, _, _, _, hliteral⟩ | ⟨hnone, _⟩
      · exact (Boundary.endsQuoted_or_endsBraced hcut).resolve_right hliteral.not_endsBraced
      · cases hspecifier.symm.trans hnone
    obtain ⟨front, q, closing, hat, hread⟩ :=
      Export.exists_specifierAt he hspecifier hends hfree
    have htext : (Statement.exporting e).text = piece := (Export.parseList_line_text he).2
    rw [← htext] at hat
    exact ⟨front, q, closing, hat, fun other ho => hread e.line other ho⟩
  | exportVariables _ h =>
    obtain ⟨_, _, _, e, _, _, he, rfl⟩ := Taken.exportVariables_eq_ok_iff.1 h
    obtain ⟨names, _, rfl⟩ := map_eq_ok he
    cases hs
  | exportOther _ he => cases (Export.specifier_of_parseLine he).symm.trans hs

/-- A text has one last literal, so its specifier has one place. -/
theorem SpecifierAt.unique {t front front' specifier closing closing' : Text} {q q' : Char}
    (h : SpecifierAt t front q specifier closing)
    (h' : SpecifierAt t front' q' specifier closing') :
    front = front' ∧ q = q' ∧ closing = closing' := by
  have hsplit : (front ++ q :: specifier) ++ q :: closing =
      (front' ++ q' :: specifier) ++ q' :: closing' := by
    simpa using h.text_eq.symm.trans h'.text_eq
  obtain ⟨hopen, hq, hclosing⟩ := eq_of_last (p := isQuote) hsplit h.quote h'.quote
    h.last.quoteFree h'.last.quoteFree
  obtain ⟨hfront, -, -⟩ := eq_of_last (p := isQuote) hopen h.quote h'.quote
    h.quotable.quoteFree h'.quotable.quoteFree
  exact ⟨hfront, hq, hclosing⟩

/-- A specifier without quotes is read from the last literal of its statement, and
replacing it changes what stands between the quotes of this literal and nothing
else, whatever the new specifier, exactly if the literal is single-quoted or the
old specifier is not single-quoted before it. Otherwise the last of these earlier
quotations is changed, and the literal stays. -/
theorem Module.parse_replaceQuoted {source : Text} {m : Module} (h : Module.parse source = .ok m)
    {s : Statement} (hs : s ∈ m.body) {specifier : Text} (hspec : s.specifier? = some specifier)
    (hfree : QuoteFree specifier) :
    ∃ front q closing, SpecifierAt s.text front q specifier closing ∧
      (∀ other, Quotable other → s.ReadWith other (front ++ q :: (other ++ q :: closing))) ∧
      ((∀ new, Specifier.replaceQuoted specifier new s.text =
          front ++ q :: (new ++ q :: closing)) ↔
        ¬(q = '"' ∧ Specifier.quoteWith '\'' specifier <:+: front)) ∧
      (q = '"' ∧ Specifier.quoteWith '\'' specifier <:+: front →
        ∃ before behind, front = before ++ (Specifier.quoteWith '\'' specifier ++ behind) ∧
          ¬Specifier.quoteWith '\'' specifier <:+: specifier ++ '\'' :: behind ∧
          ∀ new, Specifier.replaceQuoted specifier new s.text =
            before ++ (Specifier.quoteWith '\'' new ++
              (behind ++ q :: (specifier ++ q :: closing)))) := by
  obtain ⟨_, _, _, hreads⟩ := Module.reads_of_parse h
  have hplaced : ∀ t ∈ m.body, t.specifier? = some specifier →
      ∃ front q closing, SpecifierAt t.text front q specifier closing ∧
        ∀ other, Quotable other → t.ReadWith other (front ++ q :: (other ++ q :: closing)) :=
    hreads.forall_mem fun ht hspec => Taken.exists_specifierAt ht hspec hfree
  obtain ⟨front, q, closing, hat, hread⟩ := hplaced s hs hspec
  have hclosing := hat.last.quoteFree
  refine ⟨front, q, closing, hat, hread, ⟨fun hits => ?_, fun hfirst new => ?_⟩, ?_⟩
  · rintro ⟨rfl, hsingle⟩
    obtain ⟨before, behind, hsplit, -, hreplaced⟩ :=
      Specifier.replaceQuoted_of_single hfree hclosing hsingle
    -- one more character at the end of the specifier lengthens the earlier quotation
    have hhit := hits (specifier ++ ['x'])
    rw [hat.text_eq, hreplaced, hsplit] at hhit
    simp [Specifier.quoteWith] at hhit
  · rw [hat.text_eq]
    exact Specifier.replaceQuoted_literal hat.quote hfree hclosing hfirst new
  · rintro ⟨rfl, hsingle⟩
    rw [hat.text_eq]
    exact Specifier.replaceQuoted_of_single hfree hclosing hsingle

/-- A double-quoted specifier that a comment holds between double quotes, and another
one between single quotes. -/
theorem Module.parse_replaceQuoted_otherQuotes :
    ∃ m s, Module.parse
        "import \x7b a /* 'y', \"./x.js\" */ \x7d\n  from \"./x.js\" ;".toList = .ok m ∧
      s ∈ m.body ∧ s.specifier? = some "./x.js".toList ∧ QuoteFree "./x.js".toList ∧
      ∀ new, Specifier.replaceQuoted "./x.js".toList new s.text =
        "import \x7b a /* 'y', \"./x.js\" */ \x7d\n  from ".toList ++
          '"' :: (new ++ '"' :: " ;".toList) := by
  let text := "import \x7b a /* 'y', \"./x.js\" */ \x7d\n  from \"./x.js\" ;".toList
  let i : Import := ⟨1, text, "./x.js".toList, none, none, [⟨['a'], ['a']⟩]⟩
  have h : Module.parse text = .ok ⟨[.importing i]⟩ := by decide +kernel
  have hs : .importing i ∈ [Statement.importing i] := List.mem_cons_self
  have hfree : QuoteFree "./x.js".toList := by decide
  obtain ⟨front, q, closing, hat, -, hhits, -⟩ := Module.parse_replaceQuoted h hs rfl hfree
  have htame : Tame "import \x7b a /* 'y', \"./x.js\" */ \x7d\n  from ".toList :=
    ⟨"import \x7b a ".toList, "/* 'y', \"./x.js\" */".toList, " \x7d\n  from ".toList,
      by decide, by decide, by decide, by decide⟩
  have hplace : SpecifierAt text "import \x7b a /* 'y', \"./x.js\" */ \x7d\n  from ".toList '"'
      "./x.js".toList " ;".toList :=
    ⟨by decide, htame, rfl, ⟨hfree, by decide⟩, by decide⟩
  obtain ⟨rfl, rfl, rfl⟩ := hat.unique hplace
  exact ⟨_, _, h, hs, rfl, hfree, hhits.2 (by decide +kernel)⟩

/-- A comment that holds the specifier between single quotes is changed in the place of
the literal, so the versioned statement goes on naming the specifier without a version. -/
theorem Module.parse_replaceQuoted_comment :
    ∃ m i front closing,
      Module.parse "import \x7b a /* './x.js' */ \x7d from \"./x.js\";".toList = .ok m ∧
      m.body = [.importing i] ∧ SpecifierAt i.text front '"' i.specifier closing ∧
      i.specifier = "./x.js".toList ∧
      Specifier.replaceQuoted i.specifier "./x.js?v=1".toList i.text ≠
        front ++ '"' :: ("./x.js?v=1".toList ++ '"' :: closing) ∧
      m.versioned "v=1".toList =
        "import \x7b a /* './x.js?v=1' */ \x7d from \"./x.js\";".toList := by
  let text := "import \x7b a /* './x.js' */ \x7d from \"./x.js\";".toList
  let front := "import \x7b a /* './x.js' */ \x7d from ".toList
  let i : Import := ⟨1, text, "./x.js".toList, none, none, [⟨['a'], ['a']⟩]⟩
  have h : Module.parse text = .ok ⟨[.importing i]⟩ := by decide +kernel
  have htame : Tame front := ⟨"import \x7b a ".toList, "/* './x.js' */".toList,
    " \x7d from ".toList, by decide, by decide, by decide, by decide⟩
  have hplace : SpecifierAt text front '"' "./x.js".toList ";".toList :=
    ⟨by decide, htame, rfl, ⟨by decide, by decide⟩, by decide⟩
  exact ⟨_, i, front, _, h, rfl, hplace, rfl, by decide +kernel, by decide +kernel⟩

end ModuleScripts
