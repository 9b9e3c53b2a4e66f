import ModuleScripts.Proofs.SourceWord

/-!
# The end of an export list

An export list ends at its first closing brace, unless a star before it starts
a star export of its own. In a layout of a list the only stars are those in
comments, and one of them counts only if the word `from` with a quote follows
it, behind a new name or not.
-/

namespace ModuleScripts

open Matcher

/-- What stands between the star of a star export and its specifier. -/
inductive SourceWords : Text → Prop where
  /-- The word `from`. -/
  | plain {b b' : Text} (hb : Blank b) (hb' : Blank b') : SourceWords (b ++ ("from".toList ++ b'))
  /-- The word `as`, a name and the word `from`. -/
  | renamed {b g r b' b'' : Text} {c : Char} (hb : Blank b) (hg : Blank g) (hne : g ≠ [])
      (hc : isIdentifierStart c = true) (hr : ∀ d ∈ r, isIdentifierPart d = true)
      (hb' : Blank b') (hb'' : Blank b'') :
      SourceWords (b ++ ("as".toList ++ (g ++ (c :: r ++ (b' ++ ("from".toList ++ b''))))))

/-- The text starts with such words and a quote. -/
def LeadsToQuote (t : Text) : Prop :=
  ∃ words q rest, t = words ++ q :: rest ∧ isQuote q = true ∧ SourceWords words

/-- No closing brace stands in the words before a source. -/
theorem SourceWords.brace_notMem {words : Text} (h : SourceWords words) : '}' ∉ words := by
  have hblank : ∀ {b : Text}, Blank b → '}' ∉ b := fun hb => hb.notMem (by decide)
  have hfrom : '}' ∉ "from".toList := by decide
  have has : '}' ∉ "as".toList := by decide
  cases h with
  | plain hb hb' =>
    simp only [List.mem_append, not_or]
    exact ⟨hblank hb, hfrom, hblank hb'⟩
  | @renamed b g r b' b'' c hb hg hne hc hr hb' hb'' =>
    have hname : '}' ∉ c :: r := by
      rw [List.mem_cons, not_or]
      refine ⟨?_, fun hm => ?_⟩
      · rintro rfl
        exact absurd hc (by decide)
      · exact absurd (hr _ hm) (by decide +kernel)
    simp only [List.mem_append, not_or]
    exact ⟨hblank hb, has, hblank hg, hname, hblank hb', hfrom, hblank hb''⟩

/-- The words before a quote do not go beyond a brace. -/
theorem LeadsToQuote.of_append {t more : Text} (h : LeadsToQuote (t ++ '}' :: more)) :
    LeadsToQuote t := by
  obtain ⟨words, q, rest, heq, hq, hwords⟩ := h
  rcases Text.exists_of_append_eq heq with ⟨rest', ht, _⟩ | ⟨words', hw, hbrace⟩
  · exact ⟨words, q, rest', ht, hq, hwords⟩
  · cases words' with
    | nil =>
      have hbq : '}' = q := (List.cons.inj hbrace).1
      rw [← hbq] at hq
      cases hq
    | cons c words' =>
      have hc : '}' = c := (List.cons.inj hbrace).1
      exact absurd (by rw [hw, hc]; simp) hwords.brace_notMem

namespace Boundary

section Star

variable {t piece rest : Text}

/-- What a name of a star export that runs into the word `from` leaves. -/
theorem exists_of_behindName {name : Text} (h : behindName name t = some (piece, rest))
    {c : Char} {r : Text} (hn : name = c :: r) :
    ∃ r' b b' q behind, c :: r ++ t = c :: r' ++ (b ++ ("from".toList ++ (b' ++ q :: behind))) ∧
      (∀ d ∈ r', d ∈ r) ∧ Blank b ∧ Blank b' ∧ isQuote q = true := by
  rcases orElse_eq_some h with hs | hs
  · obtain ⟨b, r', core, hb, hsource, _⟩ := andThen_eq_some_iff.1 hs
    obtain ⟨b', q, behind, hr', hb', hq⟩ := source_eq_some hsource
    obtain ⟨htext, hblank⟩ := blanks_eq_some hb
    exact ⟨r, b, b', q, behind, by rw [htext, hr'], fun d hd => hd, hblank, hb', hq⟩
  · split at hs
    · next hrun =>
      obtain ⟨b, r', core, hb, hquoted, _⟩ := andThen_eq_some_iff.1 hs
      obtain ⟨q, inner, hq, _, rfl, hr'⟩ := quoted_eq_some_iff.1 hquoted
      obtain ⟨htext, hblank⟩ := blanks_eq_some hb
      -- the name is what stands before its last four characters
      obtain ⟨hlong, hlast⟩ := hrun
      have hparts := List.take_append_drop (name.length - 4) name
      rw [hlast] at hparts
      obtain ⟨r₀, hr₀⟩ : ∃ r₀, name.take (name.length - 4) = c :: r₀ := by
        rw [hn]
        cases hk : (c :: r).length - 4 with
        | zero =>
          rw [hn] at hlong
          omega
        | succ k => exact ⟨r.take k, rfl⟩
      have hname : c :: r = c :: (r₀ ++ "from".toList) := by
        rw [← hn, ← hparts, hr₀]
        rfl
      have hr : r = r₀ ++ "from".toList := (List.cons.inj hname).2
      refine ⟨r₀, [], b, q, inner ++ [q] ++ rest, ?_, ?_, blank_nil, hblank,
        by simpa [isQuote] using hq⟩
      · rw [hr, htext, hr']
        simp
      · intro d hd
        rw [hr]
        exact List.mem_append_left _ hd
    · cases hs

/-- A star export starts only where words lead up to a quote. -/
theorem leadsToQuote_of_star (h : star ('*' :: t) = some (piece, rest)) : LeadsToQuote t := by
  obtain ⟨s, r, tail, hs, hwords, _⟩ := andThen_eq_some_iff.1 h
  obtain ⟨rfl, hr⟩ := literal_eq_some_iff.1 hs
  obtain rfl : t = r := (List.cons.inj hr).2
  rcases orElse_eq_some hwords with hrenamed | hplain
  · obtain ⟨w, r', name, hw, hname, _⟩ := andThen_eq_some_iff.1 hrenamed
    obtain ⟨a, r₁, g, ha, hg, _⟩ := andThen_eq_some_iff.1 hw
    obtain ⟨b, r₂, as, hb, has, _⟩ := andThen_eq_some_iff.1 ha
    obtain ⟨rfl, hr₂⟩ := literal_eq_some_iff.1 has
    obtain ⟨hg, hne⟩ := gap_eq_some_iff.1 hg
    obtain ⟨text, r₃, core, htext, hcore, _⟩ := nameFrom_eq_some_iff.1 hname
    obtain ⟨ht, hblank⟩ := blanks_eq_some hb
    obtain ⟨hr₁, hblank'⟩ := blanks_eq_some hg
    have hr' := identifier_exact _ _ _ htext
    obtain ⟨c, n, hn, hc, hparts⟩ : ∃ c n, text = c :: n ∧ isIdentifierStart c = true ∧
        ∀ d ∈ n, isIdentifierPart d = true := by
      cases r' with
      | nil => cases htext
      | cons c n =>
        simp only [identifier] at htext
        split at htext
        · next hs =>
          simp only [Option.some.injEq, Prod.mk.injEq] at htext
          exact ⟨c, _, htext.1.symm, hs, List.all_eq_true.1 List.all_takeWhile⟩
        · cases htext
    obtain ⟨n', b', b'', q, behind, hbehind, hn', hb', hb'', hq⟩ := exists_of_behindName hcore hn
    refine ⟨_, q, behind, ?_, hq, .renamed hblank hblank' hne hc
      (fun d hd => hparts d (hn' d hd)) hb' hb''⟩
    rw [ht, hr₂, hr₁, hr', hn, hbehind]
    simp
  · obtain ⟨b, r', core, hb, hsource, _⟩ := andThen_eq_some_iff.1 hplain
    obtain ⟨b', q, behind, hr', hb', hq⟩ := source_eq_some hsource
    obtain ⟨ht, hblank⟩ := blanks_eq_some hb
    exact ⟨b ++ ("from".toList ++ b'), q, behind, by rw [ht, hr']; simp, hq, .plain hblank hb'⟩

end Star

section Ends

variable {t w piece rest : Text}

/-- Without a quote and without a brace nothing ends. -/
theorem exportListEnd_eq_none (hq : QuoteFree t) (hb : '}' ∉ t) : exportListEnd t = none := by
  by_contra hn
  obtain ⟨⟨piece, rest⟩, hs⟩ := Option.ne_none_iff_exists'.1 hn
  have ht := exportListEnd_exact _ _ _ hs
  rcases endsQuoted_or_endsBraced hs with ⟨front, q, inner, closing, hp, hquote, _⟩ | ⟨front, closing, hp, _⟩
  · have hfree := hq q (by rw [ht, hp]; simp)
    rw [hquote] at hfree
    cases hfree
  · exact hb (by rw [ht, hp]; simp)

/-- The end of a list starts at a star with its words, or at a brace. -/
theorem listEnd_eq_none {c : Char} (hb : c ≠ '}') (hs : c = '*' → ¬LeadsToQuote t) :
    ((orElse star closingBrace).andThen terminator) (c :: t) = none := by
  by_cases hc : c = '*'
  · obtain rfl := hc
    refine andThen_eq_none ((orElse_of_none ?_).trans (andThen_eq_none (literal_cons_eq_none hb _ t)))
    by_contra hn
    obtain ⟨⟨piece, rest⟩, hstar⟩ := Option.ne_none_iff_exists'.1 hn
    exact hs rfl (leadsToQuote_of_star hstar)
  · exact listEnd_cons_eq_none hc hb t

/-- The search for the end of a list gets to the place `t` if there is none
before. -/
theorem exportListEnd_append (hm : ((orElse star closingBrace).andThen terminator) t = some (piece, rest))
    (hb : '}' ∉ w) (hs : ∀ u v, w = u ++ '*' :: v → ¬LeadsToQuote (v ++ t)) :
    exportListEnd (w ++ t) = some (w ++ piece, rest) := by
  refine upTo_append hm (fun x y hw hy => ?_) rfl
  cases y with
  | nil => exact absurd rfl hy
  | cons c y =>
    refine listEnd_eq_none (t := y ++ t) (fun hc => hb ?_) fun hc => ?_
    · rw [hw, hc]
      simp
    · exact hs x y (by rw [hw, hc])

/-- A text without braces in which no star counts has no end. -/
theorem exportListEnd_inside (hb : '}' ∉ w) (hs : ∀ u v, w = u ++ '*' :: v → ¬LeadsToQuote v) :
    exportListEnd w = none := by
  by_contra hn
  obtain ⟨⟨piece, rest⟩, hsome⟩ := Option.ne_none_iff_exists'.1 hn
  obtain ⟨before, behind, core, rfl, hm, _⟩ := exists_of_upTo_eq_some hsome
  cases behind with
  | nil => cases hm
  | cons c behind =>
    have hnone : ((orElse star closingBrace).andThen terminator) (c :: behind) = none := by
      refine listEnd_eq_none (fun hc => hb ?_) fun hc => hs before behind (by rw [hc])
      rw [hc]
      simp
    rw [hnone] at hm
    cases hm

/-- The specifier behind the star of a star export. -/
theorem star_append {b b' s : Text} {q : Char} (hb : Blank b) (hb' : Blank b') (hs : Encloses q s)
    (t : Text) :
    star ('*' :: (b ++ ("from".toList ++ (b' ++ q :: (s ++ q :: t))))) =
      some ('*' :: (b ++ (("from".toList ++ b') ++ q :: (s ++ [q]))), t) := by
  have hblanks := blanks_append hb (c := 'f') rfl ("rom".toList ++ (b' ++ q :: (s ++ q :: t)))
  have hword : (blanks.andThen (literal "as".toList))
      (b ++ 'f' :: ("rom".toList ++ (b' ++ q :: (s ++ q :: t)))) = none :=
    andThen_eq_none_of_some hblanks rfl
  have hrenamed : renamedFrom (b ++ 'f' :: ("rom".toList ++ (b' ++ q :: (s ++ q :: t)))) = none :=
    andThen_eq_none (andThen_eq_none hword)
  refine andThen_eq_some_iff.2 ⟨['*'], _, _, literal_append ['*'] _,
    (orElse_of_none hrenamed).trans ?_, rfl⟩
  exact andThen_eq_some_iff.2 ⟨b, _, _, hblanks, source_append hb' hs t, rfl⟩

/-- The new name and the specifier behind the star of a star export. -/
theorem starAs_append {b g g' b' s : Text} {q : Char} (hb : Blank b) (hg : Blank g) (hne : g ≠ [])
    (n : Name) (hg' : Blank g') (hne' : g' ≠ []) (hb' : Blank b') (hs : Encloses q s) (t : Text) :
    star ('*' :: (b ++ ("as".toList ++ (g ++ (n.text ++
        (g' ++ ("from".toList ++ (b' ++ q :: (s ++ q :: t))))))))) =
      some ('*' :: (((b ++ "as".toList) ++ g) ++ (n.text ++
        (g' ++ (("from".toList ++ b') ++ q :: (s ++ [q]))))), t) := by
  have hbehind : behindName n.text (g' ++ ("from".toList ++ (b' ++ q :: (s ++ q :: t)))) =
      some (g' ++ (("from".toList ++ b') ++ q :: (s ++ [q])), t) := by
    refine orElse_of_some (andThen_eq_some_iff.2 ⟨g', _, _, ?_, source_append hb' hs t, rfl⟩)
    exact blanks_append hg' (c := 'f') rfl _
  have hname : nameFrom (n.text ++ (g' ++ ("from".toList ++ (b' ++ q :: (s ++ q :: t))))) =
      some (n.text ++ (g' ++ (("from".toList ++ b') ++ q :: (s ++ [q]))), t) :=
    nameFrom_eq_some_iff.2 ⟨_, _, _, n.identifier_append_gap hg' hne' _, hbehind, rfl⟩
  refine andThen_eq_some_iff.2 ⟨['*'], _, _, literal_append ['*'] _, orElse_of_some ?_, rfl⟩
  exact andThen_eq_some_iff.2 ⟨_, _, _, asWord_append hb hg hne n _, hname, rfl⟩

end Ends

end Boundary

end ModuleScripts
