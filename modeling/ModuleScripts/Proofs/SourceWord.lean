import ModuleScripts.Proofs.BindingLayout
import ModuleScripts.Proofs.Grounding

/-!
# The word before a specifier

A statement ends behind the first quoted text that the word `from` leads up to,
and its clause ends before that word. In a layout of a statement the only quotes
before the specifier are those in comments. If none of them follows the word
`from`, both searches find the specifier.
-/

namespace ModuleScripts

open Matcher

/-- The text ends with the word `from` and blanks. -/
def EndsFrom (t : Text) : Prop := ∃ before b, t = before ++ ("from".toList ++ b) ∧ Blank b

/-- No quote in the text follows the word `from`. -/
def Unsourced (t : Text) : Prop :=
  ∀ before q behind, t = before ++ q :: behind → isQuote q = true → ¬EndsFrom before

/-- A quote and the text that it encloses, on one line. -/
structure Encloses (q : Char) (s : Text) : Prop where
  /-- It is a quote. -/
  isQuote : isQuote q = true
  /-- The text goes up to the next quote. -/
  notMem : q ∉ s
  /-- The text is on one line. -/
  oneLine : '\n' ∉ s

/-- Between its quotes it is on one line, too. -/
theorem Encloses.lineFeed_notMem {q : Char} {s : Text} (h : Encloses q s) :
    '\n' ∉ q :: (s ++ [q]) := by
  have hq : '\n' ≠ q := by
    rintro rfl
    exact absurd h.isQuote (by decide)
  simp only [List.mem_append, List.mem_cons, List.not_mem_nil, or_false, not_or]
  exact ⟨hq, h.oneLine, hq⟩

/-- A character of a text in two parts is in one of them. -/
theorem Text.exists_of_append_eq {x y u v : Text} {d : Char} (h : x ++ y = u ++ d :: v) :
    (∃ v', x = u ++ d :: v' ∧ v = v' ++ y) ∨ ∃ u', u = x ++ u' ∧ y = u' ++ d :: v := by
  rcases List.append_eq_append_iff.1 h with ⟨more, hu, hy⟩ | ⟨more, hx, hv⟩
  · exact .inr ⟨more, hu, hy⟩
  · cases more with
    | nil => exact .inr ⟨[], by rw [hx]; simp, hv.symm⟩
    | cons e more =>
      obtain ⟨rfl, hmore⟩ := List.cons.inj hv
      exact .inl ⟨more, hx, hmore⟩

/-- A text that ends with the word `from` does so behind another text. -/
theorem EndsFrom.append_left {t : Text} (h : EndsFrom t) (a : Text) : EndsFrom (a ++ t) := by
  obtain ⟨before, b, rfl, hb⟩ := h
  exact ⟨a ++ before, b, (List.append_assoc _ _ _).symm, hb⟩

section Unsourced

variable {a b t : Text}

/-- The end of a text without a source has none. -/
theorem Unsourced.of_append_left (h : Unsourced (a ++ b)) : Unsourced b := by
  intro before q behind hb hq hfrom
  exact h (a ++ before) q behind (by rw [hb, List.append_assoc]) hq (hfrom.append_left a)

/-- The start of a text without a source has none. -/
theorem Unsourced.of_append_right (h : Unsourced (a ++ b)) : Unsourced a := by
  intro before q behind ha hq
  exact h before q (behind ++ b) (by rw [ha]; simp) hq

/-- A text free of quotes has no source. -/
theorem QuoteFree.unsourced (h : QuoteFree t) : Unsourced t := by
  intro before q behind ht hq
  have hfree := h q (by rw [ht]; simp)
  rw [hq] at hfree
  cases hfree

/-- Text without quotes behind it gives no quote a word before it. -/
theorem Unsourced.append_quoteFree (h : Unsourced a) (hb : QuoteFree b) : Unsourced (a ++ b) := by
  intro before q behind ht hq
  rcases Text.exists_of_append_eq ht with ⟨behind', ha, _⟩ | ⟨before', _, hbq⟩
  · exact h before q behind' ha hq
  · have hfree := hb q (by rw [hbq]; simp)
    rw [hq] at hfree
    cases hfree

/-- Text without quotes and without the letter `f` before it does neither. -/
theorem Unsourced.quoteFree_append (h : Unsourced b) (ha : QuoteFree a) (hf : 'f' ∉ a) :
    Unsourced (a ++ b) := by
  intro before q behind ht hq hfrom
  rcases Text.exists_of_append_eq ht with ⟨behind', haq, _⟩ | ⟨before', rfl, hbq⟩
  · have hfree := ha q (by rw [haq]; simp)
    rw [hq] at hfree
    cases hfree
  · obtain ⟨x, y, hxy, hy⟩ := hfrom
    have hword : a ++ before' = x ++ 'f' :: ("rom".toList ++ y) := hxy
    rcases Text.exists_of_append_eq hword with ⟨z, hz, _⟩ | ⟨x', _, hx'⟩
    · exact hf (by rw [hz]; simp)
    · exact h before' q behind hbq hq ⟨x', y, hx', hy⟩

/-- The word `from` is taken with the blanks around it. -/
theorem fromWord_eq_some {word rest : Text} (h : fromWord t = some (word, rest)) :
    ∃ b b', word = b ++ ("from".toList ++ b') ∧ Blank b ∧ Blank b' ∧
      t = b ++ ("from".toList ++ (b' ++ rest)) := by
  obtain ⟨x, r, b', hx, hb', rfl⟩ := andThen_eq_some_iff.1 h
  obtain ⟨b, r', w, hb, hw, rfl⟩ := andThen_eq_some_iff.1 hx
  obtain ⟨rfl, hr'⟩ := literal_eq_some_iff.1 hw
  obtain ⟨htext, hblank⟩ := blanks_eq_some hb
  obtain ⟨htext', hblank'⟩ := blanks_eq_some hb'
  exact ⟨b, b', List.append_assoc _ _ _, hblank, hblank', by rw [htext, hr', htext']⟩

/-- A source starts with the word `from` and a quote. -/
theorem source_eq_some {piece rest : Text} (h : Boundary.source t = some (piece, rest)) :
    ∃ b q behind, t = "from".toList ++ (b ++ q :: behind) ∧ Blank b ∧ isQuote q = true := by
  obtain ⟨x, r, l, hx, hl, rfl⟩ := andThen_eq_some_iff.1 h
  obtain ⟨w, r', b, hw, hb, rfl⟩ := andThen_eq_some_iff.1 hx
  obtain ⟨rfl, rfl⟩ := literal_eq_some_iff.1 hw
  obtain ⟨q, inner, hq, _, rfl, rfl⟩ := quoted_eq_some_iff.1 hl
  obtain ⟨htext, hblank⟩ := blanks_eq_some hb
  exact ⟨b, q, (inner ++ [q]) ++ rest, by rw [htext]; rfl, hblank, by simpa [isQuote] using hq⟩

/-- Where no quote follows `from` there is no specifier to be found. -/
theorem Unsourced.source_eq_none (h : Unsourced (a ++ b)) : Boundary.source b = none := by
  by_contra hn
  obtain ⟨⟨piece, rest⟩, hs⟩ := Option.ne_none_iff_exists'.1 hn
  obtain ⟨blank, q, behind, hb, hblank, hq⟩ := source_eq_some hs
  refine h (a ++ ("from".toList ++ blank)) q behind ?_ hq ⟨a, blank, rfl, hblank⟩
  rw [hb]
  simp

/-- A text without a source has no end of an import. -/
theorem Unsourced.upTo_eq_none (h : Unsourced t) (previous : Option Char) :
    upTo wordMayStart (Boundary.source.andThen Boundary.terminator) previous t = none := by
  by_contra hn
  obtain ⟨⟨piece, rest⟩, hs⟩ := Option.ne_none_iff_exists'.1 hn
  obtain ⟨before, behind, core, rfl, hm, _⟩ := exists_of_upTo_eq_some hs
  rw [Matcher.andThen_eq_none h.source_eq_none] at hm
  cases hm

/-- The word `from` before a quote is the only one, up to there. -/
theorem Unsourced.unique {w w' b b' y y' : Text} {q q' : Char}
    (hu : Unsourced (w ++ ("from".toList ++ b))) (hq : isQuote q = true) (hb' : Blank b')
    (hq' : isQuote q' = true)
    (h : w ++ ("from".toList ++ (b ++ q :: y)) = w' ++ ("from".toList ++ (b' ++ q' :: y')))
    (hle : w'.length ≤ w.length) : w' = w ∧ b' = b ∧ q' = q ∧ y' = y := by
  obtain ⟨x, rfl⟩ : ∃ x, w = w' ++ x := by
    obtain ⟨more, rfl, _⟩ | ⟨more, rfl, _⟩ := List.append_eq_append_iff.1 h
    · simp only [List.length_append] at hle
      have hnil : more = [] := List.eq_nil_of_length_eq_zero (by omega)
      exact ⟨[], by rw [hnil, List.append_nil, List.append_nil]⟩
    · exact ⟨more, rfl⟩
  have hrest : (x ++ ("from".toList ++ b)) ++ q :: y = ("from".toList ++ b') ++ q' :: y' := by
    rw [List.append_assoc w' x] at h
    simpa using List.append_cancel_left h
  have hnoQuote : ∀ c ∈ "from".toList ++ b', isQuote c = false := by
    intro c hc
    rcases List.mem_append.1 hc with hc | hc
    · exact (by decide : QuoteFree "from".toList) c hc
    · exact hb'.quoteFree c hc
  -- the second quote stands neither before the first nor behind it
  have hsame : x ++ ("from".toList ++ b) = "from".toList ++ b' ∧ q' = q ∧ y' = y := by
    rcases List.append_eq_append_iff.1 hrest with ⟨more, hmore, hy⟩ | ⟨more, hmore, hy⟩
    · cases more with
      | nil =>
        obtain ⟨rfl, rfl⟩ := List.cons.inj hy
        exact ⟨by rw [hmore, List.append_nil], rfl, rfl⟩
      | cons c more =>
        have hfree := hnoQuote q (by rw [hmore, (List.cons.inj hy).1]; simp)
        rw [hq] at hfree
        cases hfree
    · cases more with
      | nil =>
        obtain ⟨rfl, rfl⟩ := List.cons.inj hy
        exact ⟨by rw [hmore, List.append_nil], rfl, rfl⟩
      | cons c more =>
        obtain ⟨rfl, _⟩ := List.cons.inj hy
        refine absurd ⟨w', b', rfl, hb'⟩ (hu (w' ++ ("from".toList ++ b')) q' more ?_ hq')
        rw [List.append_assoc w', hmore]
        simp
  obtain ⟨hfrom, rfl, rfl⟩ := hsame
  cases x with
  | nil =>
    have hblanks : b = b' := List.append_cancel_left hfrom
    exact ⟨(List.append_nil w').symm, hblanks.symm, rfl, rfl⟩
  | cons c x =>
    -- a second `from` would start inside the first one or among blanks
    have htail : x ++ ("from".toList ++ b) = "rom".toList ++ b' := (List.cons.inj hfrom).2
    have hmem : 'f' ∈ "rom".toList ++ b' := by
      rw [← htail]
      simp
    rcases List.mem_append.1 hmem with hm | hm
    · exact absurd hm (by decide)
    · exact absurd hm (hb'.notMem (by decide))

end Unsourced

namespace Boundary

variable {s t : Text} {q : Char}

/-- A literal is taken where it stands first. -/
theorem quoted_append (h : Encloses q s) (t : Text) :
    quoted (q :: (s ++ q :: t)) = some (q :: (s ++ [q]), t) := by
  refine quoted_eq_some_iff.2 ⟨q, s, by simpa [isQuote] using h.isQuote, fun c hc => ?_, rfl, by simp⟩
  exact ⟨fun he => h.notMem (he ▸ hc), fun he => h.oneLine (he ▸ hc)⟩

/-- A source is taken where it stands first. -/
theorem source_append {b : Text} (hb : Blank b) (h : Encloses q s) (t : Text) :
    source ("from".toList ++ (b ++ q :: (s ++ q :: t))) =
      some (("from".toList ++ b) ++ q :: (s ++ [q]), t) := by
  have hword : ((literal "from".toList).andThen blanks) ("from".toList ++ (b ++ q :: (s ++ q :: t))) =
      some ("from".toList ++ b, q :: (s ++ q :: t)) :=
    andThen_eq_some_iff.2 ⟨_, _, b, literal_append _ _,
      blanks_append hb (isBlank_of_isQuote h.isQuote) _, rfl⟩
  exact andThen_eq_some_iff.2 ⟨_, _, _, hword, quoted_append h t, rfl⟩

end Boundary

section Searches

variable {w b s t : Text} {q : Char}

/-- A leftmost search finds a match if nothing before it matches. -/
theorem upTo_append {m : Matcher} {start : Option Char → Bool} {previous : Option Char}
    {piece rest : Text} (hm : m t = some (piece, rest))
    (hnone : ∀ x y, w = x ++ y → y ≠ [] → m (y ++ t) = none)
    (hstart : start (w.getLast?.or previous) = true) :
    upTo start m previous (w ++ t) = some (w ++ piece, rest) := by
  induction w generalizing previous with
  | nil =>
    have hprevious : start previous = true := hstart
    cases t with
    | nil => rw [List.append_nil, upTo, if_pos hprevious, hm]; rfl
    | cons c r => rw [List.nil_append, upTo_cons, if_pos hprevious, hm]; rfl
  | cons c w ih =>
    have hhere : (if start previous then m (c :: (w ++ t)) else none) = none := by
      split
      · exact hnone [] (c :: w) rfl (List.cons_ne_nil c w)
      · rfl
    have hlast : w.getLast?.or (some c) = (c :: w).getLast?.or previous := by
      cases w with
      | nil => rfl
      | cons d w => simp [List.getLast?_cons]
    have hbehind : start (w.getLast?.or (some c)) = true := by rw [hlast]; exact hstart
    have hlater := ih (fun x y hw hy => hnone (c :: x) y (by rw [hw]; rfl) hy) hbehind
    rw [List.cons_append, upTo_cons, hhere]
    dsimp only
    rw [hlater]
    rfl

/-- The search for the end of an import finds the specifier. -/
theorem Unsourced.upTo_append {previous : Option Char} {c rest : Text}
    (hu : Unsourced (w ++ ("from".toList ++ b))) (hb : Blank b) (hs : Encloses q s)
    (hstart : wordMayStart (w.getLast?.or previous) = true)
    (hc : Boundary.terminator t = some (c, rest)) :
    upTo wordMayStart (Boundary.source.andThen Boundary.terminator) previous
        (w ++ ("from".toList ++ (b ++ q :: (s ++ q :: t)))) =
      some (w ++ ((("from".toList ++ b) ++ q :: (s ++ [q])) ++ c), rest) := by
  refine ModuleScripts.upTo_append ?_ (fun x y hw hy => ?_) hstart
  · exact andThen_eq_some_iff.2 ⟨_, _, c, Boundary.source_append hb hs t, hc, rfl⟩
  · refine Matcher.andThen_eq_none ?_
    by_contra hn
    obtain ⟨⟨piece, more⟩, hm⟩ := Option.ne_none_iff_exists'.1 hn
    obtain ⟨b', q', behind, heq, hb', hq'⟩ := source_eq_some hm
    have hbegins : y ++ ("from".toList ++ (b ++ q :: (s ++ q :: t))) =
        [] ++ ("from".toList ++ (b' ++ q' :: behind)) := heq
    rw [hw, List.append_assoc] at hu
    have hsame := hu.of_append_left.unique hs.isQuote hb' hq' hbegins (Nat.zero_le _)
    exact hy hsame.1.symm

/-- The final specifier of a text is the literal at its start when the
statement ends behind it. -/
theorem finalSpecifier_append (hs : Encloses q s) (hc : atStatementEnd t = true) :
    finalSpecifier? (q :: (s ++ q :: t)) = some s := by
  have hquote : q = '\'' ∨ q = '"' := by simpa [isQuote] using hs.isQuote
  have hnot := notMem_of_quoteFree hs.isQuote (closing_of_atStatementEnd hc).quoteFree
  rw [finalSpecifier?, if_pos hquote, specifierBefore_literal hs.notMem hnot, if_pos hc]

/-- The word `from` is taken with its blanks where it stands first. -/
theorem fromWord_append {b' : Text} (hb : Blank b) (hb' : Blank b') {c : Char}
    (hc : isBlank c = false) (t : Text) :
    fromWord (b ++ ("from".toList ++ (b' ++ c :: t))) =
      some ((b ++ "from".toList) ++ b', c :: t) := by
  have hword : (blanks.andThen (literal "from".toList)) (b ++ ("from".toList ++ (b' ++ c :: t))) =
      some (b ++ "from".toList, b' ++ c :: t) :=
    andThen_eq_some_iff.2 ⟨b, _, _, blanks_append hb (by decide) _, literal_append _ _, rfl⟩
  exact andThen_eq_some_iff.2 ⟨_, _, b', hword, blanks_append hb' hc t, rfl⟩

/-- The specifier behind the word `from` is the literal there. -/
theorem fromSpecifier_append {b' : Text} (hb : Blank b) (hb' : Blank b') (hs : Encloses q s)
    (hc : atStatementEnd t = true) :
    fromSpecifier? (b ++ ("from".toList ++ (b' ++ q :: (s ++ q :: t)))) = some s := by
  rw [fromSpecifier?, fromWord_append hb hb' (isBlank_of_isQuote hs.isQuote)]
  exact finalSpecifier_append hs hc

/-- The shortest clause is the text before `from`, or that text without blanks at
its end. -/
theorem Unsourced.clauseFrom_append (hw : w ≠ []) (hu : Unsourced (w ++ ("from".toList ++ b)))
    (hb : Blank b) (hs : Encloses q s) (hc : atStatementEnd t = true) :
    ∃ clause blank, w = clause ++ blank ∧ Blank blank ∧
      clauseFrom? (w ++ ("from".toList ++ (b ++ q :: (s ++ q :: t)))) = some (clause, s) := by
  induction w with
  | nil => exact absurd rfl hw
  | cons c w ih =>
    rw [List.cons_append] at hu
    have hlater : Unsourced (w ++ ("from".toList ++ b)) := hu.of_append_left (a := [c])
    rw [List.cons_append, clauseFrom?]
    cases hf : fromSpecifier? (w ++ ("from".toList ++ (b ++ q :: (s ++ q :: t)))) with
    | some specifier =>
      obtain ⟨word, rest, hword, hfinal⟩ : ∃ word rest,
          fromWord (w ++ ("from".toList ++ (b ++ q :: (s ++ q :: t)))) = some (word, rest) ∧
            finalSpecifier? rest = some specifier := by
        unfold fromSpecifier? at hf
        split at hf
        · cases hf
        · next word rest hword => exact ⟨word, rest, hword, hf⟩
      obtain ⟨b₁, b₂, _, hb₁, hb₂, htext⟩ := fromWord_eq_some hword
      obtain ⟨q', closing, hrest, hq', _⟩ := literalBehind_of_finalSpecifier hfinal
      rw [hrest, List.nil_append] at htext
      have hle : b₁.length ≤ w.length := by
        by_contra hlt
        have hmem : 'f' ∈ b₁ := by
          rcases List.append_eq_append_iff.1 htext with ⟨more, hmore, hx⟩ | ⟨more, hmore, _⟩
          · cases more with
            | nil => simp [hmore] at hlt
            | cons d more =>
              have hhead : 'f' = d := (List.cons.inj hx).1
              rw [hmore, ← hhead]
              simp
          · simp [hmore] at hlt
        exact hb₁.notMem (by decide) hmem
      obtain ⟨rfl, rfl, rfl, hy⟩ := hlater.unique hs.isQuote hb₂ hq' htext hle
      have hspecifier : specifier = s := by
        rw [hrest, List.nil_append, hy, finalSpecifier_append hs hc] at hfinal
        exact (Option.some.inj hfinal).symm
      exact ⟨[c], b₁, rfl, hb₁, by rw [hspecifier]⟩
    | none =>
      cases w with
      | nil =>
        have hhere := fromSpecifier_append blank_nil hb hs hc
        rw [hf] at hhere
        cases hhere
      | cons d w =>
        obtain ⟨clause, blank, hclause, hblank, hfound⟩ := ih (List.cons_ne_nil d w) hlater
        refine ⟨c :: clause, blank, by rw [hclause]; rfl, hblank, ?_⟩
        rw [hfound]
        rfl

end Searches

end ModuleScripts
