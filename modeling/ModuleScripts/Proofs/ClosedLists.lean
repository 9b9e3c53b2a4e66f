import ModuleScripts.Proofs.ClosedCode
import ModuleScripts.Proofs.ContextThread

/-!
# Lists of closed declarators

A list of closed declarators is cut at its own commas and at the semicolon behind it,
whatever follows. No line feed in it ends it earlier: what stands before the line feed,
without the blanks at its end, still has something open.
-/

namespace ModuleScripts

namespace Pieces

variable {depth : Int} {c : Char} {mark : Bool} {r : List (Char × Bool)}

/-- A character that is no separator of depth zero belongs to the declarator at hand. -/
theorem cut_cons (h : mark = true → depth = 0 → c ∉ Lexer.separators) :
    cut depth ((c, mark) :: r) = push c (cut (depth + if mark then bracketStep c else 0) r) := by
  have hstop : ∀ d ∈ Lexer.separators, (mark && depth == 0 && c == d) = false := by
    intro d hd
    cases hall : mark && depth == 0 && c == d with
    | false => rfl
    | true =>
      simp only [Bool.and_eq_true, beq_iff_eq] at hall
      exact absurd (hall.2 ▸ hd) (h hall.1.1 hall.1.2)
  rw [cut, hstop ',' (by decide), hstop ';' (by decide)]
  cases mark <;> simp

/-- Only a semicolon of depth zero ends a declaration. -/
theorem cut_cons_rest (h : mark = true → depth = 0 → c ∉ [';']) :
    (cut depth ((c, mark) :: r)).rest =
      (cut (depth + if mark then bracketStep c else 0) r).rest := by
  by_cases hcomma : mark = true ∧ depth = 0 ∧ c = ','
  · obtain ⟨rfl, rfl, rfl⟩ := hcomma
    rfl
  · rw [cut_cons fun hm hd hc => ?_]
    · rfl
    · rcases List.mem_cons.1 hc with hc | hc
      · exact hcomma ⟨hm, hd, hc⟩
      · exact h hm hd hc

end Pieces

namespace Lexer

section Blanks

variable {s : State} {c d quote : Char} {next : Option Char}

/-- A mark stays the same if a blank and not the end of the text follows, unless the
character is in a string or escapes the end. -/
theorem step_mark_before_blank (hd : isBlank d = true) (hc : c ≠ '\\')
    (hq : ∀ quote, (step s c none).2.mode ≠ .quoted quote) :
    (step s c (some d)).1 = (step s c none).1 := by
  have hopens : d ≠ '/' ∧ d ≠ '*' ∧ d ≠ '{' :=
    of_isBlank (p := fun d => d ≠ '/' ∧ d ≠ '*' ∧ d ≠ '{') hd (by decide)
  obtain ⟨hslash, hstar, hbrace⟩ := hopens
  revert hq
  refine step_cases (p := fun f => (∀ quote, (f none).2.mode ≠ .quoted quote) →
    (f (some d)).1 = (f none).1) s c ?code (fun outer _ => ?comment) (fun outer _ => ?template)
    (fun _ => rfl) (fun _ _ _ => rfl) (fun quote => ?quoted) (fun quote _ hq => ?escaped)
  case code =>
    intro hq
    simp only [codeStep, Option.some.injEq, hslash, hstar, reduceCtorEq, and_false,
      if_false] at hq ⊢
    split
    · next hquote => exact absurd (by rw [if_pos hquote]) (hq c)
    · rfl
  case comment => simp [commentStep, hslash]
  case template => simp [templateStep, hbrace]
  case quoted =>
    intro hq
    simp only [quotedStep, if_neg hc] at hq ⊢
    split
    · rfl
    · next hend => exact absurd (by rw [if_neg hend]) (hq quote)
  case escaped => exact absurd rfl (hq quote)

/-- The quote of the string that the lexer is in. -/
def State.quote? (s : State) : Option Char :=
  match s.mode with
  | .quoted quote => some quote
  | .escaped quote => some quote
  | _ => none

/-- What code opens a string with is a quote. -/
theorem quote?_codeStep {context : Context} (h : (codeStep context c next).2.quote? = some quote) :
    isQuote quote = true := by
  unfold codeStep at h
  split at h
  · cases h
  split at h
  · cases h
  split at h
  · next hquote =>
    obtain rfl := Option.some.inj h
    simpa [isQuote] using hquote
  repeat' split at h
  all_goals cases h

/-- A string that is open behind a character was open before it, or the
character is its quote. -/
theorem quote?_step (h : (step s c next).2.quote? = some quote) :
    s.quote? = some quote ∨ isQuote quote = true := by
  obtain ⟨mode, context⟩ := s
  cases mode with
  | second => cases h
  | lineComment =>
    simp only [step] at h
    split at h
    · exact .inr (quote?_codeStep h)
    · cases h
  | quoted q =>
    simp only [step, quotedStep] at h
    split at h
    · exact .inl h
    · split at h
      · cases h
      · exact .inl h
  | escaped q => exact .inl h
  | plain =>
    simp only [step] at h
    split at h
    · simp only [commentStep] at h
      split at h <;> cases h
    · simp only [templateStep] at h
      repeat' split at h
      all_goals cases h
    · exact .inr (quote?_codeStep h)

/-- A string is in quotes. -/
theorem quote?_walk {t : Text} (h : (walk next ⟨.plain, []⟩ t).2.quote? = some quote) :
    isQuote quote = true := by
  have hkeep := walk_induction
    (p := fun s => ∀ quote, s.quote? = some quote → isQuote quote = true)
    (fun s c next (_ : c ∈ t) hs quote hstep => (quote?_step hstep).elim (hs quote) id) next
    (s := ⟨.plain, []⟩) (fun quote hnone => nomatch hnone)
  exact hkeep quote h

end Blanks

/-- Scanning a text is walking over it with nothing behind it. -/
theorem run_eq (s : State) (t : Text) : run s t = walk none s t := by
  have happend := run_append s t []
  simpa [run] using happend

namespace Scans

variable {stops : Text} {next : Option Char} {s behind : State} {depth depth' : Int} {c d : Char}
  {b p r t : Text}

/-- The depth behind a walk is the one before it and what its marked brackets add. -/
theorem finalDepth_eq (h : Scans stops next s depth t behind depth') :
    depth + finalDepth (t.zip (walk next s t).1) = depth' := by
  induction h with
  | nil s depth => exact Int.add_zero depth
  | cons hstep _ _ _ ih =>
    simp only [walk, hstep, List.zip_cons_cons, finalDepth]
    rw [← Int.add_assoc]
    exact ih

/-- A text that a walk goes over without a separator stands at the start of a declarator. -/
theorem cut_append (h : Scans separators next s depth t behind depth')
    (more : List (Char × Bool)) :
    Pieces.cut depth (t.zip (walk next s t).1 ++ more) =
      { Pieces.cut depth' more with first := t ++ (Pieces.cut depth' more).first } := by
  induction h with
  | nil => rfl
  | cons hstep hstop _ _ ih =>
    simp only [walk, hstep, List.zip_cons_cons, List.cons_append]
    rw [Pieces.cut_cons hstop, ih]
    rfl

/-- Without a semicolon of depth zero there is no end. -/
theorem cut_rest (h : Scans [';'] next s depth t behind depth') :
    (Pieces.cut depth (t.zip (walk next s t).1)).rest = none := by
  induction h with
  | nil => rfl
  | cons hstep hstop _ _ ih =>
    simp only [walk, hstep, List.zip_cons_cons]
    rw [Pieces.cut_cons_rest hstop, ih]

/-- To a blank ahead a walk that does not end in a string goes as to the end of the text. -/
theorem before_blank (h : Scans [';'] (some d) s depth t behind depth') (hd : isBlank d = true)
    (hq : ∀ quote, behind.mode ≠ .quoted quote) : Scans [';'] none s depth t behind depth' := by
  induction h with
  | nil s depth => exact .nil s depth
  | @cons s now _ depth _ c r mark hstep hstop hfeed hrest ih =>
    cases r with
    | cons e r => exact .cons hstep hstop hfeed (ih hq)
    | nil =>
      cases hrest
      have hnow : (step s c none).2 = now := by
        rw [← step_before_blank hd]
        exact congrArg Prod.snd hstep
      by_cases hc : c = '\\'
      · subst hc
        have hend : step s '\\' none = ((step s '\\' none).1, now) := Prod.ext rfl hnow
        have hdepth : (depth + if mark then bracketStep '\\' else 0) = depth := by
          cases mark <;> exact Int.add_zero depth
        rw [hdepth]
        exact .keep hend (fun _ => by decide) hfeed (.nil now depth)
      · have hmark : (step s c none).1 = mark := by
          rw [← step_mark_before_blank hd hc (by rwa [hnow])]
          exact congrArg Prod.fst hstep
        exact .cons (Prod.ext hmark hnow) hstop hfeed (.nil _ _)

/-- What is open behind blanks is open before them. -/
theorem held_before_blank (h : Scans stops next s depth b behind depth') (hb : Blank b)
    (hs : ∀ quote, s.quote? = some quote → isQuote quote = true) (hheld : Held behind depth') :
    Held s depth := by
  induction h with
  | nil => exact hheld
  | @cons s now _ depth _ c r mark hstep hstop hfeed _ ih =>
    obtain ⟨hc, hr⟩ := blank_cons.1 hb
    have hnow : now = (step s c (r.head?.or next)).2 := (congrArg Prod.snd hstep).symm
    have hcontext : now.context = s.context := hnow ▸ step_blank_context hc s _
    have hdepth : (depth + if mark then bracketStep c else 0) = depth := by
      have hzero : bracketStep c = 0 := of_isBlank (p := fun c => bracketStep c = 0) hc (by decide)
      simp [hzero]
    obtain ⟨hmode, hopen⟩ := ih hr
      (fun quote hq => (quote?_step (hnow ▸ hq)).elim (hs quote) id) hheld
    rw [hcontext, hdepth] at hopen
    refine ⟨fun quote hquoted => ?_, hopen⟩
    -- a blank neither ends the string nor escapes what follows it
    have hquote : isQuote quote = true := hs quote (by rw [State.quote?, hquoted])
    have hfeed : c ≠ '\n' := hfeed.resolve_right fun hheld => hheld.1 quote hquoted
    have hend : ¬(c = quote ∨ c = '\n') := by
      rintro (rfl | rfl)
      · rw [isQuote_of_isBlank hc] at hquote
        cases hquote
      · exact hfeed rfl
    have hescape : c ≠ '\\' := by
      rintro rfl
      cases hc
    refine hmode quote ?_
    rw [hnow, step, hquoted]
    simp only [quotedStep, if_neg hescape, if_neg hend]

/-- At a line feed something is open. -/
theorem held_at_lineFeed {q : Text} (h : Scans stops next s depth (p ++ '\n' :: q) behind depth') :
    ∃ now depth'', Scans stops (some '\n') s depth p now depth'' ∧ Held now depth'' := by
  obtain ⟨now, depth'', hbefore, hbehind⟩ := h.split
  refine ⟨now, depth'', hbefore, ?_⟩
  cases hbehind with
  | cons _ _ hfeed _ => exact hfeed.resolve_left (absurd rfl)

/-- A list that reaches a line feed with something open is open as well when the blanks
before the line feed are trimmed, and has no end. -/
theorem incomplete_before_lineFeed
    (h : Scans [';'] (some '\n') ⟨.plain, []⟩ 0 p behind depth) (hheld : Held behind depth) :
    (Pieces.cut 0 (marked [] (Text.trimEnd p))).rest = none ∧
      continues (Text.trimEnd p) = true := by
  have hblank : Blank (Text.trailing p) := Text.isBlank_of_mem_trailing
  rw [← Text.trimEnd_append_trailing p] at h
  obtain ⟨now, depth', hkept, htrailing⟩ := h.split
  have hnow : Held now depth' := by
    refine htrailing.held_before_blank hblank (fun quote hq => ?_) hheld
    rw [← hkept.walk_eq] at hq
    exact quote?_walk hq
  have hwhole : Scans [';'] none ⟨.plain, []⟩ 0 (Text.trimEnd p) now depth' := by
    obtain ⟨d, hahead, hd⟩ : ∃ d, (Text.trailing p).head?.or (some '\n') = some d ∧
        isBlank d = true := by
      cases ht : Text.trailing p with
      | nil => exact ⟨'\n', rfl, rfl⟩
      | cons d b => exact ⟨d, rfl, hblank d (by rw [ht]; exact List.mem_cons_self)⟩
    rw [hahead] at hkept
    exact hkept.before_blank hd hnow.1
  have hmarked : marked [] (Text.trimEnd p) =
      (Text.trimEnd p).zip (walk none ⟨.plain, []⟩ (Text.trimEnd p)).1 := by
    rw [marked, marks, run_eq]
  have hdepth : finalDepth (marked [] (Text.trimEnd p)) = depth' := by
    rw [hmarked, ← Int.zero_add (finalDepth _)]
    exact hwhole.finalDepth_eq
  have hafter : after [] (Text.trimEnd p) = now.context := by
    rw [after, run_eq, hwhole.walk_eq]
  refine ⟨by rw [hmarked]; exact hwhole.cut_rest, ?_⟩
  rw [continues, hdepth, hafter]
  rcases hnow.2 with hcontext | hpos
  · simp [hcontext]
  · simp [hpos]

end Scans

end Lexer

section Lists

open Lexer

variable {c : Char} {t : Text}

/-- A separator makes no mark of two characters. -/
theorem Lexer.apart_separator (hc : c ∈ separators) : Apart (some c) := by
  rcases List.mem_pair.1 hc with rfl | rfl <;> exact ⟨by decide, by decide, by decide⟩

/-- Behind a closed text a separator is marked, and the text behind it is scanned from its
start. -/
theorem Lexer.Closed.marked_append (h : Closed .statement t) (hc : c ∈ separators) (r : Text) :
    marked [] (t ++ c :: r) =
      t.zip (walk (some c) ⟨.plain, []⟩ t).1 ++ (c, true) :: marked [] r := by
  have hmark : ∀ next, step ⟨.plain, []⟩ c next = (true, ⟨.plain, []⟩) := by
    rcases List.mem_pair.1 hc with rfl | rfl <;> exact fun _ => rfl
  have hscan : Scans separators (some c) ⟨.plain, []⟩ 0 t ⟨.plain, []⟩ 0 :=
    h.scans ⟨rfl, rfl⟩ (apart_separator hc)
  rw [marked, marks_append_cons, hscan.walk_eq, hmark, List.zip_append (by rw [length_walk])]
  rfl

/-- Cutting what closed declarators join to gives them back, whatever follows the
semicolon. -/
theorem Pieces.cut_join {p : Pieces} (h : ∀ t ∈ p.declarators, Closed .statement t) :
    cut 0 (marked [] p.join) = p := by
  obtain ⟨first, others, rest⟩ := p
  have hscan : ∀ {t next}, Closed .statement t → Apart next →
      Scans separators next ⟨.plain, []⟩ 0 t ⟨.plain, []⟩ 0 :=
    fun ht hnext => ht.scans ⟨rfl, rfl⟩ hnext
  induction others generalizing first with
  | nil =>
    have hfirst : Closed .statement first := h first List.mem_cons_self
    cases rest with
    | none =>
      have hjoin : join ⟨first, [], none⟩ = first := by simp [join, ending]
      have hapart : Apart none := ⟨by decide, by decide, by decide⟩
      have hcut := (hscan hfirst hapart).cut_append []
      rw [List.append_nil] at hcut
      rw [hjoin, marked, marks, run_eq, hcut]
      simp [cut]
    | some rest =>
      have hjoin : join ⟨first, [], some rest⟩ = first ++ ';' :: rest := by simp [join, ending]
      have hcut := (hscan hfirst (apart_separator (c := ';') (by decide))).cut_append
        ((';', true) :: marked [] rest)
      rw [hjoin, hfirst.marked_append (by decide), hcut]
      simp [cut, map_fst_marked]
  | cons next others ih =>
    have hfirst : Closed .statement first := h first List.mem_cons_self
    have hjoin : join ⟨first, next :: others, rest⟩ =
        first ++ ',' :: join ⟨next, others, rest⟩ := by
      simp [join]
    have hothers := ih next fun t ht => h t (List.mem_cons_of_mem first ht)
    have hcut := (hscan hfirst (apart_separator (c := ',') (by decide))).cut_append
      ((',', true) :: marked [] (join ⟨next, others, rest⟩))
    rw [hjoin, hfirst.marked_append (by decide), hcut]
    simp [cut, hothers, separate]

/-- The lexer comes out of a list of closed declarators as it went in. -/
theorem Pieces.scans_list {first : Text} {others : List Text}
    (h : ∀ t ∈ first :: others, Closed .statement t) :
    Scans [';'] (some ';') ⟨.plain, []⟩ 0 (first ++ others.flatMap (',' :: ·)) ⟨.plain, []⟩ 0 := by
  have hscan : ∀ {t c}, Closed .statement t → Apart (some c) →
      Scans [';'] (some c) ⟨.plain, []⟩ 0 t ⟨.plain, []⟩ 0 :=
    fun ht hnext => (ht.scans ⟨rfl, rfl⟩ hnext).mono (by decide)
  induction others generalizing first with
  | nil =>
    rw [List.flatMap_nil, List.append_nil]
    exact hscan (h first List.mem_cons_self) (apart_separator (by decide))
  | cons next others ih =>
    have hothers := ih fun t ht => h t (List.mem_cons_of_mem first ht)
    have hstep : ∀ next, step ⟨.plain, []⟩ ',' next = (true, ⟨.plain, []⟩) := fun _ => rfl
    have hcomma : Scans [';'] (some ';') ⟨.plain, []⟩ 0
        (',' :: (next ++ others.flatMap (',' :: ·))) ⟨.plain, []⟩ 0 :=
      .keep (hstep _) (fun _ => by decide) (.inl (by decide)) hothers
    exact (hscan (h first List.mem_cons_self) (apart_separator (by decide))).append hcomma

end Lists

end ModuleScripts
