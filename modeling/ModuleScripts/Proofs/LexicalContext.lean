import ModuleScripts.Proofs.CommentFree
import ModuleScripts.Proofs.Requoting

/-!
# Lexical context behind a statement with a literal

The lexer goes through the comments of a statement as comment removal does, so
before the literal of a statement that can be read it is at the top level, at
most inside a line comment. No literal opens a frame there, so every text
between the quotes leaves the top level behind the statement.
-/

namespace ModuleScripts

open Lexer

/-- A text of calm characters around a part that is calm but for its comments. -/
def Tame (t : Text) : Prop :=
  ∃ before part behind, t = before ++ (part ++ behind) ∧ Calm before ∧
    Calm (Comments.remove part) ∧ Calm behind

/-- Calm text is tame. -/
theorem Calm.tame {t : Text} (h : Calm t) : Tame t :=
  ⟨t, [], [], (List.append_nil t).symm, h, by decide, by decide⟩

/-- Calm text holds no quote. -/
theorem Calm.quoteFree {t : Text} (h : Calm t) : QuoteFree t := by
  intro c hc
  cases hq : isQuote c with
  | false => rfl
  | true =>
    have hcalm := h c hc
    simp only [isQuote, Bool.or_eq_true, beq_iff_eq] at hq
    rcases hq with rfl | rfl <;> cases hcalm

/-- A text stays tame behind calm text. -/
theorem Tame.append_left {x t : Text} (hx : Calm x) (ht : Tame t) : Tame (x ++ t) := by
  obtain ⟨before, part, behind, rfl, hbefore, hpart, hbehind⟩ := ht
  exact ⟨x ++ before, part, behind, by simp, calm_append.2 ⟨hx, hbefore⟩, hpart, hbehind⟩

/-- A text stays tame behind a calm character. -/
theorem Tame.cons {c : Char} {t : Text} (hc : isCalm c = true) (ht : Tame t) : Tame (c :: t) :=
  ht.append_left (x := [c]) (List.forall_mem_singleton.2 hc)

/-- A text stays tame before calm text. -/
theorem Tame.append_right {t x : Text} (ht : Tame t) (hx : Calm x) : Tame (t ++ x) := by
  obtain ⟨before, part, behind, rfl, hbefore, hpart, hbehind⟩ := ht
  exact ⟨before, part, behind ++ x, by simp, hbefore, hpart, calm_append.2 ⟨hbehind, hx⟩⟩

namespace Lexer

/-- The state behind a text that nothing follows. -/
theorem run_eq_walk (s : State) (t : Text) : (run s t).2 = (walk none s t).2 := by
  have happend := run_append s t []
  simpa [run] using congrArg Prod.snd happend

/-- A walk over two texts goes on in the second where it stopped in the
first. -/
theorem walk_append (next : Option Char) (s : State) (a b : Text) :
    (walk next s (a ++ b)).2 = (walk next (walk (b.head?.or next) s a).2 b).2 := by
  induction a generalizing s with
  | nil => rfl
  | cons c r ih =>
    simp only [List.cons_append, walk, List.head?_append, ih, Option.or_assoc]

/-- What a single step keeps, a walk keeps. -/
theorem walk_induction {p : State → Prop} {t : Text}
    (hp : ∀ s c next, c ∈ t → p s → p (step s c next).2) (next : Option Char) {s : State}
    (h : p s) : p (walk next s t).2 := by
  induction t generalizing s with
  | nil => exact h
  | cons c r ih =>
    exact ih (fun s d next hd => hp s d next (List.mem_cons_of_mem c hd))
      (hp s c _ List.mem_cons_self h)

/-- At the top level, in code or in a line comment. -/
def Resting (s : State) : Prop := s.context = [] ∧ (s.mode = .plain ∨ s.mode = .lineComment)

/-- At the top level, and between two characters of the text. -/
def Flat (s : State) : Prop := s.context = [] ∧ s.mode ≠ .second

/-- Inside a literal at the top level, or in a line comment. -/
def Quoting (quote : Char) (s : State) : Prop :=
  s.context = [] ∧ (s.mode = .quoted quote ∨ s.mode = .escaped quote ∨ s.mode = .lineComment)

/-- A calm character opens no comment, no template and no string. -/
theorem ne_of_isCalm {c : Char} (h : isCalm c = true) :
    c ≠ '/' ∧ c ≠ templateMark ∧ isQuote c = false := by
  simpa [isCalm, and_assoc] using h

/-- A calm character of top-level code leaves it code. -/
theorem codeStep_calm {c : Char} (h : isCalm c = true) (next : Option Char) :
    codeStep [] c next = (true, ⟨.plain, []⟩) := by
  obtain ⟨hs, ht, hq⟩ := ne_of_isCalm h
  simp [codeStep, hs, ht, ne_of_isQuote_false hq]

/-- A calm character of code leaves the lexer between two characters. -/
theorem codeStep_flat {c : Char} (h : isCalm c = true) (next : Option Char) :
    Flat (codeStep [] c next).2 := by
  rw [codeStep_calm h]
  exact ⟨rfl, by simp⟩

/-- A calm character in code leaves code. -/
theorem step_plain_calm {s : State} {c : Char} (hs : s = ⟨.plain, []⟩) (h : isCalm c = true)
    (next : Option Char) : (step s c next).2 = ⟨.plain, []⟩ := by
  subst hs
  simp only [step, codeStep_calm h]

/-- A calm character at rest leaves rest. -/
theorem step_resting {s : State} {c : Char} (hs : Resting s) (h : isCalm c = true)
    (next : Option Char) : Resting (step s c next).2 := by
  obtain ⟨mode, context⟩ := s
  obtain ⟨hc, hm⟩ := hs
  simp only at hc hm
  subst hc
  rcases hm with rfl | rfl
  · simp only [step, codeStep_calm h]
    exact ⟨rfl, .inl rfl⟩
  · simp only [step]
    split
    · simp only [codeStep_calm h]
      exact ⟨rfl, .inl rfl⟩
    · exact ⟨rfl, .inr rfl⟩

/-- A calm character between two marks leaves the lexer between two. -/
theorem step_flat {s : State} {c : Char} (hs : Flat s) (h : isCalm c = true)
    (next : Option Char) : Flat (step s c next).2 := by
  obtain ⟨mode, context⟩ := s
  obtain ⟨hc, hm⟩ := hs
  simp only at hc hm
  subst hc
  cases mode with
  | plain => exact codeStep_flat h next
  | second => exact absurd rfl hm
  | lineComment =>
    simp only [step]
    split
    · exact codeStep_flat h next
    · exact ⟨rfl, by simp⟩
  | quoted quote =>
    simp only [step, quotedStep]
    split
    · exact ⟨rfl, by simp⟩
    · split <;> exact ⟨rfl, by simp⟩
  | escaped quote => exact ⟨rfl, by simp [step]⟩

/-- The opening quote of a literal. -/
theorem step_quote {s : State} {q : Char} (hs : Resting s) (hq : isQuote q = true)
    (next : Option Char) : Quoting q (step s q next).2 := by
  obtain ⟨mode, context⟩ := s
  obtain ⟨hc, hm⟩ := hs
  simp only at hc hm
  subst hc
  have hquote : q = '\'' ∨ q = '"' := by simpa [isQuote] using hq
  have hslash : q ≠ '/' := by rintro rfl; cases hq
  rcases hm with rfl | rfl
  · simp only [step, codeStep, hslash, false_and, if_false, if_pos hquote]
    exact ⟨rfl, .inl rfl⟩
  · have hline : q ≠ '\n' := by rintro rfl; cases hq
    simp only [step, if_neg hline]
    exact ⟨rfl, .inr (.inr rfl)⟩

/-- A character between the quotes. -/
theorem step_quoting {s : State} {q c : Char} (hs : Quoting q s) (hc : c ≠ q) (hn : c ≠ '\n')
    (next : Option Char) : Quoting q (step s c next).2 := by
  obtain ⟨mode, context⟩ := s
  obtain ⟨hctx, hm⟩ := hs
  simp only at hctx hm
  subst hctx
  rcases hm with rfl | rfl | rfl
  · simp only [step, quotedStep]
    split
    · exact ⟨rfl, .inr (.inl rfl)⟩
    · rw [if_neg (by simp [hc, hn])]
      exact ⟨rfl, .inl rfl⟩
  · exact ⟨rfl, .inl rfl⟩
  · simp only [step, if_neg hn]
    exact ⟨rfl, .inr (.inr rfl)⟩

/-- The quote behind a literal ends it, or is one more character of what the
literal stands in. -/
theorem step_closing_quote {s : State} {q : Char} (hs : Quoting q s) (hq : isQuote q = true)
    (next : Option Char) : Flat (step s q next).2 := by
  obtain ⟨mode, context⟩ := s
  obtain ⟨hctx, hm⟩ := hs
  simp only at hctx hm
  subst hctx
  have hslash : q ≠ '\\' := by rintro rfl; cases hq
  have hline : q ≠ '\n' := by rintro rfl; cases hq
  rcases hm with rfl | rfl | rfl
  · simp [step, quotedStep, hslash, Flat]
  · simp [step, Flat]
  · simp [step, hline, Flat]

end Lexer

namespace Comments.Region

/-- The state of the lexer in a region of top-level code. -/
def state : Region → State
  | code => ⟨.plain, []⟩
  | line => ⟨.lineComment, []⟩
  | opening => ⟨.second, [.comment]⟩
  | block => ⟨.plain, [.comment]⟩
  | closing => ⟨.second, []⟩

/-- A block comment that is open is closed in the text. -/
def Closes (t : Text) : Region → Prop
  | code => True
  | line => True
  | opening => ∃ c r, t = c :: r ∧ hasClosing r = true
  | block => hasClosing t = true
  | closing => t ≠ []

end Comments.Region

namespace Lexer

open Comments

/-- Two slashes open a comment to the end of the line. -/
theorem step_opens_line {next : Option Char} (h : next = some '/') :
    (step (Region.state .code) '/' next).2 = Region.state .line := by
  simp [Region.state, step, codeStep, h]

/-- A slash and a star open a block comment. -/
theorem step_opens_block {next : Option Char} (h : next = some '*') :
    (step (Region.state .code) '/' next).2 = Region.state .opening := by
  simp [Region.state, step, codeStep, h]

/-- A line feed closes a comment to the end of the line. -/
theorem step_closes_line (next : Option Char) :
    (step (Region.state .line) '\n' next).2 = Region.state .code := by
  simp [Region.state, step, codeStep, templateMark]

/-- Any other character stays in a comment to the end of the line. -/
theorem step_in_line {c : Char} (h : c ≠ '\n') (next : Option Char) :
    (step (Region.state .line) c next).2 = Region.state .line := by
  simp [Region.state, step, h]

/-- A star and a slash close a block comment. -/
theorem step_closes_block {next : Option Char} (h : next = some '/') :
    (step (Region.state .block) '*' next).2 = Region.state .closing := by
  simp [Region.state, step, commentStep, h]

/-- Any other character stays in a block comment. -/
theorem step_in_block {c : Char} {next : Option Char} (h : ¬(c = '*' ∧ next = some '/')) :
    (step (Region.state .block) c next).2 = Region.state .block := by
  simp only [Region.state, step, commentStep, if_neg h]

end Lexer

open Comments in
/-- The lexer leaves the comments of a text as comment removal does. -/
theorem walk_region (region : Region) {t : Text}
    (hcalm : Calm (removeFrom region t)) (hcloses : region.Closes t) (next : Option Char) :
    Resting (walk next region.state t).2 := by
  induction t generalizing region with
  | nil =>
    cases region with
    | code => exact ⟨rfl, .inl rfl⟩
    | line => exact ⟨rfl, .inr rfl⟩
    | opening => obtain ⟨c, r, h, _⟩ := hcloses; cases h
    | block => cases hcloses
    | closing => exact absurd rfl hcloses
  | cons c r ih =>
    rw [walk]
    cases region with
    | code =>
      unfold removeFrom at hcalm
      split at hcalm
      · next hline =>
        obtain ⟨rfl, hhead⟩ := hline
        rw [step_opens_line (by rw [hhead]; rfl)]
        exact ih _ hcalm trivial
      · split at hcalm
        · next hblock =>
          obtain ⟨rfl, hhead, hclosing⟩ := hblock
          rw [step_opens_block (by rw [hhead]; rfl)]
          refine ih _ hcalm ?_
          cases r with
          | nil => cases hhead
          | cons d r => exact ⟨d, r, rfl, hclosing⟩
        · obtain ⟨hkept, hcalm⟩ := calm_cons.1 hcalm
          have hstep : (step (Region.state .code) c (r.head?.or next)).2 = Region.state .code :=
            step_plain_calm rfl hkept _
          rw [hstep]
          exact ih _ hcalm trivial
    | line =>
      unfold removeFrom at hcalm
      split at hcalm
      · next hn =>
        subst hn
        rw [step_closes_line]
        exact ih _ (calm_cons.1 hcalm).2 trivial
      · next hn =>
        rw [step_in_line hn]
        exact ih _ hcalm trivial
    | opening =>
      obtain ⟨d, rest, h, hclosing⟩ := hcloses
      obtain ⟨rfl, rfl⟩ := List.cons.inj h
      exact ih .block hcalm hclosing
    | block =>
      -- the closing mark is still to come, so the text goes on behind a star
      have hmark : hasClosing (c :: r) = true := hcloses
      simp only [hasClosing, Bool.or_eq_true, Bool.and_eq_true, decide_eq_true_eq] at hmark
      unfold removeFrom at hcalm
      split at hcalm
      · next hend =>
        obtain ⟨rfl, hhead⟩ := hend
        rw [step_closes_block (by rw [hhead]; rfl)]
        refine ih _ hcalm ?_
        rintro rfl
        cases hhead
      · next hend =>
        have hlater : hasClosing r = true := hmark.resolve_left hend
        have hne : r.head?.or next = r.head? := by
          cases r with
          | nil => cases hlater
          | cons d r => rfl
        rw [hne, step_in_block hend]
        exact ih _ hcalm hlater
    | closing => exact ih .code hcalm trivial

/-- Calm text at rest leaves rest. -/
theorem walk_resting {s : State} {t : Text} (ht : Calm t) (next : Option Char) (hs : Resting s) :
    Resting (walk next s t).2 :=
  walk_induction (p := Resting) (fun _ c next hc hs => step_resting hs (ht c hc) next) next hs

/-- Calm text of top-level code leaves it code. -/
theorem walk_calm {t : Text} (ht : Calm t) (next : Option Char) :
    (walk next ⟨.plain, []⟩ t).2 = ⟨.plain, []⟩ :=
  walk_induction (p := fun s => s = ⟨.plain, []⟩)
    (fun _ c next hc hs => step_plain_calm hs (ht c hc) next) next rfl

/-- Calm text between two marks leaves the lexer between two. -/
theorem walk_flat {s : State} {t : Text} (ht : Calm t) (next : Option Char) (hs : Flat s) :
    Flat (walk next s t).2 :=
  walk_induction (p := Flat) (fun _ c next hc hs => step_flat hs (ht c hc) next) next hs

/-- Text without the quote stays inside the literal. -/
theorem walk_quoting {s : State} {q : Char} {t : Text} (hq : q ∉ t) (hn : '\n' ∉ t)
    (next : Option Char) (hs : Quoting q s) : Quoting q (walk next s t).2 := by
  refine walk_induction (p := Quoting q) (fun _ c next hc hs => ?_) next hs
  refine step_quoting hs ?_ ?_ next
  · rintro rfl
    exact hq hc
  · rintro rfl
    exact hn hc

/-- Before the literal of a statement that can be read the lexer is at the top
level. -/
theorem Tame.walk_resting {t : Text} (h : Tame t) (next : Option Char) :
    Resting (walk next ⟨.plain, []⟩ t).2 := by
  obtain ⟨before, part, behind, rfl, hbefore, hpart, hbehind⟩ := h
  rw [walk_append, walk_calm hbefore, walk_append]
  exact ModuleScripts.walk_resting hbehind next (walk_region .code hpart trivial _)

/-- What closes a statement is calm. -/
theorem Matcher.Closing.calm {t : Text} (h : Matcher.Closing t) : Calm t := by
  intro c hc
  have hclosing := h c hc
  simp only [Matcher.isClosing, Bool.or_eq_true, beq_iff_eq] at hclosing
  rcases hclosing with hb | rfl
  · exact isCalm_of_isBlank hb
  · rfl

/-- Whatever stands between the quotes, nothing is open behind a statement. -/
theorem Lexer.after_literal {a s b : Text} {q : Char} (ht : Tame a) (hq : isQuote q = true)
    (hs : q ∉ s) (hn : '\n' ∉ s) (hb : Matcher.Closing b) :
    after [] (a ++ q :: (s ++ q :: b)) = [] := by
  have hopened := step_quote (ht.walk_resting (some q)) hq
  have hinner := walk_quoting hs hn (some q) (hopened ((s ++ q :: b).head?.or none))
  have hend : Flat (walk none _ (q :: b)).2 :=
    walk_flat hb.calm none (step_closing_quote hinner hq _)
  unfold after
  rw [run_eq_walk, walk_append]
  simp only [List.head?_cons, Option.some_or, walk]
  rw [walk_append]
  exact hend.1

end ModuleScripts
