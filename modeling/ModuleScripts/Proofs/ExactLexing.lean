import ModuleScripts.Proofs.ClosedLists
import ModuleScripts.Proofs.FrameNesting

/-!
# The lexer on well-formed source

Source is well formed if every string, block comment and template that it opens is closed
in it, and in the same way the code inside the substitutions of its templates, to any
depth, where braces are paired as well. The lexer reports exactly the characters of its
top-level code, a string and a template by their last character, and nothing is open at its
end.
-/

namespace ModuleScripts.Lexer

/-- Where a piece of source stands. -/
inductive Level where
  /-- Outside all templates. -/
  | top
  /-- In the code of a substitution. -/
  | substitution
  /-- In the text of a template. -/
  | template
  deriving DecidableEq

/-- A character that stands for itself, with the character after it. -/
def Level.Plain (c : Char) (next : Option Char) : Level → Prop
  | top => IsCode c next
  | substitution => Region.substitution.Plain c next
  | template => Region.template.Plain c next

instance (c : Char) (next : Option Char) : (level : Level) → Decidable (level.Plain c next)
  | .top => inferInstanceAs (Decidable (IsCode c next))
  | .substitution => inferInstanceAs (Decidable (Region.substitution.Plain c next))
  | .template => inferInstanceAs (Decidable (Region.template.Plain c next))

/-- An offset before later ones. It counts at the top level only. -/
def Level.count (i : Nat) (later : List Nat) : Level → List Nat
  | top => i :: later
  | substitution => later
  | template => later

/-- Well-formed source from an offset on, with the offsets that count as top-level code. -/
inductive WellFormed : Level → Nat → Text → List Nat → Prop where
  /-- Nothing. -/
  | nil (level : Level) (i : Nat) : WellFormed level i [] []
  /-- A character that stands for itself. -/
  | plain {level : Level} {i : Nat} {c : Char} {t : Text} {later : List Nat}
    (hc : level.Plain c t.head?) (ht : WellFormed level (i + 1) t later) :
    WellFormed level i (c :: t) (level.count i later)
  /-- A string counts by its closing quote. -/
  | string {level : Level} {i : Nat} {quote : Char} {body t : Text} {later : List Nat}
    (hcode : level ≠ .template) (hquote : isQuote quote = true) (hbody : QuotedBody quote body)
    (ht : WellFormed level (i + body.length + 2) t later) :
    WellFormed level i (quote :: (body ++ quote :: t)) (level.count (i + body.length + 1) later)
  /-- A line comment does not count, but the line feed behind it does. -/
  | lineComment {level : Level} {i : Nat} {body t : Text} {later : List Nat}
    (hcode : level ≠ .template) (hline : '\n' ∉ body)
    (ht : WellFormed level (i + body.length + 3) t later) :
    WellFormed level i ('/' :: '/' :: (body ++ '\n' :: t)) (level.count (i + body.length + 2) later)
  /-- A line comment up to the end of the source. -/
  | lastComment {i : Nat} {body : Text} (hline : '\n' ∉ body) :
    WellFormed .top i ('/' :: '/' :: body) []
  /-- A block comment does not count. -/
  | blockComment {level : Level} {i : Nat} {body t : Text} {later : List Nat}
    (hcode : level ≠ .template) (hbody : Comments.hasClosing body = false)
    (ht : WellFormed level (i + body.length + 4) t later) :
    WellFormed level i ('/' :: '*' :: (body ++ '*' :: '/' :: t)) later
  /-- A template counts by its closing mark, and nothing in it counts. -/
  | template {level : Level} {i : Nat} {body t : Text} {later : List Nat}
    (hcode : level ≠ .template) (hbody : WellFormed .template (i + 1) body [])
    (ht : WellFormed level (i + body.length + 2) t later) :
    WellFormed level i (templateMark :: (body ++ templateMark :: t))
      (level.count (i + body.length + 1) later)
  /-- A pair of braces in a substitution. -/
  | brace {i : Nat} {body t : Text} (hbody : WellFormed .substitution (i + 1) body [])
    (ht : WellFormed .substitution (i + body.length + 2) t []) :
    WellFormed .substitution i ('{' :: (body ++ '}' :: t)) []
  /-- A character behind a backslash in a template. -/
  | escaped {i : Nat} {c : Char} {t : Text} (ht : WellFormed .template (i + 2) t []) :
    WellFormed .template i ('\\' :: c :: t) []
  /-- A substitution in a template. -/
  | substitution {i : Nat} {body t : Text} (hbody : WellFormed .substitution (i + 2) body [])
    (ht : WellFormed .template (i + body.length + 3) t []) :
    WellFormed .template i ('$' :: '{' :: (body ++ '}' :: t)) []

/-- Where the lexer stands at a level. -/
def Level.Fits (context : Context) : Level → Prop
  | top => context = []
  | substitution => ∃ outer, context = .substitution :: outer ∨ context = .brace :: outer
  | template => ∃ outer, context = .template :: outer

section Pieces

variable {context : Context} {next : Option Char} {c : Char} {r : Text} {level : Level}

/-- At every level but that of a template code stands. -/
theorem Level.Fits.inCode (h : level.Fits context) (hcode : level ≠ .template) :
    InCode context := by
  cases level with
  | top => rw [show context = [] from h]; rfl
  | substitution => obtain ⟨outer, rfl | rfl⟩ := h <;> rfl
  | template => exact absurd rfl hcode

/-- An offset counts if nothing is open. -/
theorem Level.Fits.count_eq (h : level.Fits context) (i : Nat) (later : List Nat) :
    level.count i later = if context.isEmpty then i :: later else later := by
  cases level with
  | top => rw [show context = [] from h]; rfl
  | substitution => obtain ⟨outer, rfl | rfl⟩ := h <;> rfl
  | template => obtain ⟨outer, rfl⟩ := h; rfl

/-- Where code stands the lexer reads code. -/
theorem step_of_inCode (h : InCode context) (c : Char) (next : Option Char) :
    step ⟨.plain, context⟩ c next = codeStep context c next := by
  cases context with
  | nil => rfl
  | cons frame outer =>
    cases frame with
    | comment => cases h
    | template => cases h
    | substitution => rfl
    | brace => rfl

/-- A character that stands for itself counts if nothing is open. -/
theorem Level.Plain.step_eq (h : level.Plain c r.head?) (hfits : level.Fits context)
    (hnext : Apart next) :
    step ⟨.plain, context⟩ c (r.head?.or next) = (context.isEmpty, ⟨.plain, context⟩) := by
  cases level with
  | top =>
    obtain rfl : context = [] := hfits
    exact codeStep_of_isCode (IsCode.or h hnext)
  | substitution =>
    have hplain : Region.substitution.Plain c r.head? := h
    have hregion : Region.substitution.Fits context 0 := hfits
    exact hplain.step_eq hregion hnext
  | template =>
    have hplain : Region.template.Plain c r.head? := h
    have hregion : Region.template.Fits context 0 := hfits
    exact hplain.step_eq hregion hnext

/-- A line feed ends a line comment, and counts if nothing is open. -/
theorem step_ends_line (context : Context) (next : Option Char) :
    step ⟨.lineComment, context⟩ '\n' next = (context.isEmpty, ⟨.plain, context⟩) := by
  have hcode : IsCode '\n' next := ⟨rfl, by decide, fun h => absurd h.1 (by decide)⟩
  have hstep : step ⟨.lineComment, context⟩ '\n' next = codeStep context '\n' next := by
    simp only [step, if_true]
  rw [hstep, codeStep_of_isCode hcode]
  cases context <;> rfl

/-- The marks of two texts one after the other. -/
theorem walk_append_marks (next : Option Char) (s : State) (a b : Text) :
    (walk next s (a ++ b)).1 = (walk (b.head?.or next) s a).1 ++
      (walk next (walk (b.head?.or next) s a).2 b).1 := by
  induction a generalizing s with
  | nil => rfl
  | cons c r ih =>
    simp only [List.cons_append, walk, List.head?_append, ih, Option.or_assoc]

end Pieces

/-- A walk over a text that `next` follows: its marks, counted from an offset on, and the
state behind it. -/
structure Reports (next : Option Char) (s : State) (i : Nat) (t : Text) (offsets : List Nat)
    (behind : State) : Prop where
  /-- The offsets of the marks. -/
  marked : (walk next s t).1.findIdxs id i = offsets
  /-- The state behind the walk. -/
  reached : (walk next s t).2 = behind

namespace Reports

variable {context : Context} {next : Option Char} {s now behind : State} {i : Nat}
  {c quote : Char} {a b body r t : Text} {offsets : List Nat} {mark : Bool}

/-- The empty text has no mark. -/
theorem nil (next : Option Char) (s : State) (i : Nat) : Reports next s i [] [] s := ⟨rfl, rfl⟩

/-- One more character. -/
theorem cons (hstep : step s c (r.head?.or next) = (mark, now))
    (hrest : Reports next now (i + 1) r offsets behind) :
    Reports next s i (c :: r) (if mark then i :: offsets else offsets) behind := by
  obtain ⟨hmarked, hreached⟩ := hrest
  refine ⟨?_, ?_⟩
  · rw [walk, hstep, List.findIdxs_cons, hmarked]
    rfl
  · rw [walk, hstep]
    exact hreached

/-- A character that is not marked. -/
theorem skip (hstep : step s c (r.head?.or next) = (false, now))
    (hrest : Reports next now (i + 1) r offsets behind) :
    Reports next s i (c :: r) offsets behind :=
  cons hstep hrest

/-- A text without marks before another one. -/
theorem append (ha : Reports (b.head?.or next) s i a [] now)
    (hb : Reports next now (i + a.length) b offsets behind) :
    Reports next s i (a ++ b) offsets behind := by
  obtain ⟨hmarked, hreached⟩ := hb
  refine ⟨?_, ?_⟩
  · rw [walk_append_marks, List.findIdxs_append, ha.marked, length_walk, ha.reached]
    exact hmarked
  · rw [walk_append, ha.reached]
    exact hreached

/-- The same walk counted from an equal offset. -/
theorem cast {j : Nat} (h : Reports next s i t offsets behind) (hij : i = j) :
    Reports next s j t offsets behind := hij ▸ h

/-- The body of a string. -/
theorem quotedBody (h : QuotedBody quote body) (hr : r ≠ [])
    (hrest : Reports next ⟨.quoted quote, context⟩ (i + body.length) r offsets behind) :
    Reports next ⟨.quoted quote, context⟩ i (body ++ r) offsets behind := by
  induction h generalizing i with
  | nil => exact hrest
  | @char c t hquote hescape hline _ ih =>
    refine skip (r := t ++ r) (step_in_string hquote hescape hline (ahead_isNone hr next t))
      (ih (hrest.cast ?_))
    rw [List.length_cons]
    omega
  | @escaped c t _ ih =>
    refine skip (r := c :: (t ++ r)) (step_escapes c)
      (skip (step_escaped (ahead_isNone hr next t)) (ih (hrest.cast ?_)))
    rw [List.length_cons, List.length_cons]
    omega

/-- The body of a block comment. -/
theorem blockBody (h : Comments.hasClosing body = false)
    (hrest : Reports next ⟨.plain, .comment :: context⟩ (i + body.length) ('*' :: r) offsets
      behind) :
    Reports next ⟨.plain, .comment :: context⟩ i (body ++ '*' :: r) offsets behind := by
  induction body generalizing i with
  | nil => exact hrest
  | cons c t ih =>
    refine skip (r := t ++ '*' :: r) (step_in_comment h)
      (ih (Bool.or_eq_false_iff.1 h).2 (hrest.cast ?_))
    rw [List.length_cons]
    omega

/-- The body of a line comment. -/
theorem lineBody (h : '\n' ∉ body)
    (hrest : Reports next ⟨.lineComment, context⟩ (i + body.length) r offsets behind) :
    Reports next ⟨.lineComment, context⟩ i (body ++ r) offsets behind := by
  induction body generalizing i with
  | nil => exact hrest
  | cons c t ih =>
    rw [List.mem_cons, not_or] at h
    have hstep : step ⟨.lineComment, context⟩ c ((t ++ r).head?.or next) =
        (false, ⟨.lineComment, context⟩) := if_neg (Ne.symm h.1)
    refine skip hstep (ih h.2 (hrest.cast ?_))
    rw [List.length_cons]
    omega

end Reports

variable {level : Level} {i : Nat} {t : Text} {offsets : List Nat}

/-- The lexer reports of well-formed source what counts in it, and comes out of it with the
frames it went in with, at most in a line comment. -/
theorem WellFormed.reports (h : WellFormed level i t offsets) {context : Context}
    (hfits : level.Fits context) {next : Option Char} (hnext : Apart next) :
    ∃ mode, Reports next ⟨.plain, context⟩ i t offsets ⟨mode, context⟩ ∧
      (level ≠ .top → mode = .plain) := by
  induction h generalizing context next with
  | nil level i => exact ⟨.plain, .nil next _ i, fun _ => rfl⟩
  | plain hc _ ih =>
    obtain ⟨mode, hrest, hmode⟩ := ih hfits hnext
    rw [hfits.count_eq]
    exact ⟨mode, .cons (hc.step_eq hfits hnext) hrest, hmode⟩
  | @string level i quote body t later hcode hquote hbody _ ih =>
    obtain ⟨mode, hrest, hmode⟩ := ih hfits hnext
    have hopened : step ⟨.plain, context⟩ quote ((body ++ quote :: t).head?.or next) =
        (false, ⟨.quoted quote, context⟩) := by
      rw [step_of_inCode (hfits.inCode hcode)]
      exact codeStep_quote hquote (ahead_isNone (List.cons_ne_nil _ _) next body)
    rw [hfits.count_eq]
    refine ⟨mode, .skip hopened (.quotedBody hbody (List.cons_ne_nil _ _) ?_), hmode⟩
    have hclosed := Reports.cons (step_closes_string hquote _) hrest
    exact hclosed.cast (by omega)
  | @lineComment level i body t later hcode hline _ ih =>
    obtain ⟨mode, hrest, hmode⟩ := ih hfits hnext
    have hcontext : InCode context := hfits.inCode hcode
    have hopened : step ⟨.plain, context⟩ '/' (some '/') = (false, ⟨.lineComment, context⟩) :=
      step_of_inCode hcontext _ _
    rw [hfits.count_eq]
    refine ⟨mode, .skip (r := '/' :: (body ++ '\n' :: t)) hopened
      (.skip (r := body ++ '\n' :: t) rfl (.lineBody hline ?_)), hmode⟩
    have hclosed := Reports.cons (step_ends_line context _) hrest
    exact hclosed.cast (by omega)
  | @lastComment i body hline =>
    obtain rfl : context = [] := hfits
    refine ⟨.lineComment, .skip (r := '/' :: body) rfl (.skip (r := body) rfl ?_),
      fun htop => absurd rfl htop⟩
    rw [← List.append_nil body]
    exact .lineBody hline (.nil next _ _)
  | @blockComment level i body t later hcode hbody _ ih =>
    obtain ⟨mode, hrest, hmode⟩ := ih hfits hnext
    have hopened : step ⟨.plain, context⟩ '/' (some '*') =
        (false, ⟨.second, .comment :: context⟩) :=
      step_of_inCode (hfits.inCode hcode) _ _
    refine ⟨mode, .skip (r := '*' :: (body ++ '*' :: '/' :: t)) hopened
      (.skip (r := body ++ '*' :: '/' :: t) rfl (.blockBody hbody ?_)), hmode⟩
    have hclosed : Reports next ⟨.plain, .comment :: context⟩ (i + body.length + 2)
        ('*' :: '/' :: t) later ⟨mode, context⟩ :=
      .skip (r := '/' :: t) rfl (.skip (r := t) rfl hrest)
    exact hclosed.cast (by omega)
  | @template level i body t later hcode _ _ ihBody ih =>
    obtain ⟨mode, hrest, hmode⟩ := ih hfits hnext
    have hopened : step ⟨.plain, context⟩ templateMark
        ((body ++ templateMark :: t).head?.or next) = (false, ⟨.plain, .template :: context⟩) :=
      step_of_inCode (hfits.inCode hcode) _ _
    obtain ⟨_, hinner, hplain⟩ := @ihBody (.template :: context) ⟨context, rfl⟩
      (some templateMark) apart_templateMark
    obtain rfl := hplain (by decide)
    have hclosed : Reports next ⟨.plain, .template :: context⟩ (i + body.length + 1)
        (templateMark :: t) (level.count (i + body.length + 1) later) ⟨mode, context⟩ := by
      rw [hfits.count_eq]
      exact .cons (r := t) rfl hrest
    exact ⟨mode, .skip hopened (.append (b := templateMark :: t) hinner
      (hclosed.cast (by omega))), hmode⟩
  | @brace i body t _ _ ihBody ih =>
    obtain ⟨mode, hrest, hmode⟩ := ih hfits hnext
    have hopened : step ⟨.plain, context⟩ '{' ((body ++ '}' :: t).head?.or next) =
        (false, ⟨.plain, .brace :: context⟩) := by
      obtain ⟨outer, rfl | rfl⟩ := hfits <;> rfl
    obtain ⟨_, hinner, hplain⟩ := @ihBody (.brace :: context) ⟨context, .inr rfl⟩
      (some '}') (apart_closing rfl)
    obtain rfl := hplain (by decide)
    have hclosed : Reports next ⟨.plain, .brace :: context⟩ (i + body.length + 1) ('}' :: t) []
        ⟨mode, context⟩ := .skip (r := t) rfl hrest
    exact ⟨mode, .skip hopened (.append (b := '}' :: t) hinner (hclosed.cast (by omega))), hmode⟩
  | @escaped i c t _ ih =>
    obtain ⟨mode, hrest, hmode⟩ := ih hfits hnext
    obtain ⟨outer, rfl⟩ := hfits
    exact ⟨mode, .skip (r := c :: t) rfl (.skip (r := t) rfl hrest), hmode⟩
  | @substitution i body t _ _ ihBody ih =>
    obtain ⟨mode, hrest, hmode⟩ := ih hfits hnext
    obtain ⟨outer, rfl⟩ := hfits
    obtain ⟨_, hinner, hplain⟩ := @ihBody (.substitution :: .template :: outer)
      ⟨_, .inl rfl⟩ (some '}') (apart_closing rfl)
    obtain rfl := hplain (by decide)
    have hclosed : Reports next ⟨.plain, .substitution :: .template :: outer⟩
        (i + body.length + 2) ('}' :: t) [] ⟨mode, .template :: outer⟩ :=
      .skip (r := t) rfl hrest
    exact ⟨mode, .skip (r := '{' :: (body ++ '}' :: t)) rfl (.skip (r := body ++ '}' :: t) rfl
      (.append (b := '}' :: t) hinner (hclosed.cast (by omega)))), hmode⟩

/-- Of well-formed source the lexer reports exactly the offsets that count, and nothing is
open at its end. -/
theorem scan_wellFormed (h : WellFormed .top 0 t offsets) :
    after [] t = [] ∧ codeOffsets [] t = offsets := by
  have hapart : Apart none := ⟨by decide, by decide, by decide⟩
  obtain ⟨mode, hreports, -⟩ := h.reports rfl hapart
  refine ⟨?_, ?_⟩
  · rw [after, run_eq, hreports.reached]
  · rw [codeOffsets, marks, run_eq, hreports.marked]

/-- A template with braces, a string and a template in its substitution, an escaped mark, a
string with an escaped quote, and comments that hold quotes and marks. -/
theorem scan_wellFormed_nestedTemplate :
    WellFormed .top 0
        "/\x60$\x7ba\x7b'\x7d'\x7d\x60\x60\x7d\\\x60\x60'\\'' //'\n/*\x60*/;//\"".toList
        [0, 15, 19, 20, 24, 30] ∧
      after [] "/\x60$\x7ba\x7b'\x7d'\x7d\x60\x60\x7d\\\x60\x60'\\'' //'\n/*\x60*/;//\"".toList =
        [] ∧
      codeOffsets []
          "/\x60$\x7ba\x7b'\x7d'\x7d\x60\x60\x7d\\\x60\x60'\\'' //'\n/*\x60*/;//\"".toList =
        [0, 15, 19, 20, 24, 30] := by
  have hempty : WellFormed .substitution 10 (templateMark :: ([] ++ [templateMark])) [] :=
    .template (by decide) (.nil _ _) (.nil _ _)
  have hbraces : WellFormed .substitution 6 ('\'' :: (['}'] ++ ['\''])) [] :=
    .string (by decide) rfl (.char (by decide) (by decide) (by decide) .nil) (.nil _ _)
  have hcode : WellFormed .substitution 4
      ('a' :: '{' :: (['\'', '}', '\''] ++ '}' :: [templateMark, templateMark])) [] :=
    .plain (by decide) (.brace hbraces hempty)
  have hbody : WellFormed .template 2 _ [] :=
    .substitution hcode (.escaped (c := templateMark) (.nil _ _))
  have hlast : WellFormed .top 30 ";//\"".toList [30] :=
    .plain (by decide) (.lastComment (by decide))
  have hblock : WellFormed .top 25 ('/' :: '*' :: ([templateMark] ++ '*' :: '/' :: ";//\"".toList))
      [30] := .blockComment (by decide) rfl hlast
  have hline : WellFormed .top 21 ('/' :: '/' :: (['\''] ++ '\n' :: "/*\x60*/;//\"".toList))
      [24, 30] := .lineComment (by decide) (by decide) hblock
  have hstring : WellFormed .top 16
      ('\'' :: (['\\', '\''] ++ '\'' :: " //'\n/*\x60*/;//\"".toList)) [19, 20, 24, 30] :=
    .string (by decide) rfl (.escaped .nil) (.plain (by decide) hline)
  have hsource : WellFormed .top 0 _ [0, 15, 19, 20, 24, 30] :=
    .plain (c := '/') (by decide) (.template (by decide) hbody hstring)
  exact ⟨hsource, scan_wellFormed hsource⟩

end ModuleScripts.Lexer
