import ModuleScripts.Proofs.DeclarationEnd
import ModuleScripts.Proofs.LexicalContext

/-!
# Code in which everything is closed

A text of code is closed if its strings, comments, templates and brackets are: each of
them ends in the text, and inside them stands only what belongs there. The lexer comes
out of a closed text as it went in, and the bracket depth is the same behind it. No comma
and no semicolon of depth zero is marked on the way, and at every line feed something is
open.
-/

namespace ModuleScripts

namespace Lexer

/-- Where a piece of code stands. -/
inductive Region where
  /-- In a statement, outside all brackets. -/
  | statement
  /-- In a bracket of a statement. -/
  | bracket
  /-- In a substitution of a template. -/
  | substitution
  /-- In the text of a template. -/
  | template
  deriving DecidableEq

/-- A character that opens no string, no template and, with the character after it, no
comment. -/
def IsCode (c : Char) (next : Option Char) : Prop :=
  isQuote c = false ∧ c ≠ templateMark ∧ ¬(c = '/' ∧ (next = some '/' ∨ next = some '*'))

/-- A character that stands for itself, with the character after it. -/
def Region.Plain (c : Char) (next : Option Char) : Region → Prop
  | statement => IsCode c next ∧ bracketStep c = 0 ∧ c ≠ ',' ∧ c ≠ ';' ∧ c ≠ '\n'
  | bracket => IsCode c next ∧ bracketStep c = 0
  | substitution => IsCode c next ∧ c ≠ '{' ∧ c ≠ '}'
  | template => c ≠ '\\' ∧ c ≠ templateMark ∧ ¬(c = '$' ∧ next = some '{')

instance (c : Char) (next : Option Char) : Decidable (IsCode c next) :=
  inferInstanceAs (Decidable (isQuote c = false ∧ c ≠ templateMark ∧
    ¬(c = '/' ∧ (next = some '/' ∨ next = some '*'))))

instance (c : Char) (next : Option Char) : (region : Region) → Decidable (region.Plain c next)
  | .statement => inferInstanceAs (Decidable (IsCode c next ∧ bracketStep c = 0 ∧ c ≠ ',' ∧
      c ≠ ';' ∧ c ≠ '\n'))
  | .bracket => inferInstanceAs (Decidable (IsCode c next ∧ bracketStep c = 0))
  | .substitution => inferInstanceAs (Decidable (IsCode c next ∧ c ≠ '{' ∧ c ≠ '}'))
  | .template => inferInstanceAs (Decidable (c ≠ '\\' ∧ c ≠ templateMark ∧
      ¬(c = '$' ∧ next = some '{')))

/-- What stands between the quotes of a string. -/
inductive QuotedBody (quote : Char) : Text → Prop where
  /-- Nothing. -/
  | nil : QuotedBody quote []
  /-- A character that does not end the string. -/
  | char {c : Char} {t : Text} (hquote : c ≠ quote) (hescape : c ≠ '\\') (hline : c ≠ '\n')
    (ht : QuotedBody quote t) : QuotedBody quote (c :: t)
  /-- Any character behind a backslash. -/
  | escaped {c : Char} {t : Text} (ht : QuotedBody quote t) : QuotedBody quote ('\\' :: c :: t)

/-- Text of a region in which everything that is opened is closed. -/
inductive Closed : Region → Text → Prop where
  /-- Nothing. -/
  | nil (region : Region) : Closed region []
  /-- A character that stands for itself. -/
  | plain {region : Region} {c : Char} {t : Text} (hc : region.Plain c t.head?)
    (ht : Closed region t) : Closed region (c :: t)
  /-- A string. In a statement it goes over one line. -/
  | string {region : Region} {quote : Char} {body t : Text} (hcode : region ≠ .template)
    (hquote : isQuote quote = true) (hbody : QuotedBody quote body)
    (hline : region = .statement → '\n' ∉ body) (ht : Closed region t) :
    Closed region (quote :: (body ++ quote :: t))
  /-- A block comment. -/
  | comment {region : Region} {body t : Text} (hcode : region ≠ .template)
    (hbody : Comments.hasClosing body = false) (ht : Closed region t) :
    Closed region ('/' :: '*' :: (body ++ '*' :: '/' :: t))
  /-- A template. -/
  | template {region : Region} {body t : Text} (hcode : region ≠ .template)
    (hbody : Closed .template body) (ht : Closed region t) :
    Closed region (templateMark :: (body ++ templateMark :: t))
  /-- A pair of brackets in a statement. -/
  | group {region : Region} {o c : Char} {body t : Text}
    (hregion : region = .statement ∨ region = .bracket) (ho : bracketStep o = 1)
    (hc : bracketStep c = -1) (hbody : Closed .bracket body) (ht : Closed region t) :
    Closed region (o :: (body ++ c :: t))
  /-- A pair of braces in a substitution. -/
  | brace {body t : Text} (hbody : Closed .substitution body) (ht : Closed .substitution t) :
    Closed .substitution ('{' :: (body ++ '}' :: t))
  /-- A character behind a backslash in a template. -/
  | escaped {c : Char} {t : Text} (ht : Closed .template t) : Closed .template ('\\' :: c :: t)
  /-- A substitution in a template. -/
  | substitution {body t : Text} (hbody : Closed .substitution body) (ht : Closed .template t) :
    Closed .template ('$' :: '{' :: (body ++ '}' :: t))

/-- A state at a depth in which a line can end without ending its statement: something is
open, and it is no string. -/
def Held (s : State) (depth : Int) : Prop :=
  (∀ quote, s.mode ≠ .quoted quote) ∧ (s.context ≠ [] ∨ 0 < depth)

/-- A walk over a text that `next` follows. It marks no stop of depth zero, and its line
feeds stand where lines can end. -/
inductive Scans (stops : Text) (next : Option Char) : State → Int → Text → State → Int → Prop where
  /-- Nothing is left to walk over. -/
  | nil (s : State) (depth : Int) : Scans stops next s depth [] s depth
  /-- One more character. -/
  | cons {s now behind : State} {depth depth' : Int} {c : Char} {r : Text} {mark : Bool}
    (hstep : step s c (r.head?.or next) = (mark, now))
    (hstop : mark = true → depth = 0 → c ∉ stops)
    (hfeed : c ≠ '\n' ∨ Held s depth)
    (hrest : Scans stops next now (depth + if mark then bracketStep c else 0) r behind depth') :
    Scans stops next s depth (c :: r) behind depth'

namespace Scans

variable {stops : Text} {next : Option Char} {s now behind : State} {depth depth' depth'' : Int}
  {c : Char} {a b r t : Text}

/-- A character that changes no depth and is no stop. -/
theorem keep {mark : Bool} (hstep : step s c (r.head?.or next) = (mark, now))
    (hdepth : mark = true → bracketStep c = 0 ∧ c ∉ stops) (hfeed : c ≠ '\n' ∨ Held s depth)
    (hrest : Scans stops next now depth r behind depth') :
    Scans stops next s depth (c :: r) behind depth' := by
  refine .cons hstep (fun hm _ => (hdepth hm).2) hfeed ?_
  cases mark with
  | false => simpa using hrest
  | true => simpa [(hdepth rfl).1] using hrest

/-- A character that is not marked. -/
theorem skip (hstep : step s c (r.head?.or next) = (false, now)) (hfeed : c ≠ '\n' ∨ Held s depth)
    (hrest : Scans stops next now depth r behind depth') :
    Scans stops next s depth (c :: r) behind depth' :=
  keep hstep (fun h => absurd h Bool.false_ne_true) hfeed hrest

/-- Walking over one text and then over the next is walking over both. -/
theorem append (ha : Scans stops (b.head?.or next) s depth a now depth')
    (hb : Scans stops next now depth' b behind depth'') :
    Scans stops next s depth (a ++ b) behind depth'' := by
  induction ha with
  | nil => exact hb
  | @cons s now _ depth _ c r mark hstep hstop hfeed _ ih =>
    have hahead : (r ++ b).head?.or next = r.head?.or (b.head?.or next) := by
      rw [List.head?_append, Option.or_assoc]
    exact .cons (r := r ++ b) (by rw [hahead]; exact hstep) hstop hfeed (ih hb)

/-- A walk over two texts stops between them. -/
theorem split (h : Scans stops next s depth (a ++ b) behind depth') :
    ∃ now depth'', Scans stops (b.head?.or next) s depth a now depth'' ∧
      Scans stops next now depth'' b behind depth' := by
  induction a generalizing s depth with
  | nil => exact ⟨s, depth, .nil s depth, h⟩
  | cons c a ih =>
    have hahead : (a ++ b).head?.or next = a.head?.or (b.head?.or next) := by
      rw [List.head?_append, Option.or_assoc]
    rw [List.cons_append] at h
    cases h with
    | cons hstep hstop hfeed hrest =>
      obtain ⟨now, depth'', ha, hb⟩ := ih hrest
      rw [hahead] at hstep
      exact ⟨now, depth'', .cons hstep hstop hfeed ha, hb⟩

/-- A walk that stops at fewer characters. -/
theorem mono {fewer : Text} (h : Scans stops next s depth t behind depth') (hs : fewer ⊆ stops) :
    Scans fewer next s depth t behind depth' := by
  induction h with
  | nil s depth => exact .nil s depth
  | cons hstep hstop hfeed _ ih =>
    exact .cons hstep (fun hm hd hc => hstop hm hd (hs hc)) hfeed ih

/-- The state behind the walk. -/
theorem walk_eq (h : Scans stops next s depth t behind depth') : (walk next s t).2 = behind := by
  induction h with
  | nil => rfl
  | cons hstep _ _ _ ih =>
    rw [walk, hstep]
    exact ih

end Scans

/-- Where the lexer stands in a region, and at which depth. -/
def Region.Fits (context : Context) (depth : Int) : Region → Prop
  | statement => context = [] ∧ depth = 0
  | bracket => context = [] ∧ 0 < depth
  | substitution => ∃ outer, context = .substitution :: outer ∨ context = .brace :: outer
  | template => ∃ outer, context = .template :: outer

/-- A character that makes no mark of two characters with what stands before it. -/
def Apart (next : Option Char) : Prop := next ≠ some '/' ∧ next ≠ some '*' ∧ next ≠ some '{'

/-- The characters that end a declarator. -/
def separators : Text := [',', ';']

section Steps

variable {context : Context} {next : Option Char} {depth depth' : Int} {region : Region}
  {behind : State} {c quote : Char} {body r t : Text}

/-- A character that stands for itself before a text does so before what
follows the text. -/
theorem IsCode.or (h : IsCode c r.head?) (hnext : Apart next) : IsCode c (r.head?.or next) := by
  refine ⟨h.1, h.2.1, fun ⟨hslash, hmark⟩ => ?_⟩
  cases r with
  | nil => exact hmark.elim hnext.1 hnext.2.1
  | cons d r => exact h.2.2 ⟨hslash, hmark⟩

/-- A character that stands for itself is marked at the top level, and of the
others only braces change what is open. -/
theorem codeStep_of_isCode (h : IsCode c next) :
    codeStep context c next =
      if context.isEmpty then (true, ⟨.plain, context⟩)
      else if c = '{' then (false, ⟨.plain, .brace :: context⟩)
      else if c = '}' then (false, ⟨.plain, context.tail⟩)
      else (false, ⟨.plain, context⟩) := by
  obtain ⟨hquote, htemplate, hmark⟩ := h
  have hline : ¬(c = '/' ∧ next = some '/') := fun hs => hmark ⟨hs.1, .inl hs.2⟩
  have hblock : ¬(c = '/' ∧ next = some '*') := fun hs => hmark ⟨hs.1, .inr hs.2⟩
  rw [codeStep, if_neg hline, if_neg hblock, if_neg (by simp [ne_of_isQuote_false hquote]),
    if_neg htemplate]

/-- In the code of a region the lexer reads code. -/
theorem Region.Fits.step_eq (h : region.Fits context depth) (hcode : region ≠ .template) (c : Char)
    (next : Option Char) : step ⟨.plain, context⟩ c next = codeStep context c next := by
  cases region with
  | statement => rw [h.1]; rfl
  | bracket => rw [h.1]; rfl
  | substitution => obtain ⟨outer, rfl | rfl⟩ := h <;> rfl
  | template => exact absurd rfl hcode

/-- Outside a statement something is open. -/
theorem Region.Fits.opened (h : region.Fits context depth) (hs : region ≠ .statement) :
    context ≠ [] ∨ 0 < depth := by
  cases region with
  | statement => exact absurd rfl hs
  | bracket => exact .inr h.2
  | substitution => obtain ⟨outer, rfl | rfl⟩ := h <;> exact .inl (by simp)
  | template => obtain ⟨outer, rfl⟩ := h; exact .inl (by simp)

/-- A template mark makes no mark of two characters. -/
theorem apart_templateMark : Apart (some templateMark) := ⟨by decide, by decide, by decide⟩

/-- A closing bracket makes no mark of two characters. -/
theorem apart_closing (h : bracketStep c = -1) : Apart (some c) := by
  refine ⟨fun hc => ?_, fun hc => ?_, fun hc => ?_⟩ <;>
  · obtain rfl := Option.some.inj hc
    exact absurd h (by decide)

/-- A character that stands for itself leaves the lexer where it is, and is marked if
nothing is open. -/
theorem Region.Plain.step_eq (h : region.Plain c r.head?) (hfits : region.Fits context depth)
    (hnext : Apart next) :
    step ⟨.plain, context⟩ c (r.head?.or next) = (context.isEmpty, ⟨.plain, context⟩) := by
  cases region with
  | statement =>
    obtain ⟨rfl, -⟩ := hfits
    exact codeStep_of_isCode (h.1.or hnext)
  | bracket =>
    obtain ⟨rfl, -⟩ := hfits
    exact codeStep_of_isCode (h.1.or hnext)
  | substitution =>
    obtain ⟨hcode, hopen, hclose⟩ := h
    rw [hfits.step_eq (by decide), codeStep_of_isCode (hcode.or hnext), if_neg hopen, if_neg hclose]
    obtain ⟨outer, rfl | rfl⟩ := hfits <;> rfl
  | template =>
    obtain ⟨hescape, hend, hopen⟩ := h
    obtain ⟨outer, rfl⟩ := hfits
    have hsubstitution : ¬(c = '$' ∧ r.head?.or next = some '{') := fun ⟨hdollar, hbrace⟩ => by
      cases r with
      | nil => exact hnext.2.2 hbrace
      | cons d r => exact hopen ⟨hdollar, hbrace⟩
    change templateStep outer c _ = _
    rw [templateStep, if_neg hescape, if_neg hend, if_neg hsubstitution]
    rfl

/-- Such a character is no stop. -/
theorem Region.Plain.scans (h : region.Plain c r.head?) (hfits : region.Fits context depth)
    (hnext : Apart next) (hrest : Scans separators next ⟨.plain, context⟩ depth r behind depth') :
    Scans separators next ⟨.plain, context⟩ depth (c :: r) behind depth' := by
  have hstep := h.step_eq hfits hnext
  have hheld : region ≠ .statement → Held ⟨.plain, context⟩ depth := fun hs =>
    ⟨by simp, hfits.opened hs⟩
  cases region with
  | statement =>
    obtain ⟨-, hdepth, hcomma, hsemicolon, hfeed⟩ := h
    have hstop : c ∉ separators := by simp [separators, hcomma, hsemicolon]
    exact .keep hstep (fun _ => ⟨hdepth, hstop⟩) (.inl hfeed) hrest
  | bracket =>
    have hdepth : bracketStep c = 0 := h.2
    refine .cons hstep (fun _ hzero => absurd hzero (Int.ne_of_gt hfits.2))
      (.inr (hheld (by decide))) ?_
    simpa [hdepth] using hrest
  | substitution =>
    obtain ⟨outer, rfl | rfl⟩ := hfits <;> exact .skip hstep (.inr (hheld (by decide))) hrest
  | template =>
    obtain ⟨outer, rfl⟩ := hfits
    exact .skip hstep (.inr (hheld (by decide))) hrest

/-- In front of something the end of the text is not next. -/
theorem ahead_isNone (hr : r ≠ []) (next : Option Char) (t : Text) :
    ((t ++ r).head?.or next).isNone = false := by
  cases t with
  | nil =>
    obtain ⟨d, r, rfl⟩ := List.exists_cons_of_ne_nil hr
    rfl
  | cons d t => rfl

/-- A quote opens a string. -/
theorem codeStep_quote (hquote : isQuote quote = true) (hnext : next.isNone = false) :
    codeStep context quote next = (false, ⟨.quoted quote, context⟩) := by
  have hkind : quote = '\'' ∨ quote = '"' := by simpa [isQuote] using hquote
  have hslash : quote ≠ '/' := by
    rintro rfl
    cases hquote
  rw [codeStep, if_neg (fun h => hslash h.1), if_neg (fun h => hslash h.1), if_pos hkind, hnext,
    Bool.and_false]

/-- Its quote closes it, and is marked if nothing is open. -/
theorem step_closes_string (hquote : isQuote quote = true) (next : Option Char) :
    step ⟨.quoted quote, context⟩ quote next = (context.isEmpty, ⟨.plain, context⟩) := by
  have hescape : quote ≠ '\\' := by
    rintro rfl
    cases hquote
  change quotedStep context quote quote next = _
  rw [quotedStep, if_neg hescape, if_pos (.inl rfl)]

/-- A character that does not end the string it stands in. -/
theorem step_in_string (hquote : c ≠ quote) (hescape : c ≠ '\\') (hline : c ≠ '\n')
    (hnext : next.isNone = false) :
    step ⟨.quoted quote, context⟩ c next = (false, ⟨.quoted quote, context⟩) := by
  change quotedStep context quote c next = _
  rw [quotedStep, if_neg hescape, if_neg (by simp [hquote, hline]), hnext, Bool.and_false]

/-- A backslash in a string escapes the character behind it. -/
theorem step_escapes (c : Char) :
    step ⟨.quoted quote, context⟩ '\\' (some c) = (false, ⟨.escaped quote, context⟩) := by
  change quotedStep context quote '\\' _ = _
  rw [quotedStep, if_pos rfl]
  simp

/-- A character behind a backslash does not end the string. -/
theorem step_escaped (hnext : next.isNone = false) :
    step ⟨.escaped quote, context⟩ c next = (false, ⟨.quoted quote, context⟩) := by
  change (context.isEmpty && _, _) = _
  rw [hnext, Bool.and_false]

/-- A character that does not end the block comment it stands in. -/
theorem step_in_comment (h : Comments.hasClosing (c :: t) = false) :
    step ⟨.plain, .comment :: context⟩ c ((t ++ '*' :: r).head?.or next) =
      (false, ⟨.plain, .comment :: context⟩) := by
  simp only [Comments.hasClosing, Bool.or_eq_false_iff, Bool.and_eq_false_iff,
    decide_eq_false_iff_not] at h
  have hend : ¬(c = '*' ∧ (t ++ '*' :: r).head?.or next = some '/') := by
    rintro ⟨hstar, hslash⟩
    cases t with
    | nil => cases hslash
    | cons d t => exact h.1.elim (fun hc => hc hstar) fun hd => hd hslash
  change commentStep context c _ = _
  rw [commentStep, if_neg hend]

/-- The body of a string leaves the lexer in the string. -/
theorem QuotedBody.scans (h : QuotedBody quote body)
    (hline : '\n' ∈ body → context ≠ [] ∨ 0 < depth) (hr : r ≠ [])
    (hrest : Scans separators next ⟨.quoted quote, context⟩ depth r behind depth') :
    Scans separators next ⟨.quoted quote, context⟩ depth (body ++ r) behind depth' := by
  induction h with
  | nil => exact hrest
  | @char c t hquote hescape hfeed _ ih =>
    exact .skip (r := t ++ r) (step_in_string hquote hescape hfeed (ahead_isNone hr next t))
      (.inl hfeed) (ih fun hm => hline (List.mem_cons_of_mem c hm))
  | @escaped c t _ ih =>
    have hbody := ih fun hm => hline (List.mem_cons_of_mem _ (List.mem_cons_of_mem _ hm))
    have hfeed : c ≠ '\n' ∨ Held ⟨.escaped quote, context⟩ depth := by
      by_cases hc : c = '\n'
      · exact .inr ⟨by simp, hline (by simp [hc])⟩
      · exact .inl hc
    exact .skip (r := c :: (t ++ r)) (step_escapes c) (.inl (by decide))
      (.skip (step_escaped (ahead_isNone hr next t)) hfeed hbody)

/-- The body of a block comment leaves the lexer in the comment. -/
theorem scans_comment (h : Comments.hasClosing body = false)
    (hrest : Scans separators next ⟨.plain, .comment :: context⟩ depth ('*' :: r) behind depth') :
    Scans separators next ⟨.plain, .comment :: context⟩ depth (body ++ '*' :: r) behind depth' := by
  induction body with
  | nil => exact hrest
  | cons c t ih =>
    exact .skip (r := t ++ '*' :: r) (step_in_comment h) (.inr ⟨by simp, .inl (by simp)⟩)
      (ih (Bool.or_eq_false_iff.1 h).2)

/-- A bracket of a statement changes the depth. -/
theorem scans_bracket (hbracket : bracketStep c ≠ 0)
    (hrest : Scans separators next ⟨.plain, []⟩ (depth + bracketStep c) r behind depth') :
    Scans separators next ⟨.plain, []⟩ depth (c :: r) behind depth' := by
  have hcases : c = '(' ∨ c = '[' ∨ c = '{' ∨ c = ')' ∨ c = ']' ∨ c = '}' := by
    unfold bracketStep at hbracket
    split at hbracket
    · tauto
    · split at hbracket
      · tauto
      · exact absurd rfl hbracket
  have hcode : IsCode c (r.head?.or next) ∧ c ∉ separators ∧ c ≠ '\n' := by
    rcases hcases with rfl | rfl | rfl | rfl | rfl | rfl <;>
      exact ⟨⟨rfl, by decide, fun h => absurd h.1 (by decide)⟩, by decide, by decide⟩
  exact .cons (codeStep_of_isCode hcode.1) (fun _ _ => hcode.2.1)
    (.inl hcode.2.2) hrest

/-- A quote opens a string that its body and the same quote go on with. -/
theorem scans_string (hfits : region.Fits context depth) (hcode : region ≠ .template)
    (hquote : isQuote quote = true) (hbody : QuotedBody quote body)
    (hline : region = .statement → '\n' ∉ body)
    (hrest : Scans separators next ⟨.plain, context⟩ depth t behind depth') :
    Scans separators next ⟨.plain, context⟩ depth (quote :: (body ++ quote :: t)) behind
      depth' := by
  have hplain : quote ≠ '\n' ∧ bracketStep quote = 0 ∧ quote ∉ separators := by
    have hkind : quote = '\'' ∨ quote = '"' := by simpa [isQuote] using hquote
    rcases hkind with rfl | rfl <;> decide
  obtain ⟨hfeed, hdepth, hstop⟩ := hplain
  have hopened : step ⟨.plain, context⟩ quote ((body ++ quote :: t).head?.or next) =
      (false, ⟨.quoted quote, context⟩) := by
    rw [hfits.step_eq hcode]
    exact codeStep_quote hquote (ahead_isNone (List.cons_ne_nil _ _) next body)
  refine .skip hopened (.inl hfeed) (hbody.scans ?_ (by simp)
    (.keep (step_closes_string hquote _) (fun _ => ⟨hdepth, hstop⟩) (.inl hfeed) hrest))
  exact fun hm => hfits.opened fun hs => hline hs hm

end Steps

variable {region : Region} {t : Text}

/-- The lexer comes out of a closed text as it went in, at the same depth. It marks no
separator of depth zero on the way, and its line feeds stand where lines can end. -/
theorem Closed.scans (h : Closed region t) {context : Context} {depth : Int}
    (hfits : region.Fits context depth) {next : Option Char} (hnext : Apart next) :
    Scans separators next ⟨.plain, context⟩ depth t ⟨.plain, context⟩ depth := by
  induction h generalizing context depth next with
  | nil => exact .nil _ _
  | plain hc _ ih => exact hc.scans hfits hnext (ih hfits hnext)
  | string hcode hquote hbody hline _ ih =>
    exact scans_string hfits hcode hquote hbody hline (ih hfits hnext)
  | @comment region body t hcode hbody _ ih =>
    have hopened : step ⟨.plain, context⟩ '/' (some '*') =
        (false, ⟨.second, .comment :: context⟩) :=
      hfits.step_eq hcode _ _
    refine .skip hopened (.inl (by decide))
      (.skip (s := ⟨.second, .comment :: context⟩) (r := body ++ '*' :: '/' :: t) rfl
        (.inl (by decide)) (scans_comment hbody ?_))
    exact .skip (r := '/' :: t) rfl (.inl (by decide))
      (.skip (r := t) rfl (.inl (by decide)) (ih hfits hnext))
  | @template region body t hcode _ _ ihBody ih =>
    have hopened : step ⟨.plain, context⟩ templateMark
        ((body ++ templateMark :: t).head?.or next) = (false, ⟨.plain, .template :: context⟩) :=
      hfits.step_eq hcode _ _
    have hinner := @ihBody (.template :: context) depth ⟨context, rfl⟩ _ apart_templateMark
    refine .skip hopened (.inl (by decide)) (hinner.append ?_)
    exact .keep (r := t) rfl (fun _ => by decide) (.inl (by decide)) (ih hfits hnext)
  | @group region o c body t hregion ho hc _ _ ihBody ih =>
    obtain ⟨rfl, hdepth⟩ : context = [] ∧ 0 ≤ depth := by
      rcases hregion with rfl | rfl
      · exact ⟨hfits.1, Int.le_of_eq hfits.2.symm⟩
      · exact ⟨hfits.1, Int.le_of_lt hfits.2⟩
    have hinner := @ihBody [] (depth + 1) ⟨rfl, by omega⟩ _ (apart_closing hc)
    refine scans_bracket (by omega) ?_
    rw [ho]
    refine hinner.append (scans_bracket (by omega) ?_)
    rw [hc, Int.add_neg_cancel_right]
    exact ih hfits hnext
  | @brace body t _ _ ihBody ih =>
    have hinner := @ihBody (.brace :: context) depth ⟨context, .inr rfl⟩ _
      (apart_closing (c := '}') rfl)
    have hopened : step ⟨.plain, context⟩ '{' ((body ++ '}' :: t).head?.or next) =
        (false, ⟨.plain, .brace :: context⟩) := by
      obtain ⟨outer, rfl | rfl⟩ := hfits <;> rfl
    exact .skip hopened (.inl (by decide)) (hinner.append
      (.skip (r := t) rfl (.inl (by decide)) (ih hfits hnext)))
  | @escaped c t _ ih =>
    obtain ⟨outer, rfl⟩ := hfits
    exact .skip (r := c :: t) rfl (.inl (by decide))
      (.skip (r := t) rfl (.inr ⟨by simp, .inl (by simp)⟩) (ih ⟨outer, rfl⟩ hnext))
  | @substitution body t _ _ ihBody ih =>
    obtain ⟨outer, rfl⟩ := hfits
    have hinner := @ihBody (.substitution :: .template :: outer) depth ⟨_, .inl rfl⟩ _
      (apart_closing (c := '}') rfl)
    exact .skip (r := '{' :: (body ++ '}' :: t)) rfl (.inl (by decide))
      (.skip (r := body ++ '}' :: t) rfl (.inl (by decide))
        (hinner.append (.skip (r := t) rfl (.inl (by decide)) (ih ⟨outer, rfl⟩ hnext))))

end Lexer

end ModuleScripts
