import Mathlib.Data.List.Basic
import ModuleScripts.Proofs.ContextThread

/-!
# How frames stand on each other

Whatever a text is made of, the open frames stand on each other as they do in module
source: a comment is always innermost, a template stands on nothing or in the code of a
substitution, a substitution stands on a template, and a brace in the code of a
substitution. A closing mark closes a frame of its own kind and nothing else. What counts
as top-level code is read with nothing open behind it.
-/

namespace ModuleScripts.Lexer

/-- Whether a frame holds code. -/
def Frame.holdsCode : Frame → Bool
  | comment => false
  | template => false
  | substitution => true
  | brace => true

/-- Code stands here: nothing is open, or the innermost frame holds code. -/
def InCode (context : Context) : Prop := context.head?.all Frame.holdsCode = true

/-- Whether a frame can stand directly on what is open below it. -/
def Frame.StandsOn (outer : Context) : Frame → Prop
  | comment => True
  | template => InCode outer
  | substitution => outer.head? = some template
  | brace => outer ≠ [] ∧ InCode outer

/-- Frames that stand on each other as they can. Nothing stands on a comment. -/
inductive WellNested : Context → Prop where
  /-- Nothing is open. -/
  | nil : WellNested []
  /-- One more frame. -/
  | cons {frame : Frame} {outer : Context} (hstands : frame.StandsOn outer)
    (hcomment : .comment ∉ outer) (houter : WellNested outer) : WellNested (frame :: outer)

/-- The mark that opens a frame: a character, with the character after it. -/
def Frame.OpensWith (c : Char) (next : Option Char) : Frame → Prop
  | comment => c = '/' ∧ next = some '*'
  | template => c = templateMark
  | substitution => c = '$' ∧ next = some '{'
  | brace => c = '{'

/-- The mark that closes a frame. -/
def Frame.ClosesWith (c : Char) (next : Option Char) : Frame → Prop
  | comment => c = '*' ∧ next = some '/'
  | template => c = templateMark
  | substitution => c = '}'
  | brace => c = '}'

/-- Whether the mark of a frame opens it here. That of a comment does so in code only. -/
def Frame.OpensIn (context : Context) (frame : Frame) : Prop :=
  frame.StandsOn context ∧ (frame = .comment → InCode context)

/-- What an ordinary character does to the open frames. -/
inductive Change (c : Char) (next : Option Char) : Context → Context → Prop where
  /-- The mark of a frame that can open here. -/
  | opens {frame : Frame} {context : Context} (hmark : frame.OpensWith c next)
    (hopen : frame.OpensIn context) : Change c next context (frame :: context)
  /-- The mark that closes the innermost frame. -/
  | closes {frame : Frame} {outer : Context} (hmark : frame.ClosesWith c next) :
    Change c next (frame :: outer) outer
  /-- No such mark. -/
  | keeps {context : Context} (hopen : ∀ frame : Frame, frame.OpensIn context →
      ¬frame.OpensWith c next)
    (hclose : ∀ frame : Frame, context.head? = some frame → ¬frame.ClosesWith c next) :
    Change c next context context

section Steps

variable {context behind : Context} {c : Char} {next : Option Char} {s : State}

/-- A comment is open only as the innermost frame. -/
theorem WellNested.comment_notMem (h : WellNested context)
    (hhead : context.head? ≠ some .comment) : .comment ∉ context := by
  cases h with
  | nil => exact List.not_mem_nil
  | cons _ hcomment _ =>
    rw [List.mem_cons, not_or]
    exact ⟨fun he => hhead (by rw [he]; rfl), hcomment⟩

/-- Code does not stand in a comment. -/
theorem InCode.head?_ne_comment (h : InCode context) : context.head? ≠ some .comment := by
  intro hhead
  rw [InCode, hhead] at h
  cases h

/-- A frame does not open on a comment. -/
theorem Frame.OpensIn.head?_ne_comment {frame : Frame} (h : frame.OpensIn context) :
    context.head? ≠ some .comment := by
  obtain ⟨hstands, hcode⟩ := h
  cases frame with
  | comment => exact (hcode rfl).head?_ne_comment
  | template => exact InCode.head?_ne_comment hstands
  | substitution =>
    have hhead : context.head? = some .template := hstands
    rw [hhead]
    decide
  | brace => exact InCode.head?_ne_comment hstands.2

/-- One character keeps the frames well nested. -/
theorem Change.wellNested (h : Change c next context behind) (hcontext : WellNested context) :
    WellNested behind := by
  cases h with
  | opens _ hopen => exact .cons hopen.1 (hcontext.comment_notMem hopen.head?_ne_comment) hcontext
  | closes _ =>
    cases hcontext with
    | cons _ _ houter => exact houter
  | keeps _ _ => exact hcontext

/-- In code other characters than the marks of comments, templates and braces leave the
frames as they are. -/
theorem Change.keeps_code (h : InCode context) (hcomment : ¬(c = '/' ∧ next = some '*'))
    (htemplate : c ≠ templateMark) (hbrace : context = [] ∨ c ≠ '{' ∧ c ≠ '}') :
    Change c next context context := by
  refine .keeps (fun frame hopen => ?_) (fun frame hhead => ?_)
  · cases frame with
    | comment => exact hcomment
    | template => exact htemplate
    | substitution =>
      have hhead : context.head? = some .template := hopen.1
      rw [InCode, hhead] at h
      cases h
    | brace => exact (hbrace.resolve_left hopen.1.1).1
  · rw [InCode, hhead] at h
    have hclose : c ≠ '}' := by
      refine (hbrace.resolve_left ?_).2
      rintro rfl
      cases hhead
    cases frame with
    | comment => cases h
    | template => cases h
    | substitution => exact hclose
    | brace => exact hclose

/-- In code the marks of comments, templates and braces count. -/
theorem codeStep_change (h : InCode context) :
    Change c next context (codeStep context c next).2.context := by
  by_cases hline : c = '/' ∧ next = some '/'
  · obtain ⟨rfl, rfl⟩ := hline
    exact .keeps_code h (by simp) (by decide) (.inr (by decide))
  by_cases hcomment : c = '/' ∧ next = some '*'
  · rw [codeStep, if_neg hline, if_pos hcomment]
    exact .opens hcomment ⟨trivial, fun _ => h⟩
  by_cases hquote : c = '\'' ∨ c = '"'
  · rw [codeStep, if_neg hline, if_neg hcomment, if_pos hquote]
    refine .keeps_code h hcomment ?_ (.inr ?_) <;>
    · rcases hquote with rfl | rfl <;> decide
  by_cases htemplate : c = templateMark
  · rw [codeStep, if_neg hline, if_neg hcomment, if_neg hquote, if_pos htemplate]
    exact .opens htemplate ⟨h, fun hc => absurd hc (by decide)⟩
  rw [codeStep, if_neg hline, if_neg hcomment, if_neg hquote, if_neg htemplate]
  cases context with
  | nil => exact .keeps_code h hcomment htemplate (.inl rfl)
  | cons frame outer =>
    rw [List.isEmpty_cons, if_neg Bool.false_ne_true]
    by_cases hopen : c = '{'
    · rw [if_pos hopen]
      exact .opens hopen ⟨⟨List.cons_ne_nil _ _, h⟩, fun hc => absurd hc (by decide)⟩
    by_cases hclose : c = '}'
    · rw [if_neg hopen, if_pos hclose]
      refine .closes ?_
      cases frame with
      | comment => cases h
      | template => cases h
      | substitution => exact hclose
      | brace => exact hclose
    · rw [if_neg hopen, if_neg hclose]
      exact .keeps_code h hcomment htemplate (.inr ⟨hopen, hclose⟩)

/-- In a comment only its closing mark counts. -/
theorem commentStep_change (outer : Context) :
    Change c next (.comment :: outer) (commentStep outer c next).2.context := by
  unfold commentStep
  split
  · next hclose => exact .closes hclose
  · next hclose =>
    refine .keeps (fun frame hopen => absurd rfl hopen.head?_ne_comment) fun frame hhead => ?_
    obtain rfl := Option.some.inj hhead
    exact hclose

/-- In a template its closing mark and the mark of a substitution count. -/
theorem templateStep_change (outer : Context) :
    Change c next (.template :: outer) (templateStep outer c next).2.context := by
  have hopens : ∀ frame : Frame, frame.OpensIn (.template :: outer) → frame = .substitution := by
    intro frame hopen
    cases frame with
    | comment => exact absurd (hopen.2 rfl) (by simp [InCode, Frame.holdsCode])
    | template => exact absurd hopen.1 (by simp [Frame.StandsOn, InCode, Frame.holdsCode])
    | substitution => rfl
    | brace => exact absurd hopen.1.2 (by simp [InCode, Frame.holdsCode])
  have hkeeps : c ≠ templateMark → ¬(c = '$' ∧ next = some '{') →
      Change c next (.template :: outer) (.template :: outer) := by
    refine fun hclose hopen => .keeps (fun frame hin => ?_) fun frame hhead => ?_
    · obtain rfl := hopens frame hin
      exact hopen
    · obtain rfl := Option.some.inj hhead
      exact hclose
  unfold templateStep
  split
  · next hescape =>
    rw [hescape] at hkeeps ⊢
    exact hkeeps (by decide) fun hopen => absurd hopen.1 (by decide)
  · split
    · next hclose => exact .closes hclose
    · next hclose =>
      split
      · next hopen =>
        exact .opens hopen ⟨rfl, fun hc => nomatch hc⟩
      · next hopen => exact hkeeps hclose hopen

/-- Whether the lexer is in a string or in a line comment, which stand in code. -/
def Mode.standsInCode : Mode → Bool
  | plain => false
  | second => false
  | lineComment => true
  | quoted _ => true
  | escaped _ => true

/-- A state that a scan can be in. -/
structure State.Sound (s : State) : Prop where
  /-- The frames stand on each other as they can. -/
  nested : WellNested s.context
  /-- A string and a line comment stand in code. -/
  code : s.mode.standsInCode = true → InCode s.context

/-- A character that code reads as the start of a string or of a line comment
opens no frame. -/
theorem codeStep_standsInCode (h : (codeStep context c next).2.mode.standsInCode = true) :
    (codeStep context c next).2.context = context := by
  unfold codeStep at h ⊢
  split
  · rfl
  split
  · next hline hcomment =>
    rw [if_neg hline, if_pos hcomment] at h
    cases h
  split
  · rfl
  · next hline hcomment hquote =>
    rw [if_neg hline, if_neg hcomment, if_neg hquote] at h
    repeat' split at h
    all_goals cases h

/-- An ordinary character does to the frames what its marks say. -/
theorem State.Sound.change (h : s.Sound) (hplain : s.mode = .plain) :
    Change c next s.context (step s c next).2.context := by
  obtain ⟨mode, context⟩ := s
  obtain rfl : mode = .plain := hplain
  cases context with
  | nil => exact codeStep_change rfl
  | cons frame outer =>
    cases frame with
    | comment => exact commentStep_change outer
    | template => exact templateStep_change outer
    | substitution => exact codeStep_change rfl
    | brace => exact codeStep_change rfl

/-- Any other character leaves them as they are. -/
theorem step_context_of_ne_plain (h : s.mode ≠ .plain) :
    (step s c next).2.context = s.context := by
  obtain ⟨mode, context⟩ := s
  cases mode with
  | plain => exact absurd rfl h
  | second => rfl
  | lineComment =>
    by_cases hfeed : c = '\n'
    · rw [hfeed, step_lineFeed (by simp)]
    · simp only [step, if_neg hfeed]
  | quoted quote =>
    simp only [step, quotedStep]
    repeat' split
    all_goals rfl
  | escaped quote => rfl

/-- A string or a line comment that a step leads into stands in the same code. -/
theorem State.Sound.standsInCode (h : s.Sound)
    (hbehind : (step s c next).2.mode.standsInCode = true) :
    InCode s.context ∧ (step s c next).2.context = s.context := by
  obtain ⟨mode, context⟩ := s
  cases mode with
  | plain =>
    cases context with
    | nil => exact ⟨rfl, codeStep_standsInCode hbehind⟩
    | cons frame outer =>
      cases frame with
      | comment =>
        simp only [step, commentStep] at hbehind
        split at hbehind <;> cases hbehind
      | template =>
        simp only [step, templateStep] at hbehind
        repeat' split at hbehind
        all_goals cases hbehind
      | substitution => exact ⟨rfl, codeStep_standsInCode hbehind⟩
      | brace => exact ⟨rfl, codeStep_standsInCode hbehind⟩
  | second => cases hbehind
  | lineComment => exact ⟨h.code rfl, step_context_of_ne_plain (by simp)⟩
  | quoted quote => exact ⟨h.code rfl, step_context_of_ne_plain (by simp)⟩
  | escaped quote => exact ⟨h.code rfl, step_context_of_ne_plain (by simp)⟩

/-- Every step keeps a state sound. -/
theorem State.Sound.step (h : s.Sound) (c : Char) (next : Option Char) :
    (step s c next).2.Sound := by
  refine ⟨?_, fun hbehind => ?_⟩
  · by_cases hplain : s.mode = .plain
    · exact (h.change hplain).wellNested h.nested
    · rw [step_context_of_ne_plain hplain]
      exact h.nested
  · obtain ⟨hcode, hsame⟩ := h.standsInCode hbehind
    rw [hsame]
    exact hcode

end Steps

/-- The state of the lexer between two parts of a text. -/
def between (context : Context) (a b : Text) : State := (walk b.head? ⟨.plain, context⟩ a).2

section Runs

variable {context : Context}

/-- Between no offsets the context is the one behind the text. -/
theorem between_nil (context : Context) (t : Text) :
    (between context t []).context = after context t := by
  rw [between, after, run_eq_walk]
  rfl

/-- One more character. -/
theorem between_step (context : Context) (a : Text) (c : Char) (b : Text) :
    between context (a ++ [c]) b = (step (between context a (c :: b)) c b.head?).2 := by
  rw [between, walk_append]
  rfl

/-- All states of a scan are sound. -/
theorem sound_between (h : WellNested context) (a b : Text) : (between context a b).Sound :=
  walk_induction (p := State.Sound) (fun _ c next _ hs => hs.step c next) b.head?
    ⟨h, fun hcode => nomatch hcode⟩

/-- The offsets of the characters that count as top-level code. -/
def codeOffsets (context : Context) (t : Text) : List Nat := (marks context t).findIdxs id

/-- An offset is reported when its character is marked. -/
theorem mem_codeOffsets_iff {t : Text} {i : Nat} :
    i ∈ codeOffsets context t ↔ (marks context t)[i]? = some true := by
  rw [codeOffsets, List.mem_findIdxs_iff_exists_getElem_pos, List.getElem?_eq_some_iff]
  rfl

/-- A reported offset lies in the text. -/
theorem lt_length_of_mem_codeOffsets {t : Text} {i : Nat} (h : i ∈ codeOffsets context t) :
    i < t.length := by
  obtain ⟨hlt, -⟩ := List.getElem?_eq_some_iff.1 (mem_codeOffsets_iff.1 h)
  rwa [length_marks] at hlt

/-- The mark of a character is the one that its step gives. -/
theorem getElem?_marks_append (context : Context) (a : Text) (c : Char) (b : Text) :
    (marks context (a ++ c :: b))[a.length]? =
      some (step (between context a (c :: b)) c b.head?).1 := by
  rw [marks_append_cons, List.getElem?_append_right (by rw [length_walk]), length_walk,
    Nat.sub_self]
  rfl

/-- Behind a character that counts nothing is open. -/
theorem between_of_mem_codeOffsets {t : Text} {i : Nat} (h : i ∈ codeOffsets context t) :
    (between context (t.take (i + 1)) (t.drop (i + 1))).context = [] := by
  have hlt : i < t.length := lt_length_of_mem_codeOffsets h
  have hmark := mem_codeOffsets_iff.1 h
  have hsplit : t = t.take i ++ t[i] :: t.drop (i + 1) := by
    rw [← List.drop_eq_getElem_cons hlt, List.take_append_drop]
  have hget := getElem?_marks_append context (t.take i) t[i] (t.drop (i + 1))
  rw [← hsplit, List.length_take, Nat.min_eq_left hlt.le, hmark] at hget
  rw [List.take_succ_eq_append_getElem hlt, between_step]
  exact context_of_marked (Option.some.inj hget).symm

/-- Well-nested frames stay well nested, whatever is read. Between any two parts of a text
they stand on each other as they can. An ordinary character opens, closes or keeps what its
marks say, a closing mark only a frame of its own kind, and any other character keeps the
frames. The offsets of top-level code go up in the text, and nothing is open behind them. -/
theorem scan_wellNested (h : WellNested context) (t : Text) :
    WellNested (after context t) ∧
      (∀ a b, t = a ++ b → WellNested (between context a b).context) ∧
      (∀ a c b, t = a ++ c :: b →
        (between context a (c :: b)).mode = .plain ∧
            Change c b.head? (between context a (c :: b)).context
              (between context (a ++ [c]) b).context ∨
          (between context a (c :: b)).mode ≠ .plain ∧
            (between context (a ++ [c]) b).context = (between context a (c :: b)).context) ∧
      (codeOffsets context t).Pairwise (· < ·) ∧
      ∀ i ∈ codeOffsets context t, i < t.length ∧
        (between context (t.take (i + 1)) (t.drop (i + 1))).context = [] := by
  refine ⟨?_, fun a b _ => (sound_between h a b).nested, fun a c b _ => ?_,
    List.pairwise_findIdxs, fun i hi => ⟨lt_length_of_mem_codeOffsets hi,
      between_of_mem_codeOffsets hi⟩⟩
  · rw [← between_nil]
    exact (sound_between h t []).nested
  · rw [between_step]
    by_cases hplain : (between context a (c :: b)).mode = .plain
    · exact .inl ⟨hplain, (sound_between h a (c :: b)).change hplain⟩
    · exact .inr ⟨hplain, step_context_of_ne_plain hplain⟩

end Runs

/-- In a template a brace closes the substitution, the next one is text, the one behind
the template and the mark of a comment are code, and the last string never ends. -/
theorem scan_wellNested_strayMarks :
    WellNested [.substitution, .template] ∧
      codeOffsets [.substitution, .template] "\x7d\x7d\x60\x7d */ \x60$\x7b '\\".toList =
        [2, 3, 4, 5, 6, 7] ∧
      after [.substitution, .template] "\x7d\x7d\x60\x7d */ \x60$\x7b '\\".toList =
        [.substitution, .template] ∧
      ∀ a b, "\x7d\x7d\x60\x7d */ \x60$\x7b '\\".toList = a ++ b →
        WellNested (between [.substitution, .template] a b).context := by
  have htemplate : WellNested [.template] := .cons rfl (by decide) .nil
  have hnested : WellNested [.substitution, .template] := .cons rfl (by decide) htemplate
  exact ⟨hnested, by decide, by decide, (scan_wellNested hnested _).2.1⟩

end ModuleScripts.Lexer
