import ModuleScripts.Proofs.Gaps
import ModuleScripts.Proofs.Grounding
import ModuleScripts.Proofs.Layout

/-!
# The context between statements

The parser scans every statement on its own and hands on what is open behind it.
Where no line ends with a backslash, a line feed brings the lexer back to an
ordinary character of the innermost frame, so this is the state of one scan over
all statements so far, each with a line feed behind it. Inside a comment or a
template every statement is the line at hand as it stands. Only behind an import
or a re-export with a quote inside its specifier is that line not a whole one.
-/

namespace ModuleScripts

namespace Lexer

section LineFeeds

/-- To a blank ahead the lexer goes on as to the end of the text. -/
theorem step_before_blank {d : Char} (hd : isBlank d = true) (s : State) (c : Char) :
    (step s c (some d)).2 = (step s c none).2 := by
  have hopens : d ≠ '/' ∧ d ≠ '*' ∧ d ≠ '{' :=
    of_isBlank (p := fun d => d ≠ '/' ∧ d ≠ '*' ∧ d ≠ '{') hd (by decide)
  obtain ⟨hslash, hstar, hbrace⟩ := hopens
  refine step_cases (p := fun f => (f (some d)).2 = (f none).2) s c ?code (fun outer _ => ?comment)
    (fun outer _ => ?template) rfl (fun _ _ => rfl) (fun quote => ?quoted) (fun _ _ => rfl)
  case code =>
    simp only [codeStep, Option.some.injEq, hslash, hstar, reduceCtorEq, and_false, if_false]
    split <;> rfl
  case comment => simp [commentStep, hslash]
  case template =>
    simp only [templateStep, Option.some.injEq, hbrace, reduceCtorEq, and_false, if_false]
  case quoted =>
    simp only [quotedStep]
    split
    · rfl
    · split <;> rfl

/-- A blank behind a text does not change the state it is left in. -/
theorem walk_before_blank {d : Char} (hd : isBlank d = true) (s : State) (t : Text) :
    (walk (some d) s t).2 = (walk none s t).2 := by
  induction t generalizing s with
  | nil => rfl
  | cons c r ih =>
    have hstep : (step s c (r.head?.or (some d))).2 = (step s c (r.head?.or none)).2 := by
      cases r with
      | nil => exact step_before_blank hd s c
      | cons e r => rfl
    simp only [walk, hstep, ih]

/-- A blank opens nothing and closes nothing. -/
theorem step_blank_context {c : Char} (hc : isBlank c = true) (s : State) (next : Option Char) :
    (step s c next).2.context = s.context := by
  have hmarks : c ≠ '*' ∧ c ≠ '\\' ∧ c ≠ templateMark ∧ c ≠ '$' ∧ c ≠ '/' ∧ c ≠ '{' ∧ c ≠ '}' :=
    of_isBlank (p := fun c => c ≠ '*' ∧ c ≠ '\\' ∧ c ≠ templateMark ∧ c ≠ '$' ∧ c ≠ '/' ∧ c ≠ '{' ∧
      c ≠ '}') hc (by decide)
  obtain ⟨hstar, hescape, htemplate, hdollar, hslash, hopen, hclose⟩ := hmarks
  refine step_cases (p := fun f => (f next).2.context = s.context) s c ?code
    (fun outer houter => ?comment) (fun outer houter => ?template) rfl (fun _ _ => rfl)
    (fun quote => ?quoted) (fun _ _ => rfl)
  case code =>
    simp only [codeStep, hslash, htemplate, hopen, hclose, false_and, if_false]
    repeat' split
    all_goals rfl
  case comment => simp [commentStep, hstar, houter]
  case template => simp [templateStep, hescape, htemplate, hdollar, houter]
  case quoted =>
    simp only [quotedStep]
    repeat' split
    all_goals rfl

/-- Blanks at its end do not change what is open behind a text. -/
theorem after_append_blank (context : Context) (t : Text) {b : Text} (hb : Blank b) :
    after context (t ++ b) = after context t := by
  cases b with
  | nil => rw [List.append_nil]
  | cons c b =>
    have hc : isBlank c = true := hb c List.mem_cons_self
    have hblanks : ∀ s, (walk none s (c :: b)).2.context = s.context := fun s =>
      walk_induction (p := fun u => u.context = s.context)
        (fun u d next hd hu => (step_blank_context (hb d hd) u next).trans hu) none rfl
    rw [after, after, run_append, run_eq_walk, hblanks, List.head?_cons, walk_before_blank hc,
      run_eq_walk]

/-- Calm text in front does not change what is open behind a text. -/
theorem after_calm_append {a : Text} (ha : Calm a) (t : Text) : after [] (a ++ t) = after [] t := by
  rw [after, after, run_append, walk_calm ha]

/-- A line feed ends a string and a line comment and opens nothing. -/
theorem step_lineFeed {s : State} (h : ∀ quote, s.mode ≠ .escaped quote) (next : Option Char) :
    (step s '\n' next).2 = ⟨.plain, s.context⟩ := by
  refine step_cases (p := fun f => (f next).2 = ⟨.plain, s.context⟩) s '\n' ?code
    (fun outer houter => ?comment) (fun outer houter => ?template) rfl
    (fun _ hn => absurd rfl hn) (fun quote => ?quoted) (fun quote hmode => absurd hmode (h quote))
  case code =>
    simp only [codeStep, templateMark, false_and, if_false, Char.reduceEq, or_self]
    split <;> rfl
  case comment => simp [commentStep, houter]
  case template => simp [templateStep, templateMark, houter]
  case quoted => simp [quotedStep]

/-- Only a backslash makes the character behind it escaped. -/
theorem step_ne_escaped {c : Char} (h : c ≠ '\\') (s : State) (next : Option Char)
    (quote : Char) : (step s c next).2.mode ≠ .escaped quote := by
  refine step_cases (p := fun f => (f next).2.mode ≠ .escaped quote) s c ?code
    (fun outer _ => ?comment) (fun outer _ => ?template) ?second (fun hmode _ => ?lineComment)
    (fun q => ?quoted) (fun q _ => ?escaped)
  case code =>
    unfold codeStep
    repeat' split
    all_goals simp
  case comment =>
    simp only [commentStep]
    split <;> simp
  case template =>
    simp only [templateStep]
    repeat' split
    all_goals simp
  case second => simp
  case lineComment => simp [hmode]
  case quoted =>
    simp only [quotedStep, if_neg h]
    split <;> simp
  case escaped => simp

/-- A text that does not end in a backslash leaves nothing escaped. -/
theorem walk_ne_escaped {context : Context} {t : Text} (h : t.getLast? ≠ some '\\')
    (next : Option Char) (quote : Char) :
    (walk next ⟨.plain, context⟩ t).2.mode ≠ .escaped quote := by
  rcases List.eq_nil_or_concat t with rfl | ⟨start, c, rfl⟩
  · simp [walk]
  · have hc : c ≠ '\\' := by simpa using h
    rw [List.concat_eq_append, walk_append]
    exact step_ne_escaped hc _ _ quote

/-- A text that a line feed ends is left in the same context as without it, at an
ordinary character of that context. -/
theorem run_append_lineFeed {context : Context} {t : Text} (h : t.getLast? ≠ some '\\')
    (r : Text) :
    (run ⟨.plain, context⟩ (t ++ '\n' :: r)).2 = (run ⟨.plain, after context t⟩ r).2 := by
  have hstate : (walk (some '\n') ⟨.plain, context⟩ t).2.context = after context t := by
    rw [after, run_eq_walk, walk_before_blank (by decide)]
  have hplain : ∀ quote, (walk (some '\n') ⟨.plain, context⟩ t).2.mode ≠ .escaped quote :=
    walk_ne_escaped h (some '\n')
  have hstep := step_lineFeed hplain r.head?
  rw [run_append, List.head?_cons, run, hstep, hstate]

end LineFeeds

/-- A character that code marks leaves nothing open. -/
theorem codeStep_context_of_marked {context : Context} {c : Char} {next : Option Char}
    (h : (codeStep context c next).1 = true) : (codeStep context c next).2.context = [] := by
  unfold codeStep at h ⊢
  split at h
  · cases h
  · next hline =>
    rw [if_neg hline]
    split at h
    · cases h
    · next hblock =>
      rw [if_neg hblock]
      split at h
      · next hquote =>
        rw [if_pos hquote]
        simp only [Bool.and_eq_true, List.isEmpty_iff] at h
        exact h.1
      · next hquote =>
        rw [if_neg hquote]
        split at h
        · cases h
        · next htemplate =>
          rw [if_neg htemplate]
          split at h
          · next hempty =>
            rw [if_pos hempty]
            exact List.isEmpty_iff.1 hempty
          · split at h
            · cases h
            · split at h <;> cases h

/-- A marked character is at the top level, and the next one is as well. -/
theorem context_of_marked {s : State} {c : Char} {next : Option Char}
    (h : (step s c next).1 = true) : (step s c next).2.context = [] := by
  revert h
  refine step_cases (p := fun f => (f next).1 = true → (f next).2.context = []) s c ?code
    (fun outer _ => ?comment) (fun outer _ => ?template) ?second (fun _ _ => ?lineComment)
    (fun quote => ?quoted) (fun quote _ => ?escaped) <;> intro h
  case code => exact codeStep_context_of_marked h
  case comment =>
    simp only [commentStep] at h
    split at h <;> cases h
  case template =>
    simp only [templateStep] at h ⊢
    split at h
    · cases h
    · next hb =>
      split at h
      · next ht =>
        rw [if_neg hb, if_pos ht]
        exact List.isEmpty_iff.1 h
      · split at h <;> cases h
  case second => cases h
  case lineComment => cases h
  case quoted =>
    simp only [quotedStep] at h ⊢
    split at h
    · next hb =>
      rw [if_pos hb]
      simp only [Bool.and_eq_true, List.isEmpty_iff] at h
      exact h.1
    · next hb =>
      split at h
      · next hq =>
        rw [if_neg hb, if_pos hq]
        exact List.isEmpty_iff.1 h
      · next hq =>
        rw [if_neg hb, if_neg hq]
        simp only [Bool.and_eq_true, List.isEmpty_iff] at h
        exact h.1
  case escaped =>
    simp only [Bool.and_eq_true, List.isEmpty_iff] at h ⊢
    exact h.1

/-- A text whose last character is marked leaves nothing open. -/
theorem after_of_marked_last {t : Text} {before : List (Char × Bool)} {c : Char}
    (h : marked [] t = before ++ [(c, true)]) : after [] t = [] := by
  have ht : t = before.map Prod.fst ++ [c] := by
    have hfst := map_fst_marked [] t
    rw [h] at hfst
    simpa using hfst.symm
  have hmarks : marks [] t = before.map Prod.snd ++ [true] := by
    have hsnd : (marked [] t).map Prod.snd = marks [] t :=
      List.map_snd_zip (Nat.le_of_eq (length_marks [] t))
    rw [← hsnd, h]
    simp
  rw [ht, marks_append_cons] at hmarks
  have hlast := (List.append_inj' hmarks (by simp [run])).2
  have hmark := (List.cons.inj hlast).1
  rw [after, ht, run_append]
  exact context_of_marked hmark

end Lexer

open Matcher in
/-- A declaration that something follows ends with a semicolon at the top level,
so it leaves nothing open. -/
theorem Declaration.after_text {t : Text} {d : Declaration} (h : split? t = some d)
    (hr : d.rest ≠ []) : Lexer.after [] d.text = [] ∧ d.text.getLast? = some ';' := by
  obtain ⟨list, htext, hhead, hcut⟩ := exists_semicolon h hr
  have hcalm : Calm d.head := by
    rw [variableHead_eq] at hhead
    refine andThen_takesCalm blanks_takesCalm (andThen_takesCalm (literal_takesCalm (by decide))
      (andThen_takesCalm gap_takesCalm ?_)) _ _ _ hhead
    intro t piece rest hk
    rcases (variableKeyword_eq_some_iff.1 hk).1 with rfl | rfl | rfl <;> decide
  obtain ⟨before, behind, hm, hb, _⟩ := Pieces.cut_rest (by rw [hcut []] : _ = some [])
  have hnil : behind = [] := List.map_eq_nil_iff.1 hb.symm
  rw [hnil] at hm
  have hafter := Lexer.after_of_marked_last hm
  refine ⟨?_, by rw [htext]; simp⟩
  rw [htext, Lexer.after, Lexer.run_append, walk_calm hcalm]
  exact hafter

/-- No backslash is the last character of a line. -/
def Unescaped (t : Text) : Prop :=
  ∀ before behind, t = before ++ '\\' :: behind → ∃ c r, behind = c :: r ∧ c ≠ '\n'

/-- No backslash ends a line in the second part of such a text. -/
theorem Unescaped.of_append {a b : Text} (h : Unescaped (a ++ b)) : Unescaped b := by
  rintro before behind rfl
  exact h (a ++ before) behind (by simp)

namespace Text

/-- A character other than a line feed joins the first line. -/
theorem lines_cons_of_ne {c : Char} (hc : c ≠ '\n') {r first : Text} {others : List Text}
    (h : lines r = first :: others) : lines (c :: r) = (c :: first) :: others :=
  splitOn_cons_of_ne hc h

/-- Without a backslash at the end of a line none is the last character of one. -/
theorem unescaped_of_lines {t : Text} (h : ∀ l ∈ lines t, l.getLast? ≠ some '\\') :
    Unescaped t := by
  induction t with
  | nil =>
    intro before behind ht
    cases before <;> cases ht
  | cons c r ih =>
    intro before behind ht
    by_cases hc : c = '\n'
    · subst hc
      rw [lines_cons_lineFeed] at h
      cases before with
      | nil => cases ht
      | cons d before =>
        exact ih (fun l hl => h l (List.mem_cons_of_mem _ hl)) before behind (List.cons.inj ht).2
    · obtain ⟨first, others, hr⟩ := List.exists_cons_of_ne_nil (lines_ne_nil r)
      rw [lines_cons_of_ne hc hr] at h
      have hfirst := h (c :: first) List.mem_cons_self
      cases before with
      | nil =>
        obtain ⟨rfl, rfl⟩ := List.cons.inj ht
        cases r with
        | nil =>
          obtain rfl : first = [] := by
            have hnil : lines [] = [[]] := rfl
            rw [hnil] at hr
            exact (List.cons.inj hr).1.symm
          exact absurd rfl hfirst
        | cons d r =>
          refine ⟨d, r, rfl, ?_⟩
          rintro rfl
          rw [lines_cons_lineFeed] at hr
          rw [← (List.cons.inj hr).1] at hfirst
          exact absurd rfl hfirst
      | cons d before =>
        refine ih (fun l hl => ?_) before behind (List.cons.inj ht).2
        rw [hr] at hl
        rcases List.mem_cons.1 hl with rfl | hl
        · cases l with
          | nil => simp
          | cons e l => simpa [List.getLast?_cons_cons] using hfirst
        · exact h l (List.mem_cons_of_mem _ hl)

/-- The last line of one text and the first one of another make one line of both. -/
theorem lines_append (t : Text) {u first : Text} {others : List Text}
    (h : lines u = first :: others) :
    ∃ earlier last, lines t = earlier ++ [last] ∧ earlier.length = lineFeeds t ∧
      lines (t ++ u) = earlier ++ (last ++ first) :: others := by
  induction t with
  | nil => exact ⟨[], [], rfl, rfl, h⟩
  | cons c r ih =>
    obtain ⟨earlier, last, hr, hlength, hboth⟩ := ih
    by_cases hc : c = '\n'
    · subst hc
      refine ⟨[] :: earlier, last, ?_, ?_, ?_⟩
      · rw [lines_cons_lineFeed, hr, List.cons_append]
      · rw [List.length_cons, hlength, lineFeeds, lineFeeds, List.count_cons_self]
      · rw [List.cons_append, lines_cons_lineFeed, hboth, List.cons_append]
    · have hcount : lineFeeds (c :: r) = lineFeeds r := List.count_cons_of_ne hc
      rw [hcount, ← hlength, List.cons_append]
      cases earlier with
      | nil => exact ⟨[], c :: last, lines_cons_of_ne hc hr, rfl, lines_cons_of_ne hc hboth⟩
      | cons line earlier =>
        exact ⟨(c :: line) :: earlier, last, lines_cons_of_ne hc hr, rfl,
          lines_cons_of_ne hc hboth⟩

/-- A text ends behind `front` on its last line, which starts in it unless the text has no
other line. -/
def EndsBehind (t front : Text) : Prop :=
  ∃ start last, front = start ++ last ∧ (lines t).getLast? = some last ∧
    ('\n' ∈ t → start = [])

/-- What has no line feed belongs to the first line of what follows. -/
theorem lines_oneLine_append {start : Text} (hstart : '\n' ∉ start) {u first : Text}
    {others : List Text} (h : lines u = first :: others) :
    lines (start ++ u) = (start ++ first) :: others := by
  obtain ⟨earlier, last, hlines, -, hboth⟩ := lines_append start h
  rw [lines_of_oneLine hstart] at hlines
  obtain ⟨rfl, hlast⟩ := List.append_eq_singleton_iff.1 hlines.symm |>.resolve_right (by simp)
  rw [hboth, ← List.cons.inj hlast |>.1]
  rfl

/-- Behind the line feeds of a text on a line come the lines of what follows it, the first of
them behind the end of the text. -/
theorem drop_lineFeeds {start : Text} (hstart : '\n' ∉ start) (t : Text) {u first : Text}
    {others : List Text} (h : lines u = first :: others) :
    ∃ front, (lines (start ++ (t ++ u))).drop (lineFeeds t) = (front ++ first) :: others ∧
      EndsBehind t front := by
  obtain ⟨earlier, last, ht, hlength, hboth⟩ := lines_append t h
  have hlast : (lines t).getLast? = some last := by rw [ht, List.getLast?_concat]
  rw [← hlength]
  cases earlier with
  | nil =>
    refine ⟨start ++ last, ?_, start, last, rfl, hlast, fun hmem => ?_⟩
    · rw [lines_oneLine_append hstart hboth, List.append_assoc]
      rfl
    · exact absurd hlength.symm (List.count_pos_iff.2 hmem).ne'
  | cons line earlier =>
    refine ⟨last, ?_, [], last, rfl, hlast, fun _ => rfl⟩
    rw [lines_oneLine_append hstart hboth]
    exact List.drop_left

end Text

namespace Taken

variable {context : Lexer.Context} {line : Nat} {raw : Text} {lines : List Text} {t : Taken}

/-- What a statement shares its last line with follows a statement that leaves
nothing open, or one with a quote inside its specifier. -/
theorem next_shared (hraw : '\n' ∉ raw) (hl : ∀ l ∈ lines, '\n' ∉ l)
    (h : next context line raw lines = .ok t) (hr : t.rest ≠ []) :
    context = [] ∧ t.statement.text.getLast? ≠ some '\\' ∧
      (Lexer.after [] t.statement.text = [] ∨
        ∃ specifier, t.statement.specifier? = some specifier ∧ ¬QuoteFree specifier) := by
  have hclosing : ∀ {u : Text} {c : Char} {front closing : Text}, u = front ++ c :: closing →
      c ≠ '\\' → Matcher.Closing closing → u.getLast? ≠ some '\\' := by
    intro u c front closing hu hc hclosing
    have hall : ∀ d ∈ c :: closing, d ≠ '\\' := by
      intro d hd
      rcases List.mem_cons.1 hd with rfl | hd
      · exact hc
      · rintro rfl
        exact absurd (hclosing _ hd) (by decide)
    rw [hu, List.getLast?_append_of_ne_nil front (List.cons_ne_nil c closing)]
    exact fun hlast => hall '\\' (List.mem_of_getLast? hlast) rfl
  have hquoted : ∀ {u : Text}, EndsQuoted u → u.getLast? ≠ some '\\' := by
    rintro u ⟨front, q, inner, closing, hu, hq, _, _, hc⟩
    have hlast : u = (front ++ q :: inner) ++ q :: closing := by simpa using hu
    refine hclosing hlast ?_ hc
    rintro rfl
    cases hq
  cases next_eq_ok_iff.1 h with
  | code => exact absurd rfl hr
  | importing ho h =>
    obtain ⟨i, hi, hparse, hcut, _⟩ := importing_whole hraw hl ho h
    rw [hi]
    refine ⟨rfl, hquoted (Boundary.importEnd_takesQuoted _ _ _ hcut.whole), ?_⟩
    by_cases hq : QuoteFree i.specifier
    · exact .inl (Import.after_eq_nil hparse hcut.whole hq)
    · exact .inr ⟨i.specifier, rfl, hq⟩
  | exportList ho h =>
    obtain ⟨e, he, hparse, hcut, _⟩ := exportList_whole hraw hl ho h
    rw [he]
    refine ⟨rfl, ?_, ?_⟩
    · rcases Boundary.endsQuoted_or_endsBraced hcut.whole with hq | ⟨front, closing, hu, hc⟩
      · exact hquoted hq
      · exact hclosing hu (by decide) hc
    · by_cases hq : ∀ s, e.specifier = some s → QuoteFree s
      · exact .inl (Export.after_eq_nil hparse hcut.whole hq)
      · obtain ⟨s, hs⟩ := not_forall.1 hq
        exact .inr ⟨s, Classical.not_imp.1 hs⟩
  | exportVariables _ h =>
    obtain ⟨text, following, d, e, _, hd, he, rfl⟩ := exportVariables_eq_ok_iff.1 h
    obtain ⟨_, htext⟩ := Export.parseVariables_line_text he
    obtain ⟨hafter, hlast⟩ := Declaration.after_text hd hr
    change [] = [] ∧ e.text.getLast? ≠ _ ∧ (Lexer.after [] e.text = [] ∨ _)
    rw [htext]
    exact ⟨rfl, by rw [hlast]; decide, .inl hafter⟩
  | exportOther => exact absurd rfl hr

/-- Where no line ends with a backslash, no statement does. -/
theorem next_getLast (hraw : '\n' ∉ raw) (hl : ∀ l ∈ lines, '\n' ∉ l)
    (h : next context line raw lines = .ok t) (hu : Unescaped (unread raw lines)) :
    t.statement.text.getLast? ≠ some '\\' := by
  by_cases hr : t.rest = []
  · intro hlast
    obtain ⟨start, hstart⟩ := List.getLast?_eq_some_iff.1 hlast
    have hunread := (next_follows hraw hl h).unread_eq
    rw [hr, hstart, List.append_assoc, List.singleton_append] at hunread
    obtain ⟨c, r, hbehind, hc⟩ := hu start _ hunread
    cases hf : t.following with
    | nil =>
      rw [hf] at hbehind
      cases hbehind
    | cons first others =>
      rw [hf] at hbehind
      exact hc (List.cons.inj hbehind).1.symm
  · exact (next_shared hraw hl h hr).2.1

end Taken

/-- Statements as written, each with a line feed behind it. -/
def terminated (statements : List Statement) : Text :=
  statements.flatMap fun s => s.text ++ ['\n']

/-- The context that the parser hands on behind statements. -/
def threaded (context : Lexer.Context) (statements : List Statement) : Lexer.Context :=
  statements.foldl (fun context s => Lexer.after context s.text) context

/-- Handing on what is open behind each statement is scanning all of them. -/
theorem after_terminated {statements : List Statement}
    (h : ∀ s ∈ statements, s.text.getLast? ≠ some '\\') (context : Lexer.Context) :
    Lexer.after context (terminated statements) = threaded context statements := by
  induction statements generalizing context with
  | nil => rfl
  | cons s statements ih =>
    have hjoin : terminated (s :: statements) = s.text ++ '\n' :: terminated statements := by
      simp [terminated]
    have hs := h s List.mem_cons_self
    rw [hjoin, Lexer.after, Lexer.run_append_lineFeed hs]
    exact ih (fun u hu => h u (List.mem_cons_of_mem _ hu)) _

/-- The line on which a statement starts has a statement before it that ends there and
leaves nothing open, or has a quote inside its specifier. -/
def SharesLine (context : Lexer.Context) (before : List Statement) (line : Nat)
    (front : Text) : Prop :=
  ∃ earlier p, before = earlier ++ [p] ∧ line = p.line + Text.lineFeeds p.text ∧
    p.text.EndsBehind front ∧
    (context = [] ∨ ∃ specifier, p.specifier? = some specifier ∧ ¬QuoteFree specifier)

/-- Where the parser stands in the source when the statements before are read. -/
structure Placed (source : Text) (before : List Statement) (context : Lexer.Context) (line : Nat)
    (raw : Text) (lines : List Text) : Prop where
  /-- It holds the context behind these statements. -/
  context_eq : context = threaded [] before
  /-- None of them ends with a backslash. -/
  before_ends : ∀ s ∈ before, s.text.getLast? ≠ some '\\'
  /-- Lines are counted from one. -/
  line_pos : 1 ≤ line
  /-- The line at hand is a line of the source, or the end of one. -/
  lines_eq : ∃ front, (Text.lines source).drop (line - 1) = (front ++ raw) :: lines ∧
    (front = [] ∨ SharesLine context before line front)
  /-- No line that is to come ends with a backslash. -/
  unescaped : Unescaped (unread raw lines)

section Placed

variable {source raw : Text} {before : List Statement} {context : Lexer.Context} {line : Nat}
  {lines : List Text} {t : Taken}

/-- What is left to read is a line and the lines that follow it. -/
theorem Placed.oneLine (h : Placed source before context line raw lines) :
    '\n' ∉ raw ∧ ∀ l ∈ lines, '\n' ∉ l := by
  obtain ⟨front, hlines, _⟩ := h.lines_eq
  have hmem : ∀ l ∈ (front ++ raw) :: lines, '\n' ∉ l := by
    intro l hl
    rw [← hlines] at hl
    exact Text.lineFeed_notMem_of_mem_lines (List.mem_of_mem_drop hl)
  refine ⟨fun hn => ?_, fun l hl => hmem l (List.mem_cons_of_mem _ hl)⟩
  exact hmem _ List.mem_cons_self (List.mem_append_right front hn)

/-- What a step leaves is where the source goes on, behind the end of the statement. -/
theorem Placed.rest (h : Placed source before context line raw lines)
    (ht : Taken.next context line raw lines = .ok t) :
    ∃ front, (Text.lines source).drop (t.lastLine - 1) = (front ++ t.rest) :: t.following ∧
      t.statement.text.EndsBehind front := by
  obtain ⟨hraw, hl⟩ := h.oneLine
  have hf := Taken.next_follows hraw hl ht
  obtain ⟨front, hlines, _⟩ := h.lines_eq
  have hmem : ∀ l ∈ (front ++ raw) :: lines, '\n' ∉ l := by
    intro l hl
    rw [← hlines] at hl
    exact Text.lineFeed_notMem_of_mem_lines (List.mem_of_mem_drop hl)
  have hfront : '\n' ∉ front := fun hn =>
    hmem _ List.mem_cons_self (List.mem_append_left raw hn)
  have hwhole : Text.lines (front ++ (t.statement.text ++ unread t.rest t.following)) =
      (front ++ raw) :: lines := by
    have hjoin : front ++ (t.statement.text ++ unread t.rest t.following) =
        unread (front ++ raw) lines := by
      rw [← hf.unread_eq]
      simp [unread]
    rw [hjoin]
    exact lines_unread (hmem _ List.mem_cons_self) fun l hl => hmem l (List.mem_cons_of_mem _ hl)
  have hrest := lines_unread hf.rest_oneLine hf.following_oneLine
  obtain ⟨more, hdrop, hends⟩ := Text.drop_lineFeeds hfront t.statement.text hrest
  rw [hwhole] at hdrop
  have hline : t.lastLine - 1 = (line - 1) + Text.lineFeeds t.statement.text := by
    have hlast := hf.lastLine_eq
    have hpos := h.line_pos
    omega
  exact ⟨more, by rw [hline, ← List.drop_drop, hlines, hdrop], hends⟩

/-- A step brings the parser to the next line, or to the rest of the line. -/
theorem Placed.step (h : Placed source before context line raw lines)
    (ht : Taken.next context line raw lines = .ok t) :
    (t.rest ≠ [] → Placed source (before ++ [t.statement])
      (Lexer.after context t.statement.text) t.lastLine t.rest t.following) ∧
    ∀ next more, t.following = next :: more → Placed source (before ++ [t.statement])
      (Lexer.after context t.statement.text) (t.lastLine + 1) next more := by
  obtain ⟨hraw, hl⟩ := h.oneLine
  have hf := Taken.next_follows hraw hl ht
  obtain ⟨front, hfront, hfinal⟩ := h.rest ht
  have hcontext : Lexer.after context t.statement.text = threaded [] (before ++ [t.statement]) := by
    rw [h.context_eq]
    simp [threaded]
  have hends : ∀ s ∈ before ++ [t.statement], s.text.getLast? ≠ some '\\' := by
    intro s hs
    rcases List.mem_append.1 hs with hs | hs
    · exact h.before_ends s hs
    · rw [List.mem_singleton.1 hs]
      exact Taken.next_getLast hraw hl ht h.unescaped
  have hpos : 1 ≤ t.lastLine := by
    have hlast := hf.lastLine_eq
    have hline := h.line_pos
    omega
  have hunescaped : Unescaped (unread t.rest t.following) := by
    have hu := h.unescaped
    rw [hf.unread_eq] at hu
    exact hu.of_append
  refine ⟨fun hr => ⟨hcontext, hends, hpos, ⟨front, hfront, .inr ?_⟩, hunescaped⟩,
    fun next more hnext => ⟨hcontext, hends, by omega, ⟨[], ?_, .inl rfl⟩, ?_⟩⟩
  · obtain ⟨hnil, _, hafter⟩ := Taken.next_shared hraw hl ht hr
    exact ⟨before, t.statement, rfl, by rw [hf.line_eq]; exact hf.lastLine_eq, hfinal,
      hafter.imp_left fun ha => by rw [hnil, ha]⟩
  · have hsplit : t.lastLine + 1 - 1 = (t.lastLine - 1) + 1 := by omega
    rw [hsplit, ← List.drop_drop, hfront, hnext]
    rfl
  · rw [hnext, unread_cons] at hunescaped
    have hjoin : unread (t.rest ++ '\n' :: next) more =
        (t.rest ++ ['\n']) ++ unread next more := by
      simp [unread]
    rw [hjoin] at hunescaped
    exact hunescaped.of_append

end Placed

/-- Every statement of a run is taken off a place in the source, behind the
statements before it. -/
theorem Reads.placed {source raw : Text} {earlier statements : List Statement}
    {context : Lexer.Context} {line : Nat} {lines : List Text}
    (h : Reads context line raw lines statements)
    (hp : Placed source earlier context line raw lines) {before behind : List Statement}
    {s : Statement} (hs : statements = before ++ s :: behind) :
    ∃ context' line' raw' lines' t, Placed source (earlier ++ before) context' line' raw' lines' ∧
      Taken.next context' line' raw' lines' = .ok t ∧ t.statement = s := by
  have hfirst : ∀ {context : Lexer.Context} {line : Nat} {raw : Text} {lines : List Text}
      {t : Taken} {earlier statements : List Statement},
      Placed source earlier context line raw lines →
      Taken.next context line raw lines = .ok t → t.statement :: statements = s :: behind →
      ∃ context' line' raw' lines' t, Placed source (earlier ++ []) context' line' raw' lines' ∧
        Taken.next context' line' raw' lines' = .ok t ∧ t.statement = s := by
    intro context line raw lines t earlier statements hp ht hcons
    rw [List.append_nil]
    exact ⟨context, line, raw, lines, t, hp, ht, (List.cons.inj hcons).1⟩
  induction h generalizing earlier before with
  | last ht _ _ =>
    cases before with
    | nil => exact hfirst hp ht hs
    | cons b before =>
      have hnil := (List.cons.inj hs).2
      simp at hnil
  | nextLine ht _ hf _ ih =>
    cases before with
    | nil => exact hfirst hp ht hs
    | cons b before =>
      obtain ⟨rfl, hrest⟩ := List.cons.inj hs
      have hlater := ih ((hp.step ht).2 _ _ hf) hrest
      simpa using hlater
  | @sameLine context line raw lines t statements ht hleft _ ih =>
    cases before with
    | nil => exact hfirst hp ht hs
    | cons b before =>
      obtain ⟨rfl, hrest⟩ := List.cons.inj hs
      have hr : t.rest ≠ [] := by
        intro hr
        rw [hr] at hleft
        cases hleft
      have hlater := ih ((hp.step ht).1 hr) hrest
      simpa using hlater

/-- How a statement is read behind others: in the context that one scan over all
of them leaves, and as a line of code if that is inside a comment or a
template. -/
structure ReadBehind (source : Text) (before : List Statement) (s : Statement) : Prop where
  /-- The statement is taken off its line in the context behind all before it. -/
  taken : ∃ front raw lines t, (Text.lines source).drop (s.line - 1) = (front ++ raw) :: lines ∧
    Taken.next (Lexer.after [] (terminated before)) s.line raw lines = .ok t ∧ t.statement = s
  /-- Inside a comment or a template it is a line of code, a whole one unless
  the statement before it ends on that line and has a quote inside its
  specifier. Then it is the line behind that end. -/
  inside : Lexer.after [] (terminated before) ≠ [] →
    ∃ front text, s = .code s.line text ∧
      (Text.lines source)[s.line - 1]? = some (front ++ text) ∧
      (front = [] ∨ ∃ earlier p specifier, before = earlier ++ [p] ∧
        p.specifier? = some specifier ∧ ¬QuoteFree specifier ∧
        s.line = p.line + Text.lineFeeds p.text ∧ p.text.EndsBehind front)

/-- If no line ends with a backslash, every statement is read in the context of
one scan over all statements before it, so no import and no export starts inside
a comment or a template. -/
theorem Module.parse_context {source : Text} {m : Module} {before behind : List Statement}
    {s : Statement} (h : Module.parse source = .ok m)
    (hlines : ∀ l ∈ Text.lines source, l.getLast? ≠ some '\\')
    (hs : m.body = before ++ s :: behind) : ReadBehind source before s := by
  obtain ⟨first, following, hfirst, hreads⟩ := Module.reads_of_parse h
  have hunescaped : Unescaped (unread first following) := by
    rw [unread_lines hfirst]
    exact Text.unescaped_of_lines hlines
  have hstart : Placed source [] [] 1 first following :=
    ⟨rfl, fun _ hs => absurd hs List.not_mem_nil, le_rfl, ⟨[], hfirst, .inl rfl⟩, hunescaped⟩
  obtain ⟨context, line, raw, lines, t, hp, ht, rfl⟩ := hreads.placed hstart hs
  rw [List.nil_append] at hp
  obtain ⟨hraw, hl⟩ := hp.oneLine
  obtain ⟨front, hfront, hshared⟩ := hp.lines_eq
  have hline := (Taken.next_follows hraw hl ht).line_eq
  have hcontext : context = Lexer.after [] (terminated before) := by
    rw [hp.context_eq, after_terminated hp.before_ends]
  rw [← hline] at hfront hshared ht
  rw [hcontext] at ht hshared
  refine ⟨⟨front, raw, lines, t, hfront, ht, rfl⟩, fun hinside => ?_⟩
  have hcode : t.statement = .code t.statement.line raw := by
    have hnext := ht
    rw [Taken.next, if_pos (by simpa using hinside)] at hnext
    exact congrArg Taken.statement (Except.ok.inj hnext).symm
  refine ⟨front, raw, hcode, ?_, hshared.imp_right fun hs => ?_⟩
  · have hget := congrArg List.head? hfront
    rwa [List.head?_drop] at hget
  · obtain ⟨earlier, p, hbefore, hline, hends, hcase⟩ := hs
    obtain ⟨specifier, hspecifier, hquote⟩ := hcase.resolve_left hinside
    exact ⟨earlier, p, specifier, hbefore, hspecifier, hquote, hline, hends⟩

/-- The second line is inside a template that the first one opens. -/
theorem Module.parse_context_template :
    ∃ m, Module.parse "let s = `\nimport a from 'b'\n`".toList = .ok m ∧
      ReadBehind "let s = `\nimport a from 'b'\n`".toList
        [.code 1 "let s = `".toList] (.code 2 "import a from 'b'".toList) := by
  have h : Module.parse "let s = `\nimport a from 'b'\n`".toList =
      .ok ⟨[.code 1 "let s = `".toList] ++ .code 2 "import a from 'b'".toList ::
        [.code 3 "`".toList]⟩ := by
    decide +kernel
  exact ⟨_, h, Module.parse_context h (by decide +kernel) rfl⟩

/-- A specifier that is not closed on its line opens a template, and what follows
it on its last line is code, but no line of the source. -/
theorem Module.parse_context_rest_of_line :
    ∃ m p s, Module.parse "import 'x\n`\n from 'y' foo".toList = .ok m ∧ m.body = [p, s] ∧
      (∀ l ∈ Text.lines "import 'x\n`\n from 'y' foo".toList, l.getLast? ≠ some '\\') ∧
      Lexer.after [] (terminated [p]) = [.template] ∧
      s.text ∉ Text.lines "import 'x\n`\n from 'y' foo".toList := by
  have h : Module.parse "import 'x\n`\n from 'y' foo".toList =
      .ok ⟨[.importing ⟨1, "import 'x\n`\n from 'y' ".toList, "x\n`\n from 'y".toList, none, none,
        []⟩, .code 3 "foo".toList]⟩ := by
    decide +kernel
  exact ⟨_, _, _, h, rfl, by decide +kernel, by decide +kernel, by decide +kernel⟩

end ModuleScripts
