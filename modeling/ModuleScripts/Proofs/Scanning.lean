import ModuleScripts.Source.Lexer

/-!
# Scanning a text in parts

The lexer looks one character ahead, so the first part of a text is scanned
with the first character of the second part in sight. With that character
given, scanning one part after the other is scanning the whole.
-/

namespace ModuleScripts.Lexer

/-- Walk over a text that `next` follows: one mark per character, and the state
behind it. -/
def walk (next : Option Char) (s : State) : Text → List Bool × State
  | [] => ([], s)
  | c :: r =>
    let now := step s c (r.head?.or next)
    let later := walk next now.2 r
    (now.1 :: later.1, later.2)

/-- A walk reports one mark for each character. -/
theorem length_walk (next : Option Char) (s : State) (t : Text) :
    (walk next s t).1.length = t.length := by
  induction t generalizing s with
  | nil => rfl
  | cons c r ih => simp [walk, ih]

/-- Scanning a text is scanning its first part in sight of the second, then the
second. -/
theorem run_append (s : State) (a b : Text) :
    run s (a ++ b) =
      ((walk b.head? s a).1 ++ (run (walk b.head? s a).2 b).1,
        (run (walk b.head? s a).2 b).2) := by
  induction a generalizing s with
  | nil => rfl
  | cons c r ih => simp only [List.cons_append, run, walk, List.head?_append, ih]

/-- The marks of a text in which a character is looked at on its own. -/
theorem marks_append_cons (context : Context) (a : Text) (c : Char) (r : Text) :
    marks context (a ++ c :: r) =
      (walk (some c) ⟨.plain, context⟩ a).1 ++
        (step (walk (some c) ⟨.plain, context⟩ a).2 c r.head?).1 ::
          (run (step (walk (some c) ⟨.plain, context⟩ a).2 c r.head?).2 r).1 := by
  simp only [marks, run_append, List.head?_cons, run]

/-- What one character can do in any state. Inside a comment or a template the
frame decides; a line comment is left by a line feed alone. -/
theorem step_cases {p : (Option Char → Bool × State) → Prop} (s : State) (c : Char)
    (code : p (codeStep s.context c))
    (comment : ∀ outer, s.context = .comment :: outer → p (commentStep outer c))
    (template : ∀ outer, s.context = .template :: outer → p (templateStep outer c))
    (second : p fun _ => (false, ⟨.plain, s.context⟩))
    (lineComment : s.mode = .lineComment → c ≠ '\n' → p fun _ => (false, s))
    (quoted : ∀ quote, p (quotedStep s.context quote c))
    (escaped : ∀ quote, s.mode = .escaped quote →
      p fun next => (s.context.isEmpty && next.isNone, ⟨.quoted quote, s.context⟩)) :
    p (step s c) := by
  obtain ⟨mode, context⟩ := s
  cases mode with
  | plain =>
    cases context with
    | nil => exact code
    | cons frame outer =>
      cases frame with
      | comment => exact comment outer rfl
      | template => exact template outer rfl
      | substitution => exact code
      | brace => exact code
  | second => exact second
  | lineComment =>
    by_cases hc : c = '\n'
    · have hstep : step ⟨.lineComment, context⟩ c = codeStep context c := by
        funext next
        simp only [step, if_pos hc]
      rw [hstep]
      exact code
    · have hstep : step ⟨.lineComment, context⟩ c = fun _ => (false, ⟨.lineComment, context⟩) := by
        funext next
        simp only [step, if_neg hc]
      rw [hstep]
      exact lineComment rfl hc
  | quoted quote => exact quoted quote
  | escaped quote => exact escaped quote rfl

/-- A marked character other than a slash that something follows is marked
whatever follows it. -/
theorem step_marks {s : State} {c d : Char} (hc : c ≠ '/') (h : (step s c (some d)).1 = true)
    (next : Option Char) : (step s c next).1 = true := by
  revert h
  refine step_cases (p := fun f => (f (some d)).1 = true → (f next).1 = true) s c ?code
    (fun outer _ => ?comment) (fun outer _ => ?template) ?second (fun _ _ => ?lineComment)
    (fun quote => ?quoted) (fun quote _ => ?escaped) <;> intro h
  case code =>
    simp only [codeStep, hc, false_and, if_false] at h ⊢
    split at h
    · simp at h
    · next hq => rw [if_neg hq]; exact h
  case comment =>
    simp only [commentStep] at h
    split at h <;> cases h
  case template =>
    simp only [templateStep] at h ⊢
    split at h
    · cases h
    · next hb =>
      split at h
      · next ht => rw [if_neg hb, if_pos ht]; exact h
      · split at h <;> cases h
  case second => cases h
  case lineComment => cases h
  case quoted =>
    simp only [quotedStep] at h ⊢
    split at h
    · simp at h
    · next hb =>
      split at h
      · next hq => rw [if_neg hb, if_pos hq]; exact h
      · simp at h
  case escaped => simp at h

end ModuleScripts.Lexer
