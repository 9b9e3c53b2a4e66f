import ModuleScripts.Proofs.ContextThread

/-!
# Text that is code only

Where no line that starts at the top level announces an import or an export, the
parser makes a statement of code of every line. It takes what is open from line
to line, so a text in one line after the other is read as its parts are.
-/

namespace ModuleScripts

/-- What is open behind lines that are scanned one after the other. -/
def Lexer.afterLines (context : Context) (lines : List Text) : Context := lines.foldl after context

/-- Every line that is read at the top level announces code. -/
def AllCode : Lexer.Context → List Text → Prop
  | _, [] => True
  | context, line :: lines =>
    (context = [] → LineHead.ofLine line = .code) ∧ AllCode (Lexer.after context line) lines

/-- Lines as statements of code, numbered from the first one on. -/
def Statement.codes (first : Nat) (lines : List Text) : List Statement :=
  (lines.zipIdx first).map fun p => .code p.2 p.1

section Lines

variable {context : Lexer.Context} {lines others : List Text}

/-- Lines are code when the first ones are, and the others are behind what
these leave open. -/
theorem allCode_append : AllCode context (lines ++ others) ↔
    AllCode context lines ∧ AllCode (Lexer.afterLines context lines) others := by
  induction lines generalizing context with
  | nil => simp [AllCode, Lexer.afterLines]
  | cons line lines ih =>
    simp only [List.cons_append, AllCode, ih, Lexer.afterLines, List.foldl_cons, and_assoc]

/-- Lines that announce code wherever they stand. -/
theorem allCode_of_forall (h : ∀ line ∈ lines, LineHead.ofLine line = .code)
    (context : Lexer.Context) : AllCode context lines := by
  induction lines generalizing context with
  | nil => trivial
  | cons line lines ih =>
    exact ⟨fun _ => h line List.mem_cons_self,
      ih (fun l hl => h l (List.mem_cons_of_mem _ hl)) (Lexer.after context line)⟩

/-- Lines are code when none of those that start at the top level announces
anything. -/
theorem allCode_of_getElem
    (h : ∀ n (hn : n < lines.length), Lexer.afterLines context (lines.take n) = [] →
      LineHead.ofLine lines[n] = .code) : AllCode context lines := by
  induction lines generalizing context with
  | nil => trivial
  | cons line lines ih =>
    refine ⟨h 0 (Nat.succ_pos _), ih fun n hn ha => ?_⟩
    exact h (n + 1) (Nat.succ_lt_succ hn) ha

/-- Lines that leave nothing open each leave nothing open together. -/
theorem Lexer.afterLines_of_forall (h : ∀ line ∈ lines, Lexer.after [] line = []) :
    Lexer.afterLines [] lines = [] := by
  induction lines with
  | nil => rfl
  | cons line lines ih =>
    have hline := h line List.mem_cons_self
    rw [Lexer.afterLines, List.foldl_cons, hline]
    exact ih fun l hl => h l (List.mem_cons_of_mem _ hl)

end Lines

/-- A run over lines of code. -/
theorem parseFrom_of_allCode {context : Lexer.Context} {raw : Text} {following : List Text}
    (h : AllCode context (raw :: following)) (line : Nat) :
    parseFrom context line raw following = .ok (Statement.codes line (raw :: following)) := by
  induction following generalizing context raw line with
  | nil =>
    rw [parseFrom_of_next (Taken.next_eq_ok_iff.2 (.code h.1))]
    rfl
  | cons next following ih =>
    have hrest := ih h.2 (line + 1)
    have hbehind : parseBehind (Lexer.after context raw) line [] (next :: following) =
        .ok (Statement.codes (line + 1) (next :: following)) := hrest
    rw [parseFrom_of_next (Taken.next_eq_ok_iff.2 (.code h.1))]
    simp only [Statement.text, hbehind]
    rfl

/-- A source of which every line is code. -/
theorem Module.parse_of_allCode {source : Text} (h : AllCode [] (Text.lines source)) :
    Module.parse source = .ok ⟨Statement.codes 1 (Text.lines source)⟩ := by
  obtain ⟨first, following, hl⟩ := List.exists_cons_of_ne_nil (Text.lines_ne_nil source)
  rw [hl] at h ⊢
  unfold Module.parse
  rw [hl]
  dsimp only
  rw [parseFrom_of_allCode h 1]
  rfl

/-- A statement made of a line of code is one of code. -/
theorem Statement.exists_of_mem_codes {s : Statement} {first : Nat} {lines : List Text}
    (h : s ∈ codes first lines) : ∃ line text, s = .code line text := by
  obtain ⟨p, _, rfl⟩ := List.mem_map.1 h
  exact ⟨p.2, p.1, rfl⟩

namespace Text

/-- The lines of texts under each other. -/
theorem lines_intercalate {parts : List Text} (h : parts ≠ []) :
    lines (List.intercalate ['\n'] parts) = parts.flatMap lines := by
  induction parts with
  | nil => exact absurd rfl h
  | cons part parts ih =>
    cases parts with
    | nil => simp [List.intercalate]
    | cons next parts =>
      have hrest := ih (List.cons_ne_nil next parts)
      have hsplit : List.intercalate ['\n'] (part :: next :: parts) =
          part ++ '\n' :: List.intercalate ['\n'] (next :: parts) := by
        simp [List.intercalate]
      rw [hsplit, lines_append_lineFeed, hrest]
      rfl

/-- The first lines of a text. -/
def firstLines (n : Nat) (t : Text) : Text := List.intercalate ['\n'] ((lines t).take n)

/-- The first lines of a text, as many as it has, are the text. -/
theorem firstLines_length (t : Text) : firstLines (lines t).length t = t := by
  rw [firstLines, List.take_length]
  exact List.intercalate_splitOn '\n'

end Text

/-- The text is the same to the parser as code line by line and as a whole: the
same is open behind its lines, and no line that starts at the top level of the
text announces an import or an export, the first line apart. -/
structure ReadsByLine (t : Text) : Prop where
  /-- Scanned line by line the first lines leave open what they do in one scan. -/
  context_eq : ∀ n ≤ (Text.lines t).length,
    Lexer.afterLines [] ((Text.lines t).take n) = Lexer.after [] (Text.firstLines n t)
  /-- A later line at the top level announces code. -/
  code : ∀ n (hn : n < (Text.lines t).length), 0 < n → Lexer.after [] (Text.firstLines n t) = [] →
    LineHead.ofLine (Text.lines t)[n] = .code

instance (t : Text) : Decidable (ReadsByLine t) :=
  decidable_of_iff ((∀ n ≤ (Text.lines t).length,
      Lexer.afterLines [] ((Text.lines t).take n) = Lexer.after [] (Text.firstLines n t)) ∧
    ∀ n (hn : n < (Text.lines t).length), 0 < n → Lexer.after [] (Text.firstLines n t) = [] →
      LineHead.ofLine (Text.lines t)[n] = .code)
    ⟨fun h => ⟨h.1, h.2⟩, fun h => ⟨h.context_eq, h.code⟩⟩

namespace ReadsByLine

variable {t : Text}

/-- Scanned line by line such a text leaves open what it does in one scan. -/
theorem afterLines_eq (h : ReadsByLine t) :
    Lexer.afterLines [] (Text.lines t) = Lexer.after [] t := by
  have hall := h.context_eq (Text.lines t).length le_rfl
  rwa [List.take_length, Text.firstLines_length] at hall

/-- If its first line announces code as well, the text is code only. -/
theorem allCode (h : ReadsByLine t)
    (hfirst : ∀ first others, Text.lines t = first :: others → LineHead.ofLine first = .code) :
    AllCode [] (Text.lines t) := by
  refine allCode_of_getElem fun n hn ha => ?_
  cases n with
  | zero =>
    obtain ⟨first, others, hl⟩ := List.exists_cons_of_ne_nil (Text.lines_ne_nil t)
    simp only [hl, List.getElem_cons_zero]
    exact hfirst first others hl
  | succ n =>
    rw [h.context_eq (n + 1) (Nat.le_of_lt hn)] at ha
    exact h.code (n + 1) hn (Nat.succ_pos n) ha

end ReadsByLine

end ModuleScripts
