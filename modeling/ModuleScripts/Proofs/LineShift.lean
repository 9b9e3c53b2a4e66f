import ModuleScripts.Proofs.Numbering
import ModuleScripts.Proofs.Reading

/-!
# Runs that start on another line

The parser counts lines but never looks at the count. A run that starts further
down reads the same statements, or meets the same fault, as many lines further
down.
-/

namespace ModuleScripts

/-- The statement some lines further down. -/
def Statement.lower (k : Nat) (s : Statement) : Statement := s.atLine (s.line + k)

/-- The syntax error some lines further down. -/
def SyntaxError.lower (k : Nat) (e : SyntaxError) : SyntaxError := ⟨e.line + k, e.fault⟩

/-- What a run comes to some lines further down. -/
def lowered (k : Nat) :
    Except SyntaxError (List Statement) → Except SyntaxError (List Statement)
  | .ok statements => .ok (statements.map (Statement.lower k))
  | .error e => .error (e.lower k)

/-- The step some lines further down. -/
def Taken.lower (k : Nat) (t : Taken) : Taken :=
  ⟨t.statement.lower k, t.rest, t.lastLine + k, t.following⟩

/-- A statement that is moved down keeps its text. -/
@[simp] theorem Statement.text_lower (k : Nat) (s : Statement) : (s.lower k).text = s.text :=
  s.text_atLine _

/-- A statement in front is moved down with the others. -/
theorem lowered_map_cons (k : Nat) (s : Statement) (r : Except SyntaxError (List Statement)) :
    lowered k (r.map (s :: ·)) = (lowered k r).map (s.lower k :: ·) := by
  cases r <;> rfl

/-- Moving by no lines changes nothing. -/
theorem lowered_zero (r : Except SyntaxError (List Statement)) : lowered 0 r = r := by
  have hid : Statement.lower 0 = id := by
    funext s
    cases s <;> rfl
  cases r with
  | error e => rfl
  | ok statements => rw [lowered, hid, List.map_id]

namespace Taken

/-- An import below more lines is the import, moved down. -/
theorem importing_lower (line k : Nat) (raw : Text) (lines : List Text) :
    importing (line + k) raw lines = (importing line raw lines).map (Taken.lower k) := by
  unfold importing
  split
  · rfl
  · next text following _ =>
    dsimp only
    rw [Import.parse_line _ line (line + k)]
    cases hi : Import.parse line (cutAt Boundary.importEnd text).1 with
    | error fault => rfl
    | ok i =>
      have hline : i.line = line := (Import.parse_line_text hi).1
      simp only [Except.map, Taken.lower, Statement.lower, Statement.atLine, Statement.line, hline,
        Nat.add_right_comm]

/-- An export list below more lines is the list, moved down. -/
theorem exportList_lower (line k : Nat) (raw : Text) (lines : List Text) :
    exportList (line + k) raw lines = (exportList line raw lines).map (Taken.lower k) := by
  unfold exportList
  split
  · rfl
  · next text following _ =>
    dsimp only
    rw [Export.parseList_line _ line (line + k)]
    cases he : Export.parseList line (cutAt Boundary.exportListEnd text).1 with
    | error fault => rfl
    | ok e =>
      have hline : e.line = line := (Export.parseList_line_text he).1
      simp only [Except.map, Taken.lower, Statement.lower, Statement.atLine, Statement.line, hline,
        Nat.add_right_comm]

/-- Exported variables below more lines are these variables, moved down. -/
theorem exportVariables_lower (line k : Nat) (raw : Text) (lines : List Text) :
    exportVariables (line + k) raw lines = (exportVariables line raw lines).map (Taken.lower k) := by
  unfold exportVariables
  split
  · rfl
  · split
    · rfl
    · next d _ =>
      rw [Export.parseVariables_line _ _ line (line + k)]
      cases he : Export.parseVariables line d.text d.pieces.declarators with
      | error fault => rfl
      | ok e =>
        have hline : e.line = line := (Export.parseVariables_line_text he).1
        simp only [Except.map, Taken.lower, Statement.lower, Statement.atLine, Statement.line,
          hline, Nat.add_right_comm]

/-- Another export below more lines is the export, moved down. -/
theorem exportOther_lower (line k : Nat) (raw : Text) (lines : List Text) :
    exportOther (line + k) raw lines = (exportOther line raw lines).map (Taken.lower k) := by
  unfold exportOther
  rw [Export.parseLine_line _ line (line + k)]
  cases he : Export.parseLine line raw with
  | error fault => rfl
  | ok e =>
    have hline : e.line = line := (Export.parseLine_line_text he).1
    simp only [Except.map, Taken.lower, Statement.lower, Statement.atLine, Statement.line, hline]

/-- A step further down is the same step. -/
theorem next_lower (context : Lexer.Context) (line k : Nat) (raw : Text) (lines : List Text) :
    next context (line + k) raw lines = (next context line raw lines).map (Taken.lower k) := by
  unfold next
  split
  · rfl
  · split
    · exact importing_lower line k raw lines
    · exact exportList_lower line k raw lines
    · exact exportVariables_lower line k raw lines
    · exact exportOther_lower line k raw lines
    · rfl

end Taken

/-- A run further down is the same run. -/
theorem parseFrom_lower (k : Nat) (context : Lexer.Context) (line : Nat) (raw : Text)
    (lines : List Text) :
    parseFrom context (line + k) raw lines = lowered k (parseFrom context line raw lines) := by
  induction context, line, raw, lines using parseFrom.induct with
  | case1 context line raw lines fault hf =>
    have hlower := Taken.next_lower context line k raw lines
    rw [hf] at hlower
    rw [parseFrom_of_error hf, parseFrom_of_error hlower]
    rfl
  | case2 context line raw lines t ht hb hd =>
    have hlower := Taken.next_lower context line k raw lines
    rw [ht] at hlower
    rw [parseFrom_last ht hb hd, parseFrom_last hlower hb hd]
    rfl
  | case3 context line raw lines t ht _ hb next more hf =>
    rename_i ih
    have hlower := Taken.next_lower context line k raw lines
    rw [ht] at hlower
    rw [parseFrom_nextLine ht hb hf, parseFrom_nextLine hlower hb hf, lowered_map_cons, ← ih]
    simp only [Taken.lower, Statement.text_lower, Nat.add_right_comm]
    rfl
  | case4 context line raw lines t ht _ hb =>
    rename_i ih
    have hb : Text.allBlank t.rest = false := by simpa using hb
    have hlower := Taken.next_lower context line k raw lines
    rw [ht] at hlower
    rw [parseFrom_sameLine ht hb, parseFrom_sameLine hlower hb, lowered_map_cons, ← ih]
    simp only [Taken.lower, Statement.text_lower]
    rfl

end ModuleScripts
