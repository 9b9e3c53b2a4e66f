import ModuleScripts.Source.Parser

/-!
# Statements on other lines

What a statement is read to does not depend on the line on which it starts.
-/

namespace ModuleScripts

namespace Statement

/-- The statement on another line. -/
def atLine (line : Nat) : Statement → Statement
  | code _ text => code line text
  | importing i => importing { i with line := line }
  | exporting e => exporting { e with line := line }

/-- A statement on another line keeps its text. -/
theorem text_atLine (line : Nat) (s : Statement) : (s.atLine line).text = s.text := by
  cases s <;> rfl

end Statement

section Lines

/-- Where a statement stands is no part of what it says. -/
theorem Import.parse_line (text : Text) (line line' : Nat) :
    Import.parse line' text = (Import.parse line text).map fun i => { i with line := line' } := by
  unfold Import.parse
  dsimp only
  split
  · rfl
  · split
    · rfl
    · split
      · rfl
      · next clause specifier _ =>
        cases Clause.parse (Text.trim text) clause <;> rfl

/-- An import is read alike on another line. -/
theorem Import.parse_atLine {line : Nat} {text : Text} {i : Import}
    (h : Import.parse line text = .ok i) (line' : Nat) :
    Import.parse line' text = .ok { i with line := line' } := by
  rw [Import.parse_line text line, h]
  rfl

/-- A star export is read on every line, with that line. -/
theorem Export.parseStar?_line (text afterStar : Text) (line line' : Nat) :
    Export.parseStar? line' text afterStar =
      (Export.parseStar? line text afterStar).map fun e => { e with line := line' } := by
  unfold Export.parseStar?
  split
  · split
    · rfl
    · rw [Option.map_map]
      rfl
  · rw [Option.map_map]
    rfl

/-- A braced export is read on every line, with that line. -/
theorem Export.parseBraced_line (text statement afterBrace : Text) (line line' : Nat) :
    Export.parseBraced line' text statement afterBrace =
      (Export.parseBraced line text statement afterBrace).map fun e => { e with line := line' } := by
  unfold Export.parseBraced
  split
  · next list _ _ => cases parseBindings list <;> rfl
  · split
    · next list _ _ => cases parseBindings list <;> rfl
    · rfl

/-- An export list is read on every line, with that line. -/
theorem Export.parseList_line (text : Text) (line line' : Nat) :
    Export.parseList line' text =
      (Export.parseList line text).map fun e => { e with line := line' } := by
  unfold Export.parseList
  dsimp only
  split
  · next r _ =>
    rw [Export.parseStar?_line text r line line']
    cases Export.parseStar? line text r <;> rfl
  · exact Export.parseBraced_line text _ _ line line'
  · rfl

/-- An export list is read alike on another line. -/
theorem Export.parseList_atLine {line : Nat} {text : Text} {e : Export}
    (h : Export.parseList line text = .ok e) (line' : Nat) :
    Export.parseList line' text = .ok { e with line := line' } := by
  rw [Export.parseList_line text line, h]
  rfl

/-- Exported variables are read on every line, with that line. -/
theorem Export.parseVariables_line (text : Text) (declarators : List Text) (line line' : Nat) :
    Export.parseVariables line' text declarators =
      (Export.parseVariables line text declarators).map fun e => { e with line := line' } := by
  unfold Export.parseVariables
  cases parseDeclarators declarators <;> rfl

/-- Exported variables are read alike on another line. -/
theorem Export.parseVariables_atLine {line : Nat} {text : Text} {declarators : List Text}
    {e : Export} (h : Export.parseVariables line text declarators = .ok e) (line' : Nat) :
    Export.parseVariables line' text declarators = .ok { e with line := line' } := by
  rw [Export.parseVariables_line text declarators line, h]
  rfl

/-- An export on one line is read on every line, with that line. -/
theorem Export.parseLine_line (text : Text) (line line' : Nat) :
    Export.parseLine line' text =
      (Export.parseLine line text).map fun e => { e with line := line' } := by
  unfold Export.parseLine
  dsimp only
  split
  · rfl
  · split
    · split <;> rfl
    · split <;> rfl

/-- An export on one line is read alike on another line. -/
theorem Export.parseLine_atLine {line : Nat} {text : Text} {e : Export}
    (h : Export.parseLine line text = .ok e) (line' : Nat) :
    Export.parseLine line' text = .ok { e with line := line' } := by
  rw [Export.parseLine_line text line, h]
  rfl

end Lines

end ModuleScripts
