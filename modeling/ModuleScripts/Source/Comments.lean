import ModuleScripts.Text.Basic

/-!
# Removing comments from a binding list

Import clauses, binding lists and declarators are read after their comments
are dropped. A line comment goes up to its line feed, which stays. A block
comment is dropped with both its marks; one that is never closed is no comment
and stays as it is. Quotes are not looked at.
-/

namespace ModuleScripts.Comments

/-- Where the removal stands. -/
inductive Region where
  /-- Outside every comment. -/
  | code
  /-- Inside a line comment. -/
  | line
  /-- On the second character of an opening mark. -/
  | opening
  /-- Inside a block comment. -/
  | block
  /-- On the second character of a closing mark. -/
  | closing
  deriving DecidableEq, Repr

/-- Whether the closing mark of a block comment occurs. -/
def hasClosing : Text → Bool
  | [] => false
  | c :: r => (c = '*' && r.head? = some '/') || hasClosing r

/-- The characters outside comments, from a region on. -/
def removeFrom : Region → Text → Text
  | _, [] => []
  | .code, c :: r =>
    if c = '/' ∧ r.head? = some '/' then removeFrom .line r
    else if c = '/' ∧ r.head? = some '*' ∧ hasClosing r.tail then removeFrom .opening r
    else c :: removeFrom .code r
  | .line, c :: r => if c = '\n' then c :: removeFrom .code r else removeFrom .line r
  | .opening, _ :: r => removeFrom .block r
  | .block, c :: r =>
    if c = '*' ∧ r.head? = some '/' then removeFrom .closing r else removeFrom .block r
  | .closing, _ :: r => removeFrom .code r

/-- The text without its comments. -/
def remove (t : Text) : Text := removeFrom .code t

end ModuleScripts.Comments
