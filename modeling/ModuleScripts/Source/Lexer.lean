import ModuleScripts.Text.Basic

/-!
# Lexical contexts of module source

The lexer walks over a text one character at a time and tells the characters
of top-level code from those inside comments, strings and template literals.
What is open at the end of a text is a stack of frames, which the next text
takes over. A string or a line comment never reaches into the next text.
Regular expression literals are not recognised.

A top-level string counts by its last character only, a top-level template
literal by its closing mark only, and comments do not count at all.
-/

namespace ModuleScripts.Lexer

/-- Something that was opened and not yet closed. -/
inductive Frame where
  /-- A block comment. -/
  | comment
  /-- A template literal. -/
  | template
  /-- A substitution inside a template literal. -/
  | substitution
  /-- A brace of the code inside a substitution. -/
  | brace
  deriving DecidableEq, Repr

/-- The open frames, innermost first. Top-level code has none. -/
abbrev Context := List Frame

/-- What the next character is, given the frames. -/
inductive Mode where
  /-- An ordinary character of the innermost frame. -/
  | plain
  /-- The second half of a two-character token. -/
  | second
  /-- A character of a line comment. -/
  | lineComment
  /-- A character of a string with this quote. -/
  | quoted (quote : Char)
  /-- The character behind a backslash in a string with this quote. -/
  | escaped (quote : Char)
  deriving DecidableEq, Repr

/-- The position of the lexer inside a text. -/
structure State where
  /-- How to read the next character. -/
  mode : Mode
  /-- The open frames, innermost first. -/
  context : Context
  deriving DecidableEq, Repr

/-- The mark that opens and closes a template literal. -/
def templateMark : Char := '\x60'

/-- One character of code, with the character after it in the text. The mark
tells whether the character counts as top-level code. -/
def codeStep (context : Context) (c : Char) (next : Option Char) : Bool × State :=
  if c = '/' ∧ next = some '/' then (false, ⟨.lineComment, context⟩)
  else if c = '/' ∧ next = some '*' then (false, ⟨.second, .comment :: context⟩)
  else if c = '\'' ∨ c = '"' then (context.isEmpty && next.isNone, ⟨.quoted c, context⟩)
  else if c = templateMark then (false, ⟨.plain, .template :: context⟩)
  else if context.isEmpty then (true, ⟨.plain, context⟩)
  else if c = '{' then (false, ⟨.plain, .brace :: context⟩)
  else if c = '}' then (false, ⟨.plain, context.tail⟩)
  else (false, ⟨.plain, context⟩)

/-- One ordinary character of a block comment below which `outer` is open. -/
def commentStep (outer : Context) (c : Char) (next : Option Char) : Bool × State :=
  if c = '*' ∧ next = some '/' then (false, ⟨.second, outer⟩)
  else (false, ⟨.plain, .comment :: outer⟩)

/-- One ordinary character of a template literal below which `outer` is open.
The closing mark counts when it leads back to the top level. -/
def templateStep (outer : Context) (c : Char) (next : Option Char) : Bool × State :=
  if c = '\\' then (false, ⟨.second, .template :: outer⟩)
  else if c = templateMark then (outer.isEmpty, ⟨.plain, outer⟩)
  else if c = '$' ∧ next = some '{' then (false, ⟨.second, .substitution :: .template :: outer⟩)
  else (false, ⟨.plain, .template :: outer⟩)

/-- One ordinary character of a string. Its quote or a line feed ends the
string. At the top level the character that ends the string counts, and so
does the last character of a text that ends inside the string. -/
def quotedStep (context : Context) (quote c : Char) (next : Option Char) : Bool × State :=
  if c = '\\' then (context.isEmpty && next.isNone, ⟨.escaped quote, context⟩)
  else if c = quote ∨ c = '\n' then (context.isEmpty, ⟨.plain, context⟩)
  else (context.isEmpty && next.isNone, ⟨.quoted quote, context⟩)

/-- One character, with the character after it in the text. -/
def step (s : State) (c : Char) (next : Option Char) : Bool × State :=
  match s.mode with
  | .second => (false, ⟨.plain, s.context⟩)
  | .lineComment => if c = '\n' then codeStep s.context c next else (false, s)
  | .quoted quote => quotedStep s.context quote c next
  | .escaped quote => (s.context.isEmpty && next.isNone, ⟨.quoted quote, s.context⟩)
  | .plain =>
    match s.context with
    | .comment :: outer => commentStep outer c next
    | .template :: outer => templateStep outer c next
    | _ => codeStep s.context c next

/-- Walk over a text: one mark per character, and the state behind it. -/
def run (s : State) : Text → List Bool × State
  | [] => ([], s)
  | c :: r =>
    let now := step s c r.head?
    let later := run now.2 r
    (now.1 :: later.1, later.2)

/-- For each character of a text whether it counts as top-level code. -/
def marks (context : Context) (t : Text) : List Bool := (run ⟨.plain, context⟩ t).1

/-- The frames that are open behind a text. -/
def after (context : Context) (t : Text) : Context := (run ⟨.plain, context⟩ t).2.context

/-- A run reports one state for each character it reads. -/
theorem length_run (s : State) (t : Text) : (run s t).1.length = t.length := by
  induction t generalizing s with
  | nil => rfl
  | cons c r ih => simp [run, ih]

/-- Every character gets exactly one mark. -/
theorem length_marks (context : Context) (t : Text) : (marks context t).length = t.length :=
  length_run _ t

/-- The characters of a text, each with its mark. -/
def marked (context : Context) (t : Text) : List (Char × Bool) := t.zip (marks context t)

/-- The marked characters are the characters of the text. -/
theorem map_fst_marked (context : Context) (t : Text) :
    (marked context t).map Prod.fst = t := by
  unfold marked
  exact List.map_fst_zip (Nat.le_of_eq (length_marks context t).symm)

end ModuleScripts.Lexer
