import ModuleScripts.Text.Quoting

/-!
# Syntax errors of module source

What the parser does not understand, where, and how it is reported.
-/

namespace ModuleScripts

/-- A report about module source: a code, a line if there is one, and a
message. -/
structure Diagnostic where
  /-- The kind of the fault in one word. -/
  code : Text
  /-- The line that the report is about. -/
  line : Option Int
  /-- The message, which is the code where nothing more is to be said. -/
  message : Text
  deriving DecidableEq, Repr

namespace Diagnostic

/-- A report whose message may be missing or empty. -/
def make (code : Text) (line : Option Int) (message : Option Text) : Diagnostic :=
  ⟨code, line, match message with
    | none | some [] => code
    | some m => m⟩

/-- The line number of a report in decimal. -/
def lineText (line : Int) : Text :=
  if line < 0 then '-' :: Text.ofNat line.natAbs else Text.ofNat line.natAbs

/-- The report on one line. -/
def describe (d : Diagnostic) : Text :=
  let body := if d.message = d.code then d.code else d.code ++ " - ".toList ++ d.message
  match d.line with
  | none => body
  | some line => '(' :: lineText line ++ "): ".toList ++ body

end Diagnostic

/-- What is wrong with a statement. -/
inductive Fault where
  /-- The source ends inside an import. -/
  | unterminatedImport
  /-- The source ends inside an export. -/
  | unterminatedExport
  /-- No form of import fits. -/
  | invalidImport (statement : Text)
  /-- No form of export fits. -/
  | invalidExport (statement : Text)
  /-- A declarator does not start with a name. -/
  | invalidDeclarator (declarator : Text)
  /-- A declarator is a pattern. -/
  | destructuring
  /-- An item of a binding list is neither a name nor a renaming. -/
  | invalidBinding (item : Text)
  deriving DecidableEq, Repr

namespace Fault

/-- The kind of a fault in one word. -/
def code : Fault → Text
  | unterminatedImport => "unterminated-import".toList
  | unterminatedExport => "unterminated-export".toList
  | invalidImport _ => "invalid-import".toList
  | invalidExport _ => "invalid-export".toList
  | invalidDeclarator _ => "invalid-export".toList
  | destructuring => "unsupported-export".toList
  | invalidBinding _ => "invalid-binding-list".toList

/-- The message of a fault. -/
def message : Fault → Text
  | unterminatedImport => "statement is not terminated".toList
  | unterminatedExport => "statement is not terminated".toList
  | invalidImport statement => statement
  | invalidExport statement => statement
  | invalidDeclarator declarator => "cannot parse declarator ".toList ++ Text.display declarator
  | destructuring => "destructuring declarations cannot be exported".toList
  | invalidBinding item => "cannot parse ".toList ++ Text.display item

end Fault

/-- A fault and the line on which its statement starts. -/
structure SyntaxError where
  /-- The line of the statement. -/
  line : Nat
  /-- What is wrong with it. -/
  fault : Fault
  deriving DecidableEq, Repr

/-- The report about a syntax error. -/
def SyntaxError.diagnostic (e : SyntaxError) : Diagnostic :=
  Diagnostic.make e.fault.code (some e.line) (some e.fault.message)

end ModuleScripts
