import ModuleScripts.Text.Basic

/-!
# Statements of a module

A module is a list of statements: imports, exports, and lines of code that are
passed on as they are. Every statement keeps the text it was read from and the
number of the line on which it starts.
-/

namespace ModuleScripts

/-- A name and what it is called on the other side: the imported and the local
name of an import, the local and the exported name of an export. -/
structure Rename where
  /-- The name in the module that the binding comes from. -/
  name : Text
  /-- The name in the module that the binding goes to. -/
  newName : Text
  deriving DecidableEq, Repr

/-- An import statement. -/
structure Import where
  /-- Number of the line on which it starts. -/
  line : Nat
  /-- The statement as written. -/
  text : Text
  /-- What is imported from. -/
  specifier : Text
  /-- Local name of the default export. -/
  defaultName : Option Text
  /-- Local name of the namespace object. -/
  namespaceName : Option Text
  /-- The named bindings. -/
  named : List Rename
  deriving DecidableEq, Repr

/-- An import that binds nothing only runs the module. -/
def Import.isSideEffect (i : Import) : Bool :=
  i.defaultName.isNone && i.namespaceName.isNone && i.named.isEmpty

/-- The forms of an export statement. -/
inductive ExportKind where
  /-- A declaration whose names are exported. -/
  | declaration
  /-- The value of an expression as the default export. -/
  | defaultValue
  /-- A list of local names. -/
  | named
  /-- A list of names of another module, or its namespace object. -/
  | reexport
  /-- Every name of another module. -/
  | star
  /-- A form that generates no code. -/
  | other (word : Text)
  deriving DecidableEq, Repr

/-- An export statement. In a re-export the name on the left is a name of the
other module, and the star means its namespace object. -/
structure Export where
  /-- The form of the statement. -/
  kind : ExportKind
  /-- Number of the line on which it starts. -/
  line : Nat
  /-- The statement as written. -/
  text : Text
  /-- The declaration or the default expression without the export keywords. -/
  body : Text
  /-- The exported names. -/
  names : List Rename
  /-- What is re-exported from. -/
  specifier : Option Text
  deriving DecidableEq, Repr

/-- A statement of a module. -/
inductive Statement where
  /-- One line of code that is neither import nor export. -/
  | code (line : Nat) (text : Text)
  /-- An import statement. -/
  | importing (i : Import)
  /-- An export statement. -/
  | exporting (e : Export)
  deriving DecidableEq, Repr

namespace Statement

/-- The statement as written. -/
def text : Statement → Text
  | code _ text => text
  | importing i => i.text
  | exporting e => e.text

/-- Number of the line on which the statement starts. -/
def line : Statement → Nat
  | code line _ => line
  | importing i => i.line
  | exporting e => e.line

/-- The specifier of an import or a re-export. -/
def specifier? : Statement → Option Text
  | code _ _ => none
  | importing i => some i.specifier
  | exporting e => e.specifier

/-- The statement as an import. -/
def import? : Statement → Option Import
  | importing i => some i
  | _ => none

/-- The statement as an export. -/
def export? : Statement → Option Export
  | exporting e => some e
  | _ => none

end Statement

/-- The members of a list, each at its first place only. -/
def distinct : List Text → List Text
  | [] => []
  | x :: xs => x :: (distinct xs).filter (· ≠ x)

/-- The statements of a module in the order of the source. -/
structure Module where
  /-- The statements. -/
  body : List Statement
  deriving DecidableEq, Repr

namespace Module

/-- The imports of a module. -/
def imports (m : Module) : List Import := m.body.filterMap Statement.import?

/-- The exports of a module. -/
def exports (m : Module) : List Export := m.body.filterMap Statement.export?

/-- The specifiers of imports and re-exports in the order in which they first
appear. -/
def specifiers (m : Module) : List Text := distinct (m.body.filterMap Statement.specifier?)

end Module

end ModuleScripts
