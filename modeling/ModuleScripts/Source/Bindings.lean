import ModuleScripts.Source.Comments
import ModuleScripts.Source.Matcher
import ModuleScripts.Source.Statement
import ModuleScripts.Source.SyntaxError

/-!
# Binding lists and import clauses

A binding list is a list of names, each with an optional other name, between
commas. An import clause is a default name, a namespace name or a binding list
in braces, or a default name followed by one of the other two.
-/

namespace ModuleScripts

/-- The word that renames, with the blanks it needs on both sides. -/
def renameWord : Matcher := (Matcher.gap.andThen (Matcher.literal "as".toList)).andThen Matcher.gap

/-- Reads one item of a binding list, which has no blanks around it. -/
def Rename.parse? (item : Text) : Option Rename :=
  match Matcher.identifier item with
  | none => none
  | some (name, []) => some ⟨name, name⟩
  | some (name, rest) =>
    match renameWord rest with
    | none => none
    | some (_, rest) =>
      match Matcher.identifier rest with
      | some (newName, []) => some ⟨name, newName⟩
      | _ => none

/-- The items of a binding list: what stands between commas once comments are
gone and line feeds are spaces. Blank items do not count. -/
def bindingItems (list : Text) : List Text :=
  let joined := (Comments.remove list).map fun c => if c = '\n' then ' ' else c
  ((List.splitOn ',' joined).map Text.trim).filter fun item => !item.isEmpty

/-- Reads the items of a binding list up to the first that cannot be read. -/
def parseItems : List Text → Except Fault (List Rename)
  | [] => .ok []
  | item :: items =>
    match Rename.parse? item with
    | none => .error (.invalidBinding item)
    | some rename => (parseItems items).map (rename :: ·)

/-- Reads a binding list. -/
def parseBindings (list : Text) : Except Fault (List Rename) := parseItems (bindingItems list)

/-- What an import binds. -/
structure Clause where
  /-- Local name of the default export. -/
  defaultName : Option Text
  /-- Local name of the namespace object. -/
  namespaceName : Option Text
  /-- The named bindings. -/
  named : List Rename
  deriving DecidableEq, Repr

namespace Clause

/-- The default name at the start of a clause and what follows its comma. A
name that neither a comma nor the end follows is no default name. -/
def splitDefault (clause : Text) : Option Text × Text :=
  match Matcher.identifier clause with
  | none => (none, clause)
  | some (name, rest) =>
    match Text.trimStart rest with
    | [] => (some name, [])
    | ',' :: rest => (some name, Text.trim rest)
    | _ => (none, clause)

/-- The name behind the star of a namespace import. -/
def namespaceName? (afterStar : Text) : Option Text :=
  match ((Matcher.blanks.andThen (Matcher.literal "as".toList)).andThen Matcher.gap) afterStar with
  | none => none
  | some (_, rest) =>
    match Matcher.identifier rest with
    | some (name, []) => some name
    | _ => none

/-- Reads what follows the default name of a clause. -/
def parseRest (defaultName : Option Text) (statement : Text) : Text → Except Fault Clause
  | [] => .ok ⟨defaultName, none, []⟩
  | c :: rest =>
    if c = '*' then
      match namespaceName? rest with
      | some name => .ok ⟨defaultName, some name, []⟩
      | none => .error (.invalidImport statement)
    else if c = '{' then
      if rest.getLast? = some '}' then
        (parseBindings rest.dropLast).map fun named => ⟨defaultName, none, named⟩
      else .error (.invalidImport statement)
    else .error (.invalidImport statement)

/-- Reads the clause of an import. The whole statement is the message where the
clause has no known form. -/
def parse (statement clause : Text) : Except Fault Clause :=
  let split := splitDefault (Text.trim (Comments.remove clause))
  parseRest split.1 statement split.2

end Clause

end ModuleScripts
