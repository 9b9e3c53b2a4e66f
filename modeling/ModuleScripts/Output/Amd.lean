import ModuleScripts.Output.Meta
import ModuleScripts.Output.Specifier

/-!
# AMD definitions

A module becomes the call that defines it: the names of its dependencies, and a
factory whose parameters receive them. The factory first binds imports and
copies re-exports, then assigns the exported functions, runs the code of the
module and assigns the other exports at the end.
-/

namespace ModuleScripts

/-- A line of a factory. -/
inductive FactoryLine where
  /-- The directive that makes the factory strict. -/
  | strict
  /-- Binds the namespace object of a dependency. -/
  | bindNamespace (name param : Text)
  /-- Binds the default export of a dependency. -/
  | bindDefault (name param : Text)
  /-- Binds named exports of a dependency. -/
  | bindNamed (names : List Rename) (param : Text)
  /-- Assigns a local name to an exported name. -/
  | assign (exported name : Text)
  /-- Assigns the default expression. -/
  | assignDefault (value : Text)
  /-- Copies one export of a dependency, or its namespace object for a star. -/
  | copy (exported param name : Text)
  /-- Copies every export of a dependency that is not yet there. -/
  | copyAll (param : Text)
  /-- Code of the module. -/
  | code (text : Text)
  deriving DecidableEq, Repr

/-- Whether a name can stand behind a dot. One line feed at its end does not
count. -/
def isPropertyName (name : Text) : Bool :=
  match Matcher.identifier name with
  | some (_, []) => true
  | some (_, ['\n']) => true
  | _ => false

/-- How the property of this name is reached. -/
def property (name : Text) : Text :=
  if isPropertyName name then '.' :: name else '[' :: (Text.json name ++ [']'])

/-- One name of a destructuring binding. -/
def Rename.binding (r : Rename) : Text :=
  if r.name = r.newName then r.newName
  else if r.name = "default".toList then "\"default\": ".toList ++ r.newName
  else r.name ++ ": ".toList ++ r.newName

namespace FactoryLine

/-- The object that collects the exports of a module. -/
def exportsObject : Text := "_exports".toList

/-- What a dependency gives under a name. -/
def sourceValue (param name : Text) : Text :=
  if name = ['*'] then param else param ++ property name

/-- The line as code. -/
def render : FactoryLine → Text
  | strict => "\"use strict\";".toList
  | bindNamespace name param => "const ".toList ++ name ++ " = ".toList ++ param ++ [';']
  | bindDefault name param => "const ".toList ++ name ++ " = ".toList ++ param ++ ".default;".toList
  | bindNamed names param =>
    "const \x7b ".toList ++ List.intercalate ", ".toList (names.map Rename.binding) ++
      " \x7d = ".toList ++ param ++ [';']
  | assign exported name => exportsObject ++ property exported ++ " = ".toList ++ name ++ [';']
  | assignDefault value => exportsObject ++ ".default = ".toList ++ value
  | copy exported param name =>
    exportsObject ++ property exported ++ " = ".toList ++ sourceValue param name ++ [';']
  | copyAll param =>
    "Object.keys(".toList ++ param ++ ").forEach(function (key) \x7b ".toList ++
      "if (key !== \"default\" && !(key in _exports)) _exports[key] = ".toList ++ param ++
      "[key]; \x7d);".toList
  | code text => text

end FactoryLine

namespace Dependency

/-- The part of a specifier that its parameter is named after: the last part of
its path up to the first dot. -/
def stem (specifier : Text) : Text :=
  let path := specifier.takeWhile (· ≠ '?')
  let kept := (path.reverse.dropWhile (· = '/')).reverse
  (Text.afterLast '/' kept).takeWhile (· ≠ '.')

/-- The first choice for the parameter of a specifier. -/
def paramBase (specifier : Text) : Text :=
  let stem := stem specifier
  '_' :: if stem.isEmpty then "dep".toList
    else stem.map fun c => if isIdentifierPart c then c else '_'

/-- The first of a name and its numbered forms that is not taken. -/
def freshName (taken : List Text) (base : Text) : Text :=
  if taken.contains base then
    (((List.range (taken.length + 1)).map fun n => base ++ Text.ofNat (n + 2)).find?
      fun name => !taken.contains name).getD base
  else base

/-- The parameters of specifiers, each kept apart from those before it. -/
def assignParams (taken : List Text) : List Text → List (Text × Text)
  | [] => []
  | specifier :: specifiers =>
    let param := freshName taken (paramBase specifier)
    (specifier, param) :: assignParams (param :: taken) specifiers

end Dependency

/-- The specifiers of the statements that need the object of a dependency. -/
def Module.boundSpecifiers (m : Module) : List Text :=
  m.body.filterMap fun
    | .code _ _ => none
    | .importing i => if i.isSideEffect then none else some i.specifier
    | .exporting e => e.specifier

/-- The definition of a module. -/
structure Definition where
  /-- The names of the dependencies. -/
  dependencies : List Text
  /-- The parameters that receive the first of them. -/
  params : List Text
  /-- The lines that bind imports and copy re-exports. -/
  prologue : List FactoryLine
  /-- The exports of functions, which are there before the code runs. -/
  hoisted : List FactoryLine
  /-- The code of the module. -/
  body : List FactoryLine
  /-- The exports of everything else. -/
  epilogue : List FactoryLine
  deriving DecidableEq, Repr

namespace Definition

/-- The lines of the factory in order. -/
def lines (d : Definition) : List FactoryLine := d.prologue ++ d.hoisted ++ d.body ++ d.epilogue

/-- The first line of the call. -/
def opening (d : Definition) : Text :=
  "define(".toList ++ Text.jsonList d.dependencies ++ ", function (".toList ++
    List.intercalate ", ".toList d.params ++ ") \x7b".toList

/-- The definition as code. -/
def render (d : Definition) : Text :=
  List.intercalate ['\n'] (d.opening :: d.lines.map FactoryLine.render ++ ["\x7d);".toList])

end Definition

/-- The lines that bind one import. -/
def Import.bindings (param : Text) (i : Import) : List FactoryLine :=
  if i.isSideEffect then []
  else
    (match i.namespaceName with
      | none | some [] => []
      | some name => [.bindNamespace name param]) ++
    (match i.defaultName with
      | none | some [] => []
      | some name => [.bindDefault name param]) ++
    if i.named.isEmpty then [] else [.bindNamed i.named param]

/-- The head of a function declaration. -/
def functionStart : Matcher :=
  (Matcher.blanks.andThen
    (Matcher.optional ((Matcher.literal "async".toList).andThen Matcher.gap))).andThen
      (Matcher.keyword "function".toList)

namespace Export

/-- The assignments of the local names of an export. -/
def assignments (e : Export) : List FactoryLine := e.names.map fun r => .assign r.newName r.name

/-- Whether an export is there before the code of the module runs. -/
def isHoisted (e : Export) : Bool := (functionStart e.body).isSome

/-- The lines of a re-export. -/
def prologueLines (param : Text) (e : Export) : List FactoryLine :=
  match e.kind with
  | .reexport => e.names.map fun r => .copy r.newName param r.name
  | .star => [.copyAll param]
  | _ => []

/-- The assignments before the code of the module. -/
def hoistedLines (e : Export) : List FactoryLine :=
  match e.kind with
  | .declaration => if e.isHoisted then e.assignments else []
  | _ => []

/-- The assignments behind the code of the module. -/
def epilogueLines (e : Export) : List FactoryLine :=
  match e.kind with
  | .declaration => if e.isHoisted then [] else e.assignments
  | .named => e.assignments
  | _ => []

/-- The code of an export, with the meta object still in it. -/
def code? (e : Export) : Option FactoryLine :=
  match e.kind with
  | .declaration => some (.code e.body)
  | .defaultValue => some (.assignDefault (Text.trimStart e.body))
  | _ => none

end Export

/-- The code of a statement, with the meta object still in it. -/
def Statement.code? : Statement → Option FactoryLine
  | .code _ text => some (.code text)
  | .importing _ => none
  | .exporting e => e.code?

/-- A line of code with the meta object substituted. -/
def FactoryLine.substitute (s : Meta.Substitution) : FactoryLine → FactoryLine
  | .code text => .code (s.apply text)
  | .assignDefault value => .assignDefault (s.apply value)
  | line => line

/-- The lines with the meta object substituted. Without lines nothing is
substituted, so that no base URL is wrong for them. -/
def substituteAll (base : Text) (lines : List FactoryLine) :
    Except BadEscape (List FactoryLine) :=
  if lines.isEmpty then .ok []
  else (Meta.Substitution.ofBase base).map fun s => lines.map (FactoryLine.substitute s)

namespace Module

/-- The names taken before the parameters of dependencies are chosen. -/
def reservedParams (m : Module) : List Text :=
  if m.exports.isEmpty then [] else [FactoryLine.exportsObject]

/-- The specifiers whose dependency gets a parameter, with it. -/
def dependencyParams (m : Module) : List (Text × Text) :=
  Dependency.assignParams m.reservedParams
    (m.specifiers.filter fun s => m.boundSpecifiers.contains s)

/-- The specifiers of modules that are only run. -/
def unboundSpecifiers (m : Module) : List Text :=
  m.specifiers.filter fun s => !m.boundSpecifiers.contains s

/-- The parameter of a specifier. -/
def paramOf (m : Module) (specifier : Text) : Text :=
  (m.dependencyParams.lookup specifier).getD []

/-- The names of the dependencies of a module. -/
def dependencies (param : Text) (m : Module) : List Text :=
  (if m.exports.isEmpty then [] else ["exports".toList]) ++
    (m.dependencyParams.map Prod.fst ++ m.unboundSpecifiers).map (Specifier.version param)

/-- The lines that bind the imports of a module and copy its re-exports. -/
def prologue (m : Module) : List FactoryLine :=
  .strict ::
    (m.imports.flatMap fun i => i.bindings (m.paramOf i.specifier)) ++
    (m.exports.flatMap fun e => e.prologueLines (m.paramOf (e.specifier.getD [])))

/-- The definition of a module that is loaded from below `base`. -/
def definition (base param : Text) (m : Module) : Except BadEscape Definition :=
  (substituteAll base (m.body.filterMap Statement.code?)).map fun body =>
    ⟨m.dependencies param, m.reservedParams ++ m.dependencyParams.map Prod.snd, m.prologue,
      m.exports.flatMap Export.hoistedLines, body, m.exports.flatMap Export.epilogueLines⟩

end Module

end ModuleScripts
