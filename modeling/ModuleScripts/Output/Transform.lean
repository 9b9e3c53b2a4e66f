import ModuleScripts.Log
import ModuleScripts.Output.Amd
import ModuleScripts.Output.Versioned
import ModuleScripts.Plugin
import ModuleScripts.Source.Parser

/-!
# The transform of one module

The capabilities choose between an AMD definition and module source with
versioned specifiers. A strategy decides what becomes of the body of a script:
it may read it as a module, hand a module to the transform, and work on what
comes back.
-/

namespace ModuleScripts

/-- What the transform of a module needs to know. -/
structure ModuleOptions where
  /-- The URL that modules are loaded from. -/
  base : Text
  /-- What is asked for. -/
  capabilities : Capabilities
  /-- The query parameter of module URLs. -/
  param : Text
  /-- The name of the log. -/
  log : Text
  deriving DecidableEq, Repr

namespace Module

/-- The specifiers whose versioning is looked at: each one once for an AMD
definition, each occurrence otherwise. -/
def visitedSpecifiers (capabilities : Capabilities) (m : Module) : List Text :=
  if capabilities.modulesAmd then m.specifiers else m.body.filterMap Statement.specifier?

/-- The events of a transform. -/
def events (capabilities : Capabilities) (m : Module) : List Event :=
  (if capabilities.regenerator then [.generatorsKept] else []) ++
    ((m.visitedSpecifiers capabilities).filter fun s => !Specifier.isPath s).map
      .bareSpecifier

/-- The code that a module becomes. -/
def generate (options : ModuleOptions) (m : Module) : Except Failure Text :=
  if options.capabilities.modulesAmd then
    match m.definition options.base options.param with
    | .error e => .error (.badEscape e)
    | .ok d => .ok d.render
  else .ok (m.versioned options.param)

/-- The transform of a module. -/
def transform (options : ModuleOptions) (m : Module) : Outcome Text :=
  ⟨(m.events options.capabilities).map fun event => ⟨options.log, event⟩, m.generate options⟩

end Module

/-- What to do with the body of a script, given the transform of modules. -/
abbrev Strategy := Text → (Module → Outcome Text) → Outcome Text

namespace Strategy

/-- Reads the body as a module and transforms it. -/
def standard : Strategy := fun source transform =>
  match Module.parse source with
  | .error e => Outcome.fail (.syntaxError e)
  | .ok m => transform m

/-- Leaves the body as it is. -/
def passthrough : Strategy := fun source _ => Outcome.pure source

end Strategy

end ModuleScripts
