import ModuleScripts.Files
import ModuleScripts.Polyfill.Basic

/-!
# Settings from the environment

The environment can name a file for each polyfill and a query parameter for
module URLs.
-/

namespace ModuleScripts

/-- The variables that are set. -/
abbrev Environment := List (Text × Text)

/-- What the environment asks for. -/
structure Settings where
  /-- The file that replaces the bundled loader. -/
  loader : Option Path
  /-- The file that replaces the bundled runtime. -/
  runtime : Option Path
  /-- The query parameter of module URLs. -/
  param : Text
  deriving DecidableEq, Repr

namespace Settings

/-- The variable that names the file of the loader. -/
def loaderVariable : Text := "ESMSHIM_AMD_LOADER".toList

/-- The variable that names the file of the runtime. -/
def runtimeVariable : Text := "ESMSHIM_REGENERATOR_RUNTIME".toList

/-- The variable that holds the query parameter. -/
def paramVariable : Text := "ESMSHIM_QUERY_PARAM".toList

/-- The variable that holds the home directory. -/
def homeVariable : Text := "HOME".toList

/-- The file named by a variable. An empty value names none. -/
def file? (environment : Environment) (variableName : Text) : Option Path :=
  match environment.lookup variableName with
  | none => none
  | some [] => none
  | some value => some ((Path.ofText value).expandHome (environment.lookup homeVariable))

/-- The settings of an environment. -/
def ofEnvironment (environment : Environment) : Settings :=
  ⟨file? environment loaderVariable, file? environment runtimeVariable,
    (environment.lookup paramVariable).getD []⟩

/-- The file that replaces a bundled polyfill. -/
def replacement (settings : Settings) : Polyfill → Option Path
  | .loader => settings.loader
  | .runtime => settings.runtime

end Settings

end ModuleScripts
