import ModuleScripts.Text.Basic

/-!
# The polyfills

Two scripts can be put into a document: a loader for AMD definitions and a
runtime for generator functions.
-/

namespace ModuleScripts

/-- A script that makes up for what a browser lacks. -/
inductive Polyfill where
  /-- The loader of AMD definitions. -/
  | loader
  /-- The runtime of generator functions. -/
  | runtime
  deriving DecidableEq, Repr

/-- The name under which a polyfill is known. -/
def Polyfill.name : Polyfill → Text
  | loader => "esm-amd-loader.js".toList
  | runtime => "regenerator-runtime.js".toList

end ModuleScripts
