import ModuleScripts.Text.Basic

/-!
# Plugins and capabilities

A plugin list names what a transform is asked to do. A plugin is named by a
word, by an object with a name, or by the first item of a list, and the usual
package prefixes do not count.
-/

namespace ModuleScripts

/-- An item of a plugin list. -/
inductive Plugin where
  /-- A bare identifier. -/
  | word (name : Text)
  /-- An object that has this name. -/
  | object (name : Text)
  /-- An identifier followed by options. -/
  | list (items : List Plugin)
  /-- Something without a name. -/
  | nameless
  deriving Repr, Inhabited

/-- The package prefixes, of which the first that fits is dropped. -/
def packagePrefixes : List Text :=
  ["@babel/plugin-".toList, "@babel/".toList, "babel-plugin-".toList]

/-- The identifier without its package prefix. -/
def dropPackagePrefix (name : Text) : Text :=
  (packagePrefixes.findSome? (Text.dropPrefix? · name)).getD name

namespace Plugin

/-- The name that an item itself carries. -/
def ownName? : Plugin → Option Text
  | word name => some name
  | object name => some name
  | list _ => none
  | nameless => none

/-- The normalised identifier of a plugin. -/
def name? : Plugin → Option Text
  | list [] => none
  | list (item :: _) => item.ownName?.map dropPackagePrefix
  | plugin => plugin.ownName?.map dropPackagePrefix

/-- Whether a list has a plugin of the same normalised identifier. Two plugins
without an identifier count as the same. -/
def mentions (plugins : List Plugin) (wanted : Plugin) : Bool :=
  plugins.any fun plugin => plugin.name? == wanted.name?

end Plugin

/-- What a plugin list asks for. -/
structure Capabilities where
  /-- Convert modules to AMD definitions. -/
  modulesAmd : Bool
  /-- Make generator functions work in browsers that lack them. -/
  regenerator : Bool
  deriving DecidableEq, Repr

/-- The identifier that asks for AMD definitions. -/
def amdPlugin : Plugin := .word "transform-modules-amd".toList

/-- The identifier that asks for generator functions. -/
def regeneratorPlugin : Plugin := .word "transform-regenerator".toList

/-- The capabilities that a plugin list asks for. -/
def Capabilities.ofPlugins (plugins : List Plugin) : Capabilities :=
  ⟨Plugin.mentions plugins amdPlugin, Plugin.mentions plugins regeneratorPlugin⟩

end ModuleScripts
