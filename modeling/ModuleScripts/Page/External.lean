import ModuleScripts.Dom.Edit
import ModuleScripts.Dom.Script
import ModuleScripts.Text.Quoting
import ModuleScripts.Url.Query

/-!
# External module scripts

The source of an external module script gets the query parameter. Where modules
become definitions, the script becomes an inline stub that depends on that
source.
-/

namespace ModuleScripts

/-- The call that loads a source through the AMD loader. -/
def defineStub (source : Text) : Text :=
  "define(['".toList ++ Text.escapeSingle source ++ "']);".toList

namespace Tag

/-- The source of a script, empty if it is missing. -/
def source (tag : Tag) : Text := (tag.value? sourceName).getD []

/-- The tag with its source versioned. -/
def versioned (param : Text) (tag : Tag) : Tag :=
  tag.put sourceName (some (Url.appendQuery tag.source param))

end Tag

namespace Node

/-- The source that a node names, empty if it names none. -/
def source (node : Node) : Text := (node.attributeValue? sourceName).getD []

/-- The source of an element is that of its tag. -/
theorem source_element (tag : Tag) (children : List Node) (content : Option (List Node)) :
    (element tag children content).source = tag.source := by
  rw [source, attributeValue?_element, Tag.source]

/-- The node as an inline stub for its source, without source and type. -/
def toStub (node : Node) : Node :=
  ((node.setText (defineStub node.source)).eraseAttribute sourceName).eraseAttribute typeName

/-- An external module script with its source versioned and, where modules
become definitions, as the stub for that source. -/
def versionScript (amd : Bool) (param : Text) (node : Node) : Node :=
  let versioned := node.mapTag (Tag.versioned param)
  if amd then versioned.toStub else versioned

/-- The tree with its external module scripts versioned. All of them are found
before the first is changed. -/
def versionExternal (amd : Bool) (param : Text) (root : Node) : Node :=
  root.applyEach
    ((root.findAll isExternalModule).map fun l => ⟨l.address, versionScript amd param⟩)

end Node

end ModuleScripts
