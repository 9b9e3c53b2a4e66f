import ModuleScripts.Dom.Walk
import ModuleScripts.Text.Blank
import ModuleScripts.Text.CharClass

/-!
# Script elements

A module script is a script whose type is the word `module`, whatever its case
and the blanks around it. It is external if it has a source attribute and
inline otherwise. A fallback is a script for browsers without modules.
-/

namespace ModuleScripts

/-- The name of script elements. -/
def scriptName : Text := "script".toList

/-- The attribute that tells what a script is. -/
def typeName : Text := "type".toList

/-- The attribute that tells where a script is loaded from. -/
def sourceName : Text := "src".toList

/-- The attribute of a script for browsers without modules. -/
def fallbackName : Text := "nomodule".toList

namespace Tag

/-- The type of a script in lower case. No character outside the ASCII block
has a letter of `module` as its lower case. -/
def scriptType (tag : Tag) : Text :=
  (Text.trim ((tag.value? typeName).getD [])).map lowerAscii

/-- Whether a tag is that of a module script. -/
def isModule (tag : Tag) : Bool := tag.name == scriptName && tag.scriptType == "module".toList

/-- Whether a tag is that of an external module script. -/
def isExternalModule (tag : Tag) : Bool := tag.isModule && tag.has sourceName

/-- Whether a tag is that of an inline module script. -/
def isInlineModule (tag : Tag) : Bool := tag.isModule && !tag.has sourceName

/-- Whether a tag is that of a script for browsers without modules. -/
def isFallback (tag : Tag) : Bool := tag.name == scriptName && tag.has fallbackName

end Tag

namespace Node

/-- Whether a node is an element with a tag that fits. -/
def tagFits (fits : Tag → Bool) (node : Node) : Bool :=
  match node.tag? with
  | none => false
  | some tag => fits tag

/-- Whether a node is a module script. -/
def isModuleScript : Node → Bool := tagFits Tag.isModule

/-- Whether a node is an external module script. -/
def isExternalModule : Node → Bool := tagFits Tag.isExternalModule

/-- Whether a node is an inline module script. -/
def isInlineModule : Node → Bool := tagFits Tag.isInlineModule

/-- Whether a node is a script for browsers without modules. -/
def isFallback : Node → Bool := tagFits Tag.isFallback

end Node

end ModuleScripts
