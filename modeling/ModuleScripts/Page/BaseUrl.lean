import ModuleScripts.Dom.Script
import ModuleScripts.Log
import ModuleScripts.Url.Resolve

/-!
# The base URL of a document

Relative specifiers are resolved against the reference of the first base
element, itself resolved against the location of the document. Without a usable
base element the location is the base.
-/

namespace ModuleScripts.Page

/-- The reference of the first base element, unless it is empty. -/
def baseReference? (root : Node) : Option Text :=
  match root.find? (Node.hasName "base".toList) with
  | none => none
  | some l =>
    match (l.node.tag?.bind (Tag.value? "href".toList)) with
    | none => none
    | some [] => none
    | some href => some href

/-- The base URL of a document at a location. -/
def baseUrl (root : Node) (location : Text) : Text :=
  match baseReference? root with
  | none => location
  | some href => (Url.resolve? location href).getD location

/-- The record about a base element that cannot be used. -/
def baseRecords (root : Node) (location : Text) : List Record :=
  match baseReference? root with
  | none => []
  | some href =>
    match Url.resolve? location href with
    | some _ => []
    | none => [⟨LogName.documents, .malformedBase href⟩]

end ModuleScripts.Page
