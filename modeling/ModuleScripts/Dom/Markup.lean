import ModuleScripts.Dom.Node

/-!
# Trees as markup

The compact written form of a tree. The bodies of scripts and of the other
raw-text elements are written as they are: escaping them would change what a
browser sees.
-/

namespace ModuleScripts

namespace Markup

/-- The elements that have no content and no end tag. -/
def voidElements : List Text :=
  ["area", "base", "br", "col", "embed", "hr", "img", "input", "link", "meta", "param", "source",
    "track", "wbr"].map String.toList

/-- The elements whose text is raw in the HTML syntax. -/
def rawTextElements : List Text :=
  ["script", "style", "xmp", "iframe", "noembed", "noframes", "plaintext"].map String.toList

/-- A character of text. -/
def escapeTextChar (c : Char) : Text :=
  if c = '&' then "&amp;".toList
  else if c = '<' then "&lt;".toList
  else if c = '>' then "&gt;".toList
  else [c]

/-- A character of an attribute value. -/
def escapeValueChar (c : Char) : Text :=
  if c = '&' then "&amp;".toList
  else if c = '"' then "&quot;".toList
  else [c]

/-- A text outside raw-text elements. -/
def escapeText (t : Text) : Text := t.flatMap escapeTextChar

/-- An attribute value between double quotes. -/
def escapeValue (t : Text) : Text := t.flatMap escapeValueChar

/-- One attribute with the space before it. An empty value is left out. -/
def writtenAttribute (name : Text) (value : Option Text) : Text :=
  match value with
  | none | some [] => ' ' :: name
  | some value => ' ' :: name ++ "=\"".toList ++ escapeValue value ++ ['"']

/-- A start tag. -/
def startTag (name : Text) (attributes : Option Attributes) : Text :=
  '<' :: name ++ ((attributes.getD []).flatMap fun a => writtenAttribute a.1 a.2) ++ ['>']

/-- An end tag. -/
def endTag (name : Text) : Text := "</".toList ++ name ++ ['>']

/-- The written form of a comment. -/
def comment (data : Text) : Text := "<!--".toList ++ data ++ "-->".toList

end Markup

namespace Tag

/-- Whether an element has neither content nor end tag. -/
def isVoid (tag : Tag) : Bool := Markup.voidElements.contains tag.name

/-- Whether the text of an element is written as it is. -/
def isRawText (tag : Tag) : Bool :=
  Markup.rawTextElements.contains tag.name && tag.space == htmlSpace

/-- Whether an element may have content apart from its children. -/
def isTemplate (tag : Tag) : Bool := tag.name == "template".toList

end Tag

namespace Node

mutual

/-- The written form of a node inside or outside a raw-text element. The content
of a template is written in place of its children. -/
def write (raw : Bool) : Node → Text
  | text data => if raw then data.getD [] else Markup.escapeText (data.getD [])
  | comment _ data => Markup.comment (data.getD [])
  | doctype _ => "<!DOCTYPE html>".toList
  | document _ children => writeAll false children
  | fragment _ children => writeAll false children
  | element tag children none =>
    if tag.isVoid then Markup.startTag tag.name tag.attributes
    else
      Markup.startTag tag.name tag.attributes ++ writeAll tag.isRawText children ++
        Markup.endTag tag.name
  | element tag children (some content) =>
    if tag.isVoid then Markup.startTag tag.name tag.attributes
    else
      Markup.startTag tag.name tag.attributes ++
        (if tag.isTemplate then writeAll tag.isRawText content
          else writeAll tag.isRawText children) ++
        Markup.endTag tag.name

/-- The written form of nodes next to each other. -/
def writeAll (raw : Bool) : List Node → Text
  | [] => []
  | node :: nodes => write raw node ++ writeAll raw nodes

end

/-- The written form of a tree. -/
def toMarkup (root : Node) : Text := root.write false

end Node

end ModuleScripts
