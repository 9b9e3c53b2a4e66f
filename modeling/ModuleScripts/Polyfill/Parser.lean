import ModuleScripts.Dom.Script

/-!
# The parser behind polyfill scripts

The source of a polyfill becomes a script by being parsed as markup, between the
tags of a script, and the first script of the document is taken. The parser comes
from outside. What is relied on everywhere is that this script has no attributes
and holds a text; where the text ends is stated where it matters.
-/

namespace ModuleScripts

/-- A script element that holds a text, or nothing if the text is empty. -/
def scriptElement (text : Text) : Node :=
  (Node.element (Tag.plain scriptName) [] none).setText text

/-- The first script of a document. -/
def Node.firstScript? (root : Node) : Option Node :=
  (root.find? (Node.hasName scriptName)).map Located.node

namespace Polyfill

/-- The markup that is made of a source. -/
def markup (source : Text) : Text :=
  "<script>\n".toList ++ source ++ "\n</script>".toList

/-- A blank of markup. -/
def isMarkupBlank (c : Char) : Bool :=
  c == ' ' || c == '\t' || c == '\n' || c == '\r' || c == '\x0c'

/-- The character behind the name of the end tag of a script, in any case of
its letters, if a text starts with such a tag. -/
def endTagMark? (t : Text) : Option Char :=
  match Text.dropPrefix? "</script".toList ((t.take 9).map lowerAscii) with
  | some (c :: _) => if isMarkupBlank c || c == '/' || c == '>' then some c else none
  | _ => none

/-- The text before the first end tag of a script, and the character behind the
name of that tag. -/
def splitEndTag : Text → Text × Option Char
  | [] => ([], none)
  | c :: r =>
    match endTagMark? (c :: r) with
    | some mark => ([], some mark)
    | none =>
      let parts := splitEndTag r
      (c :: parts.1, parts.2)

/-- The source between two line feeds, up to the first end tag of a script in it. -/
def cutText (source : Text) : Text := (splitEndTag ('\n' :: source ++ ['\n'])).1

end Polyfill

/-- A parser of markup. -/
class MarkupParser where
  /-- The document that is read from markup. -/
  read : Text → Node
  /-- The markup of a source has a script. It has no attributes and holds a text. -/
  script : ∀ source, ∃ text,
    (read (Polyfill.markup source)).firstScript? = some (scriptElement text)

namespace MarkupParser

/-- The text of the script that the parser makes of a source. -/
def scriptText (parser : MarkupParser) (source : Text) : Text :=
  ((parser.read (Polyfill.markup source)).firstScript?.map Node.textContent).getD []

/-- The parser ends the script of a source where its first end tag starts. -/
def Cuts (parser : MarkupParser) (source : Text) : Prop :=
  parser.scriptText source = Polyfill.cutText source

/-- The document of one script whose tag was taken off the markup. A blank behind the
name of the end tag makes the text part of what follows. -/
def readScript (markup : Text) : Node :=
  .document [] [scriptElement (match Polyfill.splitEndTag markup with
    | (text, none) => text
    | (text, some mark) => if Polyfill.isMarkupBlank mark then [] else text)]

/-- A document of one script has it as its first. -/
theorem firstScript?_scriptElement (text : Text) :
    (Node.document [] [scriptElement text]).firstScript? = some (scriptElement text) := by
  have hscript : (scriptElement text).isElement && (scriptElement text).hasName scriptName := rfl
  have hdocument : Located.children ⟨[], Node.document [] [scriptElement text]⟩ ++ [] =
      [⟨[0], scriptElement text⟩] := rfl
  rw [Node.firstScript?, Node.find?, Located.find?, if_neg (by simp [Node.isElement, Node.tag?]),
    hdocument, Located.find?, if_pos hscript]
  rfl

/-- The parser of runs that are given no other: it knows nothing but the markup of a
source. -/
instance alone : MarkupParser where
  read markup := readScript (markup.drop "<script>".length)
  script _ := ⟨_, firstScript?_scriptElement _⟩

end MarkupParser

end ModuleScripts
