import ModuleScripts.Dom.Token

/-!
# Reading markup

A tree is read off the tokens of markup with the elements that are still open
kept on a stack. An end tag closes its element and those inside it; one without
a start tag is skipped. Elements are read as they are written: none is added.
-/

namespace ModuleScripts.Markup

/-- An element that is still open. -/
structure OpenElement where
  /-- Its tag. -/
  tag : Tag
  /-- Its children so far, the last one first. -/
  children : List Node

/-- An element once it is closed. The children of a template are its content. -/
def OpenElement.toNode (e : OpenElement) : Node :=
  if e.tag.isTemplate then .element e.tag [] (some e.children.reverse)
  else .element e.tag e.children.reverse none

/-- A tree that is being read. -/
structure Builder where
  /-- The open elements, innermost first. -/
  stack : List OpenElement
  /-- The nodes outside all elements so far, the last one first. -/
  done : List Node

namespace Builder

/-- A node behind those read before it. Texts next to each other are one. -/
def append (node : Node) : List Node → List Node
  | .text (some before) :: nodes =>
    match node with
    | .text (some data) => .text (some (before ++ data)) :: nodes
    | _ => node :: .text (some before) :: nodes
  | nodes => node :: nodes

/-- Adds a node inside the innermost open element. -/
def add (node : Node) (b : Builder) : Builder :=
  match b.stack with
  | [] => ⟨[], append node b.done⟩
  | e :: stack => ⟨⟨e.tag, append node e.children⟩ :: stack, b.done⟩

/-- Closes the innermost open element. -/
def closeInnermost (b : Builder) : Builder :=
  match b.stack with
  | [] => b
  | e :: stack => add e.toNode ⟨stack, b.done⟩

/-- Closes so many open elements. -/
def closeMany : Nat → Builder → Builder
  | 0, b => b
  | n + 1, b => closeMany n b.closeInnermost

/-- Takes one token. -/
def take (b : Builder) : Token → Builder
  | .text data => b.add (.text (some data))
  | .comment data => b.add (.comment [] (some data))
  | .doctype => b.add (.doctype [])
  | .start name attributes =>
    let tag : Tag := ⟨name, htmlSpace, some attributes⟩
    if tag.isVoid then b.add (.element tag [] none) else ⟨⟨tag, []⟩ :: b.stack, b.done⟩
  | .stop name =>
    match b.stack.findIdx? fun e => e.tag.name == name with
    | none => b
    | some index => closeMany (index + 1) b

/-- The nodes of the tree, once all open elements are closed. -/
def finish (b : Builder) : List Node := (closeMany b.stack.length b).done.reverse

end Builder

/-- Reads markup as a document. -/
def read (t : Text) : Node :=
  .document [] ((tokens t).foldl Builder.take ⟨[], []⟩).finish

end ModuleScripts.Markup
