import ModuleScripts.Text.Basic

/-!
# Document trees

A tree is made of elements, texts, comments, doctypes, and the documents and
fragments that hold them. Attributes keep the order in which they were added.
Every node but a text can be given some, though only those of elements are ever
written. The content of a template element is kept apart from its children.
-/

namespace ModuleScripts

/-- Attributes in the order in which they were added. A missing value is told
apart from an empty one. -/
abbrev Attributes := List (Text × Option Text)

namespace Attributes

/-- The value of an attribute, or nothing if there is no such attribute. -/
def get? (name : Text) : Attributes → Option (Option Text)
  | [] => none
  | (key, value) :: rest => if key = name then some value else get? name rest

/-- Whether there is an attribute of this name. -/
def has (name : Text) (attributes : Attributes) : Bool := (get? name attributes).isSome

/-- Gives an attribute a value. One that is there keeps its place. -/
def put (name : Text) (value : Option Text) : Attributes → Attributes
  | [] => [(name, value)]
  | (key, old) :: rest =>
    if key = name then (key, value) :: rest else (key, old) :: put name value rest

/-- The value that was put is the value that is there. -/
theorem get?_put_self (name : Text) (value : Option Text) (attributes : Attributes) :
    get? name (put name value attributes) = some value := by
  induction attributes with
  | nil => simp [put, get?]
  | cons head rest ih =>
    obtain ⟨key, old⟩ := head
    by_cases h : key = name
    · simp [put, get?, h]
    · simp only [put, if_neg h, get?]
      exact ih

/-- Putting a value leaves the attributes of other names alone. -/
theorem get?_put_of_ne {name other : Text} (h : other ≠ name) (value : Option Text)
    (attributes : Attributes) : get? other (put name value attributes) = get? other attributes := by
  induction attributes with
  | nil => simp [put, get?, h.symm]
  | cons head rest ih =>
    obtain ⟨key, old⟩ := head
    by_cases hk : key = name
    · simp [put, get?, hk, h.symm]
    · by_cases ho : key = other
      · rw [put, if_neg hk, get?, if_pos ho, get?, if_pos ho]
      · rw [put, if_neg hk, get?, if_neg ho, get?, if_neg ho]
        exact ih

/-- Takes an attribute away. -/
def erase (name : Text) (attributes : Attributes) : Attributes :=
  attributes.filter fun a => a.1 ≠ name

/-- What was taken away is not there. -/
theorem get?_erase_self (name : Text) (attributes : Attributes) :
    get? name (erase name attributes) = none := by
  induction attributes with
  | nil => rfl
  | cons head rest ih =>
    obtain ⟨key, value⟩ := head
    by_cases h : key = name
    · rw [show erase name ((key, value) :: rest) = erase name rest by simp [erase, h]]
      exact ih
    · rw [show erase name ((key, value) :: rest) = (key, value) :: erase name rest by
        simp [erase, h]]
      rw [get?, if_neg h]
      exact ih

/-- Taking an attribute away leaves those of other names alone. -/
theorem get?_erase_of_ne {name other : Text} (h : other ≠ name) (attributes : Attributes) :
    get? other (erase name attributes) = get? other attributes := by
  induction attributes with
  | nil => rfl
  | cons head rest ih =>
    obtain ⟨key, value⟩ := head
    by_cases hk : key = name
    · have hne : key ≠ other := fun he => h (he.symm.trans hk)
      rw [show erase name ((key, value) :: rest) = erase name rest by simp [erase, hk]]
      rw [ih, get?, if_neg hne]
    · rw [show erase name ((key, value) :: rest) = (key, value) :: erase name rest by
        simp [erase, hk]]
      by_cases ho : key = other
      · rw [get?, if_pos ho, get?, if_pos ho]
      · rw [get?, if_neg ho, get?, if_neg ho]
        exact ih

/-- The attributes of a list in which a name may come again: its first place
and its last value count. -/
def ofList (list : List (Text × Option Text)) : Attributes :=
  list.foldl (fun attributes a => put a.1 a.2 attributes) []

end Attributes

/-- What an element is apart from what it holds. -/
structure Tag where
  /-- The name of the element. -/
  name : Text
  /-- The markup language that the name belongs to. -/
  space : Text
  /-- The attributes, which may be missing altogether. -/
  attributes : Option Attributes
  deriving DecidableEq, Repr, Inhabited

/-- The markup language of ordinary elements. -/
def htmlSpace : Text := "html".toList

namespace Tag

/-- An ordinary element without attributes. -/
def plain (name : Text) : Tag := ⟨name, htmlSpace, some []⟩

/-- The value of an attribute if it is there and has one. -/
def value? (name : Text) (tag : Tag) : Option Text :=
  match tag.attributes with
  | none => none
  | some attributes => (attributes.get? name).getD none

/-- Whether there is an attribute of this name. -/
def has (name : Text) (tag : Tag) : Bool :=
  match tag.attributes with
  | none => false
  | some attributes => attributes.has name

/-- Gives an attribute a value. -/
def put (name : Text) (value : Option Text) (tag : Tag) : Tag :=
  { tag with attributes := some (Attributes.put name value (tag.attributes.getD [])) }

/-- Takes an attribute away. -/
def erase (name : Text) (tag : Tag) : Tag :=
  { tag with attributes := tag.attributes.map (Attributes.erase name) }

end Tag

/-- A node with everything below it. -/
inductive Node where
  /-- A text, whose data may be missing. -/
  | text (data : Option Text)
  /-- A comment, whose data may be missing. -/
  | comment (attributes : Attributes) (data : Option Text)
  /-- The document type. -/
  | doctype (attributes : Attributes)
  /-- A document. -/
  | document (attributes : Attributes) (children : List Node)
  /-- A fragment of a document. -/
  | fragment (attributes : Attributes) (children : List Node)
  /-- An element, with the content of a template if it is one. -/
  | element (tag : Tag) (children : List Node) (content : Option (List Node))
  deriving Repr, Inhabited

namespace Node

/-- The nodes directly below a node. -/
def children : Node → List Node
  | text _ => []
  | comment _ _ => []
  | doctype _ => []
  | document _ children => children
  | fragment _ children => children
  | element _ children _ => children

/-- The node with its children changed, if it can have any. -/
def mapChildren (f : List Node → List Node) : Node → Node
  | text data => text data
  | comment attributes data => comment attributes data
  | doctype attributes => doctype attributes
  | document attributes children => document attributes (f children)
  | fragment attributes children => fragment attributes (f children)
  | element tag children content => element tag (f children) content

/-- The tag of an element. -/
def tag? : Node → Option Tag
  | element tag _ _ => some tag
  | _ => none

/-- The node with its tag changed, if it is an element. -/
def mapTag (f : Tag → Tag) : Node → Node
  | element tag children content => element (f tag) children content
  | node => node

/-- The attributes of a node, if it is one that can have any. -/
def attributes? : Node → Option Attributes
  | text _ => none
  | comment attributes _ => some attributes
  | doctype attributes => some attributes
  | document attributes _ => some attributes
  | fragment attributes _ => some attributes
  | element tag _ _ => some (tag.attributes.getD [])

/-- The value of an attribute if it is there and has one. -/
def attributeValue? (name : Text) (node : Node) : Option Text :=
  match node.attributes? with
  | none => none
  | some attributes => (attributes.get? name).getD none

/-- The node with a value given to an attribute, if it can have any. -/
def putAttribute (name : Text) (value : Option Text) : Node → Node
  | text data => text data
  | comment attributes data => comment (attributes.put name value) data
  | doctype attributes => doctype (attributes.put name value)
  | document attributes children => document (attributes.put name value) children
  | fragment attributes children => fragment (attributes.put name value) children
  | element tag children content => element (tag.put name value) children content

/-- The node without an attribute. -/
def eraseAttribute (name : Text) : Node → Node
  | text data => text data
  | comment attributes data => comment (attributes.erase name) data
  | doctype attributes => doctype (attributes.erase name)
  | document attributes children => document (attributes.erase name) children
  | fragment attributes children => fragment (attributes.erase name) children
  | element tag children content => element (tag.erase name) children content

/-- The value of an attribute of an element is the one its tag tells. -/
theorem attributeValue?_element (name : Text) (tag : Tag) (children : List Node)
    (content : Option (List Node)) :
    (element tag children content).attributeValue? name = tag.value? name := by
  obtain ⟨tagName, space, attributes⟩ := tag
  cases attributes <;> rfl

/-- Whether a node is an element. -/
def isElement (node : Node) : Bool := node.tag?.isSome

/-- Whether a node is an element of this name. -/
def hasName (name : Text) (node : Node) : Bool :=
  match node.tag? with
  | none => false
  | some tag => tag.name == name

/-- The node with its children replaced by a text, or by nothing if the text is
empty. -/
def setText (data : Text) (node : Node) : Node :=
  node.mapChildren fun _ => if data.isEmpty then [] else [text (some data)]

mutual

/-- Number of the nodes from a node on down. -/
def size : Node → Nat
  | text _ => 1
  | comment _ _ => 1
  | doctype _ => 1
  | document _ children => 1 + sizes children
  | fragment _ children => 1 + sizes children
  | element _ children _ => 1 + sizes children

/-- Number of the nodes from the nodes of a list on down. -/
def sizes : List Node → Nat
  | [] => 0
  | node :: nodes => size node + sizes nodes

end

/-- The size of a list of nodes adds up over its parts. -/
theorem sizes_append (a b : List Node) : sizes (a ++ b) = sizes a + sizes b := by
  induction a with
  | nil => simp [sizes]
  | cons node nodes ih => simp [sizes, ih, Nat.add_assoc]

/-- A node counts itself and everything below it. -/
theorem size_eq (node : Node) : node.size = 1 + sizes node.children := by
  cases node <;> simp [size, children, sizes]

end Node

end ModuleScripts
