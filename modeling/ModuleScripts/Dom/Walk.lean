import ModuleScripts.Dom.Node

/-!
# Walks in document order

A walk visits a node before its children and these from the first to the last.
It keeps the nodes still to be visited in a list and remembers the address of
each node: the child indices that lead to it from the root. The content of
templates is not visited.
-/

namespace ModuleScripts

/-- Child indices from the root. -/
abbrev Address := List Nat

/-- A node and where it stands. -/
structure Located where
  /-- The address of the node. -/
  address : Address
  /-- The node. -/
  node : Node
  deriving Repr, Inhabited

namespace Located

/-- The nodes of a list with the addresses they have as children, the first of
them at an index. -/
def siblings (parent : Address) (index : Nat) : List Node → List Located
  | [] => []
  | node :: nodes => ⟨parent ++ [index], node⟩ :: siblings parent (index + 1) nodes

/-- The children of a node. -/
def children (l : Located) : List Located := siblings l.address 0 l.node.children

/-- Number of the nodes from the nodes of a list on down. -/
def sizes (list : List Located) : Nat := Node.sizes (list.map Located.node)

/-- The located siblings are the nodes they were made from. -/
theorem map_node_siblings (parent : Address) (index : Nat) (nodes : List Node) :
    (siblings parent index nodes).map Located.node = nodes := by
  induction nodes generalizing index with
  | nil => rfl
  | cons node nodes ih => simp [siblings, ih]

/-- The located children of a node are its children. -/
theorem map_node_children (l : Located) : l.children.map Located.node = l.node.children :=
  map_node_siblings _ _ _

/-- Visiting a node and taking its children in its place leaves fewer nodes. -/
theorem sizes_children_append_lt (l : Located) (rest : List Located) :
    sizes (l.children ++ rest) < sizes (l :: rest) := by
  simp only [sizes, List.map_append, map_node_children, List.map_cons, Node.sizes_append,
    Node.sizes, Node.size_eq]
  omega

/-- All nodes from the pending ones on down, in document order. -/
def walk : List Located → List Located
  | [] => []
  | l :: rest => l :: walk (l.children ++ rest)
termination_by pending => sizes pending
decreasing_by exact sizes_children_append_lt l rest

/-- The first node of a walk that fits. -/
def find? (fits : Node → Bool) : List Located → Option Located
  | [] => none
  | l :: rest => if fits l.node then some l else find? fits (l.children ++ rest)
termination_by pending => sizes pending
decreasing_by exact sizes_children_append_lt l rest

end Located

namespace Node

/-- A node and all nodes below it in document order. -/
def located (root : Node) : List Located := Located.walk [⟨[], root⟩]

/-- The elements from a node on down in document order. -/
def elements (root : Node) : List Located := root.located.filter fun l => l.node.isElement

/-- The elements that fit, in document order. -/
def findAll (fits : Node → Bool) (root : Node) : List Located :=
  root.elements.filter fun l => fits l.node

/-- The first element that fits. -/
def find? (fits : Node → Bool) (root : Node) : Option Located :=
  Located.find? (fun node => node.isElement && fits node) [⟨[], root⟩]

/-- The data of a text. -/
def ownText : Node → Text
  | text data => data.getD []
  | _ => []

/-- The data of all texts from a node on down in document order. -/
def textContent (root : Node) : Text := root.located.flatMap fun l => l.node.ownText

end Node

end ModuleScripts
