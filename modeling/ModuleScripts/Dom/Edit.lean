import ModuleScripts.Dom.Walk

/-!
# Edits at an address

An edit changes a tree at one address and leaves the rest of it alone. An
address that leads nowhere changes nothing.
-/

namespace ModuleScripts

namespace Node

/-- The list with the element at an index changed. -/
def modifyNth {α : Type} (f : α → α) : Nat → List α → List α
  | _, [] => []
  | 0, x :: xs => f x :: xs
  | n + 1, x :: xs => x :: modifyNth f n xs

/-- The list with a new element before the one at an index. -/
def insertNth {α : Type} (new : α) : Nat → List α → List α
  | _, [] => []
  | 0, x :: xs => new :: x :: xs
  | n + 1, x :: xs => x :: insertNth new n xs

/-- The list without the element at an index. -/
def eraseNth {α : Type} : Nat → List α → List α
  | _, [] => []
  | 0, _ :: xs => xs
  | n + 1, x :: xs => x :: eraseNth n xs

/-- The node at an address. -/
def get? : Address → Node → Option Node
  | [], node => some node
  | index :: address, node =>
    match node.children[index]? with
    | none => none
    | some child => get? address child

/-- Changes the node at an address. -/
def modify (f : Node → Node) : Address → Node → Node
  | [], node => f node
  | index :: address, node => node.mapChildren (modifyNth (modify f address) index)

/-- Puts a node before the one at an address. The root has no place before it. -/
def insertBefore (new : Node) : Address → Node → Node
  | [], node => node
  | [index], node => node.mapChildren (insertNth new index)
  | index :: address, node => node.mapChildren (modifyNth (insertBefore new address) index)

/-- Puts a node before the children of the one at an address. -/
def insertFirst (new : Node) (address : Address) (root : Node) : Node :=
  modify (mapChildren (new :: ·)) address root

/-- Takes the node at an address away. The root stays. -/
def remove : Address → Node → Node
  | [], node => node
  | [index], node => node.mapChildren (eraseNth index)
  | index :: address, node => node.mapChildren (modifyNth (remove address) index)

/-- Takes the nodes at addresses in document order away, the last of them first,
so that no node that still has to go is moved. -/
def removeEach (addresses : List Address) (root : Node) : Node := addresses.foldr remove root

end Node

/-- A change of the node at an address. -/
structure Edit where
  /-- The address. -/
  address : Address
  /-- What becomes of the node. -/
  change : Node → Node

/-- Makes changes one after the other. -/
def Node.applyEach (edits : List Edit) (root : Node) : Node :=
  edits.foldl (fun root e => root.modify e.change e.address) root

end ModuleScripts
