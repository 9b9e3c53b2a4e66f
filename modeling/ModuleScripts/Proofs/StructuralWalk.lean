import ModuleScripts.Dom.Edit
import ModuleScripts.Proofs.DocumentOrder
import Mathlib.Data.List.Basic

/-!
# Walks and recursion on trees

A walk keeps the nodes still to be visited in a list. What it lists is what
recursion on the trees in that list gives, tree by tree. The nodes it comes to
are those at the addresses of the tree, each once and in the order of their
addresses: a node before what is below it, and what is below it from the first
child to the last.
-/

namespace ModuleScripts

namespace Node

mutual

/-- The elements from a node on down, the node first and then those of its
children. What is no element is left out, but its children are not. -/
def preorder (path : Address) : Node → List Located
  | .text _ => []
  | .comment _ _ => []
  | .doctype _ => []
  | .document _ children => preorderAll path 0 children
  | .fragment _ children => preorderAll path 0 children
  | .element tag children content =>
    ⟨path, .element tag children content⟩ :: preorderAll path 0 children

/-- The elements from the children of a node on down, if these have indices from
a given one on. -/
def preorderAll (path : Address) (index : Nat) : List Node → List Located
  | [] => []
  | node :: nodes => preorder (path ++ [index]) node ++ preorderAll path (index + 1) nodes

end

mutual

/-- The data of a text, or else the data of the texts below the children one
after the other. -/
def data : Node → Text
  | .text data => data.getD []
  | .comment _ _ => []
  | .doctype _ => []
  | .document _ children => dataAll children
  | .fragment _ children => dataAll children
  | .element _ children _ => dataAll children

/-- The data of all texts from the nodes of a list on down. -/
def dataAll : List Node → Text
  | [] => []
  | node :: nodes => node.data ++ dataAll nodes

end

/-- The elements of a tree are its root, if it is one, and those of the
children. -/
theorem preorder_eq (path : Address) (node : Node) :
    node.preorder path =
      (if node.isElement then [⟨path, node⟩] else []) ++ preorderAll path 0 node.children := by
  cases node <;> rfl

/-- The data of a tree is that of its root and of the children. -/
theorem data_eq (node : Node) : node.data = node.ownText ++ dataAll node.children := by
  cases node with
  | text data => exact (List.append_nil _).symm
  | _ => rfl

/-- The elements of siblings are listed one tree after the other. -/
theorem flatMap_preorder_siblings (path : Address) (index : Nat) (nodes : List Node) :
    ((Located.siblings path index nodes).flatMap fun l => l.node.preorder l.address) =
      preorderAll path index nodes := by
  induction nodes generalizing index with
  | nil => rfl
  | cons node nodes ih => rw [Located.siblings, List.flatMap_cons, ih, preorderAll]

/-- The data of siblings is joined. -/
theorem flatMap_data (nodes : List Node) : nodes.flatMap data = dataAll nodes := by
  induction nodes with
  | nil => rfl
  | cons node nodes ih => rw [List.flatMap_cons, ih, dataAll]

/-- A longer address leads into the child at its first index. -/
theorem get?_cons (index : Nat) (address : Address) (node : Node) :
    get? (index :: address) node = node.children[index]?.bind (get? address) := by
  rw [get?]
  cases node.children[index]? <;> rfl

end Node

/-- Whether an address leads to the left of another: where they part, it goes to
the smaller index. -/
def Address.LeftOf (a b : Address) : Prop :=
  ∃ (common : Address) (i j : Nat) (a' b' : Address),
    i < j ∧ a = common ++ i :: a' ∧ b = common ++ j :: b'

namespace Address.LeftOf

variable {a b : Address}

/-- What is to the left comes first. -/
theorem lt (h : LeftOf a b) : a < b := by
  obtain ⟨common, i, j, a', b', hij, rfl, rfl⟩ := h
  exact List.append_left_lt (List.cons_lt_cons_iff.2 (.inl hij))

/-- What is below the one is to the left of what is below the other. -/
theorem append (h : LeftOf a b) (s t : Address) : LeftOf (a ++ s) (b ++ t) := by
  obtain ⟨common, i, j, a', b', hij, rfl, rfl⟩ := h
  exact ⟨common, i, j, a' ++ s, b' ++ t, hij, List.append_assoc .., List.append_assoc ..⟩

end Address.LeftOf

namespace Located

variable {pending : List Located} {l p : Located}

/-- The elements of a walk are those of the pending nodes, tree by tree. -/
theorem filter_isElement_walk (pending : List Located) :
    ((walk pending).filter fun l => l.node.isElement) =
      pending.flatMap fun l => l.node.preorder l.address := by
  induction pending using walk.induct with
  | case1 => rw [walk_nil, List.filter_nil, List.flatMap_nil]
  | case2 l rest ih =>
    -- the children stand before what was pending, as they do in the recursion
    rw [walk_cons, List.filter_cons, ih, List.flatMap_append, List.flatMap_cons, children,
      Node.flatMap_preorder_siblings, Node.preorder_eq, List.append_assoc]
    split
    · rfl
    · rfl

/-- The texts of a walk have the data of the pending nodes, tree by tree. -/
theorem flatMap_ownText_walk (pending : List Located) :
    ((walk pending).flatMap fun l => l.node.ownText) = pending.flatMap fun l => l.node.data := by
  induction pending using walk.induct with
  | case1 => rw [walk_nil, List.flatMap_nil, List.flatMap_nil]
  | case2 l rest ih =>
    have hchildren : (l.children.flatMap fun c => c.node.data) = Node.dataAll l.node.children := by
      rw [← Node.flatMap_data, ← map_node_children, List.flatMap_map]
    rw [walk_cons, List.flatMap_cons, ih, List.flatMap_append, hchildren, List.flatMap_cons,
      Node.data_eq, List.append_assoc]

/-- A sibling stands at its index behind the first one. -/
theorem mem_siblings {path : Address} {index : Nat} {nodes : List Node} :
    l ∈ siblings path index nodes ↔
      ∃ i node, nodes[i]? = some node ∧ l = ⟨path ++ [index + i], node⟩ := by
  induction nodes generalizing index with
  | nil => simp [siblings]
  | cons node nodes ih =>
    rw [siblings, List.mem_cons, ih]
    constructor
    · rintro (rfl | ⟨i, found, hfound, rfl⟩)
      · exact ⟨0, node, rfl, rfl⟩
      · exact ⟨i + 1, found, hfound, by rw [Nat.add_right_comm, Nat.add_assoc]⟩
    · rintro ⟨i, found, hfound, rfl⟩
      cases i with
      | zero => exact .inl (by cases hfound; rfl)
      | succ i => exact .inr ⟨i, found, hfound, by rw [Nat.add_right_comm, Nat.add_assoc]⟩

/-- Whether a node is another one or stands below it. -/
def IsUnder (l p : Located) : Prop :=
  ∃ address, p.node.get? address = some l.node ∧ l.address = p.address ++ address

/-- What is not the node itself stands under one of its children. -/
theorem isUnder_iff : l.IsUnder p ↔ l = p ∨ ∃ c ∈ p.children, l.IsUnder c := by
  constructor
  · rintro ⟨address, hget, haddress⟩
    cases address with
    | nil =>
      rw [List.append_nil] at haddress
      exact .inl (congrArg₂ Located.mk haddress (Option.some.inj hget).symm)
    | cons i address =>
      rw [Node.get?_cons, Option.bind_eq_some_iff] at hget
      obtain ⟨node, hnode, hget⟩ := hget
      refine .inr ⟨⟨p.address ++ [i], node⟩, mem_siblings.2 ⟨i, node, hnode, ?_⟩, address, hget, ?_⟩
      · rw [Nat.zero_add]
      · rw [haddress, List.append_assoc, List.singleton_append]
  · rintro (rfl | ⟨c, hc, address, hget, haddress⟩)
    · exact ⟨[], rfl, (List.append_nil _).symm⟩
    · obtain ⟨i, node, hnode, rfl⟩ := mem_siblings.1 hc
      rw [Nat.zero_add, List.append_assoc] at haddress
      exact ⟨i :: address, by rw [Node.get?_cons, hnode]; exact hget, haddress⟩

/-- A walk comes to the pending nodes and to what stands below them. -/
theorem mem_walk : l ∈ walk pending ↔ ∃ p ∈ pending, l.IsUnder p := by
  induction pending using walk.induct with
  | case1 => simp [walk_nil]
  | case2 p rest ih =>
    rw [walk_cons, List.mem_cons, ih, List.exists_mem_cons_iff, isUnder_iff]
    simp only [List.mem_append, or_and_right, exists_or, or_assoc]

/-- From a root a walk comes to the nodes at its addresses. -/
theorem mem_located_iff {root : Node} :
    l ∈ root.located ↔ root.get? l.address = some l.node := by
  rw [Node.located, mem_walk]
  simp [IsUnder]

/-- Siblings stand to the left of those behind them. -/
theorem pairwise_siblings (path : Address) (index : Nat) (nodes : List Node) :
    (siblings path index nodes).Pairwise fun a b => a.address.LeftOf b.address := by
  induction nodes generalizing index with
  | nil => exact .nil
  | cons node nodes ih =>
    refine .cons (fun later hlater => ?_) (ih (index + 1))
    obtain ⟨i, found, -, rfl⟩ := mem_siblings.1 hlater
    exact ⟨path, index, index + 1 + i, [], [], by omega, rfl, rfl⟩

/-- A walk that has to visit nodes from left to right comes to the nodes in the
order of their addresses. -/
theorem pairwise_walk
    (h : pending.Pairwise fun a b => a.address.LeftOf b.address) :
    (walk pending).Pairwise fun a b => a.address < b.address := by
  induction pending using walk.induct with
  | case1 =>
    rw [walk_nil]
    exact .nil
  | case2 p rest ih =>
    obtain ⟨hfirst, hrest⟩ := List.pairwise_cons.1 h
    rw [walk_cons]
    refine .cons (fun l hl => ?_) (ih (List.pairwise_append.2
      ⟨pairwise_siblings p.address 0 p.node.children, hrest, fun c hc r hr => ?_⟩))
    · -- what comes later is below a child or below a node to the right
      obtain ⟨q, hq, address, -, haddress⟩ := mem_walk.1 hl
      rw [haddress]
      rcases List.mem_append.1 hq with hchild | hright
      · obtain ⟨i, node, -, rfl⟩ := mem_siblings.1 hchild
        have hbelow : p.address ++ [] < p.address ++ ([0 + i] ++ address) :=
          List.append_left_lt (List.nil_lt_cons _ _)
        rwa [List.append_nil, ← List.append_assoc] at hbelow
      · have hleft := (hfirst q hright).append [] address
        rw [List.append_nil] at hleft
        exact hleft.lt
    · obtain ⟨i, node, -, rfl⟩ := mem_siblings.1 hc
      have hleft := (hfirst r hr).append [0 + i] []
      rwa [List.append_nil] at hleft

end Located

namespace Node

/-- The walks through a tree are recursion on it: the elements are listed by it,
they are those at the addresses of the tree, each once and in the order of the
addresses; all that fit are a part of them, and the first that fits is the first
of those; the text of a node is gathered by recursion as well. -/
theorem walks_structural (root : Node) :
    root.elements = root.preorder [] ∧
      (∀ l, l ∈ root.elements ↔ root.get? l.address = some l.node ∧ l.node.isElement) ∧
      root.elements.Pairwise (fun a b => a.address < b.address) ∧
      (∀ fits, root.findAll fits = (root.preorder []).filter (fun l => fits l.node) ∧
        root.find? fits = (root.findAll fits).head?) ∧
      root.textContent = root.data := by
  have hlist : root.elements = root.preorder [] := by
    rw [elements, located, Located.filter_isElement_walk, List.flatMap_singleton]
  refine ⟨hlist, fun l => ?_, ?_, fun fits => ⟨?_, find?_eq_head? fits root⟩, ?_⟩
  · rw [elements, List.mem_filter, Located.mem_located_iff]
  · exact (Located.pairwise_walk (List.pairwise_singleton _ _)).filter _
  · rw [findAll, hlist]
  · rw [textContent, located, Located.flatMap_ownText_walk, List.flatMap_singleton]

end Node

end ModuleScripts
