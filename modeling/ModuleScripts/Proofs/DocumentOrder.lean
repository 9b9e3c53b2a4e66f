import ModuleScripts.Dom.Walk

/-!
# Walks go tree by tree

A walk from a node on is the node followed by the walks from its children, each
seen from one step further up. So what is found below a node is found below its
children one after the other, and the first node that fits is the first of all
that fit.
-/

namespace ModuleScripts

namespace Located

/-- The node as seen from the root of a larger tree. -/
def under (path : Address) (l : Located) : Located := ⟨path ++ l.address, l.node⟩

/-- Moving siblings under a path puts the path before their parent. -/
theorem map_under_siblings (path parent : Address) (index : Nat) (nodes : List Node) :
    (siblings parent index nodes).map (under path) = siblings (path ++ parent) index nodes := by
  induction nodes generalizing index with
  | nil => rfl
  | cons node nodes ih => simp only [siblings, List.map_cons, ih, under, List.append_assoc]

/-- The children of a moved node are its children, moved. -/
theorem children_under (path : Address) (l : Located) :
    (l.under path).children = l.children.map (under path) :=
  (map_under_siblings path l.address 0 l.node.children).symm

/-- Without pending nodes the walk is over. -/
theorem walk_nil : walk [] = [] := by
  rw [walk]

/-- The walk lists a node, then its children, and then what was pending. -/
theorem walk_cons (l : Located) (rest : List Located) :
    walk (l :: rest) = l :: walk (l.children ++ rest) := by
  rw [walk]

/-- Pending nodes are walked one part after the other. -/
theorem walk_append (a b : List Located) : walk (a ++ b) = walk a ++ walk b := by
  induction a using walk.induct with
  | case1 => rw [walk_nil, List.nil_append, List.nil_append]
  | case2 l rest ih =>
    rw [List.cons_append, walk_cons, walk_cons, ← List.append_assoc, ih, List.cons_append]

/-- Moved nodes are walked as the nodes are, and moved. -/
theorem walk_map_under (path : Address) (pending : List Located) :
    walk (pending.map (under path)) = (walk pending).map (under path) := by
  induction pending using walk.induct with
  | case1 => rw [List.map_nil, walk_nil, List.map_nil]
  | case2 l rest ih =>
    rw [List.map_cons, walk_cons, walk_cons, children_under, ← List.map_append, ih, List.map_cons]

/-- The first node of a walk that fits is the first of those that fit. -/
theorem find?_eq (fits : Node → Bool) (pending : List Located) :
    find? fits pending = (walk pending).find? fun l => fits l.node := by
  induction pending using walk.induct with
  | case1 => rw [find?, walk_nil, List.find?_nil]
  | case2 l rest ih =>
    rw [find?, walk_cons, List.find?_cons, ih]
    split
    · next h => rw [h]
    · next h => rw [Bool.eq_false_iff.2 h]

end Located

namespace Node

/-- What holds of a node if it holds of its children holds of every node. -/
theorem children_induction {P : Node → Prop}
    (step : ∀ node : Node, (∀ child ∈ node.children, P child) → P node) (node : Node) : P node := by
  induction hsize : node.size using Nat.strongRecOn generalizing node with
  | _ size ih =>
    refine step node fun child hchild => ih child.size ?_ child rfl
    obtain ⟨before, after, hsplit⟩ := List.append_of_mem hchild
    have hsizes := node.size_eq
    rw [hsplit, sizes_append, sizes] at hsizes
    omega

/-- Whether a node is an element that fits. -/
def isFound (fits : Node → Bool) (node : Node) : Bool := node.isElement && fits node

/-- What is found from the nodes of a list on down, if they are the children of
a node from an index on. -/
def findFrom (fits : Node → Bool) (index : Nat) (nodes : List Node) : List Located :=
  (Located.walk (Located.siblings [] index nodes)).filter fun l => isFound fits l.node

/-- All that is found is what the walk lists and the search accepts. -/
theorem findAll_eq_filter (fits : Node → Bool) (root : Node) :
    root.findAll fits = root.located.filter fun l => isFound fits l.node := by
  simp only [findAll, elements, List.filter_filter, isFound, Bool.and_comm]

/-- A node is found before what is found below it. -/
theorem findAll_eq (fits : Node → Bool) (root : Node) :
    root.findAll fits =
      (if isFound fits root then [⟨[], root⟩] else []) ++ findFrom fits 0 root.children := by
  rw [findAll_eq_filter, located, Located.walk_cons, List.append_nil, List.filter_cons]
  split
  · rfl
  · rfl

/-- Among no nodes nothing is found. -/
theorem findFrom_nil (fits : Node → Bool) (index : Nat) : findFrom fits index [] = [] := by
  rw [findFrom, Located.siblings, Located.walk_nil, List.filter_nil]

/-- What is found below a child is found before what is found below the next. -/
theorem findFrom_cons (fits : Node → Bool) (index : Nat) (node : Node) (nodes : List Node) :
    findFrom fits index (node :: nodes) =
      (node.findAll fits).map (Located.under [index]) ++ findFrom fits (index + 1) nodes := by
  have hnode : [(⟨[index], node⟩ : Located)] = [⟨[], node⟩].map (Located.under [index]) := rfl
  rw [findFrom, Located.siblings, List.nil_append, ← List.singleton_append, Located.walk_append,
    List.filter_append, hnode, Located.walk_map_under, List.filter_map, findAll_eq_filter]
  rfl

/-- What is found below a node is not the node. -/
theorem address_ne_nil_of_mem_findFrom {fits : Node → Bool} {index : Nat} {nodes : List Node}
    {l : Located} (h : l ∈ findFrom fits index nodes) : l.address ≠ [] := by
  induction nodes generalizing index with
  | nil =>
    rw [findFrom_nil] at h
    cases h
  | cons node nodes ih =>
    rw [findFrom_cons, List.mem_append] at h
    rcases h with h | h
    · obtain ⟨below, -, rfl⟩ := List.mem_map.1 h
      exact List.cons_ne_nil _ _
    · exact ih h

/-- The walk over siblings lists the trees of the nodes in turn. -/
theorem map_node_walk_siblings (path : Address) (index : Nat) (nodes : List Node) :
    (Located.walk (Located.siblings path index nodes)).map Located.node =
      nodes.flatMap fun node => node.located.map Located.node := by
  induction nodes generalizing index with
  | nil => rw [Located.siblings, Located.walk_nil, List.map_nil, List.flatMap_nil]
  | cons node nodes ih =>
    have hnode : [(⟨path ++ [index], node⟩ : Located)] =
        [⟨[], node⟩].map (Located.under (path ++ [index])) := by
      rw [List.map_singleton, Located.under, List.append_nil]
    rw [Located.siblings, ← List.singleton_append, Located.walk_append, List.map_append, ih,
      List.flatMap_cons, hnode, Located.walk_map_under, List.map_map]
    rfl

/-- A node comes first, and the nodes below its children follow child by child. -/
theorem map_node_located (root : Node) :
    root.located.map Located.node =
      root :: root.children.flatMap fun child => child.located.map Located.node := by
  rw [located, Located.walk_cons, List.append_nil, List.map_cons, Located.children,
    map_node_walk_siblings]

/-- The first node found is the first of all that are found. -/
theorem find?_eq_head? (fits : Node → Bool) (root : Node) :
    root.find? fits = (root.findAll fits).head? := by
  rw [find?, Located.find?_eq, findAll_eq_filter, List.head?_filter]
  rfl

/-- The data of an element that holds one text is that of the text. -/
theorem textContent_of_text (tag : Tag) (data : Text) (content : Option (List Node)) :
    (element tag [text (some data)] content).textContent = data := by
  simp [textContent, located, Located.walk_cons, Located.walk_nil, Located.children,
    Located.siblings, children, ownText]

end Node

end ModuleScripts
