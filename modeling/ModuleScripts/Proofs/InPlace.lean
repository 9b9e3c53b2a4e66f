import ModuleScripts.Dom.Edit
import ModuleScripts.Dom.Script
import ModuleScripts.Proofs.DocumentOrder

/-!
# Changes in place

What is found in a tree before it is changed is changed there one node after the
other. If only scripts are found, and scripts hold nothing but texts, no change
moves or drops a node that is still to be changed, and the outcome is a map over
the tree that takes the scripts in document order.
-/

namespace ModuleScripts

namespace Node

section Children

/-- Leaving the children alone leaves the node alone. -/
theorem mapChildren_id (node : Node) : node.mapChildren (fun nodes => nodes) = node := by
  cases node <;> rfl

/-- Two changes of the children in turn are one. -/
theorem mapChildren_mapChildren (f g : List Node → List Node) (node : Node) :
    (node.mapChildren f).mapChildren g = node.mapChildren fun nodes => g (f nodes) := by
  cases node <;> rfl

/-- Changes that agree on the children of a node change it alike. -/
theorem mapChildren_congr {f g : List Node → List Node} {node : Node}
    (h : f node.children = g node.children) : node.mapChildren f = node.mapChildren g := by
  cases node <;> simp_all [mapChildren, children]

/-- A node whose children are left is left. -/
theorem mapChildren_eq_self {f : List Node → List Node} {node : Node}
    (h : f node.children = node.children) : node.mapChildren f = node :=
  (mapChildren_congr h).trans node.mapChildren_id

/-- The children of a changed node are the changed children. -/
theorem children_mapChildren {f : List Node → List Node} (h : f [] = []) (node : Node) :
    (node.mapChildren f).children = f node.children := by
  cases node with
  | document | fragment | element => rfl
  | _ => exact h.symm

/-- A node whose children change keeps its tag. -/
@[simp] theorem tag?_mapChildren (f : List Node → List Node) (node : Node) :
    (node.mapChildren f).tag? = node.tag? := by
  cases node <;> rfl

variable {α : Type} {x : α} {before after : List α}

/-- Behind the members before it the next one is changed. -/
theorem modifyNth_length (f : α → α) :
    modifyNth f before.length (before ++ x :: after) = before ++ f x :: after := by
  induction before with
  | nil => rfl
  | cons y before ih => simp only [List.length_cons, List.cons_append, modifyNth, ih]

/-- Behind the members before it the new member comes in. -/
theorem insertNth_length (new : α) :
    insertNth new before.length (before ++ x :: after) = before ++ new :: x :: after := by
  induction before with
  | nil => rfl
  | cons y before ih => simp only [List.length_cons, List.cons_append, insertNth, ih]

/-- Behind the members before it the next one goes out. -/
theorem eraseNth_length : eraseNth before.length (before ++ x :: after) = before ++ after := by
  induction before with
  | nil => rfl
  | cons y before ih => simp only [List.length_cons, List.cons_append, eraseNth, ih]

end Children

end Node

section Edits

/-- The change as seen from the root of a larger tree. -/
def Edit.under (path : Address) (e : Edit) : Edit := ⟨path ++ e.address, e.change⟩

/-- A change below a node, made among the children of the node. -/
def Edit.applyTo (nodes : List Node) (e : Edit) : List Node :=
  match e.address with
  | [] => nodes
  | index :: address => Node.modifyNth (Node.modify e.change address) index nodes

/-- Changes below a node are made among its children. -/
theorem Node.applyEach_eq_mapChildren {edits : List Edit} (h : ∀ e ∈ edits, e.address ≠ [])
    (root : Node) :
    root.applyEach edits = root.mapChildren fun nodes => edits.foldl Edit.applyTo nodes := by
  induction edits generalizing root with
  | nil => exact root.mapChildren_id.symm
  | cons e edits ih =>
    obtain ⟨he, hedits⟩ := List.forall_mem_cons.1 h
    obtain ⟨address, change⟩ := e
    cases address with
    | nil => exact absurd rfl he
    | cons index address =>
      change (root.modify change (index :: address)).applyEach edits = _
      rw [ih hedits, Node.modify, Node.mapChildren_mapChildren]
      rfl

/-- Changes below one child leave the other children alone. -/
theorem Edit.foldl_applyTo_under (edits : List Edit) (before after : List Node) (node : Node) :
    (edits.map (Edit.under [before.length])).foldl Edit.applyTo (before ++ node :: after) =
      before ++ node.applyEach edits :: after := by
  induction edits generalizing node with
  | nil => rfl
  | cons e edits ih =>
    rw [List.map_cons, List.foldl_cons]
    have he : Edit.applyTo (before ++ node :: after) (e.under [before.length]) =
        before ++ node.modify e.change e.address :: after := Node.modifyNth_length _
    rw [he, ih]
    rfl

end Edits

section Removal

namespace Node

/-- Taking a child away. -/
def removeFrom (address : Address) (nodes : List Node) : List Node :=
  match address with
  | [] => nodes
  | [index] => eraseNth index nodes
  | index :: next :: address => modifyNth (remove (next :: address)) index nodes

/-- Removing a node below the root changes the children of the root. -/
theorem remove_cons (index : Nat) (address : Address) (root : Node) :
    root.remove (index :: address) = root.mapChildren (removeFrom (index :: address)) := by
  cases address <;> rfl

/-- Removing nodes below the root one by one changes the children of the
root. -/
theorem removeEach_eq_mapChildren {addresses : List Address} (h : ∀ a ∈ addresses, a ≠ [])
    (root : Node) :
    root.removeEach addresses = root.mapChildren fun nodes => addresses.foldr removeFrom nodes := by
  induction addresses with
  | nil => exact root.mapChildren_id.symm
  | cons address addresses ih =>
    obtain ⟨ha, haddresses⟩ := List.forall_mem_cons.1 h
    cases address with
    | nil => exact absurd rfl ha
    | cons index address =>
      change (root.removeEach addresses).remove (index :: address) = _
      rw [ih haddresses, remove_cons, mapChildren_mapChildren]
      rfl

mutual

/-- The tree without the nodes below its root that fit. -/
def without (fits : Node → Bool) : Node → Node
  | .text data => .text data
  | .comment attributes data => .comment attributes data
  | .doctype attributes => .doctype attributes
  | .document attributes children => .document attributes (withoutAll fits children)
  | .fragment attributes children => .fragment attributes (withoutAll fits children)
  | .element tag children content => .element tag (withoutAll fits children) content

/-- The trees whose roots do not fit, each without the nodes that fit. -/
def withoutAll (fits : Node → Bool) : List Node → List Node
  | [] => []
  | node :: nodes =>
    if isFound fits node then withoutAll fits nodes
    else node.without fits :: withoutAll fits nodes

end

/-- Taking nodes away changes the children of a node. -/
theorem without_eq (fits : Node → Bool) (node : Node) :
    node.without fits = node.mapChildren (withoutAll fits) := by
  cases node <;> simp only [without, mapChildren]

/-- Removals below one child leave the other children alone. -/
theorem foldr_removeFrom_under {addresses : List Address} (h : ∀ a ∈ addresses, a ≠ [])
    (before after : List Node) (node : Node) :
    (addresses.map (before.length :: ·)).foldr removeFrom (before ++ node :: after) =
      before ++ node.removeEach addresses :: after := by
  induction addresses with
  | nil => rfl
  | cons address addresses ih =>
    obtain ⟨ha, haddresses⟩ := List.forall_mem_cons.1 h
    rw [List.map_cons, List.foldr_cons, ih haddresses]
    cases address with
    | nil => exact absurd rfl ha
    | cons index address => exact modifyNth_length _

variable (fits : Node → Bool)

/-- Where the nodes below the children of a node are found. -/
def addressesBelow (root : Node) : List Address :=
  (findFrom fits 0 root.children).map Located.address

/-- What is found below a node does not stand at its own address. -/
theorem addressesBelow_ne_nil (root : Node) : ∀ a ∈ root.addressesBelow fits, a ≠ [] := by
  intro a ha
  obtain ⟨l, hl, rfl⟩ := List.mem_map.1 ha
  exact address_ne_nil_of_mem_findFrom hl

/-- The nodes found stand at the root, if it fits, and below it. -/
theorem map_address_findAll (root : Node) :
    (root.findAll fits).map Located.address =
      (if isFound fits root then [[]] else []) ++ root.addressesBelow fits := by
  rw [findAll_eq, List.map_append]
  split
  · rfl
  · rfl

/-- The root stays where it is. -/
theorem removeEach_addresses (root : Node) :
    root.removeEach ((root.findAll fits).map Located.address) =
      root.removeEach (root.addressesBelow fits) := by
  rw [map_address_findAll]
  split
  · rfl
  · rfl

/-- Taking away what is found below one child, and the child itself if it fits. -/
theorem foldr_removeFrom_findAll (before after : List Node) (node : Node) :
    (((node.findAll fits).map (Located.under [before.length])).map Located.address).foldr
        removeFrom (before ++ node :: after) =
      if isFound fits node then before ++ after
      else before ++ node.removeEach (node.addressesBelow fits) :: after := by
  have haddress : ∀ l : Located, (l.under [before.length]).address = before.length :: l.address :=
    fun l => rfl
  have hmap : ((node.findAll fits).map (Located.under [before.length])).map Located.address =
      ((node.findAll fits).map Located.address).map (before.length :: ·) := by
    simp only [List.map_map, Function.comp_def, haddress]
  have hbelow := foldr_removeFrom_under (node.addressesBelow_ne_nil fits) before after node
  rw [hmap, map_address_findAll]
  split
  · rw [List.singleton_append, List.map_cons, List.foldr_cons, hbelow]
    exact eraseNth_length
  · rw [List.nil_append, hbelow]

/-- Taking away what is found below the nodes of a list, if that is known of each
of them. -/
theorem foldr_removeFrom_findFrom {nodes : List Node}
    (ih : ∀ node ∈ nodes,
      node.removeEach ((node.findAll fits).map Located.address) = node.without fits)
    (before : List Node) :
    ((findFrom fits before.length nodes).map Located.address).foldr removeFrom
      (before ++ nodes) = before ++ withoutAll fits nodes := by
  induction nodes generalizing before with
  | nil =>
    rw [findFrom_nil]
    rfl
  | cons node nodes ihnodes =>
    obtain ⟨hnode, hnodes⟩ := List.forall_mem_cons.1 ih
    have hrest := ihnodes hnodes (before ++ [node])
    simp only [List.length_append, List.length_singleton, List.append_assoc,
      List.singleton_append] at hrest
    rw [findFrom_cons, List.map_append, List.foldr_append, hrest, foldr_removeFrom_findAll,
      ← removeEach_addresses, hnode, withoutAll]
    split
    · rfl
    · rfl

/-- The nodes that fit, found before any is taken away, are taken away one after
the other. -/
theorem removeEach_findAll (root : Node) :
    root.removeEach ((root.findAll fits).map Located.address) = root.without fits := by
  induction root using children_induction with
  | step root ih =>
    have hchildren := foldr_removeFrom_findFrom fits ih []
    rw [removeEach_addresses, removeEach_eq_mapChildren (root.addressesBelow_ne_nil fits),
      without_eq]
    exact mapChildren_congr hchildren

end Node

end Removal

section Scripts

namespace Node

/-- Whether a node is a script. -/
def isScript (node : Node) : Bool := node.hasName scriptName

/-- Whether a node is a text. -/
def isText : Node → Bool
  | .text _ => true
  | _ => false

mutual

/-- Whether the scripts of a tree hold nothing but texts. -/
def scriptsHoldTexts : Node → Bool
  | .text _ => true
  | .comment _ _ => true
  | .doctype _ => true
  | .document _ children => allScriptsHoldTexts children
  | .fragment _ children => allScriptsHoldTexts children
  | .element tag children _ =>
    if tag.name == scriptName then children.all isText else allScriptsHoldTexts children

/-- Whether the scripts of trees hold nothing but texts. -/
def allScriptsHoldTexts : List Node → Bool
  | [] => true
  | node :: nodes => node.scriptsHoldTexts && allScriptsHoldTexts nodes

end

mutual

/-- The tree with its scripts changed in document order. A change is given what
the changes before it left behind. -/
def mapScripts {σ : Type} (change : σ → Node → Node × σ) : Node → σ → Node × σ
  | .text data, s => (.text data, s)
  | .comment attributes data, s => (.comment attributes data, s)
  | .doctype attributes, s => (.doctype attributes, s)
  | .document attributes children, s =>
    let changed := mapAllScripts change children s
    (.document attributes changed.1, changed.2)
  | .fragment attributes children, s =>
    let changed := mapAllScripts change children s
    (.fragment attributes changed.1, changed.2)
  | .element tag children content, s =>
    if tag.name == scriptName then change s (.element tag children content)
    else
      let changed := mapAllScripts change children s
      (.element tag changed.1 content, changed.2)

/-- Trees with their scripts changed. -/
def mapAllScripts {σ : Type} (change : σ → Node → Node × σ) : List Node → σ → List Node × σ
  | [], s => ([], s)
  | node :: nodes, s =>
    let first := mapScripts change node s
    let others := mapAllScripts change nodes first.2
    (first.1 :: others.1, others.2)

end

/-- Scripts hold texts only when the node is a script of texts or holds no
other script. -/
theorem scriptsHoldTexts_eq (node : Node) :
    node.scriptsHoldTexts =
      if node.isScript then node.children.all isText else allScriptsHoldTexts node.children := by
  cases node <;> rfl

/-- All scripts hold texts only when those of each node do. -/
theorem allScriptsHoldTexts_iff {nodes : List Node} :
    allScriptsHoldTexts nodes = true ↔ ∀ node ∈ nodes, node.scriptsHoldTexts = true := by
  induction nodes with
  | nil => simp [allScriptsHoldTexts]
  | cons node nodes ih => simp [allScriptsHoldTexts, ih]

/-- A node is changed if it is a script, and otherwise its children are. -/
theorem mapScripts_eq {σ : Type} (change : σ → Node → Node × σ) (node : Node) (s : σ) :
    node.mapScripts change s =
      if node.isScript then change s node
      else (node.mapChildren fun nodes => (mapAllScripts change nodes s).1,
        (mapAllScripts change node.children s).2) := by
  cases node with
  | element tag children content =>
    rw [mapScripts]
    rfl
  | _ => rfl

/-- A search finds nothing in a text. -/
theorem findAll_of_isText (fits : Node → Bool) {node : Node} (h : node.isText = true) :
    node.findAll fits = [] := by
  cases node with
  | text data => rw [findAll_eq]; exact findFrom_nil fits 0
  | _ => cases h

/-- Nothing is found below a script that holds nothing but texts. -/
theorem findFrom_of_all_isText (fits : Node → Bool) {nodes : List Node}
    (h : nodes.all isText = true) (index : Nat) : findFrom fits index nodes = [] := by
  induction nodes generalizing index with
  | nil => exact findFrom_nil fits index
  | cons node nodes ih =>
    rw [List.all_cons, Bool.and_eq_true] at h
    rw [findFrom_cons, findAll_of_isText fits h.1, ih h.2]
    rfl

/-- A script is an element. -/
theorem isElement_of_isScript {node : Node} (h : node.isScript = true) : node.isElement = true := by
  cases node with
  | element => rfl
  | _ => cases h

/-- Scripts still hold texts only when the children of another node change into
such. -/
theorem scriptsHoldTexts_mapChildren {f : List Node → List Node} {node : Node}
    (h : node.isScript = false) (hf : allScriptsHoldTexts (f node.children) = true) :
    (node.mapChildren f).scriptsHoldTexts = true := by
  cases node with
  | document | fragment => exact hf
  | element tag children content =>
    have htag : (tag.name == scriptName) = false := h
    rw [mapChildren, scriptsHoldTexts, htag]
    exact hf
  | _ => rfl

/-- Nothing is taken away from texts. -/
theorem withoutAll_of_all_isText (fits : Node → Bool) {nodes : List Node}
    (h : nodes.all isText = true) : withoutAll fits nodes = nodes := by
  induction nodes with
  | nil => rfl
  | cons node nodes ih =>
    rw [List.all_cons, Bool.and_eq_true] at h
    cases node with
    | text data => exact congrArg (Node.text data :: ·) (ih h.2)
    | _ => cases h.1

/-- Where scripts hold texts only they still do after nodes are taken away, in
a list. -/
theorem withoutAll_scriptsHoldTexts {fits : Node → Bool} {nodes : List Node}
    (ih : ∀ node ∈ nodes,
      node.scriptsHoldTexts = true → (node.without fits).scriptsHoldTexts = true)
    (h : allScriptsHoldTexts nodes = true) :
    allScriptsHoldTexts (withoutAll fits nodes) = true := by
  induction nodes with
  | nil => rfl
  | cons node nodes ihnodes =>
    rw [allScriptsHoldTexts, Bool.and_eq_true] at h
    obtain ⟨hnode, hnodes⟩ := List.forall_mem_cons.1 ih
    rw [withoutAll]
    split
    · exact ihnodes hnodes h.2
    · rw [allScriptsHoldTexts, hnode h.1, ihnodes hnodes h.2]
      rfl

/-- Where scripts hold texts only they still do after nodes are taken away. -/
theorem without_scriptsHoldTexts (fits : Node → Bool) {root : Node}
    (h : root.scriptsHoldTexts = true) : (root.without fits).scriptsHoldTexts = true := by
  induction root using children_induction with
  | step root ih =>
    have hroot := h
    rw [scriptsHoldTexts_eq] at h
    rw [without_eq]
    by_cases hscript : root.isScript = true
    · rw [if_pos hscript] at h
      rw [mapChildren_eq_self (withoutAll_of_all_isText fits h)]
      exact hroot
    · rw [if_neg hscript] at h
      exact scriptsHoldTexts_mapChildren (Bool.eq_false_iff.2 hscript)
        (withoutAll_scriptsHoldTexts ih h)

/-- Where scripts hold texts only they still do after each script is changed
into one such. -/
theorem mapAllScripts_scriptsHoldTexts {σ : Type} {change : σ → Node → Node × σ}
    {nodes : List Node}
    (ih : ∀ node ∈ nodes, node.scriptsHoldTexts = true → ∀ s,
      (node.mapScripts change s).1.scriptsHoldTexts = true)
    (h : allScriptsHoldTexts nodes = true) (s : σ) :
    allScriptsHoldTexts (mapAllScripts change nodes s).1 = true := by
  induction nodes generalizing s with
  | nil => rfl
  | cons node nodes ihnodes =>
    rw [allScriptsHoldTexts, Bool.and_eq_true] at h
    obtain ⟨hnode, hnodes⟩ := List.forall_mem_cons.1 ih
    rw [mapAllScripts, allScriptsHoldTexts, hnode h.1 s, ihnodes hnodes h.2]
    rfl

/-- A change that leaves scripts of texts such scripts. -/
theorem mapScripts_scriptsHoldTexts {σ : Type} {change : σ → Node → Node × σ}
    (hchange : ∀ s node, node.isScript = true → node.scriptsHoldTexts = true →
      (change s node).1.scriptsHoldTexts = true) {root : Node}
    (h : root.scriptsHoldTexts = true) (s : σ) :
    (root.mapScripts change s).1.scriptsHoldTexts = true := by
  induction root using children_induction generalizing s with
  | step root ih =>
    rw [mapScripts_eq]
    by_cases hscript : root.isScript = true
    · rw [if_pos hscript]
      exact hchange s root hscript h
    · rw [scriptsHoldTexts_eq, if_neg hscript] at h
      rw [if_neg hscript]
      exact scriptsHoldTexts_mapChildren (Bool.eq_false_iff.2 hscript)
        (mapAllScripts_scriptsHoldTexts ih h s)

/-- A node whose children change is a script when it was one. -/
@[simp] theorem isScript_mapChildren (f : List Node → List Node) (node : Node) :
    (node.mapChildren f).isScript = node.isScript := by
  rw [isScript, hasName, tag?_mapChildren]
  rfl

/-- Changing the scripts of a list twice is changing each of them twice. -/
theorem mapAllScripts_mapAllScripts {σ : Type} {first : Unit → Node → Node × Unit}
    {change : σ → Node → Node × σ} {nodes : List Node}
    (ih : ∀ node ∈ nodes, ∀ s, (node.mapScripts first ()).1.mapScripts change s =
      node.mapScripts (fun s node => change s (first () node).1) s) (s : σ) :
    mapAllScripts change (mapAllScripts first nodes ()).1 s =
      mapAllScripts (fun s node => change s (first () node).1) nodes s := by
  induction nodes generalizing s with
  | nil => rfl
  | cons node nodes ihnodes =>
    obtain ⟨hnode, hnodes⟩ := List.forall_mem_cons.1 ih
    rw [mapAllScripts, mapAllScripts, mapAllScripts, hnode, ihnodes hnodes]

/-- A map over the scripts behind another is one map, if the first leaves
scripts scripts. -/
theorem mapScripts_mapScripts {σ : Type} {first : Unit → Node → Node × Unit}
    (hfirst : ∀ node, node.isScript = true → (first () node).1.isScript = true)
    (change : σ → Node → Node × σ) (root : Node) (s : σ) :
    (root.mapScripts first ()).1.mapScripts change s =
      root.mapScripts (fun s node => change s (first () node).1) s := by
  induction root using children_induction generalizing s with
  | step root ih =>
    rw [mapScripts_eq first, mapScripts_eq _ root]
    by_cases hscript : root.isScript = true
    · rw [if_pos hscript, if_pos hscript, mapScripts_eq, if_pos (hfirst root hscript)]
    · have hchildren := mapAllScripts_mapAllScripts ih s
      rw [if_neg hscript, if_neg hscript, mapScripts_eq, isScript_mapChildren, if_neg hscript,
        mapChildren_mapChildren]
      refine Prod.ext (mapChildren_congr (congrArg Prod.fst hchildren)) ?_
      change (mapAllScripts change (root.mapChildren _).children s).2 = _
      rw [children_mapChildren rfl]
      exact congrArg Prod.snd hchildren

end Node

variable {σ : Type} (edit : σ → Node → (Node → Node) × σ)

/-- The changes of nodes as they are found, and what the last of them leaves
behind. A change may depend on what the changes before it left. -/
def editsOf : σ → List Located → List Edit × σ
  | s, [] => ([], s)
  | s, l :: rest =>
    let first := edit s l.node
    let others := editsOf first.2 rest
    (⟨l.address, first.1⟩ :: others.1, others.2)

/-- The edits of found nodes are made one part after the other. -/
theorem editsOf_append (s : σ) (a b : List Located) :
    editsOf edit s (a ++ b) =
      ((editsOf edit s a).1 ++ (editsOf edit (editsOf edit s a).2 b).1,
        (editsOf edit (editsOf edit s a).2 b).2) := by
  induction a generalizing s with
  | nil => rfl
  | cons l a ih => simp only [List.cons_append, editsOf, ih]

/-- The edits of moved nodes are their edits, moved. -/
theorem editsOf_under (path : Address) (s : σ) (found : List Located) :
    editsOf edit s (found.map (Located.under path)) =
      ((editsOf edit s found).1.map (Edit.under path), (editsOf edit s found).2) := by
  induction found generalizing s with
  | nil => rfl
  | cons l found ih =>
    simp only [List.map_cons, editsOf, Located.under, Edit.under] at ih ⊢
    rw [ih]

/-- An edit belongs to one of the found nodes and stands at its address. -/
theorem mem_editsOf {s : σ} {found : List Located} {e : Edit} (h : e ∈ (editsOf edit s found).1) :
    ∃ s', ∃ l ∈ found, e = ⟨l.address, (edit s' l.node).1⟩ := by
  induction found generalizing s with
  | nil => cases h
  | cons l found ih =>
    rcases List.mem_cons.1 h with rfl | h
    · exact ⟨s, l, List.mem_cons_self, rfl⟩
    · obtain ⟨s', l', hl, he⟩ := ih h
      exact ⟨s', l', List.mem_cons_of_mem _ hl, he⟩

/-- Changes of what is found below a node are made below it. -/
theorem address_ne_nil_of_mem_editsOf {fits : Node → Bool} {s : σ} {index : Nat}
    {nodes : List Node} :
    ∀ e ∈ (editsOf edit s (Node.findFrom fits index nodes)).1, e.address ≠ [] := by
  intro e he
  obtain ⟨s', l, hl, rfl⟩ := mem_editsOf edit he
  exact Node.address_ne_nil_of_mem_findFrom hl

/-- What becomes of a script if only those that fit are changed. -/
def changeIf (fits : Node → Bool) (s : σ) (node : Node) : Node × σ :=
  if fits node then ((edit s node).1 node, (edit s node).2) else (node, s)

/-- Changes of what is found below the nodes of a list, if they are known for
each of them. -/
theorem Node.foldl_applyTo_editsOf {fits : Node → Bool} {nodes : List Node}
    (ih : ∀ node ∈ nodes, ∀ s,
      (node.applyEach (editsOf edit s (node.findAll fits)).1,
        (editsOf edit s (node.findAll fits)).2) = node.mapScripts (changeIf edit fits) s)
    (before : List Node) (s : σ) :
    ((editsOf edit s (findFrom fits before.length nodes)).1.foldl Edit.applyTo (before ++ nodes),
        (editsOf edit s (findFrom fits before.length nodes)).2) =
      (before ++ (mapAllScripts (changeIf edit fits) nodes s).1,
        (mapAllScripts (changeIf edit fits) nodes s).2) := by
  induction nodes generalizing before s with
  | nil =>
    rw [findFrom_nil]
    rfl
  | cons node nodes ihnodes =>
    obtain ⟨hnode, hnodes⟩ := List.forall_mem_cons.1 ih
    obtain ⟨hchanged, hleft⟩ := Prod.mk.inj (hnode s)
    have hrest := ihnodes hnodes (before ++ [(node.mapScripts (changeIf edit fits) s).1])
      (node.mapScripts (changeIf edit fits) s).2
    simp only [List.length_append, List.length_singleton, List.append_assoc,
      List.singleton_append] at hrest
    rw [findFrom_cons, editsOf_append, editsOf_under, List.foldl_append,
      Edit.foldl_applyTo_under, hchanged, hleft, hrest, mapAllScripts]

/-- Scripts that fit, found before any is changed, are changed one after the
other in document order. -/
theorem Node.applyEach_editsOf {fits : Node → Bool}
    (hfits : ∀ node : Node, fits node = true → node.isScript = true) {root : Node}
    (h : root.scriptsHoldTexts = true) (s : σ) :
    (root.applyEach (editsOf edit s (root.findAll fits)).1,
      (editsOf edit s (root.findAll fits)).2) = root.mapScripts (changeIf edit fits) s := by
  induction root using children_induction generalizing s with
  | step root ih =>
    rw [scriptsHoldTexts_eq] at h
    by_cases hscript : root.isScript = true
    · rw [if_pos hscript] at h
      rw [mapScripts_eq, if_pos hscript, findAll_eq, findFrom_of_all_isText fits h, isFound,
        isElement_of_isScript hscript, Bool.true_and, List.append_nil, changeIf]
      split
      · rfl
      · rfl
    · rw [if_neg hscript] at h
      have hroot : isFound fits root = false := by
        rw [isFound, Bool.eq_false_iff.2 fun hf => hscript (hfits root hf), Bool.and_false]
      have hchildren := foldl_applyTo_editsOf edit
        (fun node hnode => ih node hnode (allScriptsHoldTexts_iff.1 h node hnode)) [] s
      obtain ⟨hchanged, hleft⟩ := Prod.mk.inj hchildren
      rw [mapScripts_eq, if_neg hscript, findAll_eq, hroot, ← hleft]
      simp only [Bool.false_eq_true, if_false, List.nil_append, List.length_nil] at hchanged ⊢
      rw [applyEach_eq_mapChildren (address_ne_nil_of_mem_editsOf edit)]
      exact congrArg (·, _) (mapChildren_congr hchanged)

end Scripts

end ModuleScripts
