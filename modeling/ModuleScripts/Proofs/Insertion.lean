import ModuleScripts.Page.Polyfills
import ModuleScripts.Proofs.InPlace

/-!
# Where polyfills are put

The place of a polyfill is an address that a search finds. Putting a node there
is the same as walking the tree down to the first head, or to the first module
script below the root, and putting the node there.
-/

namespace ModuleScripts

namespace Node

mutual

/-- The tree with a new node before the children of its first head, if it has
one. -/
def underHead? (new : Node) : Node → Option Node
  | .text _ => none
  | .comment _ _ => none
  | .doctype _ => none
  | .document attributes children => (underFirstHead? new children).map (.document attributes)
  | .fragment attributes children => (underFirstHead? new children).map (.fragment attributes)
  | .element tag children content =>
    if tag.name == headName then some (.element tag (new :: children) content)
    else (underFirstHead? new children).map fun nodes => .element tag nodes content

/-- Trees with a new node before the children of the first head. -/
def underFirstHead? (new : Node) : List Node → Option (List Node)
  | [] => none
  | node :: nodes =>
    match underHead? new node with
    | some changed => some (changed :: nodes)
    | none => (underFirstHead? new nodes).map (node :: ·)

end

mutual

/-- The tree with a new node before the first module script below its root, if
there is one. -/
def beforeModule? (new : Node) : Node → Option Node
  | .text _ => none
  | .comment _ _ => none
  | .doctype _ => none
  | .document attributes children =>
    (beforeFirstModule? new children).map (.document attributes)
  | .fragment attributes children =>
    (beforeFirstModule? new children).map (.fragment attributes)
  | .element tag children content =>
    (beforeFirstModule? new children).map fun nodes => .element tag nodes content

/-- Trees with a new node before the first module script. -/
def beforeFirstModule? (new : Node) : List Node → Option (List Node)
  | [] => none
  | node :: nodes =>
    if node.isModuleScript then some (new :: node :: nodes)
    else
      match beforeModule? new node with
      | some changed => some (changed :: nodes)
      | none => (beforeFirstModule? new nodes).map (node :: ·)

end

/-- What is done at the first address below a node is done among its children. -/
theorem map_head?_findFrom {fits : Node → Bool} {change : Address → Node → Node}
    {changeBelow : Address → List Node → List Node}
    (h : ∀ index address root,
      change (index :: address) root = root.mapChildren (changeBelow (index :: address)))
    (root : Node) :
    ((findFrom fits 0 root.children).head?.map fun l => change l.address root) =
      ((findFrom fits 0 root.children).head?.map fun l =>
        changeBelow l.address root.children).map fun nodes => root.mapChildren fun _ => nodes := by
  cases hl : (findFrom fits 0 root.children).head? with
  | none => rfl
  | some l =>
    have hne := address_ne_nil_of_mem_findFrom (List.mem_of_mem_head? hl)
    obtain ⟨address, node⟩ := l
    cases address with
    | nil => exact absurd rfl hne
    | cons index address =>
      exact congrArg some ((h index address root).trans (mapChildren_congr rfl))

section Head

variable (new : Node)

/-- A node comes under a head as its first child, and otherwise under the first
head below. -/
theorem underHead?_eq (node : Node) :
    underHead? new node =
      if node.hasName headName then some (node.mapChildren (new :: ·))
      else (underFirstHead? new node.children).map fun nodes => node.mapChildren fun _ => nodes := by
  cases node <;> rfl

/-- Only an element has a tag. -/
theorem isFound_tagFits (fits : Tag → Bool) (node : Node) :
    isFound (tagFits fits) node = tagFits fits node := by
  cases node <;> rfl

/-- A search by name finds the nodes of that name. -/
theorem isFound_hasName (name : Text) (node : Node) :
    isFound (hasName name) node = node.hasName name := by
  cases node <;> rfl

/-- Putting a node before the children of one below the nodes of a list. -/
def placeFirst (new : Node) (address : Address) (nodes : List Node) : List Node :=
  match address with
  | [] => nodes
  | index :: address => modifyNth (insertFirst new address) index nodes

/-- Below the root an insertion changes the children of the root. -/
theorem insertFirst_cons (index : Nat) (address : Address) (root : Node) :
    insertFirst new (index :: address) root =
      root.mapChildren (placeFirst new (index :: address)) := rfl

/-- Going to the first head below the nodes of a list, if that is known of each of
them. -/
theorem map_placeFirst_findFrom {nodes : List Node}
    (ih : ∀ node ∈ nodes,
      ((node.findAll (hasName headName)).head?.map fun l => insertFirst new l.address node) =
        underHead? new node)
    (before : List Node) :
    ((findFrom (hasName headName) before.length nodes).head?.map fun l =>
        placeFirst new l.address (before ++ nodes)) =
      (underFirstHead? new nodes).map (before ++ ·) := by
  induction nodes generalizing before with
  | nil =>
    rw [findFrom_nil]
    rfl
  | cons node nodes ihnodes =>
    obtain ⟨hfirst, hnodes⟩ := List.forall_mem_cons.1 ih
    rw [findFrom_cons, List.head?_append, List.head?_map, underFirstHead?]
    cases hl : (node.findAll (hasName headName)).head? with
    | some l =>
      rw [hl, Option.map_some] at hfirst
      rw [← hfirst]
      exact congrArg some (modifyNth_length _)
    | none =>
      have hrest := ihnodes hnodes (before ++ [node])
      simp only [List.length_append, List.length_singleton, List.append_assoc,
        List.singleton_append] at hrest
      rw [hl, Option.map_none] at hfirst
      rw [← hfirst, Option.map_none, Option.none_or, hrest, Option.map_map]
      rfl

/-- Going to the first head that is found is going down to it. -/
theorem map_insertFirst_findAll (root : Node) :
    ((root.findAll (hasName headName)).head?.map fun l => insertFirst new l.address root) =
      underHead? new root := by
  induction root using children_induction with
  | step root ih =>
    have hchildren := map_placeFirst_findFrom new ih []
    simp only [List.length_nil, List.nil_append, Option.map_id'] at hchildren
    rw [findAll_eq, underHead?_eq, isFound_hasName]
    split
    · rfl
    · rw [List.nil_append, ← hchildren]
      exact map_head?_findFrom (insertFirst_cons new) root

/-- Putting a node at the start of the first head. -/
theorem map_insert_head? (root : Node) :
    (Place.head? root).map (Place.insert new root) = underHead? new root := by
  rw [← map_insertFirst_findAll, Place.head?, find?_eq_head?, Option.map_map]
  rfl

end Head

section Modules

variable (new : Node)

/-- A node comes before the first module script among the children, or below
one of them. -/
theorem beforeModule?_eq (node : Node) :
    beforeModule? new node =
      (beforeFirstModule? new node.children).map fun nodes => node.mapChildren fun _ => nodes := by
  cases node <;> rfl

/-- A search for module scripts finds just these. -/
theorem isFound_isModuleScript (node : Node) :
    isFound isModuleScript node = node.isModuleScript :=
  isFound_tagFits Tag.isModule node

/-- Putting a node before one of the nodes of a list or below one. -/
def placeBefore (new : Node) (address : Address) (nodes : List Node) : List Node :=
  match address with
  | [] => nodes
  | [index] => insertNth new index nodes
  | index :: next :: address => modifyNth (insertBefore new (next :: address)) index nodes

/-- Below the root an insertion before a node changes the children of the
root. -/
theorem insertBefore_cons (index : Nat) (address : Address) (root : Node) :
    insertBefore new (index :: address) root =
      root.mapChildren (placeBefore new (index :: address)) := by
  cases address <;> rfl

/-- If a node is no module script, what is found is below it. -/
theorem findAll_isModuleScript {node : Node} (h : node.isModuleScript = false) :
    node.findAll isModuleScript = findFrom isModuleScript 0 node.children := by
  rw [findAll_eq, isFound_isModuleScript, h]
  rfl

/-- Going before the first module script among or below the nodes of a list, if
that is known of each of them. -/
theorem map_placeBefore_findFrom {nodes : List Node}
    (ih : ∀ node ∈ nodes, node.isModuleScript = false →
      ((node.findAll isModuleScript).head?.map fun l => insertBefore new l.address node) =
        beforeModule? new node)
    (before : List Node) :
    ((findFrom isModuleScript before.length nodes).head?.map fun l =>
        placeBefore new l.address (before ++ nodes)) =
      (beforeFirstModule? new nodes).map (before ++ ·) := by
  induction nodes generalizing before with
  | nil =>
    rw [findFrom_nil]
    rfl
  | cons node nodes ihnodes =>
    obtain ⟨hnode, hnodes⟩ := List.forall_mem_cons.1 ih
    rw [findFrom_cons, List.head?_append, List.head?_map, beforeFirstModule?]
    cases hmodule : node.isModuleScript with
    | true =>
      rw [findAll_eq, isFound_isModuleScript, hmodule]
      exact congrArg some (insertNth_length new)
    | false =>
      have hfirst := hnode hmodule
      cases hl : (node.findAll isModuleScript).head? with
      | some l =>
        have hne : l.address ≠ [] := address_ne_nil_of_mem_findFrom
          (List.mem_of_mem_head? (findAll_isModuleScript hmodule ▸ hl))
        rw [hl, Option.map_some] at hfirst
        rw [← hfirst]
        obtain ⟨address, found⟩ := l
        cases address with
        | nil => exact absurd rfl hne
        | cons index address => exact congrArg some (modifyNth_length _)
      | none =>
        have hrest := ihnodes hnodes (before ++ [node])
        simp only [List.length_append, List.length_singleton, List.append_assoc,
          List.singleton_append] at hrest
        rw [hl, Option.map_none] at hfirst
        rw [← hfirst, Option.map_none, Option.none_or, hrest]
        simp only [Bool.false_eq_true, if_false, Option.map_map]
        rfl

/-- Going before the first module script that is found, if that is not the root,
is going down to it. -/
theorem map_insertBefore_findAll {root : Node} (h : root.isModuleScript = false) :
    ((root.findAll isModuleScript).head?.map fun l => insertBefore new l.address root) =
      beforeModule? new root := by
  induction root using children_induction with
  | step root ih =>
    have hchildren := map_placeBefore_findFrom new ih []
    simp only [List.length_nil, List.nil_append, Option.map_id'] at hchildren
    rw [findAll_isModuleScript h, beforeModule?_eq, ← hchildren]
    exact map_head?_findFrom (insertBefore_cons new) root

/-- Texts hold no module script. -/
theorem beforeFirstModule?_of_all_isText {nodes : List Node} (h : nodes.all isText = true) :
    beforeFirstModule? new nodes = none := by
  induction nodes with
  | nil => rfl
  | cons node nodes ih =>
    rw [List.all_cons, Bool.and_eq_true] at h
    cases node with
    | text data => rw [beforeFirstModule?, ih h.2]; rfl
    | _ => cases h.1

/-- A module script is a script. -/
theorem isScript_of_isModuleScript {node : Node} (h : node.isModuleScript = true) :
    node.isScript = true := by
  cases node with
  | element tag children content =>
    have hmodule : tag.isModule = true := h
    rw [Tag.isModule, Bool.and_eq_true] at hmodule
    exact hmodule.1
  | _ => cases h

/-- If the root is a module script the loader goes to the head. -/
theorem loader?_of_module {root : Node} (h : root.isModuleScript = true) :
    Place.loader? root = Place.head? root := by
  have hfound : root.find? isModuleScript = some ⟨[], root⟩ := by
    rw [find?_eq_head?, findAll_eq, isFound_isModuleScript, h]
    rfl
  rw [Place.loader?, hfound]

/-- If it is not, the loader goes before the first module script, or to the head
where there is none. -/
theorem map_insert_loader?_of_not_module {root : Node} (h : root.isModuleScript = false) :
    (Place.loader? root).map (Place.insert new root) =
      (beforeModule? new root).or (underHead? new root) := by
  rw [← map_insertBefore_findAll new h, Place.loader?, find?_eq_head?]
  cases hl : (root.findAll isModuleScript).head? with
  | some l =>
    have hne : l.address ≠ [] := address_ne_nil_of_mem_findFrom
      (List.mem_of_mem_head? (findAll_isModuleScript h ▸ hl))
    obtain ⟨address, node⟩ := l
    cases address with
    | nil => exact absurd rfl hne
    | cons index address => rfl
  | none => exact map_insert_head? new root

/-- Putting a node before the first module script, or at the start of the first
head where there is none. -/
theorem map_insert_loader? {root : Node} (h : root.scriptsHoldTexts = true) :
    (Place.loader? root).map (Place.insert new root) =
      (beforeModule? new root).or (underHead? new root) := by
  cases hroot : root.isModuleScript with
  | true =>
    rw [scriptsHoldTexts_eq, if_pos (isScript_of_isModuleScript hroot)] at h
    rw [loader?_of_module hroot, beforeModule?_eq, beforeFirstModule?_of_all_isText new h]
    exact map_insert_head? new root
  | false => exact map_insert_loader?_of_not_module new hroot

end Modules

section Texts

variable {new : Node}

/-- Texts hold no head. -/
theorem underFirstHead?_of_all_isText {nodes : List Node} (h : nodes.all isText = true) :
    underFirstHead? new nodes = none := by
  induction nodes with
  | nil => rfl
  | cons node nodes ih =>
    rw [List.all_cons, Bool.and_eq_true] at h
    cases node with
    | text data => rw [underFirstHead?, ih h.2]; rfl
    | _ => cases h.1

/-- A head is no script. -/
theorem not_script_of_head {node : Node} (h : node.hasName headName = true) :
    node.isScript = false := by
  cases node with
  | element tag children content =>
    have htag : tag.name = headName := by simpa [hasName, tag?] using h
    simp only [isScript, hasName, tag?, htag]
    decide
  | _ => cases h

/-- Where scripts hold texts only they still do after an insertion under a
head. -/
theorem underFirstHead?_scriptsHoldTexts {nodes changed : List Node}
    (ih : ∀ node ∈ nodes, ∀ {changed}, node.scriptsHoldTexts = true →
      underHead? new node = some changed → changed.scriptsHoldTexts = true)
    (h : allScriptsHoldTexts nodes = true) (hc : underFirstHead? new nodes = some changed) :
    allScriptsHoldTexts changed = true := by
  induction nodes generalizing changed with
  | nil => cases hc
  | cons node nodes ihnodes =>
    rw [allScriptsHoldTexts, Bool.and_eq_true] at h
    obtain ⟨hnode, hnodes⟩ := List.forall_mem_cons.1 ih
    rw [underFirstHead?] at hc
    split at hc
    · next first hf =>
      cases hc
      rw [allScriptsHoldTexts, hnode h.1 hf, h.2]
      rfl
    · obtain ⟨others, ho, rfl⟩ := Option.map_eq_some_iff.1 hc
      rw [allScriptsHoldTexts, h.1, ihnodes hnodes h.2 ho]
      rfl

/-- A new node whose scripts hold texts under the first head. -/
theorem underHead?_scriptsHoldTexts (hnew : new.scriptsHoldTexts = true) {root changed : Node}
    (h : root.scriptsHoldTexts = true) (hc : underHead? new root = some changed) :
    changed.scriptsHoldTexts = true := by
  induction root using children_induction generalizing changed with
  | step root ih =>
    rw [scriptsHoldTexts_eq] at h
    rw [underHead?_eq] at hc
    split at hc
    · next hhead =>
      have hscript := not_script_of_head hhead
      cases hc
      rw [hscript] at h
      refine scriptsHoldTexts_mapChildren hscript ?_
      rw [allScriptsHoldTexts, hnew, Bool.true_and]
      exact h
    · obtain ⟨nodes, hn, rfl⟩ := Option.map_eq_some_iff.1 hc
      by_cases hscript : root.isScript = true
      · rw [if_pos hscript] at h
        rw [underFirstHead?_of_all_isText h] at hn
        cases hn
      · rw [if_neg hscript] at h
        exact scriptsHoldTexts_mapChildren (Bool.eq_false_iff.2 hscript)
          (underFirstHead?_scriptsHoldTexts ih h hn)

/-- Where scripts hold texts only they still do after the insertion of such a
node before a module script. -/
theorem beforeFirstModule?_scriptsHoldTexts (hnew : new.scriptsHoldTexts = true)
    {nodes changed : List Node}
    (ih : ∀ node ∈ nodes, ∀ {changed}, node.scriptsHoldTexts = true →
      beforeModule? new node = some changed → changed.scriptsHoldTexts = true)
    (h : allScriptsHoldTexts nodes = true) (hc : beforeFirstModule? new nodes = some changed) :
    allScriptsHoldTexts changed = true := by
  induction nodes generalizing changed with
  | nil => cases hc
  | cons node nodes ihnodes =>
    rw [allScriptsHoldTexts, Bool.and_eq_true] at h
    obtain ⟨hnode, hnodes⟩ := List.forall_mem_cons.1 ih
    rw [beforeFirstModule?] at hc
    split at hc
    · cases hc
      rw [allScriptsHoldTexts, hnew, allScriptsHoldTexts, h.1, h.2]
      rfl
    · split at hc
      · next first hf =>
        cases hc
        rw [allScriptsHoldTexts, hnode h.1 hf, h.2]
        rfl
      · obtain ⟨others, ho, rfl⟩ := Option.map_eq_some_iff.1 hc
        rw [allScriptsHoldTexts, h.1, ihnodes hnodes h.2 ho]
        rfl

/-- A new node whose scripts hold texts before the first module script. -/
theorem beforeModule?_scriptsHoldTexts (hnew : new.scriptsHoldTexts = true) {root changed : Node}
    (h : root.scriptsHoldTexts = true) (hc : beforeModule? new root = some changed) :
    changed.scriptsHoldTexts = true := by
  induction root using children_induction generalizing changed with
  | step root ih =>
    rw [scriptsHoldTexts_eq] at h
    rw [beforeModule?_eq] at hc
    obtain ⟨nodes, hn, rfl⟩ := Option.map_eq_some_iff.1 hc
    by_cases hscript : root.isScript = true
    · rw [if_pos hscript] at h
      rw [beforeFirstModule?_of_all_isText new h] at hn
      cases hn
    · rw [if_neg hscript] at h
      exact scriptsHoldTexts_mapChildren (Bool.eq_false_iff.2 hscript)
        (beforeFirstModule?_scriptsHoldTexts hnew ih h hn)

end Texts

end Node

end ModuleScripts
