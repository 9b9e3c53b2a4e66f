import ModuleScripts.Proofs.Insertion

/-!
# What holds everywhere in a tree

Scripts may stand inside scripts. If nodes are found and then changed one after
the other, and a change leaves a node with nothing but texts, the nodes that were
found below it are gone when their turn comes. So what holds of a node that is
changed, and of a node that was not found, holds everywhere in the outcome.
-/

namespace ModuleScripts

namespace Node

/-- A property of a node and of all nodes below it. -/
def Everywhere (P : Node → Prop) (root : Node) : Prop :=
  ∀ node ∈ root.located.map Located.node, P node

section Everywhere

variable {P Q : Node → Prop} {root : Node}

/-- A property holds everywhere in a tree if it holds of the root and everywhere
below the children. -/
theorem everywhere_iff :
    root.Everywhere P ↔ P root ∧ ∀ child ∈ root.children, child.Everywhere P := by
  rw [Everywhere, map_node_located, List.forall_mem_cons]
  refine and_congr_right fun _ => ?_
  constructor
  · exact fun h child hchild node hnode => h node (List.mem_flatMap.2 ⟨child, hchild, hnode⟩)
  · intro h node hnode
    obtain ⟨child, hchild, hbelow⟩ := List.mem_flatMap.1 hnode
    exact h child hchild node hbelow

/-- What holds everywhere holds of the root. -/
theorem Everywhere.here (h : root.Everywhere P) : P root := (everywhere_iff.1 h).1

/-- What holds everywhere holds everywhere below the children. -/
theorem Everywhere.below (h : root.Everywhere P) : ∀ child ∈ root.children, child.Everywhere P :=
  (everywhere_iff.1 h).2

/-- What follows from a property holds wherever the property holds. -/
theorem Everywhere.imp (h : root.Everywhere P) (himp : ∀ node, P node → Q node) :
    root.Everywhere Q := fun node hnode => himp node (h node hnode)

/-- Where all children are texts it is enough to know the property of texts. -/
theorem everywhere_of_texts (htexts : root.children.all isText = true)
    (htext : ∀ data, P (text data)) (h : P root) : root.Everywhere P := by
  refine everywhere_iff.2 ⟨h, fun child hchild => ?_⟩
  have hchildtext := List.all_eq_true.1 htexts child hchild
  cases child with
  | text data => exact everywhere_iff.2 ⟨htext data, List.forall_mem_nil _⟩
  | _ => cases hchildtext

/-- What does not hold anywhere is not found. -/
theorem findAll_eq_nil {fits : Node → Bool} (h : root.Everywhere fun node => fits node = false) :
    root.findAll fits = [] := by
  rw [findAll_eq_filter, List.filter_eq_nil_iff]
  intro l hl hfound
  rw [isFound, Bool.and_eq_true] at hfound
  rw [h l.node (List.mem_map_of_mem hl)] at hfound
  cases hfound.2

/-- What does not hold anywhere is not found among the nodes. -/
theorem findFrom_eq_nil {fits : Node → Bool} {nodes : List Node}
    (h : ∀ node ∈ nodes, node.Everywhere fun node => fits node = false) (index : Nat) :
    findFrom fits index nodes = [] := by
  induction nodes generalizing index with
  | nil => exact findFrom_nil fits index
  | cons node nodes ih =>
    obtain ⟨hnode, hnodes⟩ := List.forall_mem_cons.1 h
    rw [findFrom_cons, findAll_eq_nil hnode, ih hnodes]
    rfl

end Everywhere

/-- The nodes in the content of a template. -/
def contents : Node → List Node
  | element _ _ (some content) => content
  | _ => []

/-- The content does not depend on the tag and the children. -/
theorem contents_element (tag other : Tag) (children others : List Node)
    (content : Option (List Node)) :
    (element tag children content).contents = (element other others content).contents := by
  cases content <;> rfl

/-- Changing the children of a node leaves its content. -/
theorem contents_mapChildren (f : List Node → List Node) (node : Node) :
    (node.mapChildren f).contents = node.contents := by
  cases node with
  | element tag children content => cases content <;> rfl
  | _ => rfl

/-- A node that differs from another one below its children only, and not at all
where those are texts. -/
structure SameOnTop (node other : Node) : Prop where
  /-- They have the same tag. -/
  tag : other.tag? = node.tag?
  /-- They have the same content apart from the children. -/
  contents : other.contents = node.contents
  /-- Texts are left as they are. -/
  texts : node.children.all isText = true → other = node

/-- The children of a changed node are among the changed children. -/
theorem mem_children_mapChildren {f : List Node → List Node} {node child : Node}
    (h : child ∈ (node.mapChildren f).children) : child ∈ f node.children := by
  cases node with
  | document | fragment | element => exact h
  | _ => cases h

section Insertion

variable {P : Node → Prop} {new root changed : Node} {nodes others : List Node}

/-- A node behind the insertion was there before, or the new node stands under
a head in it. -/
theorem mem_underFirstHead? (h : underFirstHead? new nodes = some others) {child : Node}
    (hchild : child ∈ others) :
    child ∈ nodes ∨ ∃ node ∈ nodes, underHead? new node = some child := by
  induction nodes generalizing others with
  | nil => cases h
  | cons node nodes ih =>
    rw [underFirstHead?] at h
    split at h
    · next first hfirst =>
      cases h
      rcases List.mem_cons.1 hchild with rfl | hchild
      · exact .inr ⟨node, List.mem_cons_self, hfirst⟩
      · exact .inl (List.mem_cons_of_mem node hchild)
    · obtain ⟨rest, hrest, rfl⟩ := Option.map_eq_some_iff.1 h
      rcases List.mem_cons.1 hchild with rfl | hchild
      · exact .inl List.mem_cons_self
      · refine (ih hrest hchild).imp (List.mem_cons_of_mem node) ?_
        rintro ⟨other, hother, hchanged⟩
        exact ⟨other, List.mem_cons_of_mem node hother, hchanged⟩

/-- A node behind the insertion is the new one, was there before, or has the
new one before a module script in it. -/
theorem mem_beforeFirstModule? (h : beforeFirstModule? new nodes = some others) {child : Node}
    (hchild : child ∈ others) :
    child = new ∨ child ∈ nodes ∨ ∃ node ∈ nodes, beforeModule? new node = some child := by
  induction nodes generalizing others with
  | nil => cases h
  | cons node nodes ih =>
    rw [beforeFirstModule?] at h
    split at h
    · cases h
      exact (List.mem_cons.1 hchild).imp_right .inl
    · split at h
      · next first hfirst =>
        cases h
        rcases List.mem_cons.1 hchild with rfl | hchild
        · exact .inr (.inr ⟨node, List.mem_cons_self, hfirst⟩)
        · exact .inr (.inl (List.mem_cons_of_mem node hchild))
      · obtain ⟨rest, hrest, rfl⟩ := Option.map_eq_some_iff.1 h
        rcases List.mem_cons.1 hchild with rfl | hchild
        · exact .inr (.inl List.mem_cons_self)
        · refine (ih hrest hchild).imp_right (.imp (List.mem_cons_of_mem node) ?_)
          rintro ⟨other, hother, hchanged⟩
          exact ⟨other, List.mem_cons_of_mem node hother, hchanged⟩

/-- A head, or a node with something other than texts below it, keeps the
property whatever its children become. -/
def Grows (P : Node → Prop) : Prop :=
  ∀ node nodes, P node → node.hasName headName = true ∨ node.children.all isText = false →
    P (node.mapChildren fun _ => nodes)

/-- The new node under the first head has the property everywhere, and all else
had it before. -/
theorem everywhere_underHead? (hgrow : Grows P) (hnew : new.Everywhere P)
    (h : root.Everywhere P) (hc : underHead? new root = some changed) : changed.Everywhere P := by
  induction root using children_induction generalizing changed with
  | step root ih =>
    rw [underHead?_eq] at hc
    split at hc
    · next hhead =>
      cases hc
      have hhere : P (root.mapChildren (new :: ·)) := by
        rw [mapChildren_congr (g := fun _ => new :: root.children) rfl]
        exact hgrow root _ h.here (.inl hhead)
      refine everywhere_iff.2 ⟨hhere, fun child hchild => ?_⟩
      rcases List.mem_cons.1 (mem_children_mapChildren hchild) with rfl | hchild
      · exact hnew
      · exact h.below child hchild
    · obtain ⟨nodes, hnodes, rfl⟩ := Option.map_eq_some_iff.1 hc
      have hpath : root.children.all isText = false := by
        refine Bool.eq_false_iff.2 fun htexts => ?_
        rw [underFirstHead?_of_all_isText htexts] at hnodes
        cases hnodes
      refine everywhere_iff.2 ⟨hgrow root _ h.here (.inr hpath), fun child hchild => ?_⟩
      rcases mem_underFirstHead? hnodes (mem_children_mapChildren hchild) with
        hold | ⟨node, hnode, hchanged⟩
      · exact h.below child hold
      · exact ih node hnode (h.below node hnode) hchanged

/-- The same of the new node before the first module script. -/
theorem everywhere_beforeModule? (hgrow : Grows P) (hnew : new.Everywhere P)
    (h : root.Everywhere P) (hc : beforeModule? new root = some changed) :
    changed.Everywhere P := by
  induction root using children_induction generalizing changed with
  | step root ih =>
    rw [beforeModule?_eq] at hc
    obtain ⟨nodes, hnodes, rfl⟩ := Option.map_eq_some_iff.1 hc
    have hpath : root.children.all isText = false := by
      refine Bool.eq_false_iff.2 fun htexts => ?_
      rw [beforeFirstModule?_of_all_isText new htexts] at hnodes
      cases hnodes
    refine everywhere_iff.2 ⟨hgrow root _ h.here (.inr hpath), fun child hchild => ?_⟩
    rcases mem_beforeFirstModule? hnodes (mem_children_mapChildren hchild) with
      rfl | hold | ⟨node, hnode, hchanged⟩
    · exact hnew
    · exact h.below child hold
    · exact ih node hnode (h.below node hnode) hchanged

end Insertion

section Removal

variable {P Q : Node → Prop} {fits : Node → Bool}

/-- Taking nodes away changes a node below its children only. -/
theorem sameOnTop_without (node : Node) : SameOnTop node (node.without fits) := by
  rw [without_eq]
  exact ⟨tag?_mapChildren _ node, contents_mapChildren _ node, fun htexts =>
    mapChildren_eq_self (withoutAll_of_all_isText fits htexts)⟩

/-- A node that is left was there before, and what is taken away is gone from
it too. -/
theorem mem_withoutAll {nodes : List Node} {child : Node} (h : child ∈ withoutAll fits nodes) :
    ∃ node ∈ nodes, isFound fits node = false ∧ child = node.without fits := by
  induction nodes with
  | nil => cases h
  | cons node nodes ih =>
    rw [withoutAll] at h
    split at h
    · obtain ⟨other, hother, hrest⟩ := ih h
      exact ⟨other, List.mem_cons_of_mem _ hother, hrest⟩
    · next hnode =>
      rcases List.mem_cons.1 h with rfl | h
      · exact ⟨node, List.mem_cons_self, Bool.eq_false_iff.2 hnode, rfl⟩
      · obtain ⟨other, hother, hrest⟩ := ih h
        exact ⟨other, List.mem_cons_of_mem _ hother, hrest⟩

/-- What holds of nodes that are not taken away holds everywhere below the root. -/
theorem everywhere_without
    (hkept : ∀ node other, SameOnTop node other → Q node → isFound fits node = false → P other)
    {root : Node} (h : ∀ child ∈ root.children, child.Everywhere Q) :
    ∀ child ∈ (root.without fits).children, child.Everywhere P := by
  induction root using children_induction with
  | step root ih =>
    intro child hchild
    rw [without_eq] at hchild
    obtain ⟨node, hnode, hfound, rfl⟩ := mem_withoutAll (mem_children_mapChildren hchild)
    exact everywhere_iff.2 ⟨hkept node _ (sameOnTop_without node) (h node hnode).here hfound,
      ih node hnode (h node hnode).below⟩

end Removal

section Edits

variable {σ : Type} {edit : σ → Node → (Node → Node) × σ} {fits : Node → Bool}

/-- Changes of what is found below the nodes of a list change each of them on its
own. -/
theorem exists_of_foldl_applyTo (nodes before : List Node) (s : σ) :
    ∃ changed, (editsOf edit s (findFrom fits before.length nodes)).1.foldl Edit.applyTo
        (before ++ nodes) = before ++ changed ∧
      ∀ node' ∈ changed, ∃ node ∈ nodes, ∃ s', node' =
        node.applyEach (editsOf edit s' (node.findAll fits)).1 := by
  induction nodes generalizing before s with
  | nil =>
    rw [findFrom_nil]
    exact ⟨[], rfl, List.forall_mem_nil _⟩
  | cons node nodes ih =>
    obtain ⟨changed, hchanged, hnodes⟩ :=
      ih (before ++ [node.applyEach (editsOf edit s (node.findAll fits)).1])
        (editsOf edit s (node.findAll fits)).2
    simp only [List.length_append, List.length_singleton, List.append_assoc,
      List.singleton_append] at hchanged
    refine ⟨node.applyEach (editsOf edit s (node.findAll fits)).1 :: changed, ?_, ?_⟩
    · rw [findFrom_cons, editsOf_append, editsOf_under, List.foldl_append,
        Edit.foldl_applyTo_under, hchanged]
    · refine List.forall_mem_cons.2 ⟨⟨node, List.mem_cons_self, s, rfl⟩, fun node' hnode' => ?_⟩
      obtain ⟨other, hother, hrest⟩ := hnodes node' hnode'
      exact ⟨other, List.mem_cons_of_mem _ hother, hrest⟩

/-- Changes of what is found below a node leave the node and change its children
one by one. -/
theorem exists_of_applyEach_below (node : Node) (s : σ) :
    let other := node.applyEach (editsOf edit s (findFrom fits 0 node.children)).1
    SameOnTop node other ∧ ∀ child' ∈ other.children, ∃ child ∈ node.children, ∃ s', child' =
      child.applyEach (editsOf edit s' (child.findAll fits)).1 := by
  intro other
  have hother : other = node.mapChildren fun nodes =>
      (editsOf edit s (findFrom fits 0 node.children)).1.foldl Edit.applyTo nodes :=
    applyEach_eq_mapChildren (address_ne_nil_of_mem_editsOf edit) node
  refine ⟨⟨?_, ?_, fun htexts => ?_⟩, fun child' hchild => ?_⟩
  · rw [hother, tag?_mapChildren]
  · rw [hother, contents_mapChildren]
  · change node.applyEach _ = node
    rw [findFrom_of_all_isText fits htexts]
    rfl
  · obtain ⟨changed, hchanged, hnodes⟩ := @exists_of_foldl_applyTo σ edit fits
      node.children [] s
    rw [hother] at hchild
    have hmem := mem_children_mapChildren hchild
    simp only [List.length_nil, List.nil_append] at hchanged
    rw [hchanged] at hmem
    exact hnodes child' hmem

/-- Changes that leave texts alone leave a node that holds nothing else. -/
theorem modify_text {f : Node → Node} (h : ∀ data, f (text data) = text data) (address : Address)
    (data : Option Text) : modify f address (text data) = text data := by
  cases address with
  | nil => exact h data
  | cons index address => rfl

/-- Changes that leave texts alone leave a list that holds nothing else. -/
theorem modifyNth_texts {f : Node → Node} (h : ∀ data, f (text data) = text data)
    {nodes : List Node} (htexts : nodes.all isText = true) (index : Nat) :
    modifyNth f index nodes = nodes := by
  induction nodes generalizing index with
  | nil => cases index <;> rfl
  | cons node nodes ih =>
    rw [List.all_cons, Bool.and_eq_true] at htexts
    cases index with
    | zero =>
      cases node with
      | text data => rw [modifyNth, h data]
      | _ => cases htexts.1
    | succ index => rw [modifyNth, ih htexts.2]

/-- Edits that leave texts alone leave a node with no other children. -/
theorem applyEach_texts {edits : List Edit} (haddress : ∀ e ∈ edits, e.address ≠ [])
    (hfix : ∀ e ∈ edits, ∀ data, e.change (text data) = text data) {node : Node}
    (htexts : node.children.all isText = true) : node.applyEach edits = node := by
  have hfold : edits.foldl Edit.applyTo node.children = node.children := by
    clear haddress
    induction edits with
    | nil => rfl
    | cons e edits ih =>
      obtain ⟨he, hedits⟩ := List.forall_mem_cons.1 hfix
      have hstep : Edit.applyTo node.children e = node.children := by
        rw [Edit.applyTo]
        split
        · rfl
        · next index address _ => exact modifyNth_texts (modify_text he address) htexts index
      rw [List.foldl_cons, hstep, ih hedits]
  rw [applyEach_eq_mapChildren haddress, mapChildren_eq_self hfold]

/-- A node that is found is changed, any other one is left as it is on top. Its
children are changed one by one, or else they are texts. -/
theorem applyEach_cases (hfix : ∀ s node data, (edit s node).1 (text data) = text data)
    (hchildren : ∀ s node, isFound fits node = true →
      ((edit s node).1 node).children.all isText = true ∨
        ((edit s node).1 node).children = node.children) (root : Node) (s : σ) :
    let other := root.applyEach (editsOf edit s (root.findAll fits)).1
    SameOnTop (if isFound fits root then (edit s root).1 root else root) other ∧
      (other.children.all isText = true ∨
        ∀ child' ∈ other.children, ∃ child ∈ root.children, ∃ s', child' =
          child.applyEach (editsOf edit s' (child.findAll fits)).1) := by
  rw [findAll_eq]
  cases hroot : isFound fits root with
  | false =>
    obtain ⟨hsame, hchanged⟩ := @exists_of_applyEach_below σ edit fits root s
    exact ⟨hsame, .inr hchanged⟩
  | true =>
    rw [if_pos rfl, if_pos rfl, List.singleton_append, editsOf]
    change SameOnTop _ (((edit s root).1 root).applyEach
      (editsOf edit (edit s root).2 (findFrom fits 0 root.children)).1) ∧ _
    rcases hchildren s root hroot with htexts | hchildren
    · -- what was found below the root is gone
      have hfixed : ∀ e ∈ (editsOf edit (edit s root).2 (findFrom fits 0 root.children)).1,
          ∀ data, e.change (text data) = text data := by
        intro e he data
        obtain ⟨s', l, -, rfl⟩ := mem_editsOf edit he
        exact hfix s' l.node data
      have hsame : ((edit s root).1 root).applyEach
          (editsOf edit (edit s root).2 (findFrom fits 0 root.children)).1 = (edit s root).1 root :=
        applyEach_texts (address_ne_nil_of_mem_editsOf edit) hfixed htexts
      refine ⟨?_, .inl ?_⟩
      · rw [hsame]
        exact ⟨rfl, rfl, fun _ => rfl⟩
      · exact (congrArg (fun node => node.children.all isText) hsame).trans htexts
    · rw [← hchildren]
      obtain ⟨hsame, hchanged⟩ := @exists_of_applyEach_below σ edit fits
        ((edit s root).1 root) (edit s root).2
      exact ⟨hsame, .inr hchanged⟩

variable {P Q : Node → Prop}

/-- What holds of the nodes that are changed and of those that are not found
holds everywhere, if a change leaves a node with its children or with nothing but
texts. -/
theorem everywhere_applyEach (htext : ∀ data, P (text data))
    (hfix : ∀ s node data, (edit s node).1 (text data) = text data)
    (hchildren : ∀ s node, isFound fits node = true →
      ((edit s node).1 node).children.all isText = true ∨
        ((edit s node).1 node).children = node.children)
    (hfound : ∀ s node other, isFound fits node = true → Q node →
      SameOnTop ((edit s node).1 node) other → P other)
    (hkept : ∀ node other, SameOnTop node other → Q node → isFound fits node = false → P other)
    {root : Node} (h : root.Everywhere Q) (s : σ) :
    (root.applyEach (editsOf edit s (root.findAll fits)).1).Everywhere P := by
  induction root using children_induction generalizing s with
  | step root ih =>
    obtain ⟨hsame, hbelow⟩ := applyEach_cases hfix hchildren root s
    have hhere : P (root.applyEach (editsOf edit s (root.findAll fits)).1) := by
      split at hsame
      · next hroot => exact hfound s root _ hroot h.here hsame
      · next hroot => exact hkept root _ hsame h.here (Bool.eq_false_iff.2 hroot)
    rcases hbelow with htexts | hbelow
    · exact everywhere_of_texts htexts htext hhere
    · refine everywhere_iff.2 ⟨hhere, fun child' hchild' => ?_⟩
      obtain ⟨child, hchild, s', rfl⟩ := hbelow child' hchild'
      exact ih child hchild (h.below child hchild) s'

end Edits

end Node

end ModuleScripts
