import ModuleScripts.Proofs.PageMap

/-!
# Tours through a tree

A tour goes through a tree in document order and notes where a node starts and
where it ends. A script is noted as a whole. What the stages of a transform do to a
tree they do to its tour: they put members in at the first one that fits, take members
out, and change members one by one.
-/

namespace ModuleScripts

/-- A member of a tour. -/
inductive Visit where
  /-- The start of a node, kept without the children that are visited next. -/
  | enter (node : Node)
  /-- A script, or a node that has no children. -/
  | whole (node : Node)
  /-- The end of the node that was started last and has not ended. -/
  | leave
  deriving Repr, Inhabited

namespace Node

mutual

/-- The tour through a tree. -/
def tour : Node → List Visit
  | .text data => [.whole (.text data)]
  | .comment attributes data => [.whole (.comment attributes data)]
  | .doctype attributes => [.whole (.doctype attributes)]
  | .document attributes children => .enter (.document attributes []) :: (tourAll children ++ [.leave])
  | .fragment attributes children => .enter (.fragment attributes []) :: (tourAll children ++ [.leave])
  | .element tag children content =>
    if tag.name == scriptName then [.whole (.element tag children content)]
    else .enter (.element tag [] content) :: (tourAll children ++ [.leave])

/-- The tours through trees, one behind the other. -/
def tourAll : List Node → List Visit
  | [] => []
  | node :: nodes => node.tour ++ tourAll nodes

end

/-- Whether a node is visited as a whole. -/
def isWhole : Node → Bool
  | .text _ => true
  | .comment _ _ => true
  | .doctype _ => true
  | .document _ _ => false
  | .fragment _ _ => false
  | .element tag _ _ => tag.name == scriptName

/-- The node without its children. -/
def shell (node : Node) : Node := node.mapChildren fun _ => []

/-- A node is visited as a whole, or entered, its children visited, and
left. -/
theorem tour_eq (node : Node) :
    node.tour =
      if node.isWhole then [.whole node]
      else .enter node.shell :: (tourAll node.children ++ [.leave]) := by
  cases node with
  | element tag children content =>
    rw [tour]
    rfl
  | _ => rfl

/-- A script is one of the nodes that are visited as wholes. -/
theorem isWhole_of_isScript {node : Node} (h : node.isScript = true) : node.isWhole = true := by
  cases node with
  | element tag children content => exact h
  | _ => cases h

/-- A script is visited as a whole. -/
theorem tour_of_isScript {node : Node} (h : node.isScript = true) : node.tour = [.whole node] := by
  rw [tour_eq, isWhole_of_isScript h, if_pos rfl]

/-- Only a script is visited as a whole although it has children. -/
theorem isScript_of_isWhole {node : Node} (h : node.isWhole = true) :
    node.isScript = true ∨ node.children = [] := by
  cases node with
  | element tag children content => exact .inl h
  | document | fragment => cases h
  | _ => exact .inr rfl

/-- A node whose children change is visited as it was. -/
@[simp] theorem isWhole_mapChildren (f : List Node → List Node) (node : Node) :
    (node.mapChildren f).isWhole = node.isWhole := by
  cases node <;> rfl

/-- A node whose children change has the same shell. -/
@[simp] theorem shell_mapChildren (f : List Node → List Node) (node : Node) :
    (node.mapChildren f).shell = node.shell := by
  cases node <;> rfl

/-- The shell of a node has its tag. -/
@[simp] theorem tag?_shell (node : Node) : node.shell.tag? = node.tag? := by
  cases node <;> rfl

/-- A node that is entered has the children that it is given. -/
theorem children_mapChildren_of_not_isWhole {node : Node} (h : node.isWhole = false)
    (f : List Node → List Node) : (node.mapChildren f).children = f node.children := by
  cases node with
  | text | comment | doctype => cases h
  | _ => rfl

/-- The tour through a node with its children changed. -/
theorem tour_mapChildren {node : Node} (h : node.isWhole = false) (f : List Node → List Node) :
    (node.mapChildren f).tour = .enter node.shell :: (tourAll (f node.children) ++ [.leave]) := by
  rw [tour_eq, isWhole_mapChildren, h, children_mapChildren_of_not_isWhole h, shell_mapChildren]
  rfl

/-- Where scripts hold texts only, those below a node that is entered do. -/
theorem scriptsHoldTexts_of_not_isWhole {node : Node} (h : node.isWhole = false)
    (htexts : node.scriptsHoldTexts = true) : allScriptsHoldTexts node.children = true := by
  rw [scriptsHoldTexts_eq] at htexts
  cases hscript : node.isScript with
  | true =>
    rw [isWhole_of_isScript hscript] at h
    cases h
  | false => rwa [hscript] at htexts

/-- What is visited as a whole holds nothing but texts. -/
theorem all_isText_of_isWhole {node : Node} (h : node.isWhole = true)
    (htexts : node.scriptsHoldTexts = true) : node.children.all isText = true := by
  rcases isScript_of_isWhole h with hscript | hnil
  · rwa [scriptsHoldTexts_eq, if_pos hscript] at htexts
  · rw [hnil]
    rfl

end Node

namespace Visit

section First

variable {α : Type} {fits : α → Bool} {change : α → List α}

/-- The list with its first member that fits replaced, if there is one. -/
def replaceFirst? (fits : α → Bool) (change : α → List α) : List α → Option (List α)
  | [] => none
  | x :: xs =>
    if fits x then some (change x ++ xs) else (replaceFirst? fits change xs).map (x :: ·)

/-- The first member that fits is in the first part, or else in the second. -/
theorem replaceFirst?_append (a b : List α) :
    replaceFirst? fits change (a ++ b) =
      ((replaceFirst? fits change a).map (· ++ b)).or
        ((replaceFirst? fits change b).map (a ++ ·)) := by
  induction a with
  | nil => simp [replaceFirst?]
  | cons x a ih =>
    rw [List.cons_append, replaceFirst?, replaceFirst?, ih]
    split
    · simp
    · cases replaceFirst? fits change a <;> simp [Function.comp_def]

/-- Without a member that fits nothing is replaced. -/
theorem replaceFirst?_eq_none {list : List α} (h : ∀ x ∈ list, fits x = false) :
    replaceFirst? fits change list = none := by
  induction list with
  | nil => rfl
  | cons x list ih =>
    obtain ⟨hx, hlist⟩ := List.forall_mem_cons.1 h
    rw [replaceFirst?, hx, ih hlist]
    rfl

/-- Members that do not fit are passed over. -/
theorem replaceFirst?_split {before : List α} {x : α} (h : ∀ y ∈ before, fits y = false)
    (hx : fits x = true) (after : List α) :
    replaceFirst? fits change (before ++ x :: after) = some (before ++ (change x ++ after)) := by
  rw [replaceFirst?_append, replaceFirst?_eq_none h, Option.map_none, Option.none_or,
    replaceFirst?, if_pos hx, Option.map_some]

end First

/-- Whether a head starts here. -/
def isHead : Visit → Bool
  | enter node => node.hasName headName
  | _ => false

/-- The node that is here as a whole, if it fits. -/
def found? (fits : Node → Bool) : Visit → Option Node
  | whole node => if Node.isFound fits node then some node else none
  | _ => none

/-- Whether a module script is here. -/
def isModule (v : Visit) : Bool := (found? Node.isModuleScript v).isSome

/-- Whether this is left when fallbacks are taken out. -/
def stays (v : Visit) : Bool := (found? Node.isFallback v).isNone

/-- Nothing is found where a node is entered. -/
@[simp] theorem found?_enter (fits : Node → Bool) (node : Node) :
    found? fits (enter node) = none := rfl

/-- Nothing is found where a node is left. -/
@[simp] theorem found?_leave (fits : Node → Bool) : found? fits leave = none := rfl

/-- Entering a node stays. -/
@[simp] theorem stays_enter (node : Node) : stays (enter node) = true := rfl

/-- Leaving a node stays. -/
@[simp] theorem stays_leave : stays leave = true := rfl

/-- The member with its script changed, if it is one. -/
def change {σ : Type} (f : σ → Node → Node × σ) (s : σ) : Visit → Visit × σ
  | whole node => if node.isScript then (whole (f s node).1, (f s node).2) else (whole node, s)
  | v => (v, s)

/-- Members with their scripts changed one by one. A change is given what the
changes before it left behind. -/
def changeAll {σ : Type} (f : σ → Node → Node × σ) : σ → List Visit → List Visit × σ
  | s, [] => ([], s)
  | s, v :: vs =>
    let first := change f s v
    let others := changeAll f first.2 vs
    (first.1 :: others.1, others.2)

/-- Visits are changed one part after the other. -/
theorem changeAll_append {σ : Type} (f : σ → Node → Node × σ) (s : σ) (a b : List Visit) :
    changeAll f s (a ++ b) =
      ((changeAll f s a).1 ++ (changeAll f (changeAll f s a).2 b).1,
        (changeAll f (changeAll f s a).2 b).2) := by
  induction a generalizing s with
  | nil => rfl
  | cons v a ih => simp only [List.cons_append, changeAll, ih]

/-- Members that are left as they are, with nothing left behind. -/
theorem changeAll_of_fixed {σ : Type} {f : σ → Node → Node × σ} {s : σ} {list : List Visit}
    (h : ∀ v ∈ list, change f s v = (v, s)) : changeAll f s list = (list, s) := by
  induction list with
  | nil => rfl
  | cons v list ih =>
    obtain ⟨hv, hlist⟩ := List.forall_mem_cons.1 h
    rw [changeAll, hv, ih hlist]

end Visit

namespace Node

open Visit

section Head

variable {new : Node}

/-- A head starts where a node starts that is one. -/
theorem isHead_enter_shell (node : Node) : isHead (.enter node.shell) = node.hasName headName := by
  rw [isHead, hasName, tag?_shell, hasName]

/-- What is visited as a whole is no head. -/
theorem not_head_of_isWhole {node : Node} (h : node.isWhole = true) :
    node.hasName headName = false := by
  refine Bool.eq_false_iff.2 fun hhead => ?_
  have hscript := not_script_of_head hhead
  cases node with
  | element tag children content =>
    have hwhole : (element tag children content).isScript = true := h
    rw [hwhole] at hscript
    cases hscript
  | _ => cases hhead

/-- In the tours of a list an insertion under the first head stands behind its
start. -/
theorem map_tourAll_underFirstHead? {nodes : List Node}
    (ih : ∀ node ∈ nodes, node.scriptsHoldTexts = true →
      (underHead? new node).map tour = replaceFirst? isHead (fun v => v :: new.tour) node.tour)
    (h : allScriptsHoldTexts nodes = true) :
    (underFirstHead? new nodes).map tourAll =
      replaceFirst? isHead (fun v => v :: new.tour) (tourAll nodes) := by
  induction nodes with
  | nil => rfl
  | cons node nodes ihnodes =>
    rw [allScriptsHoldTexts, Bool.and_eq_true] at h
    obtain ⟨hnode, hnodes⟩ := List.forall_mem_cons.1 ih
    rw [tourAll, replaceFirst?_append, ← hnode h.1, ← ihnodes hnodes h.2, underFirstHead?]
    cases underHead? new node with
    | some changed => rfl
    | none => simp only [Option.map_none, Option.none_or, Option.map_map, Function.comp_def, tourAll]

/-- Putting a node at the start of the first head is putting its tour behind the
start of that head. -/
theorem map_tour_underHead? {root : Node} (h : root.scriptsHoldTexts = true) :
    (underHead? new root).map tour =
      replaceFirst? isHead (fun v => v :: new.tour) root.tour := by
  induction root using children_induction with
  | step root ih =>
    rw [underHead?_eq, tour_eq root]
    cases hwhole : root.isWhole with
    | true =>
      have htexts := all_isText_of_isWhole hwhole h
      rw [not_head_of_isWhole hwhole, underFirstHead?_of_all_isText htexts]
      rfl
    | false =>
      have hbelow := scriptsHoldTexts_of_not_isWhole hwhole h
      simp only [Bool.false_eq_true, if_false, replaceFirst?, isHead_enter_shell]
      cases root.hasName headName with
      | true =>
        simp only [if_true, Option.map_some]
        rw [tour_mapChildren hwhole, tourAll]
        simp
      | false =>
        simp only [Bool.false_eq_true, if_false, Option.map_map]
        rw [replaceFirst?_append,
          ← map_tourAll_underFirstHead? (fun node hnode => ih node hnode) hbelow]
        cases underFirstHead? new root.children with
        | none => rfl
        | some nodes =>
          simp only [Option.map_some, Option.some_or, Function.comp_def]
          rw [tour_mapChildren hwhole]

end Head

section Modules

variable {new : Node}

/-- A visit of a module script is told by its node. -/
theorem isModule_whole (node : Node) : isModule (.whole node) = node.isModuleScript := by
  rw [isModule, found?, isFound_isModuleScript]
  cases node.isModuleScript <;> rfl

/-- In the tours of a list an insertion before the first module script stands
before its visit. -/
theorem map_tourAll_beforeFirstModule? {nodes : List Node}
    (ih : ∀ node ∈ nodes, node.scriptsHoldTexts = true → node.isModuleScript = false →
      (beforeModule? new node).map tour =
        replaceFirst? isModule (fun v => new.tour ++ [v]) node.tour)
    (h : allScriptsHoldTexts nodes = true) :
    (beforeFirstModule? new nodes).map tourAll =
      replaceFirst? isModule (fun v => new.tour ++ [v]) (tourAll nodes) := by
  induction nodes with
  | nil => rfl
  | cons node nodes ihnodes =>
    rw [allScriptsHoldTexts, Bool.and_eq_true] at h
    obtain ⟨hnode, hnodes⟩ := List.forall_mem_cons.1 ih
    rw [tourAll, beforeFirstModule?]
    cases hmodule : node.isModuleScript with
    | true =>
      have htour := tour_of_isScript (isScript_of_isModuleScript hmodule)
      simp only [htour, if_true, Option.map_some, tourAll, List.singleton_append, replaceFirst?,
        isModule_whole, hmodule, List.append_assoc]
    | false =>
      rw [replaceFirst?_append, ← hnode h.1 hmodule, ← ihnodes hnodes h.2]
      cases beforeModule? new node with
      | some changed => rfl
      | none =>
        simp only [Bool.false_eq_true, if_false, Option.map_none, Option.none_or, Option.map_map,
          Function.comp_def, tourAll]

/-- Putting a node before the first module script is putting its tour before the
script. -/
theorem map_tour_beforeModule? {root : Node} (h : root.scriptsHoldTexts = true)
    (hroot : root.isModuleScript = false) :
    (beforeModule? new root).map tour =
      replaceFirst? isModule (fun v => new.tour ++ [v]) root.tour := by
  induction root using children_induction with
  | step root ih =>
    rw [beforeModule?_eq, tour_eq root]
    cases hwhole : root.isWhole with
    | true =>
      have htexts := all_isText_of_isWhole hwhole h
      simp only [beforeFirstModule?_of_all_isText new htexts, if_true, replaceFirst?,
        isModule_whole, hroot, Bool.false_eq_true, if_false]
      rfl
    | false =>
      have hbelow := scriptsHoldTexts_of_not_isWhole hwhole h
      have hstart : isModule (.enter root.shell) = false := rfl
      simp only [Bool.false_eq_true, if_false, replaceFirst?, hstart, Option.map_map]
      rw [replaceFirst?_append,
        ← map_tourAll_beforeFirstModule? (fun node hnode => ih node hnode) hbelow]
      cases beforeFirstModule? new root.children with
      | none => rfl
      | some nodes =>
        simp only [Option.map_some, Option.some_or, Function.comp_def]
        rw [tour_mapChildren hwhole]

end Modules

section Fallbacks

/-- A fallback is a script. -/
theorem isScript_of_isFallback {node : Node} (h : node.isFallback = true) :
    node.isScript = true := by
  cases node with
  | element tag children content =>
    have hfallback : tag.isFallback = true := h
    rw [Tag.isFallback, Bool.and_eq_true] at hfallback
    exact hfallback.1
  | _ => cases h

/-- A search for fallbacks finds just these. -/
theorem isFound_isFallback (node : Node) : isFound isFallback node = node.isFallback :=
  isFound_tagFits Tag.isFallback node

/-- The visit of a whole node stays unless the node is a fallback. -/
theorem stays_whole (node : Node) : stays (.whole node) = !node.isFallback := by
  rw [stays, found?, isFound_isFallback]
  cases node.isFallback <;> rfl

/-- The tours of a list without fallbacks are those without the visits of
fallbacks. -/
theorem tourAll_withoutAll {nodes : List Node}
    (ih : ∀ node ∈ nodes, node.scriptsHoldTexts = true → node.isFallback = false →
      (node.without isFallback).tour = node.tour.filter stays)
    (h : allScriptsHoldTexts nodes = true) :
    tourAll (withoutAll isFallback nodes) = (tourAll nodes).filter stays := by
  induction nodes with
  | nil => rfl
  | cons node nodes ihnodes =>
    rw [allScriptsHoldTexts, Bool.and_eq_true] at h
    obtain ⟨hnode, hnodes⟩ := List.forall_mem_cons.1 ih
    rw [withoutAll, isFound_isFallback, tourAll, List.filter_append, ← ihnodes hnodes h.2]
    cases hfallback : node.isFallback with
    | true =>
      have hstays : stays (.whole node) = false := by rw [stays_whole, hfallback, Bool.not_true]
      rw [tour_of_isScript (isScript_of_isFallback hfallback),
        List.filter_cons_of_neg (Bool.eq_false_iff.1 hstays)]
      rfl
    | false =>
      rw [← hnode h.1 hfallback]
      rfl

/-- Taking the fallbacks out of a tree is taking them out of its tour. -/
theorem tour_without {root : Node} (h : root.scriptsHoldTexts = true)
    (hroot : root.isFallback = false) :
    (root.without isFallback).tour = root.tour.filter stays := by
  induction root using children_induction with
  | step root ih =>
    rw [without_eq, tour_eq root]
    cases hwhole : root.isWhole with
    | true =>
      have htexts := all_isText_of_isWhole hwhole h
      have hstays : stays (.whole root) = true := by rw [stays_whole, hroot, Bool.not_false]
      rw [mapChildren_eq_self (withoutAll_of_all_isText isFallback htexts), tour_eq root, hwhole,
        if_pos rfl, List.filter_cons_of_pos hstays]
      rfl
    | false =>
      have hbelow := scriptsHoldTexts_of_not_isWhole hwhole h
      rw [tour_mapChildren hwhole, tourAll_withoutAll ih hbelow]
      simp [List.filter_cons]

end Fallbacks

section Scripts

/-- Changing the scripts of a list changes the visits of its tours. -/
theorem tourAll_mapAllScripts {σ : Type} {f : σ → Node → Node × σ} {nodes : List Node}
    (ih : ∀ node ∈ nodes, ∀ s,
      ((node.mapScripts f s).1.tour, (node.mapScripts f s).2) = changeAll f s node.tour) (s : σ) :
    (tourAll (mapAllScripts f nodes s).1, (mapAllScripts f nodes s).2) =
      changeAll f s (tourAll nodes) := by
  induction nodes generalizing s with
  | nil => rfl
  | cons node nodes ihnodes =>
    obtain ⟨hnode, hnodes⟩ := List.forall_mem_cons.1 ih
    rw [tourAll, changeAll_append, ← hnode s, ← ihnodes hnodes]
    rfl

/-- Changing the scripts of a tree in document order is changing the members of
its tour one by one, if scripts stay scripts. -/
theorem tour_mapScripts {σ : Type} {f : σ → Node → Node × σ}
    (hf : ∀ s node, node.isScript = true → (f s node).1.isScript = true) (root : Node) (s : σ) :
    ((root.mapScripts f s).1.tour, (root.mapScripts f s).2) = changeAll f s root.tour := by
  induction root using children_induction generalizing s with
  | step root ih =>
    rw [mapScripts_eq, tour_eq root]
    cases hscript : root.isScript with
    | true =>
      rw [isWhole_of_isScript hscript, if_pos rfl, if_pos rfl, tour_eq,
        isWhole_of_isScript (hf s root hscript), if_pos rfl]
      simp only [changeAll, change, hscript, if_true]
    | false =>
      cases hwhole : root.isWhole with
      | true =>
        have hnil : root.children = [] :=
          (isScript_of_isWhole hwhole).resolve_left (Bool.eq_false_iff.1 hscript)
        have hnone : (mapAllScripts f root.children s).1 = root.children := by
          rw [hnil]
          rfl
        simp only [Bool.false_eq_true, if_false, if_true, changeAll, change, hscript]
        rw [mapChildren_eq_self hnone, tour_eq, hwhole, hnil]
        rfl
      | false =>
        have hchildren := tourAll_mapAllScripts ih s
        simp only [Bool.false_eq_true, if_false, changeAll, change]
        rw [tour_mapChildren hwhole, changeAll_append, ← hchildren]
        rfl

variable {fits : Node → Bool}

/-- What is found in a list is found among the visits of its tours. -/
theorem map_node_findFrom {nodes : List Node}
    (ih : ∀ node ∈ nodes, node.scriptsHoldTexts = true →
      (node.findAll fits).map Located.node = node.tour.filterMap (found? fits))
    (h : allScriptsHoldTexts nodes = true) (index : Nat) :
    (findFrom fits index nodes).map Located.node =
      (tourAll nodes).filterMap (found? fits) := by
  induction nodes generalizing index with
  | nil =>
    rw [findFrom_nil]
    rfl
  | cons node nodes ihnodes =>
    rw [allScriptsHoldTexts, Bool.and_eq_true] at h
    obtain ⟨hnode, hnodes⟩ := List.forall_mem_cons.1 ih
    rw [findFrom_cons, tourAll, List.filterMap_append, ← hnode h.1, ← ihnodes hnodes h.2
      (index + 1), List.map_append, List.map_map]
    rfl

/-- The scripts that are found in a tree are those of its tour, in order. -/
theorem map_node_findAll (hfits : ∀ node : Node, fits node = true → node.isScript = true)
    {root : Node} (h : root.scriptsHoldTexts = true) :
    (root.findAll fits).map Located.node = root.tour.filterMap (found? fits) := by
  induction root using children_induction with
  | step root ih =>
    rw [findAll_eq, tour_eq, List.map_append]
    cases hwhole : root.isWhole with
    | true =>
      have htexts := all_isText_of_isWhole hwhole h
      rw [findFrom_of_all_isText fits htexts, if_pos rfl, List.filterMap_cons, found?]
      cases isFound fits root <;> rfl
    | false =>
      have hbelow := scriptsHoldTexts_of_not_isWhole hwhole h
      have hroot : isFound fits root = false := by
        rw [isFound, Bool.and_eq_false_iff]
        right
        rw [Bool.eq_false_iff]
        intro hfound
        rw [isWhole_of_isScript (hfits root hfound)] at hwhole
        cases hwhole
      rw [hroot, map_node_findFrom ih hbelow]
      simp [List.filterMap_cons]

end Scripts

end Node

end ModuleScripts
