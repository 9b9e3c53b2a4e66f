import ModuleScripts.Proofs.Tour

/-!
# Neighbours in a tour

Members next to each other in a tour are next to each other in the tree: what
follows the start of a node as a whole is its first child, and what follows a
whole as a whole is its next sibling.
-/

namespace ModuleScripts

namespace Node

open Visit

variable {a b : List Visit} {v : Visit}

/-- What comes next behind the start of a node as a whole is its first child. -/
theorem tourAll_eq_whole_cons {nodes : List Node} {node : Node}
    (h : tourAll nodes ++ a = .whole node :: b) (ha : ∀ rest, a ≠ .whole node :: rest) :
    ∃ others, nodes = node :: others ∧ tourAll others ++ a = b := by
  cases nodes with
  | nil => exact absurd h (ha b)
  | cons first others =>
    rw [tourAll, List.append_assoc, tour_eq] at h
    cases hwhole : first.isWhole with
    | true =>
      rw [hwhole, if_pos rfl, List.singleton_append, List.cons.injEq, Visit.whole.injEq] at h
      exact ⟨others, by rw [h.1], h.2⟩
    | false =>
      rw [hwhole, if_neg Bool.false_ne_true] at h
      cases h

/-- A member that does not end a node comes before the end of the node. -/
theorem exists_of_append_leave {visits : List Visit} (hv : v ≠ .leave)
    (h : visits ++ [.leave] = a ++ v :: b) : ∃ rest, b = rest ++ [.leave] ∧ visits = a ++ v :: rest := by
  rcases List.eq_nil_or_concat b with rfl | ⟨rest, last, rfl⟩
  · obtain ⟨-, hlast⟩ := List.append_inj' h rfl
    exact absurd (List.cons.inj hlast).1.symm hv
  · rw [List.concat_eq_append] at h ⊢
    have hsplit : visits ++ [.leave] = (a ++ v :: rest) ++ [last] := by
      rw [h, List.append_assoc, List.cons_append]
    obtain ⟨hvisits, hlast⟩ := List.append_inj' hsplit rfl
    rw [← (List.cons.inj hlast).1]
    exact ⟨rest, rfl, hvisits⟩

/-- The members behind the start of a node belong to its children, up to its
end. -/
theorem exists_of_tour {root : Node} (hwhole : root.isWhole = false) (hv : v ≠ .leave)
    (henter : v ≠ .enter root.shell) (h : root.tour = a ++ v :: b) :
    ∃ before rest, a = .enter root.shell :: before ∧ b = rest ++ [.leave] ∧
      tourAll root.children = before ++ v :: rest := by
  rw [tour_eq, hwhole, if_neg Bool.false_ne_true] at h
  cases a with
  | nil => exact absurd (List.cons.inj h).1.symm henter
  | cons first before =>
    obtain ⟨hfirst, hrest⟩ := List.cons.inj h
    obtain ⟨rest, hb, hchildren⟩ := exists_of_append_leave hv hrest
    exact ⟨before, rest, by rw [hfirst], hb, hchildren⟩

section Siblings

variable {x y : Node}

/-- Two nodes next to each other among the children of a node from a root on. -/
def AreSiblings (root x y : Node) : Prop :=
  ∃ parent ∈ root.located.map Located.node, ∃ left right,
    parent.children = left ++ x :: y :: right

/-- Siblings below a child are siblings below the root. -/
theorem AreSiblings.of_child {root child : Node} (hchild : child ∈ root.children)
    (h : child.AreSiblings x y) : root.AreSiblings x y := by
  obtain ⟨parent, hparent, hsplit⟩ := h
  refine ⟨parent, ?_, hsplit⟩
  rw [map_node_located]
  exact List.mem_cons_of_mem _ (List.mem_flatMap.2 ⟨child, hchild, hparent⟩)

/-- Nodes that are visited one right behind the other in the tours of a list
are next to each other in it or siblings below one of its nodes. -/
theorem exists_of_tourAll_siblings {nodes : List Node}
    (ih : ∀ node ∈ nodes, ∀ a b, node.tour = a ++ .whole x :: .whole y :: b →
      node.AreSiblings x y)
    (h : tourAll nodes = a ++ .whole x :: .whole y :: b) :
    (∃ left right, nodes = left ++ x :: y :: right) ∨ ∃ node ∈ nodes, node.AreSiblings x y := by
  induction nodes generalizing a with
  | nil => cases a <;> cases h
  | cons node nodes ihnodes =>
    obtain ⟨hnode, hnodes⟩ := List.forall_mem_cons.1 ih
    have hbehind : ∀ {a}, tourAll nodes = a ++ .whole x :: .whole y :: b →
        (∃ left right, node :: nodes = left ++ x :: y :: right) ∨
          ∃ other ∈ node :: nodes, other.AreSiblings x y := by
      intro a htour
      rcases ihnodes hnodes htour with ⟨left, right, hsplit⟩ | ⟨other, hother, hsiblings⟩
      · exact .inl ⟨node :: left, right, by rw [hsplit, List.cons_append]⟩
      · exact .inr ⟨other, List.mem_cons_of_mem _ hother, hsiblings⟩
    rw [tourAll] at h
    rcases List.append_eq_append_iff.1 h with ⟨e, -, htour⟩ | ⟨e, htour, hrest⟩
    · exact hbehind htour
    · -- the two are in the first tree, or the first of them is that tree, or both are behind it
      rcases e with _ | ⟨first, _ | ⟨second, e⟩⟩
      · exact hbehind (a := []) hrest.symm
      · obtain ⟨rfl, hbelow⟩ := List.cons.inj hrest
        obtain ⟨others, rfl, -⟩ := tourAll_eq_whole_cons (a := [])
          ((List.append_nil _).trans hbelow.symm) (by simp)
        cases hwhole : node.isWhole with
        | true =>
          rw [tour_eq, hwhole, if_pos rfl] at htour
          have hsplit : [] ++ [Visit.whole node] = a ++ [.whole x] := htour
          rw [Visit.whole.inj (List.cons.inj (List.append_inj' hsplit rfl).2).1]
          exact .inl ⟨[], others, rfl⟩
        | false =>
          rw [tour_eq, hwhole, if_neg Bool.false_ne_true, ← List.cons_append] at htour
          cases (List.cons.inj (List.append_inj' htour rfl).2).1
      · obtain ⟨rfl, hsecond⟩ := List.cons.inj hrest
        obtain ⟨rfl, -⟩ := List.cons.inj hsecond
        exact .inr ⟨node, List.mem_cons_self, hnode a e htour⟩

/-- Nodes that are visited as wholes one right behind the other are siblings. -/
theorem areSiblings_of_tour {root : Node} (h : root.tour = a ++ .whole x :: .whole y :: b) :
    root.AreSiblings x y := by
  induction root using children_induction generalizing a b with
  | step root ih =>
    cases hwhole : root.isWhole with
    | true =>
      rw [tour_eq, hwhole, if_pos rfl] at h
      have hlength := congrArg List.length h
      simp at hlength
      omega
    | false =>
      obtain ⟨before, rest, -, hb, hchildren⟩ :=
        exists_of_tour (v := .whole x) hwhole (by simp) (by simp) h
      cases rest with
      | nil => cases hb
      | cons next rest =>
        obtain ⟨rfl, -⟩ := List.cons.inj hb
        rcases exists_of_tourAll_siblings (fun node hnode a b => ih node hnode) hchildren with
          hhere | ⟨node, hnode, hsiblings⟩
        · exact ⟨root, by rw [map_node_located]; exact List.mem_cons_self, hhere⟩
        · exact hsiblings.of_child hnode

end Siblings

section Head

variable {shell : Node}

/-- A tree without a head has none in its tour, and the other way round. -/
theorem findAll_head_eq_nil {root : Node} (h : root.scriptsHoldTexts = true)
    (hnone : ∀ v ∈ root.tour, isHead v = false) : root.findAll (hasName headName) = [] := by
  have hplace := map_insertFirst_findAll root root
  have htour : (underHead? root root).map tour = none := by
    rw [map_tour_underHead? h, replaceFirst?_eq_none hnone]
  rw [Option.map_eq_none_iff] at htour
  rw [htour, Option.map_eq_none_iff, List.head?_eq_none_iff] at hplace
  exact hplace

/-- The first head in the tours of a list is the first head that is found in
it. -/
theorem head?_findFrom_of_tourAll {nodes : List Node}
    (ih : ∀ node ∈ nodes, node.scriptsHoldTexts = true → ∀ a b,
      node.tour = a ++ .enter shell :: b → (∀ v ∈ a, isHead v = false) →
      ∃ l, (node.findAll (hasName headName)).head? = some l ∧
        ∃ rest, .enter shell :: b = l.node.tour ++ rest)
    (h : allScriptsHoldTexts nodes = true) (index : Nat)
    (htour : tourAll nodes = a ++ .enter shell :: b) (hfirst : ∀ v ∈ a, isHead v = false) :
    ∃ l, (findFrom (hasName headName) index nodes).head? = some l ∧
      ∃ rest, .enter shell :: b = l.node.tour ++ rest := by
  induction nodes generalizing a index with
  | nil => cases a <;> cases htour
  | cons node nodes ihnodes =>
    rw [allScriptsHoldTexts, Bool.and_eq_true] at h
    obtain ⟨hnode, hnodes⟩ := List.forall_mem_cons.1 ih
    have hbehind : ∀ {a}, (∀ v ∈ node.tour, isHead v = false) → (∀ v ∈ a, isHead v = false) →
        tourAll nodes = a ++ .enter shell :: b →
        ∃ l, (findFrom (hasName headName) index (node :: nodes)).head? = some l ∧
          ∃ rest, .enter shell :: b = l.node.tour ++ rest := by
      intro a hnone hfirst htour
      rw [findFrom_cons, findAll_head_eq_nil h.1 hnone]
      exact ihnodes hnodes h.2 (index + 1) htour hfirst
    rw [tourAll] at htour
    rcases List.append_eq_append_iff.1 htour with ⟨e, rfl, hrest⟩ | ⟨e, hsplit, hrest⟩
    · exact hbehind (fun v hv => hfirst v (List.mem_append_left _ hv))
        (fun v hv => hfirst v (List.mem_append_right _ hv)) hrest
    · cases e with
      | nil =>
        rw [List.append_nil] at hsplit
        exact hbehind (a := []) (hsplit ▸ hfirst) (List.forall_mem_nil _) hrest.symm
      | cons first e =>
        obtain ⟨rfl, hb⟩ := List.cons.inj hrest
        obtain ⟨l, hl, rest, hbelow⟩ := hnode h.1 a e hsplit hfirst
        refine ⟨l.under [index], ?_, rest ++ tourAll nodes, ?_⟩
        · rw [findFrom_cons, List.head?_append, List.head?_map, hl]
          rfl
        · rw [hb, ← List.append_assoc]
          exact congrArg (· ++ tourAll nodes) hbelow

/-- The first head that is started in a tour is the first head that is found. -/
theorem head?_findAll_of_tour {root : Node} (h : root.scriptsHoldTexts = true)
    (hhead : isHead (.enter shell) = true) (htour : root.tour = a ++ .enter shell :: b)
    (hfirst : ∀ v ∈ a, isHead v = false) :
    ∃ l, (root.findAll (hasName headName)).head? = some l ∧
      ∃ rest, .enter shell :: b = l.node.tour ++ rest := by
  induction root using children_induction generalizing a b with
  | step root ih =>
    cases hwhole : root.isWhole with
    | true =>
      rw [tour_eq, hwhole, if_pos rfl] at htour
      cases a with
      | nil => cases htour
      | cons _ a => cases a <;> cases (List.cons.inj htour).2
    | false =>
      have hbelow := scriptsHoldTexts_of_not_isWhole hwhole h
      have hroot := isHead_enter_shell root
      rw [findAll_eq, isFound_hasName]
      cases hname : root.hasName headName with
      | true =>
        rw [tour_eq, hwhole, if_neg Bool.false_ne_true] at htour
        cases a with
        | nil =>
          refine ⟨⟨[], root⟩, rfl, [], ?_⟩
          rw [List.append_nil, tour_eq, hwhole, if_neg Bool.false_ne_true]
          exact htour.symm
        | cons first a =>
          have hno := hfirst first List.mem_cons_self
          rw [← (List.cons.inj htour).1, hroot, hname] at hno
          cases hno
      | false =>
        have henter : Visit.enter shell ≠ .enter root.shell := by
          intro heq
          rw [heq, hroot, hname] at hhead
          cases hhead
        obtain ⟨before, rest, rfl, rfl, hchildren⟩ :=
          exists_of_tour (v := .enter shell) hwhole (by simp) henter htour
        obtain ⟨l, hl, later, hlater⟩ := head?_findFrom_of_tourAll
          (fun node hnode htexts a b htour hnone => ih node hnode htexts htour hnone) hbelow 0
          hchildren (fun v hv => hfirst v (List.mem_cons_of_mem _ hv))
        refine ⟨l, hl, later ++ [.leave], ?_⟩
        rw [← List.append_assoc, ← hlater]
        rfl

/-- What comes next behind the start of a node as wholes are its first children. -/
theorem exists_of_tourAll_wholes {scripts nodes : List Node}
    (h : tourAll nodes ++ .leave :: a = scripts.map Visit.whole ++ b) :
    ∃ others, nodes = scripts ++ others := by
  induction scripts generalizing nodes with
  | nil => exact ⟨nodes, rfl⟩
  | cons script scripts ih =>
    obtain ⟨others, rfl, hothers⟩ := tourAll_eq_whole_cons h (by simp)
    obtain ⟨behind, rfl⟩ := ih hothers
    exact ⟨behind, rfl⟩

/-- What is behind the start of the first head as wholes are its first children. -/
theorem find?_head_of_tour {root : Node} (h : root.scriptsHoldTexts = true)
    (hhead : isHead (.enter shell) = true) {scripts : List Node}
    (htour : root.tour = a ++ .enter shell :: (scripts.map Visit.whole ++ b))
    (hfirst : ∀ v ∈ a, isHead v = false) :
    ∃ l rest, root.find? (hasName headName) = some l ∧ l.node.children = scripts ++ rest := by
  obtain ⟨l, hl, rest, hbelow⟩ := head?_findAll_of_tour h hhead htour hfirst
  have hwhole : l.node.isWhole = false := by
    cases hwhole : l.node.isWhole with
    | true =>
      rw [tour_eq, hwhole, if_pos rfl] at hbelow
      cases hbelow
    | false => rfl
  rw [tour_eq, hwhole, if_neg Bool.false_ne_true, List.cons_append, List.append_assoc] at hbelow
  obtain ⟨others, hothers⟩ := exists_of_tourAll_wholes (List.cons.inj hbelow).2.symm
  exact ⟨l, others, by rw [find?_eq_head?, hl], hothers⟩

end Head

end Node

end ModuleScripts
