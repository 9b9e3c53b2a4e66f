import ModuleScripts.Proofs.Dependencies
import ModuleScripts.Proofs.FactoryLines

/-!
# Names in generated lines

Every name that the parser reads is an identifier, the word `default` or a star,
and every parameter of a dependency is an identifier. So all lines that are
generated for the imports and exports of a module are made of quiet names.
-/

namespace ModuleScripts

/-- All names that a clause binds are quiet. -/
structure Clause.IsQuiet (c : Clause) : Prop where
  /-- The local name of the default export. -/
  default_quiet : ∀ name, c.defaultName = some name → Quiet name
  /-- The local name of the namespace object. -/
  namespace_quiet : ∀ name, c.namespaceName = some name → Quiet name
  /-- The named bindings. -/
  named_quiet : ∀ r ∈ c.named, r.IsQuiet

/-- All names that an import binds are quiet. -/
def Import.IsQuiet (i : Import) : Prop :=
  Clause.IsQuiet ⟨i.defaultName, i.namespaceName, i.named⟩

/-- All names of an export are quiet. -/
def Export.IsQuiet (e : Export) : Prop := ∀ r ∈ e.names, r.IsQuiet

/-- All names of a statement are quiet. -/
def Statement.IsQuiet : Statement → Prop
  | code _ _ => True
  | importing i => i.IsQuiet
  | exporting e => e.IsQuiet

section Reading

open Matcher

/-- A renaming that can be read is between quiet names. -/
theorem Rename.parse?_isQuiet {item : Text} {r : Rename} (h : Rename.parse? item = some r) :
    r.IsQuiet := by
  unfold Rename.parse? at h
  split at h
  · cases h
  · next name hn =>
    cases h
    exact ⟨identifier_quiet hn, identifier_quiet hn⟩
  · next name rest _ hn =>
    split at h
    · cases h
    · split at h
      · next newName hm =>
        cases h
        exact ⟨identifier_quiet hn, identifier_quiet hm⟩
      · cases h

/-- Items that can be read are quiet. -/
theorem parseItems_isQuiet {items : List Text} {names : List Rename}
    (h : parseItems items = .ok names) : ∀ r ∈ names, r.IsQuiet := by
  induction items generalizing names with
  | nil =>
    cases h
    exact fun r hr => absurd hr List.not_mem_nil
  | cons item items ih =>
    unfold parseItems at h
    split at h
    · cases h
    · next first hfirst =>
      obtain ⟨others, ho, rfl⟩ := map_eq_ok h
      exact List.forall_mem_cons.2 ⟨Rename.parse?_isQuiet hfirst, ih ho⟩

/-- Bindings that can be read are quiet. -/
theorem parseBindings_isQuiet {list : Text} {names : List Rename}
    (h : parseBindings list = .ok names) : ∀ r ∈ names, r.IsQuiet := parseItems_isQuiet h

variable {line : Nat} {text t : Text} {e : Export}

/-- An import that can be read has quiet names. -/
theorem Import.parse_isQuiet {i : Import} (h : Import.parse line text = .ok i) : i.IsQuiet := by
  have hquiet : ∀ name, IsIdentifier name → Quiet name := fun name ⟨_, _, hi⟩ => identifier_quiet hi
  have hread := Import.namesRead_of_parse h
  refine ⟨fun name hn => hquiet name (hread.default_read name hn),
    fun name hn => hquiet name (hread.namespace_read name hn), ?_⟩
  rcases hread.named_read with hnil | ⟨list, hb⟩
  · rw [hnil]
    exact fun r hr => absurd hr List.not_mem_nil
  · exact parseBindings_isQuiet hb

/-- An export of one name. -/
theorem Export.isQuiet_of_names {r : Rename} (h : e.names = [r]) (hr : r.IsQuiet) : e.IsQuiet := by
  intro s hs
  rw [h, List.mem_singleton] at hs
  rwa [hs]

/-- An export without names of its own. -/
theorem Export.isQuiet_of_names_nil (h : e.names = []) : e.IsQuiet := by
  intro s hs
  rw [h] at hs
  exact absurd hs List.not_mem_nil

/-- An export list that can be read has quiet names. -/
theorem Export.parseList_isQuiet (h : Export.parseList line text = .ok e) : e.IsQuiet := by
  cases Export.listForm_of_parseList h with
  | star => exact Export.isQuiet_of_names_nil rfl
  | starAs hn =>
    refine Export.isQuiet_of_names rfl ⟨(by decide : Quiet ['*']), ?_⟩
    unfold starName? at hn
    split at hn
    · cases hn
    · exact identifier_quiet hn
  | reexport hn => exact parseBindings_isQuiet hn
  | named hn => exact parseBindings_isQuiet hn

/-- A declarator that can be read has a quiet name. -/
theorem parseDeclarator_isQuiet {r : Rename} (h : parseDeclarator t = .ok r) : r.IsQuiet := by
  unfold parseDeclarator at h
  dsimp only at h
  split at h
  · cases h
  · split at h
    · cases h
    · next name hn =>
      cases h
      have hname : Quiet name := by
        unfold declaratorName? at hn
        split at hn
        · cases hn
        · next found rest hi =>
          split at hn
          · cases hn
            exact identifier_quiet hi
          · split at hn
            · cases hn
              exact identifier_quiet hi
            · cases hn
      exact ⟨hname, hname⟩

/-- Declarators that can be read have quiet names. -/
theorem parseDeclarators_isQuiet {declarators : List Text} {names : List Rename}
    (h : parseDeclarators declarators = .ok names) : ∀ r ∈ names, r.IsQuiet := by
  induction declarators generalizing names with
  | nil =>
    cases h
    exact fun r hr => absurd hr List.not_mem_nil
  | cons declarator declarators ih =>
    unfold parseDeclarators at h
    split at h
    · cases h
    · next first hfirst =>
      obtain ⟨others, ho, rfl⟩ := map_eq_ok h
      exact List.forall_mem_cons.2 ⟨parseDeclarator_isQuiet hfirst, ih ho⟩

/-- The declared name of a function or a class is quiet. -/
theorem declaredName?_quiet {name : Text} (h : declaredName? t = some name) : Quiet name := by
  have hbehind : ∀ {head : Matcher}, nameBehind? head t = some name → Quiet name := by
    intro head hh
    unfold nameBehind? at hh
    split at hh
    · cases hh
    · obtain ⟨found, hi, rfl⟩ := Option.map_eq_some_iff.1 hh
      exact identifier_quiet hi
  unfold declaredName? at h
  split at h
  · next found hf =>
    cases h
    exact hbehind hf
  · exact hbehind h

/-- An export on one line that can be read has quiet names. -/
theorem Export.parseLine_isQuiet (h : Export.parseLine line text = .ok e) : e.IsQuiet := by
  cases Export.lineForm_of_parseLine h with
  | declaration _ hn =>
    exact Export.isQuiet_of_names rfl ⟨declaredName?_quiet hn, declaredName?_quiet hn⟩
  | defaultDeclaration _ _ hn =>
    exact Export.isQuiet_of_names rfl ⟨declaredName?_quiet hn, (by decide : Quiet "default".toList)⟩
  | defaultValue => exact Export.isQuiet_of_names_nil rfl

/-- All names of a statement that is taken are quiet. -/
theorem Taken.next_isQuiet {context : Lexer.Context} {raw : Text} {lines : List Text} {t : Taken}
    (h : Taken.next context line raw lines = .ok t) : t.statement.IsQuiet := by
  cases Taken.next_eq_ok_iff.1 h with
  | code => trivial
  | importing _ h =>
    obtain ⟨_, _, _, _, i, _, _, hi, rfl⟩ := Taken.importing_eq_ok_iff.1 h
    exact Import.parse_isQuiet hi
  | exportList _ h =>
    obtain ⟨_, _, _, _, e, _, _, he, rfl⟩ := Taken.exportList_eq_ok_iff.1 h
    exact Export.parseList_isQuiet he
  | exportVariables _ h =>
    obtain ⟨_, _, _, e, _, _, he, rfl⟩ := Taken.exportVariables_eq_ok_iff.1 h
    obtain ⟨names, hn, rfl⟩ := map_eq_ok he
    exact parseDeclarators_isQuiet hn
  | exportOther _ he => exact Export.parseLine_isQuiet he

end Reading

section Generating

variable {m : Module} {param : Text} {line : FactoryLine}

/-- The parameter of a specifier is quiet. -/
theorem Module.paramOf_quiet (m : Module) (specifier : Text) : Quiet (m.paramOf specifier) := by
  unfold Module.paramOf
  cases h : m.dependencyParams.lookup specifier with
  | none => decide
  | some param =>
    have hmem : param ∈ m.dependencyParams.map Prod.snd := by
      obtain ⟨before, behind, hsplit, _⟩ := List.lookup_eq_some_iff.1 h
      rw [hsplit]
      simp
    exact (Dependency.assignParams_isParameter hmem).quiet

/-- What a quiet import binds is quiet. -/
theorem Import.bindings_isQuiet {i : Import} (h : i.IsQuiet) (hp : Quiet param)
    (hl : line ∈ i.bindings param) : line.IsQuiet := by
  cases Import.binds_of_mem_bindings hl with
  | namespaceObject hn => exact ⟨h.namespace_quiet _ hn, hp⟩
  | defaultExport hn => exact ⟨h.default_quiet _ hn, hp⟩
  | named => exact ⟨h.named_quiet, hp⟩

/-- What a quiet export copies is quiet. -/
theorem Export.prologueLines_isQuiet {e : Export} (h : e.IsQuiet) (hp : Quiet param)
    (hl : line ∈ e.prologueLines param) : line.IsQuiet := by
  cases Export.mem_prologueLines_iff.1 hl with
  | @name r hkind hr => exact ⟨(h r hr).2, hp, (h r hr).1⟩
  | all => exact hp

/-- What a quiet export assigns is quiet. -/
theorem Export.assignments_isQuiet {e : Export} (h : e.IsQuiet) (hl : line ∈ e.assignments) :
    line.IsQuiet := by
  obtain ⟨r, hr, rfl⟩ := List.mem_map.1 hl
  exact ⟨(h r hr).2, (h r hr).1⟩

/-- The lines of a definition that hold no code of the module are made of quiet
names. -/
theorem Module.generated_isQuiet (h : ∀ s ∈ m.body, s.IsQuiet) :
    (∀ line ∈ m.prologue, line.IsQuiet) ∧
      (∀ line ∈ m.exports.flatMap Export.hoistedLines, line.IsQuiet) ∧
      ∀ line ∈ m.exports.flatMap Export.epilogueLines, line.IsQuiet := by
  have himports : ∀ i ∈ m.imports, i.IsQuiet := fun i hi => h _ (Module.mem_imports.1 hi)
  have hexports : ∀ e ∈ m.exports, e.IsQuiet := fun e he => h _ (Module.mem_exports.1 he)
  refine ⟨fun line hl => ?_, fun line hl => ?_, fun line hl => ?_⟩
  · rw [Module.prologue, List.cons_append, List.mem_cons, List.mem_append] at hl
    rcases hl with rfl | hl | hl
    · trivial
    · obtain ⟨i, hi, hl⟩ := List.mem_flatMap.1 hl
      exact Import.bindings_isQuiet (himports i hi) (m.paramOf_quiet _) hl
    · obtain ⟨e, he, hl⟩ := List.mem_flatMap.1 hl
      exact Export.prologueLines_isQuiet (hexports e he) (m.paramOf_quiet _) hl
  · obtain ⟨e, he, hl⟩ := List.mem_flatMap.1 hl
    exact Export.assignments_isQuiet (hexports e he) (e.hoistedLines_subset hl)
  · obtain ⟨e, he, hl⟩ := List.mem_flatMap.1 hl
    exact Export.assignments_isQuiet (hexports e he) (e.epilogueLines_subset hl)

end Generating

end ModuleScripts
