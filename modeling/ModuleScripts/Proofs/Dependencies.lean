import ModuleScripts.Output.Transform
import ModuleScripts.Proofs.MetaQuoting
import ModuleScripts.Proofs.Parameters
import ModuleScripts.Proofs.Reading

/-!
# Dependencies and parameters of a definition

The dependencies of a definition are the specifiers of its module, each once.
Those that some statement needs the object of come first, and have the
parameters of the factory in the same order; those of modules that are only run
follow without one. Every line that reads from a dependency reads from the
parameter of the specifier that its own statement names.
-/

namespace ModuleScripts

section Distinct

variable {specifiers : List Text}

/-- Dropping repetitions keeps the members. -/
@[simp] theorem mem_distinct {s : Text} : s ∈ distinct specifiers ↔ s ∈ specifiers := by
  induction specifiers with
  | nil => simp [distinct]
  | cons x xs ih =>
    by_cases hs : s = x
    · simp [distinct, hs]
    · simp [distinct, hs, ih]

/-- A member of `specifiers` before another, by the place where each first
appears. -/
def AppearsBefore (specifiers : List Text) (s t : Text) : Prop :=
  specifiers.idxOf s < specifiers.idxOf t

/-- Without repetitions the specifiers stand in the order in which they first
appear. -/
theorem distinct_ordered (specifiers : List Text) :
    (distinct specifiers).Pairwise (AppearsBefore specifiers) := by
  induction specifiers with
  | nil => exact List.Pairwise.nil
  | cons x xs ih =>
    have hne : ∀ s ∈ (distinct xs).filter (· ≠ x), s ≠ x := fun s hs => by
      simpa using (List.mem_filter.1 hs).2
    refine List.pairwise_cons.2 ⟨fun t ht => ?_, ?_⟩
    · rw [AppearsBefore, List.idxOf_cons_self, List.idxOf_cons_ne _ (hne t ht).symm]
      exact Nat.succ_pos _
    · refine (ih.filter _).imp_of_mem fun {s t} hs ht hlt => ?_
      rw [AppearsBefore, List.idxOf_cons_ne _ (hne s hs).symm, List.idxOf_cons_ne _ (hne t ht).symm]
      exact Nat.succ_lt_succ hlt

/-- Specifiers in the order in which they first appear are not repeated. -/
theorem nodup_of_ordered {l : List Text} (h : l.Pairwise (AppearsBefore specifiers)) : l.Nodup := by
  refine List.Pairwise.imp (fun {s t} hlt => ?_) h
  rintro rfl
  exact Nat.lt_irrefl _ hlt

end Distinct

section Sources

/-- An export that copies from another module names that module. -/
def Statement.Sourced : Statement → Prop
  | .exporting e => e.kind = .reexport ∨ e.kind = .star → e.specifier.isSome = true
  | _ => True

/-- An export list that copies from another module names it. -/
theorem Export.parseList_sourced {line : Nat} {text : Text} {e : Export}
    (h : Export.parseList line text = .ok e) : (Statement.exporting e).Sourced := by
  cases Export.listForm_of_parseList h with
  | star => exact fun _ => rfl
  | starAs => exact fun _ => rfl
  | reexport => exact fun _ => rfl
  | named => exact fun hk => by simp at hk

/-- What is read from one line is a declaration or a default value. -/
theorem Export.parseLine_kind {line : Nat} {text : Text} {e : Export}
    (h : Export.parseLine line text = .ok e) : e.kind = .declaration ∨ e.kind = .defaultValue := by
  cases Export.lineForm_of_parseLine h with
  | declaration => exact .inl rfl
  | defaultDeclaration => exact .inl rfl
  | defaultValue => exact .inr rfl

/-- An export on one line that copies from another module names it. -/
theorem Export.parseLine_sourced {line : Nat} {text : Text} {e : Export}
    (h : Export.parseLine line text = .ok e) : (Statement.exporting e).Sourced := by
  rcases Export.parseLine_kind h with hk | hk <;> simp [Statement.Sourced, hk]

/-- A statement that is taken names the module it copies from. -/
theorem Taken.next_sourced {context : Lexer.Context} {line : Nat} {raw : Text} {lines : List Text}
    {t : Taken} (h : Taken.next context line raw lines = .ok t) : t.statement.Sourced := by
  cases Taken.next_eq_ok_iff.1 h with
  | code => trivial
  | importing _ h =>
    obtain ⟨_, _, _, _, i, -, -, -, rfl⟩ := Taken.importing_eq_ok_iff.1 h
    trivial
  | exportList _ h =>
    obtain ⟨_, _, _, _, e, -, -, he, rfl⟩ := Taken.exportList_eq_ok_iff.1 h
    exact Export.parseList_sourced he
  | exportVariables _ h =>
    obtain ⟨_, _, _, e, -, -, he, rfl⟩ := Taken.exportVariables_eq_ok_iff.1 h
    obtain ⟨names, -, rfl⟩ := map_eq_ok he
    exact fun hk => by simp at hk
  | exportOther _ he => exact Export.parseLine_sourced he

/-- An import that was read has no empty name. -/
theorem Import.parse_ne_nil {line : Nat} {text : Text} {i : Import} (h : Import.parse line text = .ok i) :
    i.defaultName ≠ some [] ∧ i.namespaceName ≠ some [] := by
  have hread := Import.namesRead_of_parse h
  have hempty : ¬IsIdentifier [] := fun ⟨t, rest, hi⟩ => Matcher.identifier_advances t [] rest hi rfl
  exact ⟨fun hn => hempty (hread.default_read _ hn),
    fun hn => hempty (hread.namespace_read _ hn)⟩

/-- An import without empty names. -/
def Statement.Named : Statement → Prop
  | .importing i => i.defaultName ≠ some [] ∧ i.namespaceName ≠ some []
  | _ => True

/-- Every import that is taken is without empty names. -/
theorem Taken.next_named {context : Lexer.Context} {line : Nat} {raw : Text} {lines : List Text}
    {t : Taken} (h : Taken.next context line raw lines = .ok t) : t.statement.Named := by
  cases Taken.next_eq_ok_iff.1 h with
  | code => trivial
  | importing _ h =>
    obtain ⟨_, _, _, _, i, -, -, hi, rfl⟩ := Taken.importing_eq_ok_iff.1 h
    exact Import.parse_ne_nil hi
  | exportList _ h =>
    obtain ⟨_, _, _, _, e, -, -, -, rfl⟩ := Taken.exportList_eq_ok_iff.1 h
    trivial
  | exportVariables _ h =>
    obtain ⟨_, _, _, e, -, -, -, rfl⟩ := Taken.exportVariables_eq_ok_iff.1 h
    trivial
  | exportOther => trivial

end Sources

section Lookup

variable {β : Type}

/-- Where the keys differ, every entry is found under its key. -/
theorem lookup_of_mem {entries : List (Text × β)} {key : Text} {b : β}
    (h : (entries.map Prod.fst).Nodup) (hm : (key, b) ∈ entries) :
    entries.lookup key = some b := by
  induction entries with
  | nil => cases hm
  | cons entry entries ih =>
    rw [List.map_cons, List.nodup_cons] at h
    rcases List.mem_cons.1 hm with rfl | hm
    · exact List.lookup_cons_self
    · have hne : (key == entry.1) = false :=
        beq_false_of_ne fun he => h.1 (he ▸ List.mem_map_of_mem hm)
      rw [List.lookup_cons, hne]
      exact ih h.2 hm

/-- Where the keys differ, looking every key up gives the values in order. -/
theorem map_lookup_keys {entries : List (Text × Text)} (h : (entries.map Prod.fst).Nodup) :
    (entries.map Prod.fst).map (fun k => (entries.lookup k).getD []) = entries.map Prod.snd := by
  rw [List.map_map]
  refine List.map_congr_left fun entry hentry => ?_
  rw [Function.comp_apply, lookup_of_mem h hentry, Option.getD_some]

end Lookup

section Lines

/-- The parameter that a line reads a dependency from. -/
def FactoryLine.param? : FactoryLine → Option Text
  | bindNamespace _ param => some param
  | bindDefault _ param => some param
  | bindNamed _ param => some param
  | copy _ param _ => some param
  | copyAll param => some param
  | _ => none

/-- The lines that bind what an import binds, one for each kind of binding, with the
parameter that they read from. -/
inductive Import.Binds (i : Import) (param : Text) : FactoryLine → Prop where
  /-- The namespace object. -/
  | namespaceObject {name : Text} (h : i.namespaceName = some name) :
    Binds i param (.bindNamespace name param)
  /-- The default export. -/
  | defaultExport {name : Text} (h : i.defaultName = some name) :
    Binds i param (.bindDefault name param)
  /-- The names in braces, all in one line. -/
  | named (h : i.named ≠ []) : Binds i param (.bindNamed i.named param)

/-- The lines that copy what an export takes from another module: one for each name, or
one for all of them. -/
inductive Export.Copies (e : Export) (param : Text) : FactoryLine → Prop where
  /-- A name of a re-export. -/
  | name {r : Rename} (hkind : e.kind = .reexport) (hr : r ∈ e.names) :
    Copies e param (.copy r.newName param r.name)
  /-- A star export. -/
  | all (hkind : e.kind = .star) : Copies e param (.copyAll param)

/-- The lines of an import bind its local names. -/
theorem Import.binds_of_mem_bindings {param : Text} {i : Import} {line : FactoryLine}
    (h : line ∈ i.bindings param) : i.Binds param line := by
  unfold Import.bindings at h
  split at h
  · cases h
  · rcases List.mem_append.1 h with h | h
    · rcases List.mem_append.1 h with h | h
      · split at h
        · cases h
        · cases h
        · next name _ hn =>
          rw [List.mem_singleton.1 h]
          exact .namespaceObject hn
      · split at h
        · cases h
        · cases h
        · next name _ hn =>
          rw [List.mem_singleton.1 h]
          exact .defaultExport hn
    · split at h
      · cases h
      · next hn =>
        rw [List.mem_singleton.1 h]
        exact .named (by simpa using hn)

/-- An import with such a line binds something. -/
theorem Import.Binds.isSideEffect_eq_false {param : Text} {i : Import} {line : FactoryLine}
    (h : i.Binds param line) : i.isSideEffect = false := by
  unfold Import.isSideEffect
  cases h with
  | namespaceObject h => simp [h]
  | defaultExport h => simp [h]
  | named h => simp [h]

/-- Where no name is empty, every binding has its line. -/
theorem Import.Binds.mem_bindings {param : Text} {i : Import} {line : FactoryLine}
    (h : i.Binds param line) (hn : i.defaultName ≠ some [] ∧ i.namespaceName ≠ some []) :
    line ∈ i.bindings param := by
  rw [Import.bindings, if_neg (by simp [h.isSideEffect_eq_false]), List.mem_append, List.mem_append]
  cases h with
  | @namespaceObject name h =>
    rw [h] at hn ⊢
    cases name with
    | nil => exact absurd rfl hn.2
    | cons c r => exact .inl (.inl (List.mem_singleton.2 rfl))
  | @defaultExport name h =>
    rw [h] at hn ⊢
    cases name with
    | nil => exact absurd rfl hn.1
    | cons c r => exact .inl (.inr (List.mem_singleton.2 rfl))
  | named h => exact .inr (by simp [h])

/-- The lines of an export copy what it takes from another module. -/
theorem Export.mem_prologueLines_iff {param : Text} {e : Export} {line : FactoryLine} :
    line ∈ e.prologueLines param ↔ e.Copies param line := by
  unfold Export.prologueLines
  constructor
  · intro h
    split at h
    · next hk =>
      obtain ⟨r, hr, rfl⟩ := List.mem_map.1 h
      exact .name hk hr
    · next hk =>
      rw [List.mem_singleton.1 h]
      exact .all hk
    · cases h
  · rintro (⟨hk, hr⟩ | hk)
    · rw [hk]
      exact List.mem_map_of_mem hr
    · rw [hk]
      exact List.mem_singleton.2 rfl

/-- What an import binds is read off its parameter. -/
theorem Import.Binds.param?_eq {param : Text} {i : Import} {line : FactoryLine}
    (h : i.Binds param line) : line.param? = some param := by
  cases h <;> rfl

/-- What an export copies is read off its parameter. -/
theorem Export.Copies.param?_eq {param : Text} {e : Export} {line : FactoryLine}
    (h : e.Copies param line) : line.param? = some param := by
  cases h <;> rfl

/-- An export with such a line names another module. -/
theorem Export.Copies.sourced {param : Text} {e : Export} {line : FactoryLine}
    (h : e.Copies param line) : e.kind = .reexport ∨ e.kind = .star := by
  cases h with
  | name hk _ => exact .inl hk
  | all hk => exact .inr hk

/-- The lines of an export that are hoisted are among its assignments. -/
theorem Export.hoistedLines_subset (e : Export) : e.hoistedLines ⊆ e.assignments := by
  unfold Export.hoistedLines
  split
  · split
    · exact List.Subset.refl _
    · exact List.nil_subset _
  · exact List.nil_subset _

/-- The lines of an export at the end are among its assignments. -/
theorem Export.epilogueLines_subset (e : Export) : e.epilogueLines ⊆ e.assignments := by
  unfold Export.epilogueLines
  split
  · split
    · exact List.nil_subset _
    · exact List.Subset.refl _
  · exact List.Subset.refl _
  · exact List.nil_subset _

end Lines

section Alignment

variable {m : Module}

/-- The specifiers of a module as they occur, with repetitions. -/
def Module.occurrences (m : Module) : List Text := m.body.filterMap Statement.specifier?

/-- Some statement of the module needs the object that a specifier names: it is
an import that binds something, or a re-export. -/
def Module.Needs (m : Module) (specifier : Text) : Prop :=
  (∃ i ∈ m.imports, i.isSideEffect = false ∧ i.specifier = specifier) ∨
    ∃ e ∈ m.exports, e.specifier = some specifier

/-- The imports of a module are those of its body. -/
theorem Module.mem_imports {i : Import} : i ∈ m.imports ↔ .importing i ∈ m.body := by
  simp only [Module.imports, List.mem_filterMap]
  constructor
  · rintro ⟨s, hs, hi⟩
    cases s with
    | importing j => cases hi; exact hs
    | code | exporting => cases hi
  · exact fun h => ⟨_, h, rfl⟩

/-- The exports of a module are those of its body. -/
theorem Module.mem_exports {e : Export} : e ∈ m.exports ↔ .exporting e ∈ m.body := by
  simp only [Module.exports, List.mem_filterMap]
  constructor
  · rintro ⟨s, hs, he⟩
    cases s with
    | exporting f => cases he; exact hs
    | code | importing => cases he
  · exact fun h => ⟨_, h, rfl⟩

/-- The bound specifiers are those whose objects are needed. -/
theorem Module.mem_boundSpecifiers {s : Text} : s ∈ m.boundSpecifiers ↔ m.Needs s := by
  simp only [Module.boundSpecifiers, List.mem_filterMap, Module.Needs, Module.mem_imports,
    Module.mem_exports]
  constructor
  · rintro ⟨statement, hm, hs⟩
    cases statement with
    | code => cases hs
    | importing i =>
      by_cases hi : i.isSideEffect = true
      · simp [hi] at hs
      · exact .inl ⟨i, hm, by simpa using hi, by simpa [hi] using hs⟩
    | exporting e => exact .inr ⟨e, hm, hs⟩
  · rintro (⟨i, hm, hi, rfl⟩ | ⟨e, hm, he⟩)
    · exact ⟨_, hm, by simp [hi]⟩
    · exact ⟨_, hm, he⟩

/-- A specifier whose object is needed occurs in the module. -/
theorem Module.Needs.mem_occurrences {s : Text} (h : m.Needs s) : s ∈ m.occurrences := by
  rw [Module.occurrences, List.mem_filterMap]
  rcases h with ⟨i, hm, -, rfl⟩ | ⟨e, hm, he⟩
  · exact ⟨_, Module.mem_imports.1 hm, rfl⟩
  · exact ⟨_, Module.mem_exports.1 hm, he⟩

/-- How the parts of a definition belong together: `bound` are the specifiers
with a parameter, `unbound` the others, and `name` is the parameter of each
specifier. -/
structure Definition.LinesUp (m : Module) (param : Text) (d : Definition)
    (bound unbound : List Text) (name : Text → Text) : Prop where
  /-- A specifier has a parameter exactly if some statement needs its object. -/
  mem_bound : ∀ s, s ∈ bound ↔ m.Needs s
  /-- The others are the specifiers of modules that are only run. -/
  mem_unbound : ∀ s, s ∈ unbound ↔ s ∈ m.occurrences ∧ ¬m.Needs s
  /-- Every specifier is there once. -/
  once : (bound ++ unbound).Nodup
  /-- Specifiers with a parameter are in the order of the source. -/
  bound_ordered : bound.Pairwise (AppearsBefore m.occurrences)
  /-- So are the others. -/
  unbound_ordered : unbound.Pairwise (AppearsBefore m.occurrences)
  /-- The dependencies are the specifiers, behind the exports object if the module exports
  anything. A path has got the parameter, any other specifier is as it was. -/
  dependencies_eq : d.dependencies = (if m.exports = [] then [] else ["exports".toList]) ++
    (bound ++ unbound).map fun s =>
      if Specifier.isPath s then Url.appendQuery s param else s
  /-- The parameters stand at the same places. -/
  params_eq : d.params = (if m.exports = [] then [] else ["_exports".toList]) ++ bound.map name
  /-- The parameters differ. -/
  params_nodup : d.params.Nodup
  /-- Every parameter is a name. -/
  params_named : ∀ p ∈ d.params, IsParameter p
  /-- No parameter is without a dependency. -/
  params_le : d.params.length ≤ d.dependencies.length
  /-- Every line of the prologue but its directive binds or copies for one statement,
  from the parameter of the specifier that this statement names. -/
  prologue_reads : ∀ line ∈ d.prologue, line = .strict ∨
    ∃ s ∈ bound, line.param? = some (name s) ∧
      ((∃ i ∈ m.imports, i.specifier = s ∧ i.Binds (name s) line) ∨
        ∃ e ∈ m.exports, e.specifier = some s ∧ e.Copies (name s) line)
  /-- Everything that an import binds is bound there. -/
  prologue_binds : ∀ i ∈ m.imports, ∀ line, i.Binds (name i.specifier) line → line ∈ d.prologue
  /-- Everything that an export takes from another module is copied there. -/
  prologue_copies : ∀ e ∈ m.exports, ∀ s, e.specifier = some s → ∀ line,
    e.Copies (name s) line → line ∈ d.prologue

/-- The specifiers that get a parameter, in the order of the source. -/
def Module.neededSpecifiers (m : Module) : List Text :=
  m.specifiers.filter fun s => m.boundSpecifiers.contains s

/-- The needed specifiers are those whose objects are needed. -/
theorem Module.mem_neededSpecifiers {s : Text} : s ∈ m.neededSpecifiers ↔ m.Needs s := by
  rw [Module.neededSpecifiers, List.mem_filter, Module.specifiers, mem_distinct,
    List.contains_iff_mem, Module.mem_boundSpecifiers]
  exact ⟨fun h => h.2, fun h => ⟨h.mem_occurrences, h⟩⟩

/-- The unbound specifiers occur, but no statement needs their objects. -/
theorem Module.mem_unboundSpecifiers {s : Text} :
    s ∈ m.unboundSpecifiers ↔ s ∈ m.occurrences ∧ ¬m.Needs s := by
  simp only [Module.unboundSpecifiers, List.mem_filter, Module.specifiers, mem_distinct,
    Bool.not_eq_true', ← Module.mem_boundSpecifiers, Module.occurrences,
    List.contains_eq_mem, decide_eq_false_iff_not]

/-- The needed specifiers stand in the order in which they first appear. -/
theorem Module.neededSpecifiers_ordered (m : Module) :
    m.neededSpecifiers.Pairwise (AppearsBefore m.occurrences) :=
  (distinct_ordered m.occurrences).filter _

/-- The unbound specifiers stand in the order in which they first appear. -/
theorem Module.unboundSpecifiers_ordered (m : Module) :
    m.unboundSpecifiers.Pairwise (AppearsBefore m.occurrences) :=
  (distinct_ordered m.occurrences).filter _

/-- No dependency is named twice. -/
theorem Module.specifiers_once (m : Module) :
    (m.neededSpecifiers ++ m.unboundSpecifiers).Nodup := by
  refine List.nodup_append.2 ⟨nodup_of_ordered m.neededSpecifiers_ordered,
    nodup_of_ordered m.unboundSpecifiers_ordered, ?_⟩
  rintro s hs _ hu rfl
  exact (Module.mem_unboundSpecifiers.1 hu).2 (Module.mem_neededSpecifiers.1 hs)

/-- Every needed specifier has a parameter, in order. -/
theorem Module.dependencyParams_fst (m : Module) :
    m.dependencyParams.map Prod.fst = m.neededSpecifiers :=
  Dependency.assignParams_fst _ _

/-- The parameter of a specifier is the one at its place. -/
theorem Module.dependencyParams_snd (m : Module) :
    m.dependencyParams.map Prod.snd = m.neededSpecifiers.map m.paramOf := by
  have hkeys : (m.dependencyParams.map Prod.fst).Nodup := by
    rw [m.dependencyParams_fst]
    exact nodup_of_ordered m.neededSpecifiers_ordered
  rw [← map_lookup_keys hkeys, m.dependencyParams_fst]
  rfl

/-- No parameter is named twice. -/
theorem Module.params_nodup (m : Module) :
    (m.reservedParams ++ m.dependencyParams.map Prod.snd).Nodup := by
  refine List.nodup_append.2 ⟨?_, Dependency.assignParams_nodup _ _, ?_⟩
  · unfold Module.reservedParams
    split
    · exact List.nodup_nil
    · exact List.nodup_singleton _
  · rintro p hp _ hq rfl
    exact Dependency.assignParams_notMem hq hp

/-- Every parameter has the name of one. -/
theorem Module.params_named (m : Module) :
    ∀ p ∈ m.reservedParams ++ m.dependencyParams.map Prod.snd, IsParameter p := by
  intro p hp
  rcases List.mem_append.1 hp with hp | hp
  · unfold Module.reservedParams at hp
    split at hp
    · cases hp
    · rw [List.mem_singleton.1 hp]
      exact exportsObject_isParameter
  · exact Dependency.assignParams_isParameter hp

/-- In a module that was read, every line of the prologue reads from the
parameter of a specifier that is needed. -/
theorem Module.prologue_reads (hs : ∀ s ∈ m.body, s.Sourced) :
    ∀ line ∈ m.prologue, line = .strict ∨
      ∃ s ∈ m.neededSpecifiers, line.param? = some (m.paramOf s) ∧
        ((∃ i ∈ m.imports, i.specifier = s ∧ i.Binds (m.paramOf s) line) ∨
          ∃ e ∈ m.exports, e.specifier = some s ∧ e.Copies (m.paramOf s) line) := by
  intro line hline
  rw [Module.prologue, List.cons_append, List.mem_cons, List.mem_append] at hline
  rcases hline with rfl | hline | hline
  · exact .inl rfl
  · obtain ⟨i, hi, hl⟩ := List.mem_flatMap.1 hline
    have hbinds := Import.binds_of_mem_bindings hl
    have hneeds : m.Needs i.specifier := .inl ⟨i, hi, hbinds.isSideEffect_eq_false, rfl⟩
    exact .inr ⟨i.specifier, Module.mem_neededSpecifiers.2 hneeds, hbinds.param?_eq,
      .inl ⟨i, hi, rfl, hbinds⟩⟩
  · obtain ⟨e, he, hl⟩ := List.mem_flatMap.1 hline
    have hcopies := Export.mem_prologueLines_iff.1 hl
    obtain ⟨s, hspecifier⟩ :=
      Option.isSome_iff_exists.1 (hs _ (Module.mem_exports.1 he) hcopies.sourced)
    rw [hspecifier, Option.getD_some] at hcopies
    exact .inr ⟨s, Module.mem_neededSpecifiers.2 (.inr ⟨e, he, hspecifier⟩), hcopies.param?_eq,
      .inr ⟨e, he, hspecifier, hcopies⟩⟩

/-- The prologue has every line that an import needs. -/
theorem Module.prologue_binds (hn : ∀ s ∈ m.body, s.Named) :
    ∀ i ∈ m.imports, ∀ line, i.Binds (m.paramOf i.specifier) line → line ∈ m.prologue := by
  intro i hi line hbinds
  have hline := hbinds.mem_bindings (hn _ (Module.mem_imports.1 hi))
  refine List.mem_cons_of_mem _ (List.mem_append_left _ ?_)
  exact List.mem_flatMap.2 ⟨i, hi, hline⟩

/-- The prologue has every line that a re-export needs. -/
theorem Module.prologue_copies :
    ∀ e ∈ m.exports, ∀ s, e.specifier = some s → ∀ line,
      e.Copies (m.paramOf s) line → line ∈ m.prologue := by
  intro e he s hspecifier line hcopies
  have hline : line ∈ e.prologueLines (m.paramOf (e.specifier.getD [])) := by
    rw [hspecifier, Option.getD_some]
    exact Export.mem_prologueLines_iff.2 hcopies
  refine List.mem_cons_of_mem _ (List.mem_append_right _ ?_)
  exact List.mem_flatMap.2 ⟨e, he, hline⟩

/-- Every module that is read from source has a definition below a plain base
URL, and its dependencies and parameters line up. -/
theorem Module.parse_definition {source base : Text} (h : Module.parse source = .ok m)
    (hb : ∀ c ∈ base, isPlain c = true) (param : Text) :
    ∃ d bound unbound name, m.definition base param = .ok d ∧
      d.LinesUp m param bound unbound name := by
  obtain ⟨first, following, -, hr⟩ := Module.reads_of_parse h
  obtain ⟨body, hbody⟩ := substituteAll_of_isPlain hb (m.body.filterMap Statement.code?)
  have hd : m.definition base param = .ok ⟨m.dependencies param,
      m.reservedParams ++ m.dependencyParams.map Prod.snd, m.prologue,
      m.exports.flatMap Export.hoistedLines, body, m.exports.flatMap Export.epilogueLines⟩ := by
    rw [Module.definition, hbody]
    rfl
  refine ⟨_, m.neededSpecifiers, m.unboundSpecifiers, m.paramOf, hd, ?_⟩
  have hdependencies : m.dependencies param =
      (if m.exports = [] then [] else ["exports".toList]) ++
        (m.neededSpecifiers ++ m.unboundSpecifiers).map fun s =>
          if Specifier.isPath s then Url.appendQuery s param else s := by
    simp only [Module.dependencies, m.dependencyParams_fst, List.isEmpty_iff]
    rfl
  have hparams : m.reservedParams ++ m.dependencyParams.map Prod.snd =
      (if m.exports = [] then [] else ["_exports".toList]) ++ m.neededSpecifiers.map m.paramOf := by
    simp only [Module.reservedParams, m.dependencyParams_snd, List.isEmpty_iff]
    rfl
  exact {
    mem_bound := fun s => Module.mem_neededSpecifiers
    mem_unbound := fun s => Module.mem_unboundSpecifiers
    once := m.specifiers_once
    bound_ordered := m.neededSpecifiers_ordered
    unbound_ordered := m.unboundSpecifiers_ordered
    dependencies_eq := hdependencies
    params_eq := hparams
    params_nodup := m.params_nodup
    params_named := m.params_named
    params_le := by
      simp only [hdependencies, hparams, List.length_append, List.length_map]
      split <;> simp only [List.length_nil, List.length_singleton] <;> omega
    prologue_reads := Module.prologue_reads (hr.forall_mem Taken.next_sourced)
    prologue_binds := Module.prologue_binds (hr.forall_mem Taken.next_named)
    prologue_copies := Module.prologue_copies }

/-- Two specifiers of one stem with a plain name equal to a numbered one, a
module that is only run between them, and a star export: the two paths get the
parameter, the two packages stay. -/
theorem Module.parse_definition_numbered :
    ∃ m, Module.parse
        "import a from './x.js'\nimport 'y'\nimport b from 'x2'\nexport * from '/x'".toList = .ok m ∧
      (∀ c ∈ "https://a.b/".toList, isPlain c = true) ∧
      ∃ d bound unbound name, m.definition "https://a.b/".toList "v=1".toList = .ok d ∧
        d.LinesUp m "v=1".toList bound unbound name ∧
        d.dependencies = ["exports".toList, "./x.js?v=1".toList, "x2".toList, "/x?v=1".toList, ['y']] ∧
        d.params = ["_exports".toList, "_x".toList, "_x2".toList, "_x3".toList] ∧
        d.prologue = [.strict, .bindDefault ['a'] "_x".toList, .bindDefault ['b'] "_x2".toList,
          .copyAll "_x3".toList] := by
  let m : Module := ⟨[
    .importing ⟨1, "import a from './x.js'".toList, "./x.js".toList, some ['a'], none, []⟩,
    .importing ⟨2, "import 'y'".toList, ['y'], none, none, []⟩,
    .importing ⟨3, "import b from 'x2'".toList, "x2".toList, some ['b'], none, []⟩,
    .exporting ⟨.star, 4, "export * from '/x'".toList, [], [], some "/x".toList⟩]⟩
  have h : Module.parse
      "import a from './x.js'\nimport 'y'\nimport b from 'x2'\nexport * from '/x'".toList = .ok m := by
    decide +kernel
  have hb : ∀ c ∈ "https://a.b/".toList, isPlain c = true := by decide
  obtain ⟨d, bound, unbound, name, hd, hlines⟩ := Module.parse_definition h hb "v=1".toList
  have hdefinition : m.definition "https://a.b/".toList "v=1".toList = .ok
      ⟨["exports".toList, "./x.js?v=1".toList, "x2".toList, "/x?v=1".toList, ['y']],
        ["_exports".toList, "_x".toList, "_x2".toList, "_x3".toList],
        [.strict, .bindDefault ['a'] "_x".toList, .bindDefault ['b'] "_x2".toList,
          .copyAll "_x3".toList], [], [], []⟩ := by
    decide +kernel
  obtain rfl := Except.ok.inj (hdefinition.symm.trans hd)
  exact ⟨m, h, hb, _, bound, unbound, name, hd, hlines, rfl, rfl, rfl⟩

end Alignment

end ModuleScripts
