import ModuleScripts.Proofs.Dependencies

/-!
# Names that a factory declares

The prologue of a factory declares the local names of the imports, in the scope
of the parameters. A parameter is named after a specifier and kept apart from the
other parameters only, so a local name of this form can be declared twice. If no
local name has it, the parameters and the declared names all differ.
-/

namespace ModuleScripts

/-- The names that a line declares. -/
def FactoryLine.declares : FactoryLine → List Text
  | bindNamespace name _ => [name]
  | bindDefault name _ => [name]
  | bindNamed names _ => names.map Rename.newName
  | _ => []

/-- The names that the prologue declares. -/
def Definition.declared (d : Definition) : List Text := d.prologue.flatMap FactoryLine.declares

/-- The local names of an import. -/
def Import.localNames (i : Import) : List Text :=
  i.namespaceName.toList ++ i.defaultName.toList ++ i.named.map Rename.newName

/-- The local names of all imports. -/
def Module.localNames (m : Module) : List Text := m.imports.flatMap Import.localNames

/-- The lines of an import declare its local names. -/
theorem Import.declares_bindings {i : Import} (param : Text)
    (h : i.defaultName ≠ some [] ∧ i.namespaceName ≠ some []) :
    (i.bindings param).flatMap FactoryLine.declares = i.localNames := by
  obtain ⟨number, statement, specifier, defaultName, namespaceName, named⟩ := i
  by_cases hside : Import.isSideEffect
      ⟨number, statement, specifier, defaultName, namespaceName, named⟩ = true
  · rw [Import.bindings, if_pos hside]
    simp only [Import.isSideEffect, Bool.and_eq_true, Option.isNone_iff_eq_none,
      List.isEmpty_iff] at hside
    obtain ⟨⟨rfl, rfl⟩, rfl⟩ := hside
    rfl
  · rw [Import.bindings, if_neg hside, Import.localNames, List.flatMap_append,
      List.flatMap_append]
    refine congrArg₂ _ (congrArg₂ _ ?_ ?_) ?_
    · cases namespaceName with
      | none => rfl
      | some name =>
        cases name with
        | nil => exact absurd rfl h.2
        | cons c r => rfl
    · cases defaultName with
      | none => rfl
      | some name =>
        cases name with
        | nil => exact absurd rfl h.1
        | cons c r => rfl
    · cases named with
      | nil => rfl
      | cons r named => exact List.append_nil _

section Chosen

variable {m : Module} {name : Text}

/-- The names that parameters are chosen from: the object of the exports if there
are any, and the name of a specifier whose object is needed, alone or with a
number from two on. -/
inductive Module.ParamName (m : Module) : Text → Prop where
  /-- The object of the exports. -/
  | exportsObject (h : m.exports ≠ []) : m.ParamName FactoryLine.exportsObject
  /-- The name of a specifier. -/
  | plain {s : Text} (h : m.Needs s) : m.ParamName (Dependency.paramBase s)
  /-- The name of a specifier with a number. -/
  | numbered {s : Text} (h : m.Needs s) (n : Nat) :
    m.ParamName (Dependency.paramBase s ++ Text.ofNat (n + 2))

/-- A parameter has one of the names that parameters are chosen from. -/
theorem Module.paramName_of_mem (h : name ∈ m.reservedParams ++ m.dependencyParams.map Prod.snd) :
    m.ParamName name := by
  rcases List.mem_append.1 h with h | h
  · unfold Module.reservedParams at h
    split at h
    · cases h
    · next he =>
      rw [List.mem_singleton.1 h]
      exact .exportsObject (by simpa using he)
  · obtain ⟨s, hs, hname⟩ := Dependency.exists_of_mem_assignParams h
    have hneeds : m.Needs s := Module.mem_neededSpecifiers.1 hs
    rcases hname with rfl | ⟨n, rfl⟩
    · exact .plain hneeds
    · exact .numbered hneeds n

/-- What reads a dependency without binding a name declares nothing. -/
theorem Export.declares_prologueLines (param : Text) (e : Export) :
    (e.prologueLines param).flatMap FactoryLine.declares = [] := by
  unfold Export.prologueLines
  split
  · exact List.flatMap_eq_nil_iff.2 fun line hline => by
      obtain ⟨r, -, rfl⟩ := List.mem_map.1 hline
      rfl
  · rfl
  · rfl

/-- The prologue declares the local names of the module. -/
theorem Module.declares_prologue (h : ∀ s ∈ m.body, s.Named) :
    m.prologue.flatMap FactoryLine.declares = m.localNames := by
  have himports : (m.imports.flatMap fun i => i.bindings (m.paramOf i.specifier)).flatMap
      FactoryLine.declares = m.localNames := by
    rw [List.flatMap_assoc]
    exact List.flatMap_congr fun i hi =>
      i.declares_bindings _ (h _ (Module.mem_imports.1 hi))
  have hexports : (m.exports.flatMap fun e =>
      e.prologueLines (m.paramOf (e.specifier.getD []))).flatMap FactoryLine.declares = [] := by
    rw [List.flatMap_assoc]
    exact List.flatMap_eq_nil_iff.2 fun e _ => e.declares_prologueLines _
  rw [Module.prologue, List.flatMap_append, List.flatMap_cons, himports, hexports,
    List.append_nil]
  rfl

/-- The parameters and the prologue of a definition are those of its module. -/
theorem Module.definition_parts {base param : Text} {d : Definition}
    (h : m.definition base param = .ok d) :
    d.params = m.reservedParams ++ m.dependencyParams.map Prod.snd ∧ d.prologue = m.prologue := by
  obtain ⟨body, -, rfl⟩ := map_eq_ok h
  exact ⟨rfl, rfl⟩

/-- The prologue declares the local names of the imports. If these differ and
none is a name that parameters are chosen from, no name is declared twice. -/
theorem Module.parse_declared {source base param : Text} {d : Definition}
    (h : Module.parse source = .ok m) (hd : m.definition base param = .ok d)
    (hnames : m.localNames.Nodup) (hfree : ∀ name ∈ m.localNames, ¬m.ParamName name) :
    d.declared = m.localNames ∧ (d.params ++ d.declared).Nodup := by
  obtain ⟨first, following, -, hr⟩ := Module.reads_of_parse h
  obtain ⟨hparams, hprologue⟩ := Module.definition_parts hd
  have hdeclared : d.declared = m.localNames := by
    rw [Definition.declared, hprologue]
    exact Module.declares_prologue (hr.forall_mem Taken.next_named)
  refine ⟨hdeclared, ?_⟩
  rw [hparams, hdeclared]
  refine List.nodup_append.2 ⟨m.params_nodup, hnames, ?_⟩
  rintro name hparam _ hlocal rfl
  exact hfree _ hlocal (Module.paramName_of_mem hparam)

/-- Local names with an underscore, beside two specifiers of one name. -/
theorem Module.parse_declared_underscores :
    ∃ m d, Module.parse
        "import _x, \x7bb as c\x7d from './a/util.js'\nimport * as _u from './util.js'\nexport \x7bc\x7d".toList =
        .ok m ∧
      m.definition "https://a.b/".toList [] = .ok d ∧ m.localNames.Nodup ∧
      (∀ name ∈ m.localNames, ¬m.ParamName name) ∧
      d.declared = m.localNames ∧ (d.params ++ d.declared).Nodup := by
  obtain ⟨m, hm⟩ : ∃ m : Module, m =
      ⟨[.importing ⟨1, "import _x, \x7bb as c\x7d from './a/util.js'".toList,
          "./a/util.js".toList, some "_x".toList, none, [⟨['b'], ['c']⟩]⟩,
        .importing ⟨2, "import * as _u from './util.js'".toList, "./util.js".toList, none,
          some "_u".toList, []⟩,
        .exporting ⟨.named, 3, "export \x7bc\x7d".toList, [], [⟨['c'], ['c']⟩], none⟩]⟩ := ⟨_, rfl⟩
  have h : Module.parse
      "import _x, \x7bb as c\x7d from './a/util.js'\nimport * as _u from './util.js'\nexport \x7bc\x7d".toList =
      .ok m := by
    rw [hm]
    decide +kernel
  obtain ⟨d, hd⟩ : ∃ d, m.definition "https://a.b/".toList [] = .ok d := by
    rw [hm]
    exact ⟨_, rfl⟩
  have hnames : m.localNames.Nodup := by
    rw [hm]
    decide +kernel
  have hshort : ∀ name ∈ m.localNames, name.length < 5 := by
    rw [hm]
    decide +kernel
  have hlong : ∀ s ∈ m.neededSpecifiers, (Dependency.paramBase s).length = 5 := by
    rw [hm]
    decide +kernel
  have hfree : ∀ name ∈ m.localNames, ¬m.ParamName name := by
    intro name hname hparam
    have hlt := hshort name hname
    cases hparam with
    | exportsObject => exact absurd hlt (by decide)
    | plain hs =>
      have hfive := hlong _ (Module.mem_neededSpecifiers.2 hs)
      omega
    | numbered hs n =>
      have hfive := hlong _ (Module.mem_neededSpecifiers.2 hs)
      rw [List.length_append] at hlt
      omega
  exact ⟨m, d, h, hd, hnames, hfree, Module.parse_declared h hd hnames hfree⟩

/-- Imports whose local name is the parameter of their own specifier, and the
object of the exports. -/
theorem Module.parse_declared_parameter :
    (∃ m d, Module.parse "import _a from './a.js';".toList = .ok m ∧ m.localNames.Nodup ∧
      m.definition "https://a.b/".toList [] = .ok d ∧
      "_a".toList ∈ d.params ∧ "_a".toList ∈ d.declared) ∧
    ∃ m d, Module.parse "import _exports from './a.js'\nexport \x7b_exports\x7d".toList = .ok m ∧
      m.localNames.Nodup ∧ m.definition "https://a.b/".toList [] = .ok d ∧
      "_exports".toList ∈ d.params ∧ "_exports".toList ∈ d.declared := by
  have hown : Module.parse "import _a from './a.js';".toList =
      .ok ⟨[.importing ⟨1, "import _a from './a.js';".toList, "./a.js".toList, some "_a".toList,
        none, []⟩]⟩ := by
    decide +kernel
  have hexports : Module.parse "import _exports from './a.js'\nexport \x7b_exports\x7d".toList =
      .ok ⟨[.importing ⟨1, "import _exports from './a.js'".toList, "./a.js".toList,
          some "_exports".toList, none, []⟩,
        .exporting ⟨.named, 2, "export \x7b_exports\x7d".toList, [],
          [⟨"_exports".toList, "_exports".toList⟩], none⟩]⟩ := by
    decide +kernel
  exact ⟨⟨_, ⟨["./a.js".toList], ["_a".toList],
      [.strict, .bindDefault "_a".toList "_a".toList], [], [], []⟩, hown, by decide,
      by decide +kernel, by decide, by decide⟩,
    ⟨_, ⟨["exports".toList, "./a.js".toList], ["_exports".toList, "_a".toList],
      [.strict, .bindDefault "_exports".toList "_a".toList], [], [],
      [.assign "_exports".toList "_exports".toList]⟩, hexports, by decide, by decide +kernel,
      by decide, by decide⟩⟩

end Chosen

end ModuleScripts
