import Mathlib.Data.List.Basic
import ModuleScripts.Proofs.DefaultDeclaration
import ModuleScripts.Proofs.Dependencies
import ModuleScripts.Proofs.FactoryRun
import ModuleScripts.Proofs.MetaObject

/-!
# Exports of a definition

The lines that export stand in all parts of a factory: re-exports before the code
of the module, with the lines that copy whole dependencies among them, functions
in front of the code, the default expression in it, and everything else behind
it. Each exported name is assigned once, so it has its own source whatever is
copied, and a copied key has the value of the first dependency in the order of the
source.
-/

namespace ModuleScripts

variable {α : Type}

namespace Export

/-- The names that an export gives by itself. -/
def exportedNames (e : Export) : List Text :=
  match e.kind with
  | .declaration | .named | .reexport => e.names.map Rename.newName
  | .defaultValue => [defaultKey]
  | .star | .other _ => []

/-- These names with what they stand for, where `contents` is what each specifier
stands for. -/
def sources (base : Text) (contents : Text → Contents α) (e : Export) : List (Text × Value α) :=
  match e.kind with
  | .declaration | .named => e.names.map fun r => (r.newName, .binding r.name)
  | .reexport =>
    e.names.map fun r => (r.newName, (contents (e.specifier.getD [])).value r.name)
  | .defaultValue =>
    [(defaultKey, .expression ((Meta.Substitution.exact base).apply (Text.trimStart e.body)))]
  | .star | .other _ => []

/-- The specifier of a dependency that is copied. -/
def star? (e : Export) : Option Text :=
  match e.kind with
  | .star => e.specifier
  | _ => none

/-- The sources of an export are listed under its exported names. -/
theorem map_fst_sources (base : Text) (contents : Text → Contents α) (e : Export) :
    (e.sources base contents).map Prod.fst = e.exportedNames := by
  unfold sources exportedNames
  cases e.kind <;> simp [Function.comp_def]

end Export


section Search

variable {β γ δ : Type}

/-- The first result over joined lists is the first result over the lists. -/
theorem findSome?_flatMap (l : List β) (f : β → List γ) (g : γ → Option δ) :
    (l.flatMap f).findSome? g = l.findSome? fun a => (f a).findSome? g := by
  induction l with
  | nil => rfl
  | cons a l ih =>
    rw [List.flatMap_cons, List.findSome?_append, ih, List.findSome?_cons]
    cases (f a).findSome? g <;> rfl

/-- The first result over filtered members is the first result over those that
are kept. -/
theorem findSome?_filterMap (l : List β) (f : β → Option γ) (g : γ → Option δ) :
    (l.filterMap f).findSome? g = l.findSome? fun a => (f a).bind g := by
  induction l with
  | nil => rfl
  | cons a l ih =>
    rw [List.findSome?_cons]
    cases h : f a with
    | none => rw [List.filterMap_cons_none h, ih, Option.bind_none]
    | some b => rw [List.filterMap_cons_some h, List.findSome?_cons, ih, Option.bind_some]

/-- Functions that agree on the members of a list have the same first
result. -/
theorem findSome?_congr {l : List β} {f g : β → Option γ} (h : ∀ a ∈ l, f a = g a) :
    l.findSome? f = l.findSome? g := by
  induction l with
  | nil => rfl
  | cons a l ih =>
    obtain ⟨ha, hl⟩ := List.forall_mem_cons.1 h
    rw [List.findSome?_cons, List.findSome?_cons, ha, ih hl]

end Search

section Lines

variable {base : Text} {contents given : Text → Contents α} {param key : Text}

/-- Lines that each assign a name. -/
theorem FactoryLine.assigned_map {names : List Rename} {line : Rename → FactoryLine}
    {entry : Rename → Text × Value α} (h : ∀ r, (line r).assigned? given = some (entry r)) :
    (names.map line).filterMap (FactoryLine.assigned? given) = names.map entry := by
  have hcomp : FactoryLine.assigned? given ∘ line = some ∘ entry := funext h
  rw [List.filterMap_map, hcomp, List.filterMap_eq_map]

/-- The lines of an export assign its names once. -/
theorem Export.assigned_lines (e : Export)
    (h : e.kind = .reexport → given param = contents (e.specifier.getD [])) :
    (e.prologueLines param).filterMap (FactoryLine.assigned? given) ++
      e.hoistedLines.filterMap (FactoryLine.assigned? given) ++
      (e.code?.toList.map (FactoryLine.substitute (Meta.Substitution.exact base))).filterMap
        (FactoryLine.assigned? given) ++
      e.epilogueLines.filterMap (FactoryLine.assigned? given) = e.sources base contents := by
  have hlocal : e.assignments.filterMap (FactoryLine.assigned? given) =
      e.names.map fun r => (r.newName, .binding r.name) :=
    FactoryLine.assigned_map fun r => rfl
  have hcopied : (e.names.map fun r => FactoryLine.copy r.newName param r.name).filterMap
      (FactoryLine.assigned? given) =
      e.names.map fun r => (r.newName, (given param).value r.name) :=
    FactoryLine.assigned_map fun r => rfl
  unfold Export.prologueLines Export.hoistedLines Export.code? Export.epilogueLines Export.sources
  cases hkind : e.kind with
  | declaration =>
    cases e.isHoisted with
    | true => exact (List.append_nil _).trans ((List.append_nil _).trans hlocal)
    | false => exact hlocal
  | defaultValue => rfl
  | named => exact hlocal
  | reexport =>
    rw [h hkind] at hcopied
    exact (List.append_nil _).trans ((List.append_nil _).trans
      ((List.append_nil _).trans hcopied))
  | star => rfl
  | other word => rfl

/-- Only the line of a star copies a dependency. -/
theorem Export.copied_prologueLines (e : Export) (hs : e.kind = .star → e.specifier.isSome = true)
    (h : e.kind = .star → given param = contents (e.specifier.getD [])) :
    (e.prologueLines param).findSome? (FactoryLine.copied? given key) =
      e.star?.bind fun s => ExportMap.copied (contents s) key := by
  unfold Export.prologueLines Export.star?
  cases hkind : e.kind with
  | star =>
    obtain ⟨s, hspecifier⟩ := Option.isSome_iff_exists.1 (hs hkind)
    have hgiven := h hkind
    rw [hspecifier, Option.getD_some] at hgiven
    have hone : [FactoryLine.copyAll param].findSome? (FactoryLine.copied? given key) =
        ExportMap.copied (given param) key := by
      rw [List.findSome?_cons, FactoryLine.copied?]
      cases ExportMap.copied (given param) key <;> rfl
    exact hone.trans (by rw [hspecifier, hgiven, Option.bind_some])
  | reexport =>
    refine List.findSome?_eq_none_iff.2 fun line hline => ?_
    obtain ⟨r, -, rfl⟩ := List.mem_map.1 hline
    rfl
  | declaration | defaultValue | named | other => rfl

/-- The other lines of an export copy no dependency. -/
theorem Export.copied_assignments {lines : Export → List FactoryLine} {exports : List Export}
    (h : ∀ e, lines e ⊆ e.assignments) :
    (exports.flatMap lines).findSome? (FactoryLine.copied? given key) = none := by
  refine List.findSome?_eq_none_iff.2 fun line hline => ?_
  obtain ⟨e, -, he⟩ := List.mem_flatMap.1 hline
  obtain ⟨r, -, rfl⟩ := List.mem_map.1 (h e he)
  rfl

/-- The code of a module assigns the default exports. -/
theorem FactoryLine.assigned_code (s : Meta.Substitution) (statements : List Statement) :
    ((statements.filterMap Statement.code?).map (FactoryLine.substitute s)).filterMap
        (FactoryLine.assigned? given) =
      (statements.filterMap Statement.export?).flatMap fun e =>
        (e.code?.toList.map (FactoryLine.substitute s)).filterMap
          (FactoryLine.assigned? given) := by
  induction statements with
  | nil => rfl
  | cons statement statements ih =>
    cases statement with
    | code line text => exact ih
    | importing i => exact ih
    | exporting e =>
      rw [List.filterMap_cons_some (rfl : Statement.export? (.exporting e) = some e),
        List.flatMap_cons, ← ih]
      cases he : e.code? with
      | none =>
        have hcode : Statement.code? (.exporting e) = none := he
        rw [List.filterMap_cons_none hcode]
        rfl
      | some line =>
        have hcode : Statement.code? (.exporting e) = some line := he
        rw [List.filterMap_cons_some hcode, List.map_cons, ← List.singleton_append,
          List.filterMap_append]
        rfl

end Lines

section Runs

variable {m : Module} {base param : Text} {contents : Text → Contents α} {own : Contents α}
  {d : Definition}

/-- What a parameter is given: the object at its place. -/
def Definition.argument (d : Definition) (objects : List (Contents α)) (param : Text) : Contents α :=
  ((d.params.zip objects).lookup param).getD []

/-- The object of the exports behind the last line, if it starts empty. -/
def Definition.exportMap (d : Definition) (objects : List (Contents α)) : ExportMap α :=
  d.lines.foldl (FactoryLine.run (d.argument objects)) fun _ => none

namespace Module

/-- The objects of the dependencies of a module, in the order of its definition,
where `own` is the object of its exports and `contents` what each specifier stands
for. -/
def objects (contents : Text → Contents α) (own : Contents α) (m : Module) : List (Contents α) :=
  (if m.exports.isEmpty then [] else [own]) ++
    (m.dependencyParams.map Prod.fst ++ m.unboundSpecifiers).map contents

/-- The names that the exports of a module give by themselves. -/
def exportedNames (m : Module) : List Text := m.exports.flatMap Export.exportedNames

/-- These names with what they stand for. -/
def sources (base : Text) (contents : Text → Contents α) (m : Module) : List (Text × Value α) :=
  m.exports.flatMap (Export.sources base contents)

/-- The specifiers of the dependencies that are copied, in the order of the source. -/
def stars (m : Module) : List Text := m.exports.filterMap Export.star?

/-- The sources of a module are listed under its exported names. -/
theorem map_fst_sources (base : Text) (contents : Text → Contents α) (m : Module) :
    (m.sources base contents).map Prod.fst = m.exportedNames := by
  rw [sources, List.map_flatMap, exportedNames]
  exact List.flatMap_congr fun e _ => e.map_fst_sources base contents

end Module

/-- The definition of a module below a plain base URL. -/
def Module.exactDefinition (base param : Text) (m : Module) : Definition :=
  ⟨m.dependencies param, m.reservedParams ++ m.dependencyParams.map Prod.snd, m.prologue,
    m.exports.flatMap Export.hoistedLines,
    (m.body.filterMap Statement.code?).map
      (FactoryLine.substitute (Meta.Substitution.exact base)),
    m.exports.flatMap Export.epilogueLines⟩

/-- With a plain base URL the definition is the exact one. -/
theorem Module.definition_eq_exact (hb : ∀ c ∈ base, isPlain c = true) :
    m.definition base param = .ok (m.exactDefinition base param) := by
  have hd := Module.definition_of_isShort (m := m)
    (.inr fun c hc => Meta.isShort_of_isPlain (hb c hc)) param
  rw [Meta.undoing_eq_exact fun c hc => Meta.isUndone_of_isPlain (hb c hc)] at hd
  exact hd

/-- The parameter of a specifier is given its object. -/
theorem Module.argument_paramOf {s : Text} (hs : s ∈ m.neededSpecifiers) :
    (m.exactDefinition base param).argument (m.objects contents own) (m.paramOf s) =
      contents s := by
  have hobjects : m.objects contents own = (if m.exports.isEmpty then [] else [own]) ++
      (m.neededSpecifiers.map contents ++ m.unboundSpecifiers.map contents) := by
    rw [Module.objects, m.dependencyParams_fst, List.map_append]
  have hreserved : m.reservedParams.length =
      (if m.exports.isEmpty then [] else [own] : List (Contents α)).length := by
    rw [Module.reservedParams]
    split <;> rfl
  have hparams : (m.exactDefinition base param).params =
      m.reservedParams ++ m.neededSpecifiers.map m.paramOf := by
    rw [← m.dependencyParams_snd]
    rfl
  have hnodup : (m.exactDefinition base param).params.Nodup := m.params_nodup
  -- The objects of modules that are only run stand behind the parameters.
  have hzip : (m.neededSpecifiers.map m.paramOf).zip
      (m.neededSpecifiers.map contents ++ m.unboundSpecifiers.map contents) =
      m.neededSpecifiers.map fun s => (m.paramOf s, contents s) := by
    rw [← List.append_nil (m.neededSpecifiers.map m.paramOf), List.zip_append (by simp),
      List.zip_map', List.zip_nil_left, List.append_nil]
  have hmem : (m.paramOf s, contents s) ∈
      (m.exactDefinition base param).params.zip (m.objects contents own) := by
    rw [hparams, hobjects, List.zip_append hreserved, hzip]
    exact List.mem_append_right _ (List.mem_map.2 ⟨s, hs, rfl⟩)
  have hkeys : ((m.exactDefinition base param).params.zip (m.objects contents own)).map Prod.fst =
      (m.exactDefinition base param).params := by
    refine List.map_fst_zip ?_
    simp only [hparams, hobjects, List.length_append, List.length_map, hreserved]
    omega
  rw [Definition.argument, lookup_of_mem (by rwa [hkeys]) hmem, Option.getD_some]

/-- The specifier of a re-export or a star is needed. -/
theorem Module.needed_of_sourced (h : ∀ s ∈ m.body, s.Sourced) {e : Export} (he : e ∈ m.exports)
    (hkind : e.kind = .reexport ∨ e.kind = .star) :
    e.specifier.isSome = true ∧ e.specifier.getD [] ∈ m.neededSpecifiers := by
  have hsome := h _ (Module.mem_exports.1 he) hkind
  obtain ⟨s, hs⟩ := Option.isSome_iff_exists.1 hsome
  rw [hs, Option.getD_some]
  exact ⟨rfl, Module.mem_neededSpecifiers.2 (.inr ⟨e, he, hs⟩)⟩

/-- The lines of a factory assign every exported name once. -/
theorem Module.assigned_lines {given : Text → Contents α}
    (hgiven : ∀ e ∈ m.exports, e.kind = .reexport →
      given (m.paramOf (e.specifier.getD [])) = contents (e.specifier.getD [])) :
    ((m.exactDefinition base param).lines.filterMap (FactoryLine.assigned? given)).Perm
      (m.sources base contents) := by
  have himports : (m.imports.flatMap fun i => i.bindings (m.paramOf i.specifier)).filterMap
      (FactoryLine.assigned? given) = [] := by
    refine List.filterMap_eq_nil_iff.2 fun line hline => ?_
    obtain ⟨i, -, hi⟩ := List.mem_flatMap.1 hline
    cases Import.binds_of_mem_bindings hi <;> rfl
  have hstrict : FactoryLine.assigned? given .strict = none := rfl
  rw [Definition.lines, Module.exactDefinition, Module.prologue, List.filterMap_append,
    List.filterMap_append, List.filterMap_append, List.filterMap_append,
    List.filterMap_cons_none hstrict, himports, List.nil_append, FactoryLine.assigned_code,
    List.filterMap_flatMap, List.filterMap_flatMap, List.filterMap_flatMap]
  -- The exports are gone over once for each part; taken together, part for part of one export.
  refine (((List.flatMap_append_perm _ _ _).append_right _).append_right _).trans
    (((List.flatMap_append_perm _ _ _).append_right _).trans
      ((List.flatMap_append_perm _ _ _).trans ?_))
  rw [Module.sources]
  exact List.Perm.of_eq (List.flatMap_congr fun e he => e.assigned_lines (hgiven e he))

/-- The lines of a factory copy the dependencies of the stars. -/
theorem Module.copied_lines {given : Text → Contents α} (h : ∀ s ∈ m.body, s.Sourced)
    (hgiven : ∀ e ∈ m.exports, e.kind = .star →
      given (m.paramOf (e.specifier.getD [])) = contents (e.specifier.getD [])) (key : Text) :
    (m.exactDefinition base param).lines.findSome? (FactoryLine.copied? given key) =
      m.stars.findSome? fun s => ExportMap.copied (contents s) key := by
  have himports : (m.imports.flatMap fun i => i.bindings (m.paramOf i.specifier)).findSome?
      (FactoryLine.copied? given key) = none := by
    refine List.findSome?_eq_none_iff.2 fun line hline => ?_
    obtain ⟨i, -, hi⟩ := List.mem_flatMap.1 hline
    cases Import.binds_of_mem_bindings hi <;> rfl
  have hcode : ((m.body.filterMap Statement.code?).map
      (FactoryLine.substitute (Meta.Substitution.exact base))).findSome?
      (FactoryLine.copied? given key) = none := by
    refine List.findSome?_eq_none_iff.2 fun line hline => ?_
    obtain ⟨unfilled, hunfilled, rfl⟩ := List.mem_map.1 hline
    obtain ⟨s, -, hs⟩ := List.mem_filterMap.1 hunfilled
    rcases Statement.code?_cases hs with ⟨text, rfl⟩ | ⟨value, rfl⟩ <;> rfl
  rw [Definition.lines, Module.exactDefinition, Module.prologue, List.findSome?_append,
    List.findSome?_append, List.findSome?_append, List.findSome?_append, List.findSome?_cons,
    himports, hcode, Export.copied_assignments Export.hoistedLines_subset,
    Export.copied_assignments Export.epilogueLines_subset, Option.or_none, Option.or_none,
    Option.or_none, findSome?_flatMap, Module.stars, findSome?_filterMap]
  exact findSome?_congr fun e he => e.copied_prologueLines
    (fun hkind => (Module.needed_of_sourced h he (.inr hkind)).1) (hgiven e he)

/-- The part of a factory that assigns the names of an export: functions are there
before the code of the module runs, other local names behind it. -/
def Export.part (d : Definition) (e : Export) : List FactoryLine :=
  match e.kind with
  | .reexport => d.prologue
  | .declaration => if e.isHoisted then d.hoisted else d.epilogue
  | .defaultValue => d.body
  | .named => d.epilogue
  | .star | .other _ => []

/-- Every name is assigned in the part of its export. -/
theorem Export.mem_part {given : Text → Contents α} {e : Export} (he : e ∈ m.exports)
    (hgiven : e.kind = .reexport →
      given (m.paramOf (e.specifier.getD [])) = contents (e.specifier.getD []))
    {entry : Text × Value α} (h : entry ∈ e.sources base contents) :
    entry ∈ (e.part (m.exactDefinition base param)).filterMap (FactoryLine.assigned? given) := by
  unfold Export.sources at h
  unfold Export.part
  cases hkind : e.kind with
  | declaration =>
    rw [hkind] at h
    obtain ⟨r, hr, rfl⟩ := List.mem_map.1 h
    have hline : .assign r.newName r.name ∈ e.assignments := List.mem_map.2 ⟨r, hr, rfl⟩
    refine List.mem_filterMap.2 ⟨.assign r.newName r.name, ?_, rfl⟩
    cases hfunction : e.isHoisted with
    | true =>
      have hlines : e.hoistedLines = e.assignments := by
        rw [Export.hoistedLines, hkind, hfunction]
        rfl
      exact List.mem_flatMap.2 ⟨e, he, hlines ▸ hline⟩
    | false =>
      have hlines : e.epilogueLines = e.assignments := by
        rw [Export.epilogueLines, hkind, hfunction]
        rfl
      exact List.mem_flatMap.2 ⟨e, he, hlines ▸ hline⟩
  | defaultValue =>
    rw [hkind] at h
    obtain rfl := List.mem_singleton.1 h
    have hcode : Statement.code? (.exporting e) =
        some (.assignDefault (Text.trimStart e.body)) := by
      rw [Statement.code?, Export.code?, hkind]
    have hline : .assignDefault (Text.trimStart e.body) ∈ m.body.filterMap Statement.code? :=
      List.mem_filterMap.2 ⟨_, Module.mem_exports.1 he, hcode⟩
    exact List.mem_filterMap.2 ⟨_, List.mem_map.2 ⟨_, hline, rfl⟩, rfl⟩
  | named =>
    rw [hkind] at h
    obtain ⟨r, hr, rfl⟩ := List.mem_map.1 h
    have hlines : e.epilogueLines = e.assignments := by rw [Export.epilogueLines, hkind]
    refine List.mem_filterMap.2 ⟨.assign r.newName r.name, ?_, rfl⟩
    exact List.mem_flatMap.2 ⟨e, he, hlines ▸ List.mem_map.2 ⟨r, hr, rfl⟩⟩
  | reexport =>
    rw [hkind] at h
    obtain ⟨r, hr, rfl⟩ := List.mem_map.1 h
    have hline : .copy r.newName (m.paramOf (e.specifier.getD [])) r.name ∈
        e.prologueLines (m.paramOf (e.specifier.getD [])) := by
      rw [Export.prologueLines, hkind]
      exact List.mem_map.2 ⟨r, hr, rfl⟩
    refine List.mem_filterMap.2 ⟨_, List.mem_append_right _ (List.mem_flatMap.2 ⟨e, he, hline⟩), ?_⟩
    rw [FactoryLine.assigned?, hgiven hkind]
  | star =>
    rw [hkind] at h
    cases h
  | other word =>
    rw [hkind] at h
    cases h

/-- What a definition exports when its lines run. -/
structure Definition.ExportsOf (m : Module) (base : Text) (contents : Text → Contents α)
    (own : Contents α) (d : Definition) : Prop where
  /-- Every exported name is assigned by one line, to its own source. -/
  assigned_once : (d.lines.filterMap
    (FactoryLine.assigned? (d.argument (m.objects contents own)))).Perm (m.sources base contents)
  /-- This line stands in the part of the factory that its export belongs to. -/
  placed : ∀ e ∈ m.exports, ∀ entry ∈ e.sources base contents, entry ∈ (e.part d).filterMap
    (FactoryLine.assigned? (d.argument (m.objects contents own)))
  /-- The declared name of a function is there before the code of the module runs, that of
  any other declaration behind it. -/
  hoisted : ∀ e ∈ m.exports, e.kind = .declaration → ∀ entry ∈ e.sources base contents,
    (IsFunction e.body → entry ∈ d.hoisted.filterMap
      (FactoryLine.assigned? (d.argument (m.objects contents own)))) ∧
    (¬IsFunction e.body → entry ∈ d.epilogue.filterMap
      (FactoryLine.assigned? (d.argument (m.objects contents own))))
  /-- Every exported name ends as its own source. -/
  explicit : ∀ entry ∈ m.sources base contents,
    d.exportMap (m.objects contents own) entry.1 = some entry.2
  /-- Every other key comes from the first copied dependency that has it. -/
  copied : ∀ key ∉ m.exportedNames, key ≠ defaultKey →
    d.exportMap (m.objects contents own) key =
      (m.stars.findSome? fun s => (contents s).lookup key).map fun v => .member (some v)
  /-- The default export is never copied. -/
  default_own : defaultKey ∉ m.exportedNames →
    d.exportMap (m.objects contents own) defaultKey = none

/-- The exports of a module whose exported names differ: each name has its own
source, whatever stars there are and wherever they stand. -/
theorem Module.parse_exports {source : Text} (h : Module.parse source = .ok m)
    (hb : ∀ c ∈ base, isPlain c = true) (hnames : m.exportedNames.Nodup) (param : Text)
    (contents : Text → Contents α) (own : Contents α) :
    ∃ d, m.definition base param = .ok d ∧ d.ExportsOf m base contents own := by
  obtain ⟨first, following, -, hr⟩ := Module.reads_of_parse h
  have hsourced : ∀ s ∈ m.body, s.Sourced := hr.forall_mem Taken.next_sourced
  refine ⟨_, Module.definition_eq_exact hb, ?_⟩
  let given := (m.exactDefinition base param).argument (m.objects contents own)
  have hgiven : ∀ e ∈ m.exports, e.kind = .reexport ∨ e.kind = .star →
      given (m.paramOf (e.specifier.getD [])) = contents (e.specifier.getD []) :=
    fun e he hkind => Module.argument_paramOf (Module.needed_of_sourced hsourced he hkind).2
  have honce : ((m.exactDefinition base param).lines.filterMap
      (FactoryLine.assigned? given)).Perm (m.sources base contents) :=
    Module.assigned_lines fun e he hkind => hgiven e he (.inl hkind)
  have hkeys : (((m.exactDefinition base param).lines.filterMap
      (FactoryLine.assigned? given)).map Prod.fst).Nodup := by
    rw [(honce.map Prod.fst).nodup_iff, m.map_fst_sources]
    exact hnames
  have hother : ∀ key ∉ m.exportedNames,
      (m.exactDefinition base param).exportMap (m.objects contents own) key =
        m.stars.findSome? fun s => ExportMap.copied (contents s) key := fun key hkey => by
    have hfree : ∀ v, (key, v) ∉ (m.exactDefinition base param).lines.filterMap
        (FactoryLine.assigned? given) := fun v hv => by
      rw [← m.map_fst_sources base contents] at hkey
      exact hkey (List.mem_map.2 ⟨(key, v), honce.mem_iff.1 hv, rfl⟩)
    rw [Definition.exportMap, FactoryLine.foldl_run_unassigned hfree, Option.none_or]
    exact Module.copied_lines hsourced (fun e he hkind => hgiven e he (.inr hkind)) key
  have hplaced : ∀ e ∈ m.exports, ∀ entry ∈ e.sources base contents,
      entry ∈ (e.part (m.exactDefinition base param)).filterMap (FactoryLine.assigned? given) :=
    fun e he entry hentry => Export.mem_part he (fun hkind => hgiven e he (.inl hkind)) hentry
  exact {
    assigned_once := honce
    placed := hplaced
    hoisted := fun e he hkind entry hentry => by
      have hpart := hplaced e he entry hentry
      simp only [Export.part, hkind] at hpart
      constructor
      · intro hfunction
        rwa [if_pos (e.isHoisted_iff.2 hfunction)] at hpart
      · intro hother
        rwa [if_neg fun h => hother (e.isHoisted_iff.1 h)] at hpart
    explicit := fun entry hentry =>
      FactoryLine.foldl_run_assigned hkeys (honce.mem_iff.2 hentry)
    copied := fun key hkey hdefault => by
      rw [hother key hkey, List.map_findSome?]
      exact findSome?_congr fun s _ => by
        rw [ExportMap.copied, if_neg hdefault]
        rfl
    default_own := fun hkey => by
      rw [hother _ hkey]
      exact List.findSome?_eq_none_iff.2 fun s _ => by rw [ExportMap.copied, if_pos rfl] }

/-- Stars in front of and behind a re-export, a function and a default expression,
with dependencies that share keys with each other and with the module. -/
theorem Module.parse_exports_stars :
    ∃ m, Module.parse
        "export * from './a.js'\nexport \x7bx as y\x7d from './b.js'\nexport function f() \x7b\x7d\nexport * from './b.js'\nexport default 1\nexport * as n from './a.js'".toList =
        .ok m ∧
      (∀ c ∈ "https://a.b/".toList, isPlain c = true) ∧ m.exportedNames.Nodup ∧
      ∃ d, m.definition "https://a.b/".toList "v=1".toList = .ok d ∧
        d.ExportsOf m "https://a.b/".toList
          (fun s => if s = "./a.js".toList then [(['f'], 1), (['k'], 2), (defaultKey, 3)]
            else [(['y'], 4), (['k'], 5), (['x'], 6)]) [] := by
  have h : Module.parse
      "export * from './a.js'\nexport \x7bx as y\x7d from './b.js'\nexport function f() \x7b\x7d\nexport * from './b.js'\nexport default 1\nexport * as n from './a.js'".toList =
      .ok ⟨[.exporting ⟨.star, 1, "export * from './a.js'".toList, [], [], some "./a.js".toList⟩,
        .exporting ⟨.reexport, 2, "export \x7bx as y\x7d from './b.js'".toList, [],
          [⟨['x'], ['y']⟩], some "./b.js".toList⟩,
        .exporting ⟨.declaration, 3, "export function f() \x7b\x7d".toList,
          "function f() \x7b\x7d".toList, [⟨['f'], ['f']⟩], none⟩,
        .exporting ⟨.star, 4, "export * from './b.js'".toList, [], [], some "./b.js".toList⟩,
        .exporting ⟨.defaultValue, 5, "export default 1".toList, ['1'], [], none⟩,
        .exporting ⟨.reexport, 6, "export * as n from './a.js'".toList, [], [⟨['*'], ['n']⟩],
          some "./a.js".toList⟩]⟩ := by
    decide +kernel
  have hb : ∀ c ∈ "https://a.b/".toList, isPlain c = true := by decide
  exact ⟨_, h, hb, by decide +kernel, Module.parse_exports h hb (by decide +kernel) _ _ _⟩

end Runs

end ModuleScripts
