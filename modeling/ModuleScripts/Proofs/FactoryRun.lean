import Mathlib.Logic.Function.Basic
import ModuleScripts.Output.Amd

/-!
# What the lines of a factory export

A factory that runs fills the object of its exports, which starts empty. An
assignment sets its key. A line that copies all exports of a dependency goes over
the keys of the dependency and sets those that are not there yet, except the
default export. So a key that exactly one line assigns has its value at the end,
and a key that none assigns has the one of the first dependency that is copied
and has the key.
-/

namespace ModuleScripts

/-- What a module has under its keys. -/
abbrev Contents (α : Type) := List (Text × α)

/-- What an exported name stands for. -/
inductive Value (α : Type) where
  /-- A binding of the module itself. -/
  | binding (name : Text)
  /-- The value of the default expression. -/
  | expression (code : Text)
  /-- What a dependency has under a key, if it has anything there. -/
  | member (value : Option α)
  /-- A dependency as a whole. -/
  | whole (contents : Contents α)
  deriving DecidableEq, Repr

/-- The object of the exports: a value under every key that is there. -/
abbrev ExportMap (α : Type) := Text → Option (Value α)

/-- The key of the default export. -/
def defaultKey : Text := "default".toList

variable {α : Type}

/-- What a re-export takes from a dependency under a name: the star is the whole. -/
def Contents.value (contents : Contents α) (name : Text) : Value α :=
  if name = ['*'] then .whole contents else .member (contents.lookup name)

namespace ExportMap

variable {contents : Contents α} {x : ExportMap α} {key other : Text} {v : Value α}

/-- Sets a key. -/
def set (x : ExportMap α) (key : Text) (v : Value α) : ExportMap α :=
  Function.update x key (some v)

/-- A key has the value that is set. -/
@[simp] theorem set_self : x.set key v key = some v := Function.update_self _ _ _

/-- The other keys keep their values. -/
theorem set_of_ne (h : other ≠ key) : x.set key v other = x other := Function.update_of_ne h _ _

/-- Copies one key of a dependency, unless it is the default export or there. -/
def copyKey (contents : Contents α) (x : ExportMap α) (key : Text) : ExportMap α :=
  if key ≠ defaultKey ∧ x key = none then x.set key (.member (contents.lookup key)) else x

/-- Copies the keys of a dependency in turn. -/
def copyAll (contents : Contents α) (x : ExportMap α) : ExportMap α :=
  (contents.map Prod.fst).foldl (copyKey contents) x

/-- What copying a dependency gives for a key that is not there. -/
def copied (contents : Contents α) (key : Text) : Option (Value α) :=
  if key = defaultKey then none else (contents.lookup key).map fun v => .member (some v)

/-- Copying a key leaves the other keys alone. -/
theorem copyKey_of_ne (h : other ≠ key) : copyKey contents x key other = x other := by
  unfold copyKey
  split
  · exact set_of_ne h
  · rfl

/-- Copying a key leaves a value that is there. -/
theorem copyKey_of_some (h : x key = some v) : copyKey contents x other key = some v := by
  by_cases hk : key = other
  · have hthere : ¬(other ≠ defaultKey ∧ x other = none) := fun hc => by
      rw [← hk, h] at hc
      exact Option.some_ne_none _ hc.2
    rw [copyKey, if_neg hthere, h]
  · rw [copyKey_of_ne hk, h]

/-- What is there stays. -/
theorem foldl_copyKey_of_some (keys : List Text) (h : x key = some v) :
    keys.foldl (copyKey contents) x key = some v := by
  induction keys generalizing x with
  | nil => exact h
  | cons other keys ih => exact ih (copyKey_of_some h)

/-- A key that is not copied stays as it was. -/
theorem foldl_copyKey_of_notMem {keys : List Text} (h : key = defaultKey ∨ key ∉ keys) :
    keys.foldl (copyKey contents) x key = x key := by
  induction keys generalizing x with
  | nil => rfl
  | cons other keys ih =>
    have hstep : copyKey contents x other key = x key := by
      by_cases hk : key = other
      · have hdefault : key = defaultKey :=
          h.resolve_right fun hn => hn (hk ▸ List.mem_cons_self)
        rw [copyKey, if_neg fun hc => hc.1 (hk ▸ hdefault)]
      · exact copyKey_of_ne hk
    rw [List.foldl_cons, ih (h.imp_right fun hn hm => hn (List.mem_cons_of_mem _ hm)), hstep]

/-- A key that is copied and not there has what the dependency has. -/
theorem foldl_copyKey_of_mem {keys : List Text} (h : key ∈ keys) (hdefault : key ≠ defaultKey)
    (hx : x key = none) :
    keys.foldl (copyKey contents) x key = some (.member (contents.lookup key)) := by
  induction keys generalizing x with
  | nil => cases h
  | cons other keys ih =>
    by_cases hk : key = other
    · rw [← hk]
      refine foldl_copyKey_of_some keys ?_
      rw [copyKey, if_pos ⟨hdefault, hx⟩, set_self]
    · refine ih ((List.mem_cons.1 h).resolve_left hk) ?_
      rw [copyKey_of_ne hk, hx]

/-- Copying a dependency adds what is not there. -/
theorem copyAll_apply (contents : Contents α) (x : ExportMap α) (key : Text) :
    copyAll contents x key = (x key).or (copied contents key) := by
  cases hx : x key with
  | some v => rw [copyAll, foldl_copyKey_of_some _ hx, Option.some_or]
  | none =>
    rw [Option.none_or, copyAll, copied]
    by_cases hdefault : key = defaultKey
    · rw [foldl_copyKey_of_notMem (.inl hdefault), hx, if_pos hdefault]
    · rw [if_neg hdefault]
      cases hl : contents.lookup key with
      | none =>
        have hkey : key ∉ contents.map Prod.fst := fun hm => by
          obtain ⟨entry, hentry, rfl⟩ := List.mem_map.1 hm
          have hne := List.lookup_eq_none_iff.1 hl entry hentry
          simp at hne
        rw [foldl_copyKey_of_notMem (.inr hkey), hx, Option.map_none]
      | some v =>
        have hkey : key ∈ contents.map Prod.fst := by
          obtain ⟨before, behind, rfl, -⟩ := List.lookup_eq_some_iff.1 hl
          simp
        rw [foldl_copyKey_of_mem hkey hdefault hx, hl, Option.map_some]

end ExportMap

namespace FactoryLine

variable {given : Text → Contents α} {x : ExportMap α} {key : Text} {v : Value α}
  {line : FactoryLine} {lines : List FactoryLine}

/-- What a line does to the object of the exports, with what each parameter was
given. Code of the module leaves it alone. -/
def run (given : Text → Contents α) (x : ExportMap α) : FactoryLine → ExportMap α
  | assign exported name => x.set exported (.binding name)
  | assignDefault value => x.set defaultKey (.expression value)
  | copy exported param name => x.set exported ((given param).value name)
  | copyAll param => x.copyAll (given param)
  | _ => x

/-- The key that a line assigns, and its value. -/
def assigned? (given : Text → Contents α) : FactoryLine → Option (Text × Value α)
  | assign exported name => some (exported, .binding name)
  | assignDefault value => some (defaultKey, .expression value)
  | copy exported param name => some (exported, (given param).value name)
  | _ => none

/-- What a line gives for a key that is not there. -/
def copied? (given : Text → Contents α) (key : Text) : FactoryLine → Option (Value α)
  | copyAll param => ExportMap.copied (given param) key
  | _ => none

/-- An assignment sets its key. -/
theorem run_assigned (h : line.assigned? given = some (key, v)) : line.run given x key = some v := by
  cases line with
  | assign exported name =>
    cases h
    exact ExportMap.set_self
  | assignDefault value =>
    cases h
    exact ExportMap.set_self
  | copy exported param name =>
    cases h
    exact ExportMap.set_self
  | strict | bindNamespace | bindDefault | bindNamed | copyAll | code => cases h

/-- Every other line keeps what is there, and adds what it copies. -/
theorem run_unassigned (h : ∀ v, line.assigned? given ≠ some (key, v)) :
    line.run given x key = (x key).or (line.copied? given key) := by
  cases line with
  | assign exported name =>
    have hne : key ≠ exported := fun he => h (.binding name) (he ▸ rfl)
    exact (ExportMap.set_of_ne hne).trans Option.or_none.symm
  | assignDefault value =>
    have hne : key ≠ defaultKey := fun he => h (.expression value) (he ▸ rfl)
    exact (ExportMap.set_of_ne hne).trans Option.or_none.symm
  | copy exported param name =>
    have hne : key ≠ exported := fun he => h ((given param).value name) (he ▸ rfl)
    exact (ExportMap.set_of_ne hne).trans Option.or_none.symm
  | copyAll param => exact ExportMap.copyAll_apply (given param) x key
  | strict | bindNamespace | bindDefault | bindNamed | code => exact Option.or_none.symm

/-- A key that no line assigns has what was there before, or else the value of the
first dependency that is copied and has it. -/
theorem foldl_run_unassigned (h : ∀ v, (key, v) ∉ lines.filterMap (assigned? given)) :
    lines.foldl (run given) x key = (x key).or (lines.findSome? (copied? given key)) := by
  induction lines generalizing x with
  | nil => exact Option.or_none.symm
  | cons line lines ih =>
    have hline : ∀ v, line.assigned? given ≠ some (key, v) := fun v hv =>
      h v (List.mem_filterMap.2 ⟨line, List.mem_cons_self, hv⟩)
    have hlines : ∀ v, (key, v) ∉ lines.filterMap (assigned? given) := fun v hv => by
      obtain ⟨other, hother, hv⟩ := List.mem_filterMap.1 hv
      exact h v (List.mem_filterMap.2 ⟨other, List.mem_cons_of_mem _ hother, hv⟩)
    rw [List.foldl_cons, ih hlines, run_unassigned hline, Option.or_assoc, List.findSome?_cons]
    cases line.copied? given key <;> rfl

/-- A key that one line assigns has its value. -/
theorem foldl_run_assigned (h : ((lines.filterMap (assigned? given)).map Prod.fst).Nodup)
    (hm : (key, v) ∈ lines.filterMap (assigned? given)) :
    lines.foldl (run given) x key = some v := by
  induction lines generalizing x with
  | nil => cases hm
  | cons line lines ih =>
    rw [List.foldl_cons]
    cases hline : line.assigned? given with
    | none =>
      rw [List.filterMap_cons_none hline] at h hm
      exact ih h hm
    | some entry =>
      rw [List.filterMap_cons_some hline] at h hm
      rw [List.map_cons, List.nodup_cons] at h
      rcases List.mem_cons.1 hm with rfl | hm
      · have hother : ∀ w, (key, w) ∉ lines.filterMap (assigned? given) := fun w hw =>
          h.1 (List.mem_map.2 ⟨(key, w), hw, rfl⟩)
        rw [foldl_run_unassigned hother, run_assigned hline, Option.some_or]
      · exact ih h.2 hm

/-- A dependency that is copied before the assignment does not keep its value. -/
example : [copyAll ['p'], assign ['k'] ['f'], copyAll ['q']].foldl
    (run fun _ => [(['k'], 1), (defaultKey, 2)]) (fun _ => none) ['k'] =
      some (.binding ['f']) := by
  decide

end FactoryLine

end ModuleScripts
