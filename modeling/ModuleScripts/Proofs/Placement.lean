import ModuleScripts.Proofs.Neighbours
import ModuleScripts.Proofs.ScriptChanges
import ModuleScripts.Proofs.Stages

/-!
# Where the polyfills stand

In a document whose modules become definitions the loader stands right before
the first module script, or at the start of the first head where there is no
module script. The runtime stands at the start of the first head. Both are put in
before fallbacks are taken out and scripts are changed, and neither of these
moves them. Tours tell this of the whole document: in each case the outcome is
the tour of the input with the two put in at their places and with its parts
finished.
-/

namespace ModuleScripts

namespace Visit

/-- A member that is the first to fit behind those before it. -/
structure IsFirst (fits : Visit → Bool) (before : List Visit) (v : Visit) : Prop where
  /-- It fits. -/
  here : fits v = true
  /-- Nothing before it does. -/
  none_before : ∀ w ∈ before, fits w = false

/-- A list with a member that fits has a first one. -/
theorem exists_isFirst {fits : Visit → Bool} {visits : List Visit} {v : Visit} (hv : v ∈ visits)
    (h : fits v = true) : ∃ before first after, visits = before ++ first :: after ∧
      IsFirst fits before first := by
  induction visits with
  | nil => cases hv
  | cons w visits ih =>
    cases hw : fits w with
    | true => exact ⟨[], w, visits, rfl, hw, List.forall_mem_nil _⟩
    | false =>
      have hbehind : v ∈ visits := by
        rcases List.mem_cons.1 hv with rfl | hv
        · rw [hw] at h
          cases h
        · exact hv
      obtain ⟨before, first, after, rfl, hfirst⟩ := ih hbehind
      refine ⟨w :: before, first, after, rfl, hfirst.here, ?_⟩
      exact List.forall_mem_cons.2 ⟨hw, hfirst.none_before⟩

/-- The first member that fits is replaced, and the others stay. -/
theorem IsFirst.replaceFirst? {fits : Visit → Bool} {before : List Visit} {v : Visit}
    (h : IsFirst fits before v) (change : Visit → List Visit) (after : List Visit) :
    replaceFirst? fits change (before ++ v :: after) = some (before ++ (change v ++ after)) :=
  replaceFirst?_split h.none_before h.here after

/-- A list is left by a replacement of a member by itself. -/
theorem replaceFirst?_self (fits : Visit → Bool) (visits : List Visit) :
    (Visit.replaceFirst? fits (fun v => [v]) visits).getD visits = visits := by
  induction visits with
  | nil => rfl
  | cons v visits ih =>
    rw [Visit.replaceFirst?]
    split
    · rfl
    · cases hr : Visit.replaceFirst? fits (fun v => [v]) visits with
      | none => rfl
      | some others =>
        rw [hr, Option.getD_some] at ih
        rw [ih]
        rfl

section Finished

variable {param : Text} {new : List Text → Text → Text}

/-- A part of a tour without its fallbacks and with its module scripts made
definitions. -/
def finished (param : Text) (new : List Text → Text → Text) (visits : List Visit) : List Visit :=
  (changeAll (Node.converted true param new) [] (visits.filter stays)).1

/-- What is no module script is not converted. -/
theorem change_of_not_module {v : Visit} (h : isModule v = false) (given : List Text) :
    change (Node.converted true param new) given v = (v, given) := by
  cases v with
  | whole node =>
    rw [Node.isModule_whole] at h
    rw [change]
    split
    · rw [Node.converted, Node.not_external_of_not_module h, Node.not_inline_of_not_module h]
      rfl
    · rfl
  | _ => rfl

/-- Where no module script is, nothing is converted. -/
theorem changeAll_of_not_module {visits : List Visit} (h : ∀ v ∈ visits, isModule v = false)
    (given : List Text) :
    changeAll (Node.converted true param new) given visits = (visits, given) :=
  changeAll_of_fixed fun v hv => change_of_not_module (h v hv) given

/-- Before the first module script finishing takes the fallbacks out. -/
theorem finished_of_not_module {visits : List Visit} (h : ∀ v ∈ visits, isModule v = false) :
    finished param new visits = visits.filter stays := by
  rw [finished, changeAll_of_not_module fun v hv => h v (List.mem_filter.1 hv).1]

/-- Parts are finished one by one up to the first module script. -/
theorem finished_append {a : List Visit} (h : ∀ v ∈ a, isModule v = false) (b : List Visit) :
    finished param new (a ++ b) = finished param new a ++ finished param new b := by
  have hstay : ∀ v ∈ a.filter stays, isModule v = false := fun v hv => h v (List.mem_filter.1 hv).1
  rw [finished_of_not_module h, finished, List.filter_append, changeAll_append,
    changeAll_of_not_module hstay, finished]

/-- Members of which finishing leaves every one as it is. -/
def Kept (visits : List Visit) : Prop := ∀ v ∈ visits, isModule v = false ∧ stays v = true

/-- What finishing leaves as it is stays in front of what is finished. -/
theorem Kept.finished_append {a : List Visit} (h : Kept a) (b : List Visit) :
    finished param new (a ++ b) = a ++ finished param new b := by
  have hmodule : ∀ v ∈ a, isModule v = false := fun v hv => (h v hv).1
  rw [Visit.finished_append hmodule, finished_of_not_module hmodule,
    List.filter_eq_self.2 fun v hv => (h v hv).2]

/-- A head stays, and so do scripts that are neither modules nor fallbacks. -/
theorem kept_head {head : Visit} (h : isHead head = true) : Kept [head] := by
  cases head with
  | enter node => exact List.forall_mem_singleton.2 ⟨rfl, rfl⟩
  | _ => cases h

/-- Scripts that are neither modules nor fallbacks stay. -/
theorem kept_scripts {scripts : List Node}
    (h : ∀ node ∈ scripts, node.isModuleScript = false ∧ node.isFallback = false) :
    Kept (scripts.map .whole) := by
  intro v hv
  obtain ⟨node, hnode, rfl⟩ := List.mem_map.1 hv
  rw [Node.isModule_whole, Node.stays_whole, (h node hnode).2]
  exact ⟨(h node hnode).1, rfl⟩

/-- Two parts that finishing leaves as they are stay together. -/
theorem Kept.append {a b : List Visit} (ha : Kept a) (hb : Kept b) : Kept (a ++ b) :=
  List.forall_mem_append.2 ⟨ha, hb⟩

/-- Finishing leaves heads and makes none. -/
theorem isHead_of_mem_changeAll {σ : Type} {f : σ → Node → Node × σ} {s : σ}
    {visits : List Visit} (h : ∀ v ∈ visits, isHead v = false) :
    ∀ v ∈ (changeAll f s visits).1, isHead v = false := by
  induction visits generalizing s with
  | nil => exact List.forall_mem_nil _
  | cons w visits ih =>
    obtain ⟨hw, hvisits⟩ := List.forall_mem_cons.1 h
    rw [changeAll]
    refine List.forall_mem_cons.2 ⟨?_, ih hvisits⟩
    cases w with
    | whole node =>
      rw [change]
      split
      · rfl
      · rfl
    | _ => exact hw

/-- Members that stay and are no module scripts are left in the middle of a
finished part. -/
theorem Kept.finished_split {middle : List Visit} (h : Kept middle) {a : List Visit}
    (ha : ∀ v ∈ a, isHead v = false) (b : List Visit) :
    ∃ x y, finished param new (a ++ (middle ++ b)) = x ++ (middle ++ y) ∧
      ∀ v ∈ x, isHead v = false := by
  have hkept : middle.filter stays = middle := List.filter_eq_self.2 fun v hv => (h v hv).2
  have hmodule : ∀ v ∈ middle, isModule v = false := fun v hv => (h v hv).1
  have hnone : ∀ v ∈ a.filter stays, isHead v = false :=
    fun v hv => ha v (List.mem_filter.1 hv).1
  rw [finished, List.filter_append, List.filter_append, hkept, changeAll_append, changeAll_append,
    changeAll_of_not_module hmodule]
  exact ⟨_, _, rfl, isHead_of_mem_changeAll hnone⟩

end Finished

section Polyfills

variable {loader : Node} {runtime : List Node} {before between after : List Visit}
  {head m : Visit}

/-- A tour with the runtime behind the start of the first head, and then the
loader before the first module script or else behind the start of the first
head. -/
def withPolyfills (loader : Node) (runtime : List Node) (visits : List Visit) : List Visit :=
  let started := (replaceFirst? isHead (fun v => v :: runtime.map .whole) visits).getD visits
  ((replaceFirst? isModule (fun v => [.whole loader, v]) started).or
    (replaceFirst? isHead (fun v => [v, .whole loader]) started)).getD started

/-- A module script is no head. -/
theorem not_head_of_isModule (h : isModule m = true) : isHead m = false := by
  cases m with
  | whole node => rfl
  | _ => cases h

/-- Without a module script and a head no polyfill has a place. -/
theorem withPolyfills_nowhere {visits : List Visit} (hmodule : ∀ v ∈ visits, isModule v = false)
    (hhead : ∀ v ∈ visits, isHead v = false) : withPolyfills loader runtime visits = visits := by
  simp only [withPolyfills, replaceFirst?_eq_none hhead, replaceFirst?_eq_none hmodule,
    Option.or_none, Option.getD_none]

/-- Without a module script runtime and loader come into the head, the loader
first. -/
theorem withPolyfills_in_head (hruntime : Kept (runtime.map .whole))
    (hfirst : IsFirst isHead before head)
    (hmodule : ∀ v ∈ before ++ head :: after, isModule v = false) :
    withPolyfills loader runtime (before ++ head :: after) =
      before ++ head :: .whole loader :: (runtime.map .whole ++ after) := by
  have hstarted : ∀ v ∈ before ++ (head :: runtime.map .whole ++ after), isModule v = false := by
    obtain ⟨hbefore, hrest⟩ := List.forall_mem_append.1 hmodule
    obtain ⟨hhead, hafter⟩ := List.forall_mem_cons.1 hrest
    refine List.forall_mem_append.2 ⟨hbefore, List.forall_mem_append.2 ⟨?_, hafter⟩⟩
    exact List.forall_mem_cons.2 ⟨hhead, fun v hv => (hruntime v hv).1⟩
  rw [withPolyfills, hfirst.replaceFirst?, Option.getD_some]
  rw [replaceFirst?_eq_none hstarted, Option.none_or, List.cons_append, hfirst.replaceFirst?]
  rfl

/-- Without a head the loader comes before the first module script, and the
runtime has no place. -/
theorem withPolyfills_no_head (hfirst : IsFirst isModule before m)
    (hhead : ∀ v ∈ before ++ m :: after, isHead v = false) :
    withPolyfills loader runtime (before ++ m :: after) =
      before ++ .whole loader :: m :: after := by
  rw [withPolyfills, replaceFirst?_eq_none hhead, Option.getD_none]
  rw [hfirst.replaceFirst?]
  rfl

/-- Where the head is first the runtime comes into it, and the loader before
the first module script behind. -/
theorem withPolyfills_head_first (hruntime : Kept (runtime.map .whole))
    (hhead : IsFirst isHead before head) (hmodule : IsFirst isModule (before ++ head :: between) m) :
    withPolyfills loader runtime (before ++ head :: (between ++ m :: after)) =
      before ++ head :: (runtime.map .whole ++ (between ++ .whole loader :: m :: after)) := by
  have hstarted : IsFirst isModule (before ++ head :: (runtime.map .whole ++ between)) m := by
    obtain ⟨hbefore, hrest⟩ := List.forall_mem_append.1 hmodule.none_before
    obtain ⟨hhead, hbetween⟩ := List.forall_mem_cons.1 hrest
    refine ⟨hmodule.here, List.forall_mem_append.2 ⟨hbefore, List.forall_mem_cons.2 ⟨hhead, ?_⟩⟩⟩
    exact List.forall_mem_append.2 ⟨fun v hv => (hruntime v hv).1, hbetween⟩
  have hplaced := hstarted.replaceFirst? (fun v => [.whole loader, v]) after
  rw [withPolyfills, hhead.replaceFirst?, Option.getD_some]
  simp only [List.append_assoc, List.cons_append] at hplaced ⊢
  rw [hplaced]
  rfl

/-- Where the module script is first the loader comes before it, and the
runtime into the head behind. -/
theorem withPolyfills_module_first (hmodule : IsFirst isModule before m)
    (hhead : IsFirst isHead (before ++ m :: between) head) :
    withPolyfills loader runtime (before ++ m :: (between ++ head :: after)) =
      before ++ .whole loader :: m :: (between ++ head :: (runtime.map .whole ++ after)) := by
  have hstarted := hhead.replaceFirst? (fun v => v :: runtime.map .whole) after
  rw [List.append_assoc, List.cons_append] at hstarted
  rw [withPolyfills, hstarted, Option.getD_some]
  rw [List.append_assoc, List.cons_append, hmodule.replaceFirst?]
  rfl

/-- Wherever the first head is, the loader stands right before the first module
script. -/
theorem withPolyfills_module (hruntime : Kept (runtime.map .whole))
    (hfirst : IsFirst isModule before m) :
    ∃ a b, withPolyfills loader runtime (before ++ m :: after) = a ++ .whole loader :: m :: b ∧
      ∀ v ∈ a, isModule v = false := by
  by_cases hbefore : ∃ v ∈ before, isHead v = true
  · obtain ⟨v, hv, hhead⟩ := hbefore
    obtain ⟨start, head, between, rfl, hhead⟩ := exists_isFirst hv hhead
    refine ⟨start ++ head :: (runtime.map .whole ++ between), after, ?_, ?_⟩
    · rw [List.append_assoc, List.cons_append, withPolyfills_head_first hruntime hhead hfirst]
      simp only [List.append_assoc, List.cons_append]
    · obtain ⟨hstart, hrest⟩ := List.forall_mem_append.1 hfirst.none_before
      obtain ⟨hplain, hbetween⟩ := List.forall_mem_cons.1 hrest
      refine List.forall_mem_append.2 ⟨hstart, List.forall_mem_cons.2 ⟨hplain, ?_⟩⟩
      exact List.forall_mem_append.2 ⟨fun v hv => (hruntime v hv).1, hbetween⟩
  · have hnone : ∀ v ∈ before, isHead v = false := fun v hv =>
      Bool.eq_false_iff.2 fun hhead => hbefore ⟨v, hv, hhead⟩
    have hm := not_head_of_isModule hfirst.here
    by_cases hafter : ∃ v ∈ after, isHead v = true
    · obtain ⟨v, hv, hhead⟩ := hafter
      obtain ⟨between, head, rest, rfl, hhead⟩ := exists_isFirst hv hhead
      have hbehind : IsFirst isHead (before ++ m :: between) head :=
        ⟨hhead.here, List.forall_mem_append.2 ⟨hnone, List.forall_mem_cons.2
          ⟨hm, hhead.none_before⟩⟩⟩
      exact ⟨before, _, withPolyfills_module_first hfirst hbehind, hfirst.none_before⟩
    · have hlater : ∀ v ∈ after, isHead v = false := fun v hv =>
        Bool.eq_false_iff.2 fun hhead => hafter ⟨v, hv, hhead⟩
      exact ⟨before, after, withPolyfills_no_head hfirst (List.forall_mem_append.2
        ⟨hnone, List.forall_mem_cons.2 ⟨hm, hlater⟩⟩), hfirst.none_before⟩

/-- What is put in behind the start of the first head. -/
theorem withPolyfills_head (hruntime : Kept (runtime.map .whole))
    (hfirst : IsFirst isHead before head) :
    ∃ a b, withPolyfills loader runtime (before ++ head :: after) =
        a ++ ([head] ++ (if (before ++ head :: after).any isModule then runtime
          else loader :: runtime).map .whole ++ b) ∧
      ∀ v ∈ a, isHead v = false := by
  cases hany : (before ++ head :: after).any isModule with
  | false =>
    have hmodule : ∀ v ∈ before ++ head :: after, isModule v = false :=
      fun v hv => Bool.eq_false_iff.2 (List.any_eq_false.1 hany v hv)
    refine ⟨before, after, ?_, hfirst.none_before⟩
    rw [withPolyfills_in_head hruntime hfirst hmodule]
    rfl
  | true =>
    obtain ⟨v, hv, hmodule⟩ := List.any_eq_true.1 hany
    obtain ⟨start, m, rest, hsplit, hm⟩ := exists_isFirst hv hmodule
    have hne : head ≠ m := by
      rintro rfl
      have hhead := not_head_of_isModule hm.here
      rw [hfirst.here] at hhead
      cases hhead
    rcases List.append_eq_append_iff.1 hsplit with ⟨e, rfl, hrest⟩ | ⟨e, rfl, hrest⟩
    · -- the head comes first
      cases e with
      | nil => exact absurd (List.cons.inj hrest).1 hne
      | cons first between =>
        rw [List.cons_append] at hrest
        obtain ⟨rfl, rfl⟩ := List.cons.inj hrest
        refine ⟨before, between ++ .whole loader :: m :: rest, ?_, hfirst.none_before⟩
        rw [withPolyfills_head_first hruntime hfirst hm]
        simp only [if_true, List.nil_append, List.cons_append]
    · -- the module script comes first
      cases e with
      | nil => exact absurd (List.cons.inj hrest).1.symm hne
      | cons first between =>
        rw [List.cons_append] at hrest
        obtain ⟨rfl, rfl⟩ := List.cons.inj hrest
        refine ⟨start ++ .whole loader :: m :: between, after, ?_, ?_⟩
        · rw [List.append_assoc, List.cons_append, withPolyfills_module_first hm hfirst]
          simp only [if_true, List.nil_append, List.cons_append, List.append_assoc]
        · obtain ⟨hstart, hbehind⟩ := List.forall_mem_append.1 hfirst.none_before
          exact List.forall_mem_append.2 ⟨hstart, List.forall_mem_cons.2 ⟨rfl, hbehind⟩⟩

variable {param : Text} {new : List Text → Text → Text}

/-- In the outcome the loader stands right before the first module script, unless
that one is a fallback. -/
theorem finished_withPolyfills_module {m : Node}
    (hloader : Kept [.whole loader]) (hruntime : Kept (runtime.map .whole))
    (hfirst : IsFirst isModule before (.whole m)) (hfallback : m.isFallback = false) :
    ∃ a b, finished param new (withPolyfills loader runtime (before ++ .whole m :: after)) =
      a ++ .whole loader :: .whole (m.converted true param new []).1 :: b := by
  obtain ⟨a, b, hplaced, ha⟩ := @withPolyfills_module loader runtime before after _ hruntime hfirst
  have hmodule : m.isModuleScript = true := (Node.isModule_whole m).symm.trans hfirst.here
  have hstays : stays (.whole m) = true := by rw [Node.stays_whole, hfallback, Bool.not_false]
  have hnext : ∃ rest, finished param new (.whole m :: b) =
      .whole (m.converted true param new []).1 :: rest := by
    rw [finished, List.filter_cons_of_pos hstays, changeAll, change,
      if_pos (Node.isScript_of_isModuleScript hmodule)]
    exact ⟨_, rfl⟩
  obtain ⟨rest, hrest⟩ := hnext
  refine ⟨finished param new a, rest, ?_⟩
  rw [hplaced, finished_append ha, ← hrest]
  exact congrArg (finished param new a ++ ·) (hloader.finished_append (.whole m :: b))

/-- In the outcome the first head is the same one, and what was put into it stands
behind its start. -/
theorem finished_withPolyfills_head
    (hloader : Kept [.whole loader]) (hruntime : Kept (runtime.map .whole))
    (hfirst : IsFirst isHead before head) :
    ∃ a b, finished param new (withPolyfills loader runtime (before ++ head :: after)) =
        a ++ head :: ((if (before ++ head :: after).any isModule then runtime
          else loader :: runtime).map .whole ++ b) ∧
      ∀ v ∈ a, isHead v = false := by
  obtain ⟨a, b, hplaced, ha⟩ := @withPolyfills_head loader runtime before after head hruntime hfirst
  have hscripts : Kept ((if (before ++ head :: after).any isModule then runtime
      else loader :: runtime).map .whole) := by
    split
    · exact hruntime
    · exact hloader.append hruntime
  obtain ⟨x, y, hfinished, hx⟩ :=
    @Kept.finished_split param new _ ((kept_head hfirst.here).append hscripts) a ha b
  refine ⟨x, y, ?_, hx⟩
  rw [hplaced, hfinished, List.append_assoc]
  rfl

end Polyfills

end Visit

namespace Node

open Visit

section Tours

variable {new : Node}

/-- An insertion under a head leaves whether the root is a script. -/
theorem underHead?_isScript {root changed : Node} (h : underHead? new root = some changed) :
    changed.isScript = root.isScript := by
  rw [underHead?_eq] at h
  split at h
  · cases h
    exact isScript_mapChildren _ root
  · obtain ⟨nodes, -, rfl⟩ := Option.map_eq_some_iff.1 h
    exact isScript_mapChildren _ root

/-- An insertion before a module script leaves whether the root is a script. -/
theorem beforeModule?_isScript {root changed : Node} (h : beforeModule? new root = some changed) :
    changed.isScript = root.isScript := by
  rw [beforeModule?_eq] at h
  obtain ⟨nodes, -, rfl⟩ := Option.map_eq_some_iff.1 h
  exact isScript_mapChildren _ root

/-- The root is a script with polyfills put in only if it was one. -/
theorem withRuntime_isScript (root : Node) : (withRuntime new root).isScript = root.isScript := by
  rw [withRuntime]
  cases hp : underHead? new root with
  | none => rfl
  | some changed => exact underHead?_isScript hp

/-- The loader leaves whether the root is a script. -/
theorem withLoader_isScript (root : Node) : (withLoader new root).isScript = root.isScript := by
  rw [withLoader]
  cases hp : (beforeModule? new root).or (underHead? new root) with
  | none => rfl
  | some changed =>
    rcases Option.or_eq_some_iff.1 hp with hp | ⟨-, hp⟩
    · exact beforeModule?_isScript hp
    · exact underHead?_isScript hp

/-- What is no script is no module script. -/
theorem not_module_of_not_script {node : Node} (h : node.isScript = false) :
    node.isModuleScript = false := by
  cases hmodule : node.isModuleScript with
  | true =>
    rw [isScript_of_isModuleScript hmodule] at h
    cases h
  | false => rfl

/-- What is no script is no fallback. -/
theorem not_fallback_of_not_script {node : Node} (h : node.isScript = false) :
    node.isFallback = false := by
  cases hfallback : node.isFallback with
  | true =>
    rw [isScript_of_isFallback hfallback] at h
    cases h
  | false => rfl

/-- The tour with a runtime is the tour with the script behind the start of the
first head. -/
theorem tour_withRuntime (hnew : new.isScript = true) {root : Node}
    (h : root.scriptsHoldTexts = true) :
    (withRuntime new root).tour =
      (replaceFirst? isHead (fun v => v :: [.whole new]) root.tour).getD root.tour := by
  have htour := @map_tour_underHead? new root h
  rw [tour_of_isScript hnew] at htour
  rw [withRuntime, ← htour, Option.getD_map]

/-- The tour with a loader is the tour with the script before the first module
script, or else behind the start of the first head. -/
theorem tour_withLoader (hnew : new.isScript = true) {root : Node}
    (h : root.scriptsHoldTexts = true) (hroot : root.isModuleScript = false) :
    (withLoader new root).tour =
      ((replaceFirst? isModule (fun v => [.whole new, v]) root.tour).or
        (replaceFirst? isHead (fun v => [v, .whole new]) root.tour)).getD root.tour := by
  have hhead := @map_tour_underHead? new root h
  have hmodule := @map_tour_beforeModule? new root h hroot
  rw [tour_of_isScript hnew] at hhead hmodule
  change _ = replaceFirst? isModule (fun v => [.whole new, v]) root.tour at hmodule
  rw [withLoader, ← hhead, ← hmodule, ← Option.map_or, Option.getD_map]

end Tours

section Transformed

variable {capabilities : Capabilities} {script : Polyfill → Node} {param : Text}
  {new : List Text → Text → Text} {root : Node}

/-- Where the capabilities ask for the runtime. -/
def runtimeScripts (capabilities : Capabilities) (script : Polyfill → Node) : List Node :=
  if capabilities.regenerator then [script .runtime] else []

/-- The runtime is put in where it is asked for. -/
theorem tour_started (hscript : (script .runtime).isScript = true)
    (h : root.scriptsHoldTexts = true) :
    (root.started capabilities (script .runtime)).tour =
      (replaceFirst? isHead (fun v => v :: (runtimeScripts capabilities script).map .whole)
        root.tour).getD root.tour := by
  rw [started_eq, runtimeScripts]
  cases capabilities.regenerator with
  | true => exact tour_withRuntime hscript h
  | false => exact (replaceFirst?_self isHead root.tour).symm

/-- The outcome of a transform to definitions in terms of tours. -/
theorem tour_transformed (hamd : capabilities.modulesAmd = true)
    (hscript : ∀ polyfill, (script polyfill).isScript = true)
    (htexts : ∀ polyfill, (script polyfill).scriptsHoldTexts = true)
    (h : root.scriptsHoldTexts = true) (hroot : root.isScript = false) :
    (root.transformed capabilities script param new).1.tour =
      finished param new
        (withPolyfills (script .loader) (runtimeScripts capabilities script) root.tour) := by
  obtain ⟨start, hstart⟩ : ∃ start, start = root.started capabilities (script .runtime) := ⟨_, rfl⟩
  have hstarted : start.scriptsHoldTexts = true := by
    rw [hstart]
    exact started_scriptsHoldTexts capabilities (htexts .runtime) h
  have hstartroot : start.isScript = false := by
    rw [hstart, started_eq]
    split
    · exact (withRuntime_isScript root).trans hroot
    · exact hroot
  have hloaded : (withLoader (script .loader) start).isScript = false :=
    (withLoader_isScript start).trans hstartroot
  have hprepared : root.prepared capabilities script =
      (withLoader (script .loader) start).without isFallback := by
    rw [hstart, started_eq, prepared, hamd, if_pos rfl]
  have hchanged : (root.transformed capabilities script param new).1.tour =
      (changeAll (converted true param new) [] (root.prepared capabilities script).tour).1 := by
    rw [transformed, hamd]
    exact congrArg Prod.fst (tour_mapScripts (fun _ _ => converted_isScript) _ [])
  rw [hchanged, hprepared, tour_without (withLoader_scriptsHoldTexts (htexts .loader) hstarted)
    (not_fallback_of_not_script hloaded), tour_withLoader (hscript .loader) hstarted
    (not_module_of_not_script hstartroot), hstart, tour_started (hscript .runtime) h]
  rfl

end Transformed

section Places

/-- Where the polyfills stand in a document that was made of another one, told by
the tours through both. The parts of the tour between the places are finished:
their fallbacks are gone and their module scripts are definitions. -/
structure Placement (loader : Node) (runtime : List Node) (param : Text)
    (new : List Text → Text → Text) (root out : Node) : Prop where
  /-- Without a module script and a head nothing is put in. -/
  nowhere : (∀ v ∈ root.tour, isModule v = false) → (∀ v ∈ root.tour, isHead v = false) →
    out.tour = finished param new root.tour
  /-- Without a module script the loader stands at the start of the first head,
  and the runtime right behind it. -/
  in_head : ∀ before head after, root.tour = before ++ head :: after →
    IsFirst isHead before head → (∀ v ∈ root.tour, isModule v = false) →
    out.tour = finished param new before ++
      head :: .whole loader :: (runtime.map .whole ++ finished param new after)
  /-- Without a head the loader stands before the first module script. -/
  no_head : ∀ before m after, root.tour = before ++ m :: after → IsFirst isModule before m →
    (∀ v ∈ root.tour, isHead v = false) →
    out.tour = finished param new before ++ .whole loader :: finished param new (m :: after)
  /-- If the first head comes before the first module script, so does the runtime
  before the loader. -/
  head_first : ∀ before head between m after,
    root.tour = before ++ head :: (between ++ m :: after) → IsFirst isHead before head →
    IsFirst isModule (before ++ head :: between) m →
    out.tour = finished param new before ++ head :: (runtime.map .whole ++
      (finished param new between ++ .whole loader :: finished param new (m :: after)))
  /-- If the first module script comes before the first head, so does the loader
  before the runtime. -/
  module_first : ∀ before m between head after,
    root.tour = before ++ m :: (between ++ head :: after) → IsFirst isModule before m →
    IsFirst isHead (before ++ m :: between) head →
    out.tour = finished param new before ++ .whole loader ::
      finished param new (m :: (between ++ head :: (runtime.map .whole ++ after)))
  /-- The loader is the sibling right before the first module script, unless that
  one is a fallback. -/
  next_sibling : ∀ before m after, root.tour = before ++ .whole m :: after →
    IsFirst isModule before (.whole m) → m.isFallback = false →
    out.AreSiblings loader (m.converted true param new []).1
  /-- What is put into the first head comes before its other children. -/
  first_children : ∀ l, root.find? (hasName headName) = some l →
    ∃ l' rest, out.find? (hasName headName) = some l' ∧
      l'.node.children =
        (if root.tour.any isModule then runtime else loader :: runtime) ++ rest

variable {loader : Node} {runtime : List Node} {param : Text} {new : List Text → Text → Text}
  {root out : Node}

/-- A document whose tour is that of another with the polyfills put in and then
finished. -/
theorem Placement.of_tour (hroot : root.scriptsHoldTexts = true) (hout : out.scriptsHoldTexts = true)
    (hloader : loader.isModuleScript = false ∧ loader.isFallback = false)
    (hruntime : ∀ node ∈ runtime, node.isModuleScript = false ∧ node.isFallback = false)
    (htour : out.tour = finished param new (withPolyfills loader runtime root.tour)) :
    Placement loader runtime param new root out := by
  have hr : Kept (runtime.map .whole) := kept_scripts hruntime
  have hl : Kept [.whole loader] := @kept_scripts [loader]
    (List.forall_mem_singleton.2 hloader)
  refine ⟨?nowhere, ?in_head, ?no_head, ?head_first, ?module_first, ?next_sibling, ?first_children⟩
  case nowhere =>
    intro hmodule hhead
    rw [htour, withPolyfills_nowhere hmodule hhead]
  case in_head =>
    intro before head after hsplit hfirst hmodule
    rw [hsplit] at htour hmodule
    have hkept := ((kept_head hfirst.here).append hl).append hr
    have hmiddle : finished param new (head :: .whole loader :: (runtime.map .whole ++ after)) =
        head :: .whole loader :: (runtime.map .whole ++ finished param new after) := by
      simpa using hkept.finished_append after
    rw [htour, withPolyfills_in_head hr hfirst hmodule,
      finished_append (List.forall_mem_append.1 hmodule).1, hmiddle]
  case no_head =>
    intro before m after hsplit hfirst hhead
    rw [hsplit] at htour hhead
    have hmiddle := @Kept.finished_append param new _ hl (m :: after)
    rw [htour, withPolyfills_no_head hfirst hhead, finished_append hfirst.none_before]
    exact congrArg (finished param new before ++ ·) hmiddle
  case head_first =>
    intro before head between m after hsplit hfirst hm
    obtain ⟨hbefore, hrest⟩ := List.forall_mem_append.1 hm.none_before
    have hbetween := (List.forall_mem_cons.1 hrest).2
    have hstart : finished param new (head :: (runtime.map .whole ++
        (between ++ .whole loader :: m :: after))) = head :: (runtime.map .whole ++
          finished param new (between ++ .whole loader :: m :: after)) := by
      simpa using ((kept_head hfirst.here).append hr).finished_append
        (between ++ .whole loader :: m :: after)
    have hend : finished param new (between ++ .whole loader :: m :: after) =
        finished param new between ++ .whole loader :: finished param new (m :: after) :=
      (finished_append hbetween _).trans
        (congrArg (finished param new between ++ ·) (hl.finished_append (m :: after)))
    rw [htour, hsplit, withPolyfills_head_first hr hfirst hm, finished_append hbefore, hstart, hend]
  case module_first =>
    intro before m between head after hsplit hm hfirst
    have hmiddle := @Kept.finished_append param new _ hl
      (m :: (between ++ head :: (runtime.map .whole ++ after)))
    rw [htour, hsplit, withPolyfills_module_first hm hfirst, finished_append hm.none_before]
    exact congrArg (finished param new before ++ ·) hmiddle
  case next_sibling =>
    intro before m after hsplit hfirst hfallback
    obtain ⟨a, b, hfinished⟩ := finished_withPolyfills_module hl hr hfirst hfallback
    exact areSiblings_of_tour (htour.trans (hsplit ▸ hfinished))
  case first_children =>
    intro l hfind
    have hsome : ∃ v ∈ root.tour, isHead v = true := by
      by_cases hsome : ∃ v ∈ root.tour, isHead v = true
      · exact hsome
      · have hempty := findAll_head_eq_nil hroot fun v hv =>
          Bool.eq_false_iff.2 fun hhead => hsome ⟨v, hv, hhead⟩
        rw [find?_eq_head?, hempty] at hfind
        cases hfind
    obtain ⟨v, hv, hhead⟩ := hsome
    obtain ⟨before, head, after, hsplit, hfirst⟩ := exists_isFirst hv hhead
    obtain ⟨a, b, hfinished, ha⟩ :=
      @finished_withPolyfills_head loader runtime before after head param new hl hr hfirst
    rw [← hsplit, ← htour] at hfinished
    cases head with
    | enter shell => exact find?_head_of_tour hout hfirst.here hfinished ha
    | _ => cases hfirst.here

end Places

end Node

namespace Page

variable {host : Host} {location param log : Text} {strategy : List Text → Strategy}
  {plugins : List Plugin} {page : Page}

/-- After a transform to definitions that succeeds, the loader stands right before
the first module script, or at the start of the first head where there is no
module script; the runtime, if it is asked for, stands at the start of the first
head, behind the loader if that is there too. Neither is put in anywhere else. -/
theorem transformBy_placement (h : page.root.scriptsHoldTexts = true)
    (hroot : page.root.isScript = false)
    (hamd : (Capabilities.ofPlugins plugins).modulesAmd = true)
    (hdone : (transformBy host location strategy plugins param log page).result = .ok ()) :
    ∃ text, Provides host (Capabilities.ofPlugins plugins) page text ∧
      Node.Placement (scriptElement (text .loader))
        (if (Capabilities.ofPlugins plugins).regenerator then [scriptElement (text .runtime)]
          else [])
        param (newBody (strategyOn location param log strategy plugins page)) page.root
        (transformBy host location strategy plugins param log page).page.root := by
  obtain ⟨text, hprovides, hout⟩ := transformBy_transformed h hdone
  have hneutral : ∀ polyfill, (scriptElement (text polyfill)).isModuleScript = false ∧
      (scriptElement (text polyfill)).isFallback = false := fun polyfill =>
    ⟨Node.scriptElement_not_module _, Node.scriptElement_not_fallback _⟩
  have htexts : (transformBy host location strategy plugins param log
      page).page.root.scriptsHoldTexts = true := by
    rw [hout]
    exact Node.mapScripts_scriptsHoldTexts (fun _ _ => Node.converted_scriptsHoldTexts)
      (Node.prepared_scriptsHoldTexts (fun _ => scriptElement_scriptsHoldTexts _) h) []
  refine ⟨text, hprovides, Node.Placement.of_tour h htexts (hneutral .loader) ?_ ?_⟩
  · intro node hnode
    split at hnode
    · rw [List.mem_singleton.1 hnode]
      exact hneutral .runtime
    · cases hnode
  · rw [hout]
    exact Node.tour_transformed hamd (fun _ => Node.scriptElement_isScript _)
      (fun _ => scriptElement_scriptsHoldTexts _) h hroot

/-- A document with a head and behind it an external and an inline module script,
for which both polyfills are asked for. -/
theorem transformBy_placement_head_first :
    let script (attributes : Attributes) (body : Text) : Node :=
      .element ⟨scriptName, htmlSpace, some attributes⟩ (if body.isEmpty then [] else
        [.text (some body)]) none
    let modules : Attributes := [(typeName, some "module".toList)]
    let root : Node := .document [] [.element (Tag.plain headName) [] none,
      script ((sourceName, some "a.js".toList) :: modules) [], script modules "x".toList]
    let host : Host := ⟨[], fun _ => .error .missing⟩
    let outcome := transformBy host [] (fun _ => Strategy.passthrough)
      [amdPlugin, regeneratorPlugin] "v=1".toList [] ⟨root, ⟨none, some "L".toList, some "R".toList⟩⟩
    outcome.page.root.AreSiblings (script [] "L".toList)
        (script [] "define(['a.js?v=1']);".toList) ∧
      ∃ l rest, outcome.page.root.find? (Node.hasName headName) = some l ∧
        l.node.children = [script [] "R".toList] ++ rest := by
  intro script modules root host outcome
  have hhead : (Place.head? root).isSome = true := Node.head?_isSome (scriptElement []) root
  have hstart : (root.started ⟨true, true⟩ (scriptElement "R".toList)).scriptsHoldTexts = true :=
    Node.started_scriptsHoldTexts _ rfl rfl
  have hplace : (Place.loader? (root.started ⟨true, true⟩ (scriptElement "R".toList))).isSome =
      true := by
    rw [Node.loader?_isSome (scriptElement []) hstart, Node.started_eq]
    rfl
  have hread : Provides host (Capabilities.ofPlugins [amdPlugin, regeneratorPlugin])
      ⟨root, ⟨none, some "L".toList, some "R".toList⟩⟩
      (Polyfill.texts "L".toList "R".toList) :=
    ⟨fun _ _ => rfl, fun _ _ => rfl⟩
  have hdone : outcome.result = .ok () :=
    @transformBy_of_provides host [] "v=1".toList [] (fun _ => Strategy.passthrough) _ _ _
      (fun _ body => body) hread fun _ _ => rfl
  obtain ⟨text, hprovides, hplaced⟩ := @transformBy_placement host [] "v=1".toList []
    (fun _ => Strategy.passthrough) [amdPlugin, regeneratorPlugin] _ rfl rfl rfl hdone
  have hruntime : "R".toList = text .runtime := Except.ok.inj (hprovides.runtime_read rfl hhead)
  have hloader : "L".toList = text .loader :=
    Except.ok.inj (hprovides.loader_read rfl (hruntime ▸ hplace))
  rw [← hruntime, ← hloader] at hplaced
  constructor
  · exact hplaced.next_sibling [.enter (.document [] []), .enter (.element (Tag.plain headName) []
      none), .leave] _ [.whole (script modules "x".toList), .leave] rfl ⟨rfl, by decide⟩ rfl
  · obtain ⟨l, hl⟩ : ∃ l, root.find? (Node.hasName headName) = some l := by
      rw [← Option.isSome_iff_exists]
      rwa [Place.head?, Option.isSome_map] at hhead
    exact hplaced.first_children l hl

end Page

end ModuleScripts
