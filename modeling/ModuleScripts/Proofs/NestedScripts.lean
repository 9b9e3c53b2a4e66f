import ModuleScripts.Proofs.Everywhere
import ModuleScripts.Proofs.ScriptChanges
import ModuleScripts.Proofs.Stages

/-!
# No module script is left

Where modules become definitions, no module script is left in any document, even
if scripts hold other elements and other scripts, and no fallback is left below
the root.
-/

namespace ModuleScripts

namespace Node

section Tags

variable {node other : Node}

/-- What a tag tells is the same of nodes that are the same on top. -/
theorem SameOnTop.tagFits (h : SameOnTop node other) (fits : Tag → Bool) :
    other.tagFits fits = node.tagFits fits := by
  rw [Node.tagFits, Node.tagFits, h.tag]

end Tags

/-- Below the root no fallback is left. -/
def FallbackFree (root : Node) : Prop :=
  ∀ child ∈ root.children, child.Everywhere fun node => node.isFallback = false

section Stages

variable {param : Text} {root : Node}

/-- Below the root no fallback is left when fallbacks are taken away. -/
theorem fallbackFree_without (root : Node) : (root.without isFallback).FallbackFree := by
  have hkept : ∀ node other, SameOnTop node other → True → isFound isFallback node = false →
      other.isFallback = false := by
    intro node other hsame _ hfound
    exact (hsame.tagFits Tag.isFallback).trans ((isFound_tagFits _ node).symm.trans hfound)
  exact everywhere_without hkept fun _ _ _ _ => trivial

variable {σ : Type} {edit : σ → Node → (Node → Node) × σ} {fits : Node → Bool}

/-- Changes that make no fallback and leave nothing but texts below a node leave
no fallback below the root. -/
theorem fallbackFree_applyEach
    (hfix : ∀ s node data, (edit s node).1 (text data) = text data)
    (htexts : ∀ s node, ((edit s node).1 node).children.all isText = true)
    (hfallback : ∀ s node, ((edit s node).1 node).isFallback = node.isFallback)
    (h : root.FallbackFree) (s : σ) :
    (root.applyEach (editsOf edit s (root.findAll fits)).1).FallbackFree := by
  obtain ⟨-, hbelow⟩ := @applyEach_cases σ edit fits hfix
    (fun s node _ => .inl (htexts s node)) root s
  intro child' hchild'
  rcases hbelow with hall | hbelow
  · have htext := List.all_eq_true.1 hall child' hchild'
    cases child' with
    | text data => exact everywhere_of_texts rfl (fun _ => rfl) rfl
    | _ => cases htext
  · obtain ⟨child, hchild, s', rfl⟩ := hbelow child' hchild'
    refine everywhere_applyEach (fun _ => rfl) hfix (fun s node _ => .inl (htexts s node)) ?_ ?_
      (h child hchild) s'
    · intro s node other _ hnode hsame
      exact (hsame.tagFits Tag.isFallback).trans ((hfallback s node).trans hnode)
    · intro node other hsame hnode _
      exact (hsame.tagFits Tag.isFallback).trans hnode

/-- Versioning external scripts brings no fallback. -/
theorem fallbackFree_versionExternal (h : root.FallbackFree) :
    (root.versionExternal true param).FallbackFree := by
  have hstubs : (root.applyEach (editsOf (Page.versionEdit true param) ()
      (root.findAll isExternalModule)).1).FallbackFree :=
    fallbackFree_applyEach (fun _ _ data => versionScript_text param true data)
      (fun _ node => versionScript_holds_texts param node)
      (fun _ node => versionScript_isFallback param node) h ()
  rw [Page.editsOf_versionEdit] at hstubs
  exact hstubs

/-- No external module script is left by versioning. -/
theorem no_external_versionExternal (root : Node) :
    (root.versionExternal true param).Everywhere fun node => node.isExternalModule = false := by
  have hstubs : (root.applyEach
      (editsOf (Page.versionEdit true param) () (root.findAll isExternalModule)).1).Everywhere
        fun node => node.isExternalModule = false := by
    refine everywhere_applyEach (Q := fun _ => True) (fun _ => rfl)
      (fun _ _ data => versionScript_text param true data)
      (fun _ node _ => .inl (versionScript_holds_texts param node)) ?_ ?_ (fun _ _ => trivial) ()
    · intro s node other _ _ hsame
      exact (hsame.tagFits Tag.isExternalModule).trans
        (not_external_of_not_module (versionScript_not_module param node))
    · intro node other hsame _ hfound
      exact (hsame.tagFits Tag.isExternalModule).trans ((isFound_tagFits _ node).symm.trans hfound)
  rw [Page.editsOf_versionEdit] at hstubs
  exact hstubs

variable {new : List Text → Text → Text}

/-- Filling inline scripts brings no fallback. -/
theorem fallbackFree_fill (h : root.FallbackFree) :
    (root.applyEach
      (editsOf (Page.fillEdit new) [] (root.findAll isInlineModule)).1).FallbackFree :=
  fallbackFree_applyEach (fun _ _ _ => rfl) (fun _ node => fill_holds_texts _ node)
    (fun _ node => fill_isFallback _ node) h []

/-- No module script is left by filling the inline ones where there is no
external one. -/
theorem no_module_fill (h : root.Everywhere fun node => node.isExternalModule = false) :
    (root.applyEach (editsOf (Page.fillEdit new) [] (root.findAll isInlineModule)).1).Everywhere
      fun node => node.isModuleScript = false := by
  refine everywhere_applyEach (fun _ => rfl) (fun _ _ _ => rfl)
    (fun _ node _ => .inl (fill_holds_texts _ node)) ?_ ?_ h []
  · intro s node other _ _ hsame
    exact (hsame.tagFits Tag.isModule).trans (fill_not_module _ node)
  · intro node other hsame hexternal hfound
    refine (hsame.tagFits Tag.isModule).trans ?_
    have hinline : node.isInlineModule = false := (isFound_tagFits _ node).symm.trans hfound
    exact (isModuleScript_eq node).trans (by rw [hexternal, hinline]; rfl)

end Stages

end Node

namespace Page

variable {host : Host} {location param log : Text} {strategy : List Text → Strategy}
  {plugins : List Plugin} {page : Page}

/-- After a transform to definitions that succeeds, no module script is left in
the document and no fallback below its root, whatever the scripts held. -/
theorem transformBy_leaves_no_module (hamd : (Capabilities.ofPlugins plugins).modulesAmd = true)
    (hdone : (transformBy host location strategy plugins param log page).result = .ok ()) :
    let outcome := transformBy host location strategy plugins param log page
    outcome.page.root.findAll Node.isModuleScript = [] ∧
      ∀ l ∈ outcome.page.root.findAll Node.isFallback, l.address = [] := by
  intro outcome
  obtain ⟨text, -, hroot, -⟩ := transformBy_eq_ok hdone
  rw [hamd] at hroot
  have hpolyfilled : (page.root.polyfilled (Capabilities.ofPlugins plugins)
      fun polyfill => scriptElement (text polyfill)).FallbackFree := by
    rw [Node.polyfilled, hamd]
    exact Node.fallbackFree_without _
  have hmodules : outcome.page.root.Everywhere fun node => node.isModuleScript = false := by
    rw [hroot]
    exact Node.no_module_fill (Node.no_external_versionExternal _)
  have hfallbacks : outcome.page.root.FallbackFree := by
    rw [hroot]
    exact Node.fallbackFree_fill (Node.fallbackFree_versionExternal hpolyfilled)
  refine ⟨Node.findAll_eq_nil hmodules, fun l hl => ?_⟩
  rw [Node.findAll_eq, Node.findFrom_eq_nil hfallbacks, List.append_nil] at hl
  split at hl
  · rw [List.mem_singleton.1 hl]
  · cases hl

/-- A module script is the root, holds another one and a fallback, and becomes a
script of texts. -/
theorem transformBy_leaves_no_module_nested :
    let script (attributes : Attributes) (children : List Node) : Node :=
      .element ⟨scriptName, htmlSpace, some attributes⟩ children none
    let modules : Attributes := [(typeName, some " Module ".toList)]
    let root : Node := script modules [.text (some "x".toList),
      script modules [script [(fallbackName, none)] []],
      script ((sourceName, none) :: modules) []]
    let host : Host := ⟨[], fun _ => .error .missing⟩
    let outcome := transformBy host [] (fun _ => Strategy.passthrough) [amdPlugin] [] []
      ⟨root, ⟨none, some "L".toList, none⟩⟩
    outcome.result = .ok () ∧ outcome.page.root.findAll Node.isModuleScript = [] ∧
      ∀ l ∈ outcome.page.root.findAll Node.isFallback, l.address = [] := by
  intro script modules root host outcome
  have hread : Provides host (Capabilities.ofPlugins [amdPlugin])
      ⟨root, ⟨none, some "L".toList, none⟩⟩ (fun _ => "L".toList) :=
    ⟨fun hregenerator => absurd hregenerator (by decide), fun _ _ => rfl⟩
  have hdone : outcome.result = .ok () :=
    @transformBy_of_provides host [] [] [] (fun _ => Strategy.passthrough) _ _ _
      (fun _ body => body) hread fun _ _ => rfl
  exact ⟨hdone, @transformBy_leaves_no_module host [] [] [] (fun _ => Strategy.passthrough)
    [amdPlugin] _ rfl hdone⟩

end Page

end ModuleScripts
