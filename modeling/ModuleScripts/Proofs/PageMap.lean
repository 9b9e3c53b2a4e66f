import ModuleScripts.Page.Transform
import ModuleScripts.Proofs.Insertion

/-!
# The transform of a document is a tree map

The stages of the transform each find nodes and then change them in place. The
document that they leave is the one with the polyfills put in, the fallbacks
taken out, and every module script changed on its own, in document order.
-/

namespace ModuleScripts

section Effects

variable {α β : Type}

/-- Behind a step that succeeds the next one decides the page and the
result. -/
theorem Effect.andThen_of_ok {e : Effect α} {a : α} (h : e.result = .ok a)
    (f : α → Page → Effect β) :
    (e.andThen f).page = (f a e.page).page ∧ (e.andThen f).result = (f a e.page).result := by
  simp only [andThen, h, and_self]

end Effects

namespace Polyfill

variable (host : Host) (cache : Cache) (polyfill other : Polyfill)

/-- The text of a script is the one kept, or else made from the source. -/
theorem prepare_result :
    (polyfill.prepare host cache).1.result =
      match cache.script? polyfill with
      | some text => .ok text
      | none =>
        match polyfill.source host (cache.currentSettings host) with
        | .error e => .error (.polyfill e)
        | .ok source => .ok (host.parser.scriptText source) := by
  unfold prepare
  cases cache.script? polyfill with
  | some text => rfl
  | none =>
    change (match polyfill.source host (cache.currentSettings host) with
      | .error e => _
      | .ok source => _ : Outcome Text × Cache).1.result = _
    cases polyfill.source host (cache.currentSettings host) with
    | error e => rfl
    | ok source => rfl

/-- Preparing a polyfill leaves its settings as they are. -/
theorem prepare_currentSettings :
    (polyfill.prepare host cache).2.currentSettings host = cache.currentSettings host := by
  unfold prepare
  cases cache.script? polyfill with
  | some text => rfl
  | none =>
    dsimp only
    split
    · rfl
    · cases polyfill <;> rfl

/-- Preparing a polyfill keeps at most its own text. -/
theorem prepare_script? :
    (other.prepare host cache).2.script? polyfill = cache.script? polyfill ∨
      ∃ text, polyfill = other ∧ (other.prepare host cache).2.script? polyfill = some text ∧
        (other.prepare host cache).1.result = .ok text := by
  unfold prepare
  cases cache.script? other with
  | some text => exact .inl rfl
  | none =>
    dsimp only
    split
    · left
      cases polyfill <;> rfl
    · next source _ =>
      cases polyfill <;> cases other
      · exact .inr ⟨host.parser.scriptText source, rfl, rfl, rfl⟩
      · exact .inl rfl
      · exact .inl rfl
      · exact .inr ⟨host.parser.scriptText source, rfl, rfl, rfl⟩

/-- What a polyfill is prepared to does not depend on what was prepared before. -/
theorem prepare_prepare :
    (polyfill.prepare host (other.prepare host cache).2).1.result =
      (polyfill.prepare host cache).1.result := by
  rw [prepare_result, prepare_currentSettings]
  rcases prepare_script? host cache polyfill other with h | ⟨text, rfl, hkept, hresult⟩
  · rw [h, ← prepare_result]
  · rw [hkept, hresult]

end Polyfill

namespace Node

/-- The tree with the runtime at the start of its first head, if it has one. -/
def withRuntime (script root : Node) : Node := (underHead? script root).getD root

/-- The tree with the loader before its first module script, or else at the
start of its first head, if it has either. -/
def withLoader (script root : Node) : Node :=
  ((beforeModule? script root).or (underHead? script root)).getD root

/-- Where scripts hold texts only they still do with a runtime in the head. -/
theorem withRuntime_scriptsHoldTexts {script root : Node} (hnew : script.scriptsHoldTexts = true)
    (h : root.scriptsHoldTexts = true) : (withRuntime script root).scriptsHoldTexts = true := by
  rw [withRuntime]
  cases hp : underHead? script root with
  | none => exact h
  | some changed => exact underHead?_scriptsHoldTexts hnew h hp

/-- Where scripts hold texts only they still do with a loader before the
modules. -/
theorem withLoader_scriptsHoldTexts {script root : Node} (hnew : script.scriptsHoldTexts = true)
    (h : root.scriptsHoldTexts = true) : (withLoader script root).scriptsHoldTexts = true := by
  rw [withLoader]
  cases hp : (beforeModule? script root).or (underHead? script root) with
  | none => exact h
  | some changed =>
    rcases Option.or_eq_some_iff.1 hp with hp | ⟨-, hp⟩
    · exact beforeModule?_scriptsHoldTexts hnew h hp
    · exact underHead?_scriptsHoldTexts hnew h hp

/-- The tree with the polyfills that the capabilities ask for and without the
scripts that these make useless. -/
def prepared (capabilities : Capabilities) (script : Polyfill → Node) (root : Node) : Node :=
  let started :=
    if capabilities.regenerator then withRuntime (script .runtime) root else root
  if capabilities.modulesAmd then (withLoader (script .loader) started).without isFallback
  else started

/-- What becomes of a script behind scripts with given bodies, and the bodies
given so far: an external module script is versioned, an inline one gets its new
body and loses its type, any other stays. -/
def converted (amd : Bool) (param : Text) (new : List Text → Text → Text) (given : List Text)
    (script : Node) : Node × List Text :=
  if script.isExternalModule then (script.versionScript amd param, given)
  else if script.isInlineModule then
    let body := script.textContent
    (script.fill (Text.surroundLike body (new given body)), given ++ [body])
  else (script, given)

/-- The tree that a document becomes, and the bodies given to the strategy in
order. -/
def transformed (capabilities : Capabilities) (script : Polyfill → Node) (param : Text)
    (new : List Text → Text → Text) (root : Node) : Node × List Text :=
  (root.prepared capabilities script).mapScripts
    (converted capabilities.modulesAmd param new) []

end Node

namespace Page

section Polyfills

variable {host : Host} {page : Page} {text : Polyfill → Text}

/-- A polyfill that can be read is put where there is a place for it. -/
theorem inject_of_ok {polyfill : Polyfill} {source : Text}
    (h : (polyfill.prepare host page.cache).1.result = .ok source) (place : Option Place)
    (missing : Event) :
    (∃ put, (inject host polyfill place missing page).result = .ok put) ∧
      (inject host polyfill place missing page).page.root =
        (place.map (Place.insert (scriptElement source) page.root)).getD page.root ∧
      ((inject host polyfill place missing page).page.cache = page.cache ∨
        (inject host polyfill place missing page).page.cache =
          (polyfill.prepare host page.cache).2) := by
  cases place with
  | none => exact ⟨⟨false, rfl⟩, rfl, .inl rfl⟩
  | some place =>
    unfold inject
    dsimp only
    rw [h]
    exact ⟨⟨true, rfl⟩, rfl, .inr rfl⟩

/-- A script element made of a source holds a text only. -/
theorem scriptElement_scriptsHoldTexts (source : Text) :
    (scriptElement source).scriptsHoldTexts = true := by
  cases source <;> rfl

/-- Taking the fallbacks away leaves the tree without them. -/
theorem removeFallbacks_root (page : Page) :
    (removeFallbacks page).page.root = page.root.without Node.isFallback :=
  Node.removeEach_findAll _ _

/-- The runtime at the start of the first head leaves scripts of texts. -/
theorem injectRuntime_of_ok
    (hread : (Polyfill.runtime.prepare host page.cache).1.result = .ok (text .runtime))
    (h : page.root.scriptsHoldTexts = true) :
    (∃ put, (injectRuntime host page).result = .ok put) ∧
      (injectRuntime host page).page.root =
        Node.withRuntime (scriptElement (text .runtime)) page.root ∧
      (injectRuntime host page).page.root.scriptsHoldTexts = true := by
  obtain ⟨hput, hroot, -⟩ :=
    inject_of_ok hread (Place.head? page.root) (.headMissing .runtime)
  rw [Node.map_insert_head?] at hroot
  refine ⟨hput, hroot, ?_⟩
  rw [injectRuntime, hroot]
  exact Node.withRuntime_scriptsHoldTexts (scriptElement_scriptsHoldTexts _) h

/-- So does the loader before the first module script or at the start of the
first head. -/
theorem injectLoader_of_ok
    (hread : (Polyfill.loader.prepare host page.cache).1.result = .ok (text .loader))
    (h : page.root.scriptsHoldTexts = true) :
    (∃ put, (injectLoader host page).result = .ok put) ∧
      (injectLoader host page).page.root =
        Node.withLoader (scriptElement (text .loader)) page.root ∧
      (injectLoader host page).page.root.scriptsHoldTexts = true := by
  obtain ⟨hput, hroot, -⟩ :=
    inject_of_ok hread (Place.loader? page.root) (.placeMissing .loader)
  rw [Node.map_insert_loader? _ h] at hroot
  refine ⟨hput, hroot, ?_⟩
  rw [injectLoader, hroot]
  exact Node.withLoader_scriptsHoldTexts (scriptElement_scriptsHoldTexts _) h

/-- The polyfills that the capabilities ask for are put in if they can be read,
and scripts hold nothing but texts as before. -/
theorem injectPolyfills_of_ok (capabilities : Capabilities)
    (hread : ∀ polyfill : Polyfill,
      (polyfill.prepare host page.cache).1.result = .ok (text polyfill))
    (h : page.root.scriptsHoldTexts = true) :
    (injectPolyfills host capabilities page).result = .ok () ∧
      (injectPolyfills host capabilities page).page.root =
        page.root.prepared capabilities (fun polyfill => scriptElement (text polyfill)) ∧
      (injectPolyfills host capabilities page).page.root.scriptsHoldTexts = true := by
  obtain ⟨start, hstart⟩ : ∃ start, start = if capabilities.regenerator then
    injectRuntime host page else Effect.done page [] false := ⟨_, rfl⟩
  have hstarted : (∃ put, start.result = .ok put) ∧
      start.page.root = (if capabilities.regenerator then
        Node.withRuntime (scriptElement (text .runtime)) page.root else page.root) ∧
      start.page.root.scriptsHoldTexts = true ∧
      (Polyfill.loader.prepare host start.page.cache).1.result = .ok (text .loader) := by
    cases hc : capabilities.regenerator with
    | false =>
      rw [hc] at hstart
      subst hstart
      exact ⟨⟨false, rfl⟩, rfl, h, hread .loader⟩
    | true =>
      rw [hc] at hstart
      subst hstart
      obtain ⟨-, -, hcache⟩ :=
        inject_of_ok (hread .runtime) (Place.head? page.root) (.headMissing .runtime)
      obtain ⟨hput, hroot, htexts⟩ := injectRuntime_of_ok (hread .runtime) h
      refine ⟨hput, hroot, htexts, ?_⟩
      change (Polyfill.loader.prepare host (injectRuntime host page).page.cache).1.result = _
      rcases hcache with hcache | hcache
      · rw [injectRuntime, hcache]
        exact hread .loader
      · rw [injectRuntime, hcache, Polyfill.prepare_prepare]
        exact hread .loader
  obtain ⟨⟨put, hput⟩, hroot, htexts, hloader⟩ := hstarted
  simp only [injectPolyfills, ← hstart]
  rw [(Effect.andThen_of_ok hput _).1, (Effect.andThen_of_ok hput _).2, Node.prepared, ← hroot]
  cases hamd : capabilities.modulesAmd with
  | false => exact ⟨rfl, rfl, htexts⟩
  | true =>
    simp only [if_true]
    obtain ⟨⟨put, hput⟩, hroot, htexts⟩ := injectLoader_of_ok hloader htexts
    rw [(Effect.andThen_of_ok hput _).1, (Effect.andThen_of_ok hput _).2]
    refine ⟨rfl, ?_, ?_⟩
    · exact (removeFallbacks_root _).trans (congrArg _ hroot)
    · exact (congrArg _ (removeFallbacks_root _)).trans
        (Node.without_scriptsHoldTexts _ htexts)

end Polyfills

section Inline

/-- The change of an inline script behind scripts with given bodies, and the
bodies given so far. -/
def fillEdit (new : List Text → Text → Text) (given : List Text) (script : Node) :
    (Node → Node) × List Text :=
  let body := script.textContent
  (Node.fill (Text.surroundLike body (new given body)), given ++ [body])

/-- Filling scripts gives away their texts in order. -/
theorem editsOf_fillEdit_given (new : List Text → Text → Text) (given : List Text)
    (scripts : List Located) :
    (editsOf (fillEdit new) given scripts).2 =
      given ++ scripts.map fun l => l.node.textContent := by
  induction scripts generalizing given with
  | nil => exact (List.append_nil given).symm
  | cons script scripts ih =>
    rw [editsOf, ih, List.map_cons]
    exact List.append_assoc given _ _

/-- Scripts for which the strategy returns a new body are filled before those
behind them are asked for. -/
theorem fillEach_append {transform : List Text → Text → Outcome Text}
    {new : List Text → Text → Text} {done rest : List Located} {given : List Text}
    (h : ∀ before body after,
      (done.map fun l => l.node.textContent) = before ++ body :: after →
        (transform (given ++ before) body).result = .ok (new (given ++ before) body))
    (page : Page) :
    let filled : Page := ⟨page.root.applyEach (editsOf (fillEdit new) given done).1, page.cache⟩
    let later := fillEach transform (given ++ done.map fun l => l.node.textContent) rest filled
    (fillEach transform given (done ++ rest) page).result = later.result ∧
      (fillEach transform given (done ++ rest) page).page = later.page := by
  induction done generalizing given page with
  | nil =>
    rw [List.map_nil, List.append_nil]
    exact ⟨rfl, rfl⟩
  | cons script done ih =>
    have hbody := h [] script.node.textContent _ rfl
    rw [List.append_nil] at hbody
    have hlater : ∀ before body after,
        (done.map fun l => l.node.textContent) = before ++ body :: after →
          (transform (given ++ [script.node.textContent] ++ before) body).result =
            .ok (new (given ++ [script.node.textContent] ++ before) body) := by
      intro before body after hb
      rw [List.append_assoc]
      exact h (script.node.textContent :: before) body after (congrArg (_ :: ·) hb)
    simp only [List.cons_append, fillEach, hbody]
    rw [(Effect.andThen_of_ok rfl _).1, (Effect.andThen_of_ok rfl _).2]
    obtain ⟨hresult, hpage⟩ := ih hlater
      ⟨page.root.modify (Node.fill (Text.surroundLike script.node.textContent
        (new given script.node.textContent))) script.address, page.cache⟩
    rw [List.append_assoc] at hresult hpage
    exact ⟨hresult, hpage⟩

/-- Where the strategy returns a new body for every body it is given, all
scripts are filled. -/
theorem fillEach_of_ok {transform : List Text → Text → Outcome Text}
    {new : List Text → Text → Text} {scripts : List Located} {given : List Text}
    (h : ∀ before body after,
      (scripts.map fun l => l.node.textContent) = before ++ body :: after →
        (transform (given ++ before) body).result = .ok (new (given ++ before) body))
    (page : Page) :
    (fillEach transform given scripts page).result = .ok () ∧
      (fillEach transform given scripts page).page.root =
        page.root.applyEach (editsOf (fillEdit new) given scripts).1 := by
  obtain ⟨hresult, hpage⟩ := @fillEach_append transform new scripts [] given h page
  rw [List.append_nil] at hresult hpage
  exact ⟨hresult, congrArg Page.root hpage⟩

end Inline

section External

/-- A tag has the attribute that is put in. -/
theorem tag_has_put (name : Text) (value : Option Text) (tag : Tag) :
    (tag.put name value).has name = true := by
  simp only [Tag.has, Tag.put, Attributes.has, Attributes.get?_put_self, Option.isSome_some]

/-- A tag has no value for an attribute that is erased. -/
theorem tag_value?_erase (name : Text) (tag : Tag) : (tag.erase name).value? name = none := by
  rw [Tag.value?, Tag.erase]
  cases tag.attributes with
  | none => rfl
  | some attributes =>
    simp only [Option.map_some, Attributes.get?_erase_self]
    rfl

/-- A script without a type is no module script. -/
theorem tag_isModule_erase (tag : Tag) : (tag.erase typeName).isModule = false := by
  rw [Tag.isModule, Tag.scriptType, tag_value?_erase, Bool.and_eq_false_iff]
  exact .inr (by decide)

variable (amd : Bool) (param : Text)

/-- A versioned script is a script. -/
theorem versionScript_isScript {node : Node} (h : node.isScript = true) :
    (node.versionScript amd param).isScript = true := by
  cases node with
  | element tag children content => cases amd <;> exact h
  | _ => cases h

/-- A versioned script holds texts only. -/
theorem versionScript_scriptsHoldTexts {node : Node} (hscript : node.isScript = true)
    (h : node.scriptsHoldTexts = true) :
    (node.versionScript amd param).scriptsHoldTexts = true := by
  rw [Node.scriptsHoldTexts_eq, if_pos (versionScript_isScript amd param hscript)]
  rw [Node.scriptsHoldTexts_eq, if_pos hscript] at h
  cases node with
  | element tag children content =>
    cases amd with
    | false => exact h
    | true => rfl
  | _ => cases hscript

/-- A versioned script is not taken for an inline one. -/
theorem versionScript_not_inline {node : Node} (h : node.isExternalModule = true) :
    (node.versionScript amd param).isInlineModule = false := by
  cases node with
  | element tag children content =>
    cases amd with
    | false =>
      change (tag.versioned param).isInlineModule = false
      rw [Tag.isInlineModule, Tag.versioned, tag_has_put]
      exact Bool.and_false _
    | true =>
      change (((tag.versioned param).erase sourceName).erase typeName).isInlineModule = false
      rw [Tag.isInlineModule, tag_isModule_erase]
      rfl
  | _ => cases h

/-- An external module script is a script. -/
theorem isScript_of_isExternalModule {node : Node} (h : node.isExternalModule = true) :
    node.isScript = true := by
  cases node with
  | element tag children content =>
    have hexternal : tag.isExternalModule = true := h
    rw [Tag.isExternalModule, Bool.and_eq_true] at hexternal
    have hmodule : (Node.element tag children content).isModuleScript = true := hexternal.1
    exact Node.isScript_of_isModuleScript hmodule
  | _ => cases h

/-- An inline module script is a script. -/
theorem isScript_of_isInlineModule {node : Node} (h : node.isInlineModule = true) :
    node.isScript = true := by
  cases node with
  | element tag children content =>
    have hinline : tag.isInlineModule = true := h
    rw [Tag.isInlineModule, Bool.and_eq_true] at hinline
    have hmodule : (Node.element tag children content).isModuleScript = true := hinline.1
    exact Node.isScript_of_isModuleScript hmodule
  | _ => cases h

end External

section Transform

/-- The change of an external module script, which leaves nothing behind. -/
def versionEdit (amd : Bool) (param : Text) (_ : Unit) (_ : Node) : (Node → Node) × Unit :=
  (Node.versionScript amd param, ())

/-- The edits that version external scripts stand at their addresses. -/
theorem editsOf_versionEdit (amd : Bool) (param : Text) (scripts : List Located) :
    (editsOf (versionEdit amd param) () scripts).1 =
      scripts.map fun l => ⟨l.address, Node.versionScript amd param⟩ := by
  induction scripts with
  | nil => rfl
  | cons script scripts ih =>
    rw [editsOf, List.map_cons, ← ih]
    rfl

/-- Versioning in place is a map over the scripts. -/
theorem versionExternal_eq (amd : Bool) (param : Text) {root : Node}
    (h : root.scriptsHoldTexts = true) :
    root.versionExternal amd param =
      (root.mapScripts (changeIf (versionEdit amd param) Node.isExternalModule) ()).1 := by
  rw [← Node.applyEach_editsOf _ (fun _ => isScript_of_isExternalModule) h, editsOf_versionEdit]
  rfl

/-- Where scripts hold texts only they still do after the external ones are
versioned. -/
theorem versionExternal_scriptsHoldTexts (amd : Bool) (param : Text) {root : Node}
    (h : root.scriptsHoldTexts = true) :
    (root.versionExternal amd param).scriptsHoldTexts = true := by
  rw [versionExternal_eq amd param h]
  refine Node.mapScripts_scriptsHoldTexts (fun s node hscript hnode => ?_) h ()
  rw [changeIf]
  split
  · exact versionScript_scriptsHoldTexts amd param hscript hnode
  · exact hnode

/-- A versioned script is not changed again by what changes inline scripts. -/
theorem changeIf_changeIf {σ : Type} (edit : σ → Node → (Node → Node) × σ) (amd : Bool)
    (param : Text) (s : σ) (script : Node) :
    changeIf edit Node.isInlineModule s
        (changeIf (versionEdit amd param) Node.isExternalModule () script).1 =
      if script.isExternalModule then (script.versionScript amd param, s)
      else changeIf edit Node.isInlineModule s script := by
  rw [changeIf, changeIf]
  by_cases hexternal : script.isExternalModule = true
  · have hinline := versionScript_not_inline amd param hexternal
    simp only [hexternal, if_true, versionEdit, hinline, Bool.false_eq_true, if_false]
  · simp only [hexternal]
    rfl

/-- Changes of the inline scripts in place behind versioning in place are one
map over the scripts. -/
theorem edit_versionExternal {σ : Type} (edit : σ → Node → (Node → Node) × σ) (amd : Bool)
    (param : Text) (s : σ) {root : Node} (h : root.scriptsHoldTexts = true) :
    ((root.versionExternal amd param).applyEach
        (editsOf edit s ((root.versionExternal amd param).findAll Node.isInlineModule)).1,
      (editsOf edit s ((root.versionExternal amd param).findAll Node.isInlineModule)).2) =
      root.mapScripts (fun s script =>
        if script.isExternalModule then (script.versionScript amd param, s)
        else changeIf edit Node.isInlineModule s script) s := by
  have hfirst : ∀ node : Node, node.isScript = true →
      (changeIf (versionEdit amd param) Node.isExternalModule () node).1.isScript = true := by
    intro node hscript
    rw [changeIf]
    split
    · exact versionScript_isScript amd param hscript
    · exact hscript
  rw [Node.applyEach_editsOf _ (fun _ => isScript_of_isInlineModule)
    (versionExternal_scriptsHoldTexts amd param h), versionExternal_eq amd param h,
    Node.mapScripts_mapScripts hfirst]
  exact congrArg (fun change => root.mapScripts change s)
    (funext fun s => funext fun script => changeIf_changeIf edit amd param s script)

/-- Filling in place behind versioning in place is one map over the scripts,
which also tells the bodies given to the strategy. -/
theorem fill_versionExternal (amd : Bool) (param : Text) (new : List Text → Text → Text)
    {root : Node} (h : root.scriptsHoldTexts = true) :
    ((root.versionExternal amd param).applyEach
        (editsOf (fillEdit new) []
          ((root.versionExternal amd param).findAll Node.isInlineModule)).1,
      (editsOf (fillEdit new) []
        ((root.versionExternal amd param).findAll Node.isInlineModule)).2) =
      root.mapScripts (Node.converted amd param new) [] :=
  edit_versionExternal (fillEdit new) amd param [] h

/-- The transform of a document whose scripts hold nothing but texts is a map
over its tree, if the polyfills can be read and the strategy returns a new body
for every body it is given. -/
theorem transformBy_eq {host : Host} {location param log : Text}
    {strategy : List Text → Strategy} {plugins : List Plugin} {page : Page}
    {text : Polyfill → Text} {new : List Text → Text → Text}
    (h : page.root.scriptsHoldTexts = true)
    (hread : ∀ polyfill : Polyfill,
      (polyfill.prepare host page.cache).1.result = .ok (text polyfill))
    (hnew : ∀ before body after,
      (page.root.transformed (Capabilities.ofPlugins plugins)
        (fun polyfill => scriptElement (text polyfill)) param new).2 = before ++ body :: after →
      (strategy before body (Module.transform ⟨baseUrl page.root location,
        Capabilities.ofPlugins plugins, param, log⟩)).result = .ok (new before body)) :
    (transformBy host location strategy plugins param log page).result = .ok () ∧
      (transformBy host location strategy plugins param log page).page.root =
        (page.root.transformed (Capabilities.ofPlugins plugins)
          (fun polyfill => scriptElement (text polyfill)) param new).1 := by
  obtain ⟨hdone, hroot, htexts⟩ :=
    injectPolyfills_of_ok (Capabilities.ofPlugins plugins) hread h
  have hfill := fill_versionExternal (Capabilities.ofPlugins plugins).modulesAmd param new htexts
  rw [hroot] at hfill
  rw [Node.transformed, ← hfill, editsOf_fillEdit_given, List.nil_append] at hnew
  rw [Node.transformed, ← hfill]
  simp only [transformBy]
  rw [(Effect.andThen_of_ok rfl _).1, (Effect.andThen_of_ok rfl _).2]
  simp only [Effect.done]
  rw [(Effect.andThen_of_ok hdone _).1, (Effect.andThen_of_ok hdone _).2,
    (Effect.andThen_of_ok rfl _).1, (Effect.andThen_of_ok rfl _).2]
  simp only [versionExternal, Effect.done, transformInlineBy, hroot]
  exact fillEach_of_ok hnew _

/-- A document with an external, a fallback and an inline script, for which both
polyfills and definitions are asked for. The strategy counts the bodies. -/
theorem transformBy_eq_counting :
    let script (attributes : Attributes) (body : Text) : Node :=
      .element ⟨scriptName, htmlSpace, some attributes⟩ (if body.isEmpty then [] else
        [.text (some body)]) none
    let around (scripts : List Node) (head : List Node) : Node := .document []
      [.element (Tag.plain headName) head none, .element (Tag.plain "body".toList) scripts none]
    let modules : Attributes := [(typeName, some "module".toList)]
    let page : Page := ⟨around [script ((sourceName, some "a.js".toList) :: modules) [],
      script [(fallbackName, none)] "f".toList, script modules " x\n".toList] [],
      ⟨none, some "L".toList, some "R".toList⟩⟩
    let counting (given : List Text) (body : Text) : Text := body ++ Text.ofNat given.length
    let host : Host := ⟨[], fun _ => .error .missing⟩
    page.root.scriptsHoldTexts = true ∧
      (transformBy host [] (fun given body _ => Outcome.pure (counting given body))
        [amdPlugin, regeneratorPlugin] "v=1".toList [] page).result = .ok () ∧
      (transformBy host [] (fun given body _ => Outcome.pure (counting given body))
        [amdPlugin, regeneratorPlugin] "v=1".toList [] page).page.root =
        around [script [] "L".toList, script [] "define(['a.js?v=1']);".toList,
          script [] " x\n0\n".toList] [script [] "R".toList] := by
  intro script around modules page counting host
  have hread : ∀ polyfill : Polyfill, (polyfill.prepare host page.cache).1.result =
      .ok ((page.cache.script? polyfill).getD []) := by
    intro polyfill
    cases polyfill <;> rfl
  obtain ⟨hdone, hroot⟩ := @transformBy_eq host [] "v=1".toList []
    (fun given body _ => Outcome.pure (counting given body)) [amdPlugin, regeneratorPlugin] page
    _ counting rfl hread (fun _ _ _ _ => rfl)
  have hbody : (script modules " x\n".toList).textContent = " x\n".toList :=
    Node.textContent_of_text _ _ _
  refine ⟨rfl, hdone, hroot.trans ?_⟩
  change around [script [] "L".toList, script [] "define(['a.js?v=1']);".toList,
    (script modules " x\n".toList).fill (Text.surroundLike (script modules " x\n".toList).textContent
      (counting [] (script modules " x\n".toList).textContent))] [script [] "R".toList] = _
  rw [hbody]
  rfl

end Transform

end Page

end ModuleScripts
