import ModuleScripts.Proofs.PageMap

/-!
# Stages of a transform

A transform puts polyfills in, versions the external module scripts and then
fills the inline ones. For any tree, this module tells what a stage leaves: one
that succeeds has read the polyfills it needed, and one that fails leaves the
document as it was when the failing part was reached.
-/

namespace ModuleScripts

section Effects

variable {α β : Type} {e : Effect α}

/-- Behind a step that fails nothing is done. -/
theorem Effect.andThen_of_error {failure : Failure} (h : e.result = .error failure)
    (f : α → Page → Effect β) :
    (e.andThen f).page = e.page ∧ (e.andThen f).result = .error failure := by
  simp only [andThen, h, and_self]

/-- Two steps succeed only if the first one does and the second one behind it. -/
theorem Effect.andThen_eq_ok {f : α → Page → Effect β} {b : β}
    (h : (e.andThen f).result = .ok b) :
    ∃ a, e.result = .ok a ∧ (f a e.page).result = .ok b ∧
      (e.andThen f).page = (f a e.page).page := by
  cases he : e.result with
  | error failure =>
    rw [(andThen_of_error he f).2] at h
    cases h
  | ok a =>
    obtain ⟨hpage, hresult⟩ := andThen_of_ok he f
    exact ⟨a, rfl, hresult ▸ h, hpage⟩

end Effects

/-- The texts of both polyfills. -/
def Polyfill.texts (loader runtime : Text) : Polyfill → Text
  | .loader => loader
  | .runtime => runtime

namespace Node

/-- The tree with a script at a place, if there is one. -/
def placed (root : Node) (place : Option Place) (script : Node) : Node :=
  (place.map (Place.insert script root)).getD root

/-- The tree with the runtime at the start of its first head, if it has one and
the runtime is asked for. -/
def started (root : Node) (capabilities : Capabilities) (runtime : Node) : Node :=
  if capabilities.regenerator then root.placed (Place.head? root) runtime else root

/-- The tree with the polyfills that the capabilities ask for, where there are
places for them, and without the scripts that these make useless. -/
def polyfilled (capabilities : Capabilities) (script : Polyfill → Node) (root : Node) : Node :=
  let start := root.started capabilities (script .runtime)
  if capabilities.modulesAmd then
    (start.placed (Place.loader? start) (script .loader)).without isFallback
  else start

/-- The runtime is put in when it is asked for. -/
theorem started_eq (root : Node) (capabilities : Capabilities) (runtime : Node) :
    root.started capabilities runtime =
      if capabilities.regenerator then withRuntime runtime root else root := by
  rw [started, placed, map_insert_head?]
  rfl

/-- Where scripts hold texts only they still do once the runtime is in. -/
theorem started_scriptsHoldTexts (capabilities : Capabilities) {runtime root : Node}
    (hnew : runtime.scriptsHoldTexts = true) (h : root.scriptsHoldTexts = true) :
    (root.started capabilities runtime).scriptsHoldTexts = true := by
  rw [started_eq]
  split
  · exact withRuntime_scriptsHoldTexts hnew h
  · exact h

/-- There is a place for the runtime where there is a head to go down to. -/
theorem head?_isSome (new root : Node) :
    (Place.head? root).isSome = (underHead? new root).isSome := by
  rw [← map_insert_head?, Option.isSome_map]

/-- There is a place for the loader where there is a module script or a head to
go down to. -/
theorem loader?_isSome (new : Node) {root : Node} (h : root.scriptsHoldTexts = true) :
    (Place.loader? root).isSome = ((beforeModule? new root).or (underHead? new root)).isSome := by
  rw [← map_insert_loader? new h, Option.isSome_map]

/-- Where scripts hold nothing but texts the places are found on the way down. -/
theorem polyfilled_eq_prepared {capabilities : Capabilities} {script : Polyfill → Node}
    {root : Node} (hnew : (script .runtime).scriptsHoldTexts = true)
    (h : root.scriptsHoldTexts = true) :
    root.polyfilled capabilities script = root.prepared capabilities script := by
  have hstart := started_scriptsHoldTexts capabilities hnew h
  rw [started_eq] at hstart
  simp only [polyfilled, prepared, started_eq, placed, map_insert_loader? _ hstart, withLoader]

/-- Polyfills leave scripts of texts. -/
theorem prepared_scriptsHoldTexts {capabilities : Capabilities} {script : Polyfill → Node}
    {root : Node} (hnew : ∀ polyfill, (script polyfill).scriptsHoldTexts = true)
    (h : root.scriptsHoldTexts = true) :
    (root.prepared capabilities script).scriptsHoldTexts = true := by
  have hstart := started_scriptsHoldTexts capabilities (hnew .runtime) h
  rw [started_eq] at hstart
  simp only [prepared]
  split
  · exact without_scriptsHoldTexts isFallback (withLoader_scriptsHoldTexts (hnew .loader) hstart)
  · exact hstart

end Node

namespace Page

section Polyfills

variable {host : Host} {page : Page} {polyfill : Polyfill} {missing : Event}

/-- A polyfill that cannot be read is not put in. -/
theorem inject_of_error {failure : Failure}
    (h : (polyfill.prepare host page.cache).1.result = .error failure) (place : Place)
    (missing : Event) :
    (inject host polyfill (some place) missing page).result = .error failure ∧
      (inject host polyfill (some place) missing page).page.root = page.root := by
  simp only [inject, h, and_self]

/-- A polyfill that is put in was read. -/
theorem inject_eq_ok {place : Option Place} {put : Bool}
    (h : (inject host polyfill place missing page).result = .ok put) :
    ∃ source,
      (place.isSome = true → (polyfill.prepare host page.cache).1.result = .ok source) ∧
      (inject host polyfill place missing page).page.root =
        page.root.placed place (scriptElement source) := by
  cases place with
  | none => exact ⟨[], (fun hplace => absurd hplace Bool.false_ne_true), rfl⟩
  | some place =>
    cases hp : (polyfill.prepare host page.cache).1.result with
    | error failure =>
      rw [(inject_of_error hp place missing).1] at h
      cases h
    | ok source => exact ⟨source, fun _ => rfl, (inject_of_ok hp (some place) missing).2.1⟩

/-- Putting one polyfill in does not change what another is read as. -/
theorem prepare_inject (other : Polyfill) (place : Option Place) :
    (other.prepare host (inject host polyfill place missing page).page.cache).1.result =
      (other.prepare host page.cache).1.result := by
  have hcache : (inject host polyfill place missing page).page.cache = page.cache ∨
      (inject host polyfill place missing page).page.cache =
        (polyfill.prepare host page.cache).2 := by
    cases place with
    | none => exact .inl rfl
    | some place =>
      right
      simp only [inject]
      split
      · rfl
      · rfl
  rcases hcache with hcache | hcache
  · rw [hcache]
  · rw [hcache, Polyfill.prepare_prepare]

/-- The first part of the polyfill stage: the runtime, if it is asked for. -/
def startPolyfills (host : Host) (capabilities : Capabilities) (page : Page) : Effect Bool :=
  if capabilities.regenerator then injectRuntime host page else Effect.done page [] false

/-- The second part: the loader, if it is asked for, and the removal of what it
makes useless. -/
def finishPolyfills (host : Host) (capabilities : Capabilities) (page : Page) : Effect Unit :=
  if capabilities.modulesAmd then
    (injectLoader host page).andThen fun _ page =>
      (removeFallbacks page).andThen fun count page => Effect.done page (removalRecords count) ()
  else Effect.done page [] ()

/-- An injection puts the runtime in, and then the loader. -/
theorem injectPolyfills_eq (host : Host) (capabilities : Capabilities) (page : Page) :
    injectPolyfills host capabilities page =
      (startPolyfills host capabilities page).andThen fun _ page =>
        finishPolyfills host capabilities page := rfl

variable {capabilities : Capabilities}

/-- Putting the runtime in does not change what a polyfill is read to. -/
theorem prepare_startPolyfills (other : Polyfill) :
    (other.prepare host (startPolyfills host capabilities page).page.cache).1.result =
      (other.prepare host page.cache).1.result := by
  rw [startPolyfills]
  split
  · exact prepare_inject other _
  · rfl

/-- If the runtime is put in, its source was read or it was not needed, and the
tree has it. -/
theorem startPolyfills_eq_ok {put : Bool}
    (h : (startPolyfills host capabilities page).result = .ok put) :
    ∃ source,
      (capabilities.regenerator = true → (Place.head? page.root).isSome = true →
        (Polyfill.runtime.prepare host page.cache).1.result = .ok source) ∧
      (startPolyfills host capabilities page).page.root =
        page.root.started capabilities (scriptElement source) := by
  cases hc : capabilities.regenerator with
  | false =>
    refine ⟨[], (fun hfalse => absurd hfalse Bool.false_ne_true), ?_⟩
    rw [startPolyfills, Node.started, hc]
    rfl
  | true =>
    rw [startPolyfills, hc] at h
    rw [startPolyfills, hc]
    obtain ⟨source, hread, hroot⟩ := inject_eq_ok h
    refine ⟨source, fun _ => hread, ?_⟩
    rw [Node.started, hc]
    exact hroot

/-- The removal of fallbacks always succeeds. -/
theorem finishPolyfills_of_ok {put : Bool} (hamd : capabilities.modulesAmd = true)
    (h : (injectLoader host page).result = .ok put) :
    (finishPolyfills host capabilities page).result = .ok () ∧
      (finishPolyfills host capabilities page).page.root =
        (injectLoader host page).page.root.without Node.isFallback := by
  simp only [finishPolyfills, hamd, if_true]
  rw [(Effect.andThen_of_ok h _).1, (Effect.andThen_of_ok h _).2]
  exact ⟨rfl, removeFallbacks_root _⟩

/-- The texts of the polyfills that are read for a document. -/
structure Provides (host : Host) (capabilities : Capabilities) (page : Page)
    (text : Polyfill → Text) : Prop where
  /-- The runtime is read if it is asked for and there is a head. -/
  runtime_read : capabilities.regenerator = true → (Place.head? page.root).isSome = true →
    (Polyfill.runtime.prepare host page.cache).1.result = .ok (text .runtime)
  /-- The loader is read if it is asked for and there is a place for it. -/
  loader_read : capabilities.modulesAmd = true →
    (Place.loader? (page.root.started capabilities (scriptElement (text .runtime)))).isSome = true →
    (Polyfill.loader.prepare host page.cache).1.result = .ok (text .loader)

/-- A polyfill stage that succeeds has read what it has put in. -/
theorem injectPolyfills_eq_ok (h : (injectPolyfills host capabilities page).result = .ok ()) :
    ∃ text, Provides host capabilities page text ∧
      (injectPolyfills host capabilities page).page.root =
        page.root.polyfilled capabilities fun polyfill => scriptElement (text polyfill) := by
  rw [injectPolyfills_eq] at h ⊢
  obtain ⟨put, hstart, hfinish, hpage⟩ := Effect.andThen_eq_ok h
  obtain ⟨runtime, hruntime, hroot⟩ := startPolyfills_eq_ok hstart
  rw [hpage]
  cases hamd : capabilities.modulesAmd with
  | false =>
    refine ⟨fun _ => runtime, ⟨hruntime, fun hfalse => ?_⟩, ?_⟩
    · rw [hamd] at hfalse
      cases hfalse
    · simp only [finishPolyfills, Node.polyfilled, hamd, Bool.false_eq_true, if_false]
      exact hroot
  | true =>
    have hloader : ∃ put,
        (injectLoader host (startPolyfills host capabilities page).page).result = .ok put := by
      simp only [finishPolyfills, hamd, if_true] at hfinish
      obtain ⟨put, hput, -⟩ := Effect.andThen_eq_ok hfinish
      exact ⟨put, hput⟩
    obtain ⟨put, hput⟩ := hloader
    obtain ⟨loader, hread, hplaced⟩ := inject_eq_ok hput
    rw [prepare_startPolyfills, hroot] at hread
    refine ⟨Polyfill.texts loader runtime, ⟨hruntime, fun _ => hread⟩, ?_⟩
    rw [(finishPolyfills_of_ok hamd hput).2, injectLoader, hplaced, hroot]
    simp only [Node.polyfilled, hamd, if_true]
    rfl

/-- A polyfill that is put in where there is a place for it, if it can be read
then. -/
theorem inject_of_read {place : Option Place} {source : Text}
    (h : place.isSome = true → (polyfill.prepare host page.cache).1.result = .ok source) :
    (∃ put, (inject host polyfill place missing page).result = .ok put) ∧
      (inject host polyfill place missing page).page.root =
        page.root.placed place (scriptElement source) := by
  cases place with
  | none => exact ⟨⟨false, rfl⟩, rfl⟩
  | some place =>
    obtain ⟨hput, hroot, -⟩ := inject_of_ok (h rfl) (some place) missing
    exact ⟨hput, hroot⟩

/-- If the source of the runtime is read where it is needed, the runtime is put
in. -/
theorem startPolyfills_of_read {source : Text}
    (h : capabilities.regenerator = true → (Place.head? page.root).isSome = true →
      (Polyfill.runtime.prepare host page.cache).1.result = .ok source) :
    (∃ put, (startPolyfills host capabilities page).result = .ok put) ∧
      (startPolyfills host capabilities page).page.root =
        page.root.started capabilities (scriptElement source) := by
  rw [startPolyfills, Node.started]
  split
  · next hregenerator => exact inject_of_read (h hregenerator)
  · exact ⟨⟨false, rfl⟩, rfl⟩

/-- The polyfills that are needed are put in if they can be read. -/
theorem injectPolyfills_of_provides {text : Polyfill → Text}
    (h : Provides host capabilities page text) :
    (injectPolyfills host capabilities page).result = .ok () ∧
      (injectPolyfills host capabilities page).page.root =
        page.root.polyfilled capabilities fun polyfill => scriptElement (text polyfill) := by
  obtain ⟨⟨put, hput⟩, hroot⟩ := startPolyfills_of_read h.runtime_read
  have hloader := h.loader_read
  rw [injectPolyfills_eq, (Effect.andThen_of_ok hput _).1, (Effect.andThen_of_ok hput _).2,
    Node.polyfilled]
  cases hamd : capabilities.modulesAmd with
  | false =>
    rw [finishPolyfills, hamd]
    exact ⟨rfl, hroot⟩
  | true =>
    rw [← hroot, ← prepare_startPolyfills Polyfill.loader] at hloader
    obtain ⟨⟨put, hput⟩, hplaced⟩ :=
      @inject_of_read host _ Polyfill.loader (.placeMissing .loader) _ _ (hloader hamd)
    obtain ⟨hresult, hremoved⟩ := finishPolyfills_of_ok hamd hput
    refine ⟨hresult, hremoved.trans ?_⟩
    rw [injectLoader, hplaced, hroot]
    rfl

/-- Nothing is put in where the runtime is needed and cannot be read. -/
theorem injectPolyfills_of_runtime_error {failure : Failure}
    (hregenerator : capabilities.regenerator = true) (hplace : (Place.head? page.root).isSome = true)
    (h : (Polyfill.runtime.prepare host page.cache).1.result = .error failure) :
    (injectPolyfills host capabilities page).result = .error failure ∧
      (injectPolyfills host capabilities page).page.root = page.root := by
  obtain ⟨place, hplace⟩ := Option.isSome_iff_exists.1 hplace
  have hstart : (startPolyfills host capabilities page).result = .error failure ∧
      (startPolyfills host capabilities page).page.root = page.root := by
    rw [startPolyfills, hregenerator, if_pos rfl, injectRuntime, hplace]
    exact inject_of_error h place _
  rw [injectPolyfills_eq, (Effect.andThen_of_error hstart.1 _).1,
    (Effect.andThen_of_error hstart.1 _).2]
  exact ⟨rfl, hstart.2⟩

/-- Only the runtime is put in where the loader is needed and cannot be read. -/
theorem injectPolyfills_of_loader_error {source : Text} {failure : Failure}
    (hruntime : capabilities.regenerator = true → (Place.head? page.root).isSome = true →
      (Polyfill.runtime.prepare host page.cache).1.result = .ok source)
    (hamd : capabilities.modulesAmd = true)
    (hplace : (Place.loader?
      (page.root.started capabilities (scriptElement source))).isSome = true)
    (h : (Polyfill.loader.prepare host page.cache).1.result = .error failure) :
    (injectPolyfills host capabilities page).result = .error failure ∧
      (injectPolyfills host capabilities page).page.root =
        page.root.started capabilities (scriptElement source) := by
  obtain ⟨place, hplace⟩ := Option.isSome_iff_exists.1 hplace
  obtain ⟨⟨put, hput⟩, hroot⟩ := startPolyfills_of_read hruntime
  have hloader : (injectLoader host (startPolyfills host capabilities page).page).result =
        .error failure ∧
      (injectLoader host (startPolyfills host capabilities page).page).page.root =
        (startPolyfills host capabilities page).page.root := by
    rw [← prepare_startPolyfills Polyfill.loader] at h
    rw [injectLoader, hroot, hplace]
    rw [← hroot]
    exact inject_of_error h place _
  rw [injectPolyfills_eq, (Effect.andThen_of_ok hput _).1, (Effect.andThen_of_ok hput _).2,
    finishPolyfills, hamd, if_pos rfl, (Effect.andThen_of_error hloader.1 _).1,
    (Effect.andThen_of_error hloader.1 _).2]
  exact ⟨rfl, hloader.2.trans hroot⟩

end Polyfills

section Inline

variable {transform : List Text → Text → Outcome Text} {scripts : List Located}
  {given : List Text} {page : Page}

/-- The new body that a transform gives behind given bodies, empty if it fails. -/
def newBody (transform : List Text → Text → Outcome Text) (given : List Text) (body : Text) :
    Text :=
  match (transform given body).result with
  | .ok new => new
  | .error _ => []

/-- Scripts that are all filled have all been given to the transform, which has
succeeded for each of them. -/
theorem fillEach_eq_ok (h : (fillEach transform given scripts page).result = .ok ()) :
    (fillEach transform given scripts page).page.root =
        page.root.applyEach (editsOf (fillEdit (newBody transform)) given scripts).1 ∧
      ∀ before script after, scripts = before ++ script :: after →
        (transform (given ++ before.map fun l => l.node.textContent)
            script.node.textContent).result =
          .ok (newBody transform (given ++ before.map fun l => l.node.textContent)
            script.node.textContent) := by
  induction scripts generalizing given page with
  | nil => exact ⟨rfl, fun before script after hsplit => by simp at hsplit⟩
  | cons script scripts ih =>
    cases hbody : (transform given script.node.textContent).result with
    | error failure =>
      simp only [fillEach, hbody] at h
      cases h
    | ok new =>
      have hnew : newBody transform given script.node.textContent = new := by
        rw [newBody, hbody]
      simp only [fillEach, hbody] at h ⊢
      rw [(Effect.andThen_of_ok rfl _).2] at h
      obtain ⟨hroot, hlater⟩ := ih h
      refine ⟨?_, fun before other after hsplit => ?_⟩
      · rw [(Effect.andThen_of_ok rfl _).1, hroot, editsOf, fillEdit, hnew]
        rfl
      · cases before with
        | nil =>
          obtain ⟨rfl, rfl⟩ := List.cons.inj hsplit
          rw [List.map_nil, List.append_nil, hnew]
          exact hbody
        | cons first before =>
          obtain ⟨rfl, hrest⟩ := List.cons.inj hsplit
          have := hlater before other after hrest
          rwa [List.append_assoc] at this

end Inline

section Transform

variable {host : Host} {location param log : Text} {strategy : List Text → Strategy}
  {plugins : List Plugin} {page : Page}

/-- What a strategy makes of a body behind given bodies, in a document. -/
def strategyOn (location param log : Text) (strategy : List Text → Strategy)
    (plugins : List Plugin) (page : Page) (given : List Text) (body : Text) : Outcome Text :=
  strategy given body (Module.transform
    ⟨baseUrl page.root location, Capabilities.ofPlugins plugins, param, log⟩)

/-- A document whose polyfills are put in is versioned and then filled. -/
theorem transformBy_of_ok
    (h : (injectPolyfills host (Capabilities.ofPlugins plugins) page).result = .ok ()) :
    let stage := (injectPolyfills host (Capabilities.ofPlugins plugins) page).page
    let versioned :=
      stage.root.versionExternal (Capabilities.ofPlugins plugins).modulesAmd param
    let filled := fillEach (strategyOn location param log strategy plugins page) []
      (versioned.findAll Node.isInlineModule) ⟨versioned, stage.cache⟩
    (transformBy host location strategy plugins param log page).result = filled.result ∧
      (transformBy host location strategy plugins param log page).page = filled.page := by
  dsimp only [transformBy]
  rw [(Effect.andThen_of_ok rfl _).1, (Effect.andThen_of_ok rfl _).2]
  simp only [Effect.done]
  rw [(Effect.andThen_of_ok h _).1, (Effect.andThen_of_ok h _).2,
    (Effect.andThen_of_ok rfl _).1, (Effect.andThen_of_ok rfl _).2]
  exact ⟨rfl, rfl⟩

/-- A document whose polyfills cannot be put in is left as they leave it. -/
theorem transformBy_of_error {failure : Failure}
    (h : (injectPolyfills host (Capabilities.ofPlugins plugins) page).result = .error failure) :
    (transformBy host location strategy plugins param log page).result = .error failure ∧
      (transformBy host location strategy plugins param log page).page =
        (injectPolyfills host (Capabilities.ofPlugins plugins) page).page := by
  dsimp only [transformBy]
  rw [(Effect.andThen_of_ok rfl _).1, (Effect.andThen_of_ok rfl _).2]
  simp only [Effect.done]
  rw [(Effect.andThen_of_error h _).1, (Effect.andThen_of_error h _).2]
  exact ⟨rfl, rfl⟩

/-- A transform that succeeds has read the polyfills it needed, and the strategy
has succeeded for every inline script. -/
theorem transformBy_eq_ok
    (h : (transformBy host location strategy plugins param log page).result = .ok ()) :
    ∃ text, Provides host (Capabilities.ofPlugins plugins) page text ∧
      let transform := strategyOn location param log strategy plugins page
      let versioned := (page.root.polyfilled (Capabilities.ofPlugins plugins)
        fun polyfill => scriptElement (text polyfill)).versionExternal
          (Capabilities.ofPlugins plugins).modulesAmd param
      (transformBy host location strategy plugins param log page).page.root =
          versioned.applyEach (editsOf (fillEdit (newBody transform)) []
            (versioned.findAll Node.isInlineModule)).1 ∧
        ∀ before script after,
          versioned.findAll Node.isInlineModule = before ++ script :: after →
          (transform (before.map fun l => l.node.textContent) script.node.textContent).result =
            .ok (newBody transform (before.map fun l => l.node.textContent)
              script.node.textContent) := by
  cases hstage : (injectPolyfills host (Capabilities.ofPlugins plugins) page).result with
  | error failure =>
    rw [(transformBy_of_error hstage).1] at h
    cases h
  | ok done =>
    obtain ⟨text, hprovides, hroot⟩ := injectPolyfills_eq_ok hstage
    obtain ⟨hresult, hpage⟩ :=
      @transformBy_of_ok host location param log strategy plugins page hstage
    rw [hresult, hroot] at h
    obtain ⟨hfilled, hgiven⟩ := fillEach_eq_ok h
    refine ⟨text, hprovides, ?_, hgiven⟩
    rw [hpage, hroot, hfilled]

/-- A transform that succeeds makes of a document whose scripts hold texts what it
becomes script by script. -/
theorem transformBy_transformed (htexts : page.root.scriptsHoldTexts = true)
    (h : (transformBy host location strategy plugins param log page).result = .ok ()) :
    ∃ text, Provides host (Capabilities.ofPlugins plugins) page text ∧
      (transformBy host location strategy plugins param log page).page.root =
        (page.root.transformed (Capabilities.ofPlugins plugins)
          (fun polyfill => scriptElement (text polyfill)) param
          (newBody (strategyOn location param log strategy plugins page))).1 := by
  obtain ⟨text, hprovides, hroot, -⟩ := transformBy_eq_ok h
  have hprepared : (page.root.prepared (Capabilities.ofPlugins plugins)
      fun polyfill => scriptElement (text polyfill)).scriptsHoldTexts = true :=
    Node.prepared_scriptsHoldTexts (fun _ => scriptElement_scriptsHoldTexts _) htexts
  rw [Node.polyfilled_eq_prepared (scriptElement_scriptsHoldTexts _) htexts] at hroot
  exact ⟨text, hprovides, hroot.trans
    (congrArg Prod.fst (fill_versionExternal _ param _ hprepared))⟩

/-- A transform succeeds if the polyfills it needs can be read and the strategy
never fails. -/
theorem transformBy_of_provides {text : Polyfill → Text} {new : List Text → Text → Text}
    (hread : Provides host (Capabilities.ofPlugins plugins) page text)
    (hnew : ∀ given body, (strategyOn location param log strategy plugins page given body).result =
      .ok (new given body)) :
    (transformBy host location strategy plugins param log page).result = .ok () := by
  obtain ⟨hdone, -⟩ := injectPolyfills_of_provides hread
  rw [(@transformBy_of_ok host location param log strategy plugins page hdone).1]
  exact (fillEach_of_ok (fun before body after _ => hnew _ body) _).1

end Transform

end Page

end ModuleScripts
