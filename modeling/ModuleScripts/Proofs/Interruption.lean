import ModuleScripts.Proofs.ScriptChanges
import ModuleScripts.Proofs.Stages
import ModuleScripts.Proofs.Tour

/-!
# Transforms that are interrupted

A transform that fails leaves the document as far as it got. If a polyfill that
is needed cannot be read, at most the runtime is put in. If the strategy fails
at an inline script, everything that comes before that script has been done, and
it and the inline scripts behind it are as they were.
-/

namespace ModuleScripts

namespace Node

/-- What becomes of a script if only a number of inline scripts are filled: an
inline script behind them stays as it is. -/
def convertedFirst (n : Nat) (amd : Bool) (param : Text) (new : List Text → Text → Text)
    (given : List Text) (script : Node) : Node × List Text :=
  if script.isInlineModule && n ≤ given.length then (script, given)
  else script.converted amd param new given

/-- Leaving a member alone leaves the list alone. -/
theorem modifyNth_id {α : Type} (index : Nat) (list : List α) : modifyNth id index list = list := by
  induction list generalizing index with
  | nil => cases index <;> rfl
  | cons x list ih =>
    cases index with
    | zero => rfl
    | succ index => rw [modifyNth, ih]

/-- A node is left where it is and as it is. -/
theorem modify_id (address : Address) (root : Node) : root.modify id address = root := by
  induction address generalizing root with
  | nil => rfl
  | cons index address ih =>
    have hchild : modify id address = id := funext ih
    rw [modify, hchild, mapChildren_eq_self (modifyNth_id index root.children)]

end Node

section First

variable {n : Nat} {amd : Bool} {param : Text} {new : List Text → Text → Text}

/-- The change of an inline script if only a number of them are filled. -/
def firstEdit (n : Nat) (new : List Text → Text → Text) (given : List Text) (script : Node) :
    (Node → Node) × List Text :=
  if given.length < n then Page.fillEdit new given script else (id, given)

/-- Where enough scripts are filled no other one is changed. -/
theorem applyEach_firstEdit_of_le {given : List Text} (h : n ≤ given.length)
    (later : List Located) (root : Node) :
    root.applyEach (editsOf (firstEdit n new) given later).1 = root := by
  induction later with
  | nil => rfl
  | cons script later ih =>
    have hedit : firstEdit n new given script.node = (id, given) := if_neg (Nat.not_lt.2 h)
    rw [editsOf, hedit]
    change (root.modify id script.address).applyEach _ = root
    rw [Node.modify_id, ih]

/-- The first scripts are changed as if there were no others. -/
theorem applyEach_firstEdit {given : List Text} {done : List Located}
    (h : given.length + done.length = n) (later : List Located) (root : Node) :
    root.applyEach (editsOf (firstEdit n new) given (done ++ later)).1 =
      root.applyEach (editsOf (Page.fillEdit new) given done).1 := by
  induction done generalizing given root with
  | nil => exact applyEach_firstEdit_of_le (Nat.le_of_eq h.symm) later root
  | cons script done ih =>
    have hroom : given.length < n := by
      rw [List.length_cons] at h
      omega
    have hedit : firstEdit n new given script.node = Page.fillEdit new given script.node :=
      if_pos hroom
    have hrest : (given ++ [script.node.textContent]).length + done.length = n := by
      rw [List.length_cons] at h
      rw [List.length_append, List.length_singleton]
      omega
    rw [List.cons_append, editsOf, editsOf, hedit]
    exact ih hrest (root.modify _ script.address)

/-- Versioning and then filling the first scripts is one change of a script. -/
theorem firstEdit_converted (given : List Text) (script : Node) :
    (if script.isExternalModule then (script.versionScript amd param, given)
      else changeIf (firstEdit n new) Node.isInlineModule given script) =
      script.convertedFirst n amd param new given := by
  rw [Node.convertedFirst, changeIf, firstEdit, Node.converted]
  cases hexternal : script.isExternalModule with
  | true =>
    rw [Node.not_inline_of_external hexternal]
    rfl
  | false =>
    cases script.isInlineModule with
    | true =>
      by_cases hroom : given.length < n
      · simp [hroom, Nat.not_le.2 hroom, Page.fillEdit]
      · simp [hroom, Nat.not_lt.1 hroom]
    | false => rfl

namespace Node

variable {given : List Text} {script : Node}

/-- Before enough scripts are filled a script becomes what it becomes in a
transform that is not interrupted. -/
theorem convertedFirst_eq (h : script.isInlineModule = true → given.length < n) :
    script.convertedFirst n amd param new given = script.converted amd param new given := by
  have hroom : ¬(script.isInlineModule && n ≤ given.length) = true := by
    rw [Bool.and_eq_true, decide_eq_true_eq, not_and]
    exact fun hinline => Nat.not_le.2 (h hinline)
  rw [convertedFirst, if_neg hroom]

/-- A script stays a script in an interrupted transform. -/
theorem convertedFirst_isScript (h : script.isScript = true) :
    (script.convertedFirst n amd param new given).1.isScript = true := by
  rw [convertedFirst]
  split
  · exact h
  · exact converted_isScript h

/-- A script holds texts only in an interrupted transform too. -/
theorem convertedFirst_scriptsHoldTexts (hscript : script.isScript = true)
    (h : script.scriptsHoldTexts = true) :
    (script.convertedFirst n amd param new given).1.scriptsHoldTexts = true := by
  rw [convertedFirst]
  split
  · exact h
  · exact converted_scriptsHoldTexts hscript h

end Node

namespace Visit

/-- A change that makes no script fit or cease to fit leaves the scripts that
fit. -/
theorem filterMap_changeAll {σ : Type} {fits : Node → Bool} {f : σ → Node → Node × σ}
    (h : ∀ s node, node.isScript = true →
      found? fits (whole (f s node).1) = found? fits (whole node)) (s : σ) (visits : List Visit) :
    (changeAll f s visits).1.filterMap (found? fits) = visits.filterMap (found? fits) := by
  induction visits generalizing s with
  | nil => rfl
  | cons v visits ih =>
    have hv : found? fits (change f s v).1 = found? fits v := by
      cases v with
      | whole node =>
        rw [change]
        split
        · next hscript => exact h s node hscript
        · rfl
      | _ => rfl
    rw [changeAll, List.filterMap_cons, List.filterMap_cons, hv, ih]

/-- An inline script is found where it is visited as a whole. -/
theorem found?_inline (node : Node) :
    found? Node.isInlineModule (whole node) = if node.isInlineModule then some node else none := by
  cases node <;> rfl

/-- Only an inline script is found as one. -/
theorem eq_of_found?_inline {v : Visit} {node : Node}
    (h : found? Node.isInlineModule v = some node) :
    v = whole node ∧ node.isInlineModule = true := by
  cases v with
  | whole other =>
    rw [found?_inline] at h
    split at h
    · next hinline =>
      cases h
      exact ⟨rfl, hinline⟩
    · cases h
  | _ => cases h

/-- A member that is no inline script is none behind the change. -/
theorem change_of_not_inline {given : List Text} {v : Visit}
    (h : found? Node.isInlineModule v = none) :
    found? Node.isInlineModule (change (Node.convertedFirst n amd param new) given v).1 = none ∧
      (change (Node.convertedFirst n amd param new) given v).2 = given := by
  cases v with
  | whole node =>
    have hinline : node.isInlineModule = false := by
      rw [found?_inline] at h
      cases hinline : node.isInlineModule with
      | true =>
        rw [hinline] at h
        cases h
      | false => rfl
    rw [change]
    split
    · have hroom : node.isInlineModule = true → given.length < n := by
        intro hnode
        rw [hinline] at hnode
        cases hnode
      rw [Node.convertedFirst_eq hroom, found?_inline, Node.converted_not_inline,
        Node.converted_given, hinline]
      exact ⟨rfl, rfl⟩
    · exact ⟨h, rfl⟩
  | _ => exact ⟨rfl, rfl⟩

/-- Filling the first inline scripts leaves those behind them. -/
theorem filterMap_convertedFirst (given : List Text) (visits : List Visit) :
    (changeAll (Node.convertedFirst n amd param new) given visits).1.filterMap
        (found? Node.isInlineModule) =
      (visits.filterMap (found? Node.isInlineModule)).drop (n - given.length) := by
  induction visits generalizing given with
  | nil => simp [changeAll]
  | cons v visits ih =>
    rw [changeAll, List.filterMap_cons, List.filterMap_cons, ih]
    cases hv : found? Node.isInlineModule v with
    | none =>
      obtain ⟨hfound, hgiven⟩ := change_of_not_inline hv
      rw [hfound, hgiven]
    | some node =>
      obtain ⟨rfl, hinline⟩ := eq_of_found?_inline hv
      have hscript : node.isScript = true := Page.isScript_of_isInlineModule hinline
      by_cases hfull : n ≤ given.length
      · -- nothing is filled any more
        have hstay : change (Node.convertedFirst n amd param new) given (whole node) =
            (whole node, given) := by
          simp only [change, hscript, if_true, Node.convertedFirst, hinline, hfull, decide_true,
            Bool.and_self]
        rw [hstay, hv, Nat.sub_eq_zero_of_le hfull]
        rfl
      · have hfill : node.convertedFirst n amd param new given =
            node.converted amd param new given :=
          Node.convertedFirst_eq fun _ => Nat.not_le.1 hfull
        have hlength : n - given.length = n - (given ++ [node.textContent]).length + 1 := by
          rw [List.length_append, List.length_singleton]
          omega
        rw [change, if_pos hscript, hfill, found?_inline, Node.converted_not_inline,
          Node.converted_given, if_pos hinline, hlength]
        rfl

end Visit

end First

namespace Page

section Bodies

variable {amd : Bool} {param : Text} {new : List Text → Text → Text} {root : Node}

/-- The inline scripts in document order. -/
def inlineScripts (root : Node) : List Node :=
  (root.findAll Node.isInlineModule).map Located.node

/-- They are those of the tour. -/
theorem inlineScripts_eq (h : root.scriptsHoldTexts = true) :
    inlineScripts root = root.tour.filterMap (Visit.found? Node.isInlineModule) :=
  Node.map_node_findAll (fun _ => isScript_of_isInlineModule) h

/-- Versioning leaves the inline scripts as they are. -/
theorem inlineScripts_versionExternal (h : root.scriptsHoldTexts = true) :
    inlineScripts (root.versionExternal amd param) = inlineScripts root := by
  have hchange : ∀ (s : Unit) (node : Node), node.isScript = true →
      Visit.found? Node.isInlineModule
          (.whole (changeIf (versionEdit amd param) Node.isExternalModule s node).1) =
        Visit.found? Node.isInlineModule (.whole node) := by
    intro s node hscript
    rw [Visit.found?_inline, Visit.found?_inline, changeIf]
    split
    · next hexternal =>
      have hversioned : ((versionEdit amd param s node).1 node).isInlineModule = false :=
        versionScript_not_inline amd param hexternal
      rw [hversioned, Node.not_inline_of_external hexternal]
      rfl
    · rfl
  have hscripts : ∀ (s : Unit) (node : Node), node.isScript = true →
      (changeIf (versionEdit amd param) Node.isExternalModule s node).1.isScript = true := by
    intro s node hscript
    rw [changeIf]
    split
    · exact versionScript_isScript amd param hscript
    · exact hscript
  have hversioned := versionExternal_scriptsHoldTexts amd param h
  rw [inlineScripts_eq hversioned, inlineScripts_eq h, versionExternal_eq amd param h,
    ← Visit.filterMap_changeAll hchange () root.tour, ← Node.tour_mapScripts hscripts]

/-- Filling the first inline scripts leaves those behind them. -/
theorem inlineScripts_convertedFirst (h : root.scriptsHoldTexts = true) (n : Nat) :
    inlineScripts (root.mapScripts (Node.convertedFirst n amd param new) []).1 =
      (inlineScripts root).drop n := by
  have hscripts : ∀ (given : List Text) (script : Node), script.isScript = true →
      (script.convertedFirst n amd param new given).1.isScript = true :=
    fun _ _ => Node.convertedFirst_isScript
  have htexts : (root.mapScripts (Node.convertedFirst n amd param new) []).1.scriptsHoldTexts =
      true :=
    Node.mapScripts_scriptsHoldTexts (fun _ _ => Node.convertedFirst_scriptsHoldTexts) h []
  rw [inlineScripts_eq htexts, inlineScripts_eq h]
  have htour : (root.mapScripts (Node.convertedFirst n amd param new) []).1.tour =
      (Visit.changeAll (Node.convertedFirst n amd param new) [] root.tour).1 :=
    congrArg Prod.fst (Node.tour_mapScripts hscripts root [])
  rw [htour]
  exact Visit.filterMap_convertedFirst [] root.tour

/-- A strategy that fails at a script has filled the scripts before it. -/
theorem fillEach_of_error {transform : List Text → Text → Outcome Text} {cache : Cache}
    {before after : List Text} {body : Text} {failure : Failure}
    (h : root.scriptsHoldTexts = true)
    (hbodies : (inlineScripts root).map Node.textContent = before ++ body :: after)
    (hbefore : ∀ given body rest, before = given ++ body :: rest →
      (transform given body).result = .ok (new given body))
    (hbody : (transform before body).result = .error failure) :
    let versioned := root.versionExternal amd param
    let filled :=
      fillEach transform [] (versioned.findAll Node.isInlineModule) ⟨versioned, cache⟩
    filled.result = .error failure ∧
      filled.page.root =
        (root.mapScripts (Node.convertedFirst before.length amd param new) []).1 := by
  intro versioned filled
  rw [← @inlineScripts_versionExternal amd param root h, inlineScripts, List.map_map] at hbodies
  obtain ⟨done, rest, hfound, hdone, hrest⟩ := List.map_eq_append_iff.1 hbodies
  obtain ⟨script, later, rfl, hscript, -⟩ := List.map_eq_cons_iff.1 hrest
  have hgiven : ∀ given body rest,
      (done.map fun l => l.node.textContent) = given ++ body :: rest →
        (transform ([] ++ given) body).result = .ok (new ([] ++ given) body) := by
    intro given body rest hsplit
    exact hbefore given body rest (hdone.symm.trans hsplit)
  obtain ⟨hresult, hpage⟩ := @fillEach_append transform new done (script :: later) [] hgiven
    ⟨versioned, cache⟩
  have hdone' : ([] ++ done.map fun l => l.node.textContent) = before := hdone
  have hscript' : script.node.textContent = body := hscript
  rw [hdone', ← hfound] at hresult hpage
  simp only [fillEach, hscript', hbody] at hresult hpage
  refine ⟨hresult, ?_⟩
  have hlength : ([] : List Text).length + done.length = before.length := by
    rw [← hdone, List.length_map, List.length_nil, Nat.zero_add]
  have hfirst := @applyEach_firstEdit before.length new [] done hlength (script :: later) versioned
  have hmap := congrArg Prod.fst (edit_versionExternal (firstEdit before.length new) amd param [] h)
  have hchange : (fun given (script : Node) =>
      if script.isExternalModule then (script.versionScript amd param, given)
      else changeIf (firstEdit before.length new) Node.isInlineModule given script) =
      Node.convertedFirst before.length amd param new :=
    funext fun given => funext fun script => firstEdit_converted given script
  rw [hchange] at hmap
  rw [← hfound] at hfirst
  rw [← hmap]
  exact (congrArg Page.root hpage).trans hfirst.symm

end Bodies

section Transform

variable {host : Host} {location param log : Text} {strategy : List Text → Strategy}
  {plugins : List Plugin} {page : Page}

/-- A transform that is interrupted leaves the document as far as it got. If the
strategy fails at an inline script, the polyfills are put in, the fallbacks are
taken out if they are useless, all external module scripts are versioned and the
inline ones before that script are filled; it and those behind it stay as they
are. If the runtime is needed and cannot be read, the document is as it was. If
the loader is needed and cannot be read, at most the runtime is put in. -/
theorem transformBy_interrupted (text : Polyfill → Text) (new : List Text → Text → Text)
    (failure : Failure) :
    let capabilities := Capabilities.ofPlugins plugins
    let script := fun polyfill => scriptElement (text polyfill)
    let prepared := page.root.prepared capabilities script
    let outcome := transformBy host location strategy plugins param log page
    (∀ before body after, page.root.scriptsHoldTexts = true →
      Provides host capabilities page text →
      (inlineScripts prepared).map Node.textContent = before ++ body :: after →
      (∀ given body rest, before = given ++ body :: rest →
        (strategyOn location param log strategy plugins page given body).result =
          .ok (new given body)) →
      (strategyOn location param log strategy plugins page before body).result =
        .error failure →
      outcome.result = .error failure ∧
        outcome.page.root = (prepared.mapScripts
          (Node.convertedFirst before.length capabilities.modulesAmd param new) []).1 ∧
        inlineScripts outcome.page.root = (inlineScripts prepared).drop before.length) ∧
    (capabilities.regenerator = true → (Place.head? page.root).isSome = true →
      (Polyfill.runtime.prepare host page.cache).1.result = .error failure →
      outcome.result = .error failure ∧ outcome.page.root = page.root) ∧
    (capabilities.modulesAmd = true →
      (capabilities.regenerator = true → (Place.head? page.root).isSome = true →
        (Polyfill.runtime.prepare host page.cache).1.result = .ok (text .runtime)) →
      (Place.loader? (page.root.started capabilities (script .runtime))).isSome = true →
      (Polyfill.loader.prepare host page.cache).1.result = .error failure →
      outcome.result = .error failure ∧
        outcome.page.root =
          if capabilities.regenerator then Node.withRuntime (script .runtime) page.root
          else page.root) := by
  intro capabilities script prepared outcome
  refine ⟨?body, ?runtime, ?loader⟩
  case body =>
    intro before body after h hread hbodies hbefore hbody
    obtain ⟨hdone, hroot⟩ := injectPolyfills_of_provides hread
    have hprepared : page.root.polyfilled capabilities script = prepared :=
      Node.polyfilled_eq_prepared (scriptElement_scriptsHoldTexts _) h
    have htexts : prepared.scriptsHoldTexts = true :=
      Node.prepared_scriptsHoldTexts (fun _ => scriptElement_scriptsHoldTexts _) h
    obtain ⟨hresult, hpage⟩ :=
      @transformBy_of_ok host location param log strategy plugins page hdone
    rw [hroot.trans hprepared] at hresult hpage
    obtain ⟨hfailed, hfilled⟩ := fillEach_of_error htexts hbodies hbefore hbody
    have hleft : outcome.page.root = (prepared.mapScripts
        (Node.convertedFirst before.length capabilities.modulesAmd param new) []).1 :=
      (congrArg Page.root hpage).trans hfilled
    refine ⟨hresult.trans hfailed, hleft, ?_⟩
    rw [hleft]
    exact inlineScripts_convertedFirst htexts before.length
  case runtime =>
    intro hregenerator hplace hread
    obtain ⟨hfailed, hroot⟩ := injectPolyfills_of_runtime_error hregenerator hplace hread
    obtain ⟨hresult, hpage⟩ :=
      @transformBy_of_error host location param log strategy plugins page failure hfailed
    exact ⟨hresult, (congrArg Page.root hpage).trans hroot⟩
  case loader =>
    intro hamd hruntime hplace hread
    obtain ⟨hfailed, hroot⟩ := injectPolyfills_of_loader_error hruntime hamd hplace hread
    obtain ⟨hresult, hpage⟩ :=
      @transformBy_of_error host location param log strategy plugins page failure hfailed
    refine ⟨hresult, ?_⟩
    rw [← Node.started_eq]
    exact (congrArg Page.root hpage).trans hroot

/-- The strategy fails at the second of two inline scripts, the runtime cannot be
read, and the loader cannot. -/
theorem transformBy_interrupted_thrice :
    let script (attributes : Attributes) (body : Text) : Node :=
      .element ⟨scriptName, htmlSpace, some attributes⟩ (if body.isEmpty then [] else
        [.text (some body)]) none
    let around (scripts : List Node) (head : List Node) : Node := .document []
      [.element (Tag.plain headName) head none, .element (Tag.plain "body".toList) scripts none]
    let modules : Attributes := [(typeName, some "module".toList)]
    let root : Node := around [script ((sourceName, some "a.js".toList) :: modules) [],
      script [(fallbackName, none)] "f".toList, script modules " x\n".toList,
      script modules "y".toList] []
    let failure : Failure := .badEscape ⟨'q', 0⟩
    let refusing (given : List Text) : Strategy := fun body _ =>
      if given.isEmpty then Outcome.pure (body ++ "!".toList) else Outcome.fail failure
    let lost (polyfill : Polyfill) : Failure := .polyfill ⟨polyfill, ⟨.missing, "p.js".toList⟩⟩
    let file : Option Path := some (Path.ofText "p.js".toList)
    let host : Host := ⟨[], fun _ => .error .missing⟩
    let outcome (cache : Cache) : Effect Unit :=
      transformBy host [] refusing [amdPlugin, regeneratorPlugin] "v=1".toList [] ⟨root, cache⟩
    ((outcome ⟨none, some "L".toList, some "R".toList⟩).result = .error failure ∧
      (outcome ⟨none, some "L".toList, some "R".toList⟩).page.root =
        around [script [] "L".toList, script [] "define(['a.js?v=1']);".toList,
          script [] " x\n!\n".toList, script modules "y".toList] [script [] "R".toList]) ∧
    ((outcome ⟨some ⟨none, file, []⟩, none, none⟩).result = .error (lost .runtime) ∧
      (outcome ⟨some ⟨none, file, []⟩, none, none⟩).page.root = root) ∧
    ((outcome ⟨some ⟨file, none, []⟩, none, some "R".toList⟩).result = .error (lost .loader) ∧
      (outcome ⟨some ⟨file, none, []⟩, none, some "R".toList⟩).page.root =
        Node.withRuntime (scriptElement "R".toList) root) := by
  intro script around modules root failure refusing lost file host outcome
  have hfirst : (script modules " x\n".toList).textContent = " x\n".toList :=
    Node.textContent_of_text _ _ _
  have hsecond : (script modules "y".toList).textContent = "y".toList :=
    Node.textContent_of_text _ _ _
  have hhead : (Place.head? root).isSome = true := Node.head?_isSome (scriptElement []) root
  refine ⟨?_, ?_, ?_⟩
  · have hread : Provides host (Capabilities.ofPlugins [amdPlugin, regeneratorPlugin])
        ⟨root, ⟨none, some "L".toList, some "R".toList⟩⟩
        (Polyfill.texts "L".toList "R".toList) :=
      ⟨fun _ _ => rfl, fun _ _ => rfl⟩
    have hbodies : (inlineScripts (around [script [] "L".toList,
        script ((sourceName, some "a.js".toList) :: modules) [], script modules " x\n".toList,
        script modules "y".toList] [script [] "R".toList])).map Node.textContent =
        [" x\n".toList] ++ "y".toList :: [] := by
      rw [inlineScripts_eq rfl]
      change [(script modules " x\n".toList).textContent,
        (script modules "y".toList).textContent] = _
      rw [hfirst, hsecond]
      rfl
    have hbefore : ∀ given body rest, [" x\n".toList] = given ++ body :: rest →
        (refusing given body fun _ => Outcome.pure []).result = .ok (body ++ "!".toList) := by
      intro given body rest hsplit
      cases given with
      | nil => rfl
      | cons _ given => simp at hsplit
    obtain ⟨hfailed, hroot, -⟩ := (@transformBy_interrupted host [] "v=1".toList [] refusing
      [amdPlugin, regeneratorPlugin] ⟨root, ⟨none, some "L".toList, some "R".toList⟩⟩
      (Polyfill.texts "L".toList "R".toList) (fun _ body => body ++ "!".toList)
      failure).1 [" x\n".toList] "y".toList [] rfl hread hbodies hbefore rfl
    refine ⟨hfailed, hroot.trans ?_⟩
    change around [script [] "L".toList, script [] "define(['a.js?v=1']);".toList,
      (script modules " x\n".toList).fill (Text.surroundLike
        (script modules " x\n".toList).textContent
        ((script modules " x\n".toList).textContent ++ "!".toList)),
      script modules "y".toList] [script [] "R".toList] = _
    rw [hfirst]
    rfl
  · exact (@transformBy_interrupted host [] "v=1".toList [] refusing
      [amdPlugin, regeneratorPlugin] ⟨root, ⟨some ⟨none, file, []⟩, none, none⟩⟩
      (fun _ => []) (fun _ _ => []) (lost .runtime)).2.1 rfl hhead rfl
  · have hplace : (Place.loader? (root.started
        (Capabilities.ofPlugins [amdPlugin, regeneratorPlugin]) (scriptElement "R".toList))).isSome =
        true := by
      rw [Node.loader?_isSome (scriptElement []), Node.started_eq]
      · rfl
      · exact Node.started_scriptsHoldTexts _ rfl rfl
    exact (@transformBy_interrupted host [] "v=1".toList [] refusing
      [amdPlugin, regeneratorPlugin] ⟨root, ⟨some ⟨file, none, []⟩, none, some "R".toList⟩⟩
      (fun _ => "R".toList) (fun _ _ => []) (lost .loader)).2.2 rfl (fun _ _ => rfl) hplace rfl

end Transform

end Page

end ModuleScripts
