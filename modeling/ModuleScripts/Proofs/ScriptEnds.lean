import ModuleScripts.Proofs.CodeTags
import ModuleScripts.Proofs.NestedScripts

/-!
# Scripts end at their own end tags

The text of a script is written as it is, so a script whose text has an end tag
ends there. The transform puts texts into scripts that come from elsewhere:
polyfills, sources of other scripts, specifiers and the base URL. No script gets
an end tag by this unless a source or the base URL has one.
-/

namespace ModuleScripts

/-- Whether a tag is that of a script of the HTML syntax. -/
def Tag.isHtmlScript (tag : Tag) : Bool := tag.name == scriptName && tag.space == htmlSpace

namespace Node

/-- Whether a node is a script of the HTML syntax. -/
def isHtmlScript : Node → Bool := tagFits Tag.isHtmlScript

/-- A script of the HTML syntax holds nothing but texts, and no end tag in them.
Other nodes may hold anything. -/
def ConfinesText (node : Node) : Prop :=
  node.isHtmlScript = true → node.children.all isText = true ∧ node.textContent.EndTagFree

/-- All scripts from a node on down confine their texts, also those in the
content of templates. -/
inductive Confined : Node → Prop where
  /-- It is so of the node, of its children and of its content. -/
  | intro {node : Node} (here : node.ConfinesText)
      (children : ∀ child ∈ node.children, Confined child)
      (contents : ∀ part ∈ node.contents, Confined part) : Confined node

/-- The source of an external module script of the HTML syntax has no end tag. -/
def ConfinesSource (node : Node) : Prop :=
  node.isHtmlScript = true → node.isExternalModule = true → node.source.EndTagFree

/-- A script of the HTML syntax is written as a start tag, a body and an end tag,
and the first end tag of a script behind the start tag, whatever follows, is this
one. -/
def ClosesItself (node : Node) : Prop :=
  node.isHtmlScript = true → ∃ attributes body,
    (∀ raw, node.write raw =
      Markup.startTag scriptName attributes ++ (body ++ Markup.endTag scriptName)) ∧
      ∀ rest, Polyfill.splitEndTag (body ++ (Markup.endTag scriptName ++ rest)) = (body, some '>')

/-- A script of the HTML syntax is an element of that name and syntax. -/
theorem exists_of_isHtmlScript {node : Node} (h : node.isHtmlScript = true) :
    ∃ tag children content, node = element tag children content ∧ tag.name = scriptName ∧
      tag.space = htmlSpace := by
  cases node with
  | element tag children content =>
    have htag : tag.isHtmlScript = true := h
    rw [Tag.isHtmlScript, Bool.and_eq_true, beq_iff_eq, beq_iff_eq] at htag
    exact ⟨tag, children, content, rfl, htag⟩
  | _ => cases h

section Writing

/-- The text of a node is its own and that of its children. -/
theorem textContent_eq (root : Node) :
    root.textContent = root.ownText ++ root.children.flatMap textContent := by
  have hnodes : ∀ node : Node, (node.located.map Located.node).flatMap ownText = node.textContent :=
    fun node => List.flatMap_map Located.node ownText node.located
  rw [← hnodes, map_node_located, List.flatMap_cons, List.flatMap_assoc]
  simp only [hnodes]

/-- The text of a text is its data. -/
theorem textContent_text (data : Option Text) : (text data).textContent = data.getD [] := by
  rw [textContent_eq]
  exact List.append_nil _

/-- Texts are written as their data in a script. -/
theorem writeAll_of_all_isText {nodes : List Node} (h : nodes.all isText = true) :
    writeAll true nodes = nodes.flatMap textContent := by
  induction nodes with
  | nil => rfl
  | cons node nodes ih =>
    rw [List.all_cons, Bool.and_eq_true] at h
    cases node with
    | text data =>
      rw [writeAll, ih h.2, List.flatMap_cons, textContent_text]
      rfl
    | _ => cases h.1

/-- A script of texts is written with its text between its tags. -/
theorem write_of_isHtmlScript {node : Node} (hscript : node.isHtmlScript = true)
    (htexts : node.children.all isText = true) :
    ∃ attributes, ∀ raw, node.write raw =
      Markup.startTag scriptName attributes ++ (node.textContent ++ Markup.endTag scriptName) := by
  obtain ⟨tag, children, content, rfl, hname, hspace⟩ := exists_of_isHtmlScript hscript
  have hvoid : tag.isVoid = false := by
    rw [Tag.isVoid, hname]
    decide
  have hraw : tag.isRawText = true := by
    rw [Tag.isRawText, hname, hspace]
    decide
  have htemplate : tag.isTemplate = false := by
    rw [Tag.isTemplate, hname]
    decide
  have hbody : writeAll true children = (element tag children content).textContent := by
    rw [textContent_eq]
    exact writeAll_of_all_isText htexts
  refine ⟨tag.attributes, fun raw => ?_⟩
  rw [← hbody]
  cases content with
  | none =>
    change (if tag.isVoid then _ else Markup.startTag tag.name tag.attributes ++
      writeAll tag.isRawText children ++ Markup.endTag tag.name) = _
    rw [hvoid, if_neg Bool.false_ne_true, hraw, hname, List.append_assoc]
  | some content =>
    change (if tag.isVoid then _ else Markup.startTag tag.name tag.attributes ++
      (if tag.isTemplate then _ else writeAll tag.isRawText children) ++
        Markup.endTag tag.name) = _
    rw [hvoid, if_neg Bool.false_ne_true, htemplate, if_neg Bool.false_ne_true, hraw, hname,
      List.append_assoc]

/-- A script that confines its text closes itself. -/
theorem ConfinesText.closesItself {node : Node} (h : node.ConfinesText) : node.ClosesItself := by
  intro hscript
  obtain ⟨htexts, hfree⟩ := h hscript
  obtain ⟨attributes, hwrite⟩ := write_of_isHtmlScript hscript htexts
  exact ⟨attributes, node.textContent, hwrite, Polyfill.splitEndTag_append hfree⟩

end Writing

section Kept

variable {node other : Node} {nodes : List Node}

/-- A node that differs below its children only confines its text as before. -/
theorem ConfinesText.of_same (h : node.ConfinesText) (hsame : SameOnTop node other) :
    other.ConfinesText := by
  intro hscript
  have hnode : node.isHtmlScript = true := (hsame.tagFits Tag.isHtmlScript).symm.trans hscript
  rw [hsame.texts (h hnode).1]
  exact h hnode

/-- A node with nothing but texts without end tags below it. -/
theorem everywhere_confinesText {tag : Tag} {content : Option (List Node)}
    (htexts : nodes.all isText = true) (hfree : Text.EndTagFree (nodes.flatMap ownText)) :
    (element tag nodes content).Everywhere ConfinesText := by
  have hown : nodes.flatMap textContent = nodes.flatMap ownText := by
    refine List.flatMap_congr fun node hnode => ?_
    have htext := List.all_eq_true.1 htexts node hnode
    cases node with
    | text data => exact textContent_text data
    | _ => cases htext
  refine everywhere_of_texts htexts (fun data hscript => ?_) fun _ => ⟨htexts, ?_⟩
  · cases hscript
  · rw [textContent_eq, children, hown]
    exact hfree

/-- What is not a script of texts is not confined. -/
theorem ConfinesText.grows (h : node.ConfinesText)
    (hgrow : node.hasName headName = true ∨ node.children.all isText = false) :
    (node.mapChildren fun _ => nodes).ConfinesText := by
  intro hscript
  have hnode : node.isHtmlScript = true := by
    rw [isHtmlScript, Node.tagFits, tag?_mapChildren] at hscript
    exact hscript
  rcases hgrow with hhead | htexts
  · obtain ⟨tag, children, content, rfl, hname, -⟩ := exists_of_isHtmlScript hnode
    have hother : tag.name = headName := by simpa [hasName, tag?] using hhead
    exact absurd (hname.symm.trans hother) (by decide)
  · rw [(h hnode).1] at htexts
    cases htexts

/-- The source of a node is that of its tag. -/
theorem source_of_tag? {tag : Tag} (h : node.tag? = some tag) : node.source = tag.source := by
  cases node with
  | element other children content =>
    cases h
    exact source_element tag children content
  | _ => cases h

/-- A node with the same tag confines its source as before. -/
theorem ConfinesSource.of_tag? (h : node.ConfinesSource) (htag : other.tag? = node.tag?) :
    other.ConfinesSource := by
  intro hscript hexternal
  rw [isHtmlScript, Node.tagFits, htag] at hscript
  rw [isExternalModule, Node.tagFits, htag] at hexternal
  obtain ⟨tag, children, content, rfl, -⟩ := exists_of_isHtmlScript hscript
  rw [source_of_tag? htag, ← source_element tag children content]
  exact h hscript hexternal

/-- A node whose text is confined, and whose content fits. -/
structure Guarded (R : List Node → Prop) (node : Node) : Prop where
  /-- The text is confined. -/
  confines : node.ConfinesText
  /-- The content fits. -/
  content : R node.contents

variable {R : List Node → Prop}

/-- A node that differs below its children only is guarded as before. -/
theorem Guarded.of_same (h : node.Guarded R) (hsame : SameOnTop node other) : other.Guarded R :=
  ⟨h.confines.of_same hsame, hsame.contents ▸ h.content⟩

/-- A text is guarded. -/
theorem guarded_textNode (hR : R []) (data : Option Text) : (text data).Guarded R := by
  refine ⟨fun hscript => ?_, hR⟩
  cases hscript

/-- A script is guarded if its new text has no end tag. -/
theorem guarded_of_text {tag other : Tag} {data : Text}
    (hdata : tag.isHtmlScript = true → data.EndTagFree) {content : Option (List Node)}
    (hcontent : R (element other nodes content).contents) :
    (element tag (if data.isEmpty then [] else [text (some data)]) content).Guarded R := by
  refine ⟨fun hscript => ⟨?_, ?_⟩, ?_⟩
  · split
    · rfl
    · rfl
  · have hfree := hdata hscript
    cases data with
    | nil =>
      rw [textContent_eq]
      exact hfree
    | cons c data =>
      change (element tag [text (some (c :: data))] content).textContent.EndTagFree
      rwa [textContent_of_text]
  · rwa [contents_element tag other _ nodes]

end Kept

section Stages

variable {P : Node → Prop} {R : List Node → Prop} {new root : Node} {capabilities : Capabilities}
  {script : Polyfill → Node} {amd : Bool} {param : Text}

/-- A new node at the start of the first head. -/
theorem everywhere_placed_head (hgrow : Grows P)
    (hnew : (Place.head? root).isSome = true → new.Everywhere P) (h : root.Everywhere P) :
    (root.placed (Place.head? root) new).Everywhere P := by
  rw [placed, map_insert_head?]
  rw [head?_isSome new] at hnew
  cases hc : underHead? new root with
  | none => exact h
  | some changed =>
    rw [hc] at hnew
    exact everywhere_underHead? hgrow (hnew rfl) h hc

/-- A new node at the place of the loader. -/
theorem everywhere_placed_loader (hgrow : Grows P)
    (hnew : (Place.loader? root).isSome = true → new.Everywhere P) (h : root.Everywhere P) :
    (root.placed (Place.loader? root) new).Everywhere P := by
  cases hroot : root.isModuleScript with
  | true =>
    rw [loader?_of_module hroot] at hnew ⊢
    exact everywhere_placed_head hgrow hnew h
  | false =>
    have hplaced := map_insert_loader?_of_not_module new hroot
    rw [← Option.isSome_map (f := Place.insert new root), hplaced] at hnew
    rw [placed, hplaced]
    cases hc : beforeModule? new root with
    | some changed =>
      rw [hc] at hnew
      exact everywhere_beforeModule? hgrow (hnew rfl) h hc
    | none =>
      rw [hc, Option.none_or] at hnew
      rw [Option.none_or]
      cases hu : underHead? new root with
      | none => exact h
      | some changed =>
        rw [hu] at hnew
        exact everywhere_underHead? hgrow (hnew rfl) h hu

/-- What polyfills have everywhere, and the tree has everywhere before, it has
with the polyfills that are put in. -/
theorem everywhere_polyfilled (hgrow : Grows P)
    (hsame : ∀ node other, SameOnTop node other → P node → P other)
    (hruntime : capabilities.regenerator = true → (Place.head? root).isSome = true →
      (script .runtime).Everywhere P)
    (hloader : capabilities.modulesAmd = true →
      (Place.loader? (root.started capabilities (script .runtime))).isSome = true →
      (script .loader).Everywhere P)
    (h : root.Everywhere P) : (root.polyfilled capabilities script).Everywhere P := by
  have hstart : (root.started capabilities (script .runtime)).Everywhere P := by
    rw [started]
    split
    · next hregenerator => exact everywhere_placed_head hgrow (hruntime hregenerator) h
    · exact h
  rw [polyfilled]
  split
  · next hamd =>
    have hplaced := everywhere_placed_loader hgrow (hloader hamd) hstart
    refine everywhere_iff.2 ⟨hsame _ _ (sameOnTop_without _) hplaced.here, ?_⟩
    exact everywhere_without (fun node other hsame' hnode _ => hsame node other hsame' hnode)
      hplaced.below
  · exact hstart

/-- A tag has the source that is put in. -/
theorem source_put (value : Text) (tag : Tag) : (tag.put sourceName (some value)).source = value := by
  change ((Attributes.get? sourceName
    (Attributes.put sourceName (some value) (tag.attributes.getD []))).getD none).getD [] = value
  rw [Attributes.get?_put_self]
  rfl

/-- A versioned script is guarded, if its source was confined where it becomes a
stub. -/
theorem versionScript_guarded {node : Node} (hparam : '<' ∉ param) (h : node.Guarded R)
    (hexternal : node.isExternalModule = true) (hsource : amd = true → node.ConfinesSource) :
    (node.versionScript amd param).Guarded R := by
  cases node with
  | element tag children content =>
    cases amd with
    | true =>
      refine guarded_of_text (fun hscript => ?_) h.content
      have hfree := hsource rfl hscript hexternal
      rw [source_element] at hfree
      change (defineStub (element (tag.versioned param) children content).source).EndTagFree
      rw [source_element, Tag.versioned, source_put]
      exact defineStub_endTagFree_iff.2 (Url.appendQuery_endTagFree hfree hparam)
    | false =>
      refine ⟨fun hscript => ?_, ?_⟩
      · have htext := h.confines hscript
        rw [textContent_eq] at htext ⊢
        exact htext
      · exact contents_element tag (tag.versioned param) children children content ▸ h.content
  | _ => cases hexternal

/-- Versioning the external module scripts. -/
theorem everywhere_versionExternal (hparam : '<' ∉ param) (hR : R [])
    (h : root.Everywhere fun node => node.Guarded R ∧ (amd = true → node.ConfinesSource)) :
    (root.versionExternal amd param).Everywhere (Guarded R) := by
  have hversioned : (root.applyEach (editsOf (Page.versionEdit amd param) ()
      (root.findAll isExternalModule)).1).Everywhere (Guarded R) := by
    refine everywhere_applyEach (guarded_textNode hR)
      (fun _ _ data => versionScript_text param amd data) ?_ ?_ ?_ h ()
    · intro s node hfound
      cases amd with
      | true => exact .inl (versionScript_holds_texts param node)
      | false =>
        right
        cases node <;> rfl
    · intro s node other hfound hnode hsame
      have hexternal : node.isExternalModule = true := (isFound_tagFits _ node).symm.trans hfound
      exact (versionScript_guarded hparam hnode.1 hexternal hnode.2).of_same hsame
    · intro node other hsame hnode _
      exact hnode.1.of_same hsame
  rw [Page.editsOf_versionEdit] at hversioned
  exact hversioned

/-- Filling the inline module scripts. -/
theorem everywhere_fill {new : List Text → Text → Text} (hR : R [])
    (hnew : ∀ given body, body.EndTagFree → (new given body).EndTagFree)
    (h : root.Everywhere (Guarded R)) :
    (root.applyEach (editsOf (Page.fillEdit new) []
      (root.findAll isInlineModule)).1).Everywhere (Guarded R) := by
  refine everywhere_applyEach (guarded_textNode hR) (fun _ _ _ => rfl)
    (fun _ node _ => .inl (fill_holds_texts _ node)) ?_ ?_ h []
  · intro given node other hfound hnode hsame
    refine Guarded.of_same ?_ hsame
    cases node with
    | element tag children content =>
      refine guarded_of_text (fun hscript => ?_) hnode.content
      exact Text.surroundLike_endTagFree (hnew given _ (hnode.confines hscript).2)
    | _ => cases hfound
  · intro node other hsame hnode _
    exact hnode.of_same hsame

/-- A script is confined as a whole if it is so everywhere below it, content
included. -/
theorem confined_iff {root : Node} :
    root.Confined ↔ root.Everywhere (Guarded fun contents => ∀ part ∈ contents, part.Confined) := by
  constructor
  · intro h
    induction root using children_induction with
    | step root ih =>
      obtain ⟨here, children, contents⟩ := h
      exact everywhere_iff.2
        ⟨⟨here, contents⟩, fun child hchild => ih child hchild (children child hchild)⟩
  · intro h
    induction root using children_induction with
    | step root ih =>
      exact .intro h.here.confines (fun child hchild => ih child hchild (h.below child hchild))
        h.here.content

end Stages

end Node

namespace Page

variable {host : Host} {location param log : Text} {strategy : Strategy} {plugins : List Plugin}
  {page : Page} {R : List Node → Prop}

/-- The base URL has no end tag if neither the location nor a usable reference of
a base element has one. -/
theorem baseUrl_endTagFree {root : Node} (hlocation : location.EndTagFree)
    (hbase : ∀ href url, baseReference? root = some href →
      Url.resolve? location href = some url → url.EndTagFree) :
    (baseUrl root location).EndTagFree := by
  unfold baseUrl
  split
  · exact hlocation
  · next href hhref =>
    cases hurl : Url.resolve? location href with
    | none => exact hlocation
    | some url => exact hbase href url hhref hurl

/-- The text of a polyfill has no end tag if its source and what is kept of it
have none and the parser cuts the source. -/
theorem prepare_endTagFree {cache : Cache} {polyfill : Polyfill} {text : Text}
    (hassets : ∀ source, polyfill.source host (cache.currentSettings host) = .ok source →
      source.EndTagFree ∧ host.parser.Cuts source)
    (hkept : ∀ text, cache.script? polyfill = some text → text.EndTagFree)
    (h : (polyfill.prepare host cache).1.result = .ok text) : text.EndTagFree := by
  rw [Polyfill.prepare_result] at h
  split at h
  · next kept hk =>
    cases h
    exact hkept _ hk
  · split at h
    · cases h
    · next source hs =>
      cases h
      obtain ⟨hsource, hcuts⟩ := hassets source hs
      rw [hcuts]
      exact Polyfill.cutText_endTagFree hsource

/-- A strategy that fails gives an empty body, and one that succeeds a body
without end tags. -/
theorem newBody_endTagFree
    (hstrategy : strategy = Strategy.standard ∨ strategy = Strategy.passthrough)
    (hparam : '<' ∉ param)
    (hbase : (Capabilities.ofPlugins plugins).modulesAmd = true →
      (baseUrl page.root location).EndTagFree)
    (given : List Text) {body : Text} (hbody : body.EndTagFree) :
    (newBody (strategyOn location param log (fun _ => strategy) plugins page) given
      body).EndTagFree := by
  unfold newBody
  split
  · next new hnew => exact Strategy.endTagFree hstrategy hbody hparam hbase hnew
  · exact (by decide : Text.EndTagFree [])

/-- A transform that succeeds leaves the scripts of the document guarded. -/
theorem everywhere_transformBy (hR : R [])
    (hstrategy : strategy = Strategy.standard ∨ strategy = Strategy.passthrough)
    (hparam : '<' ∉ param)
    (hassets : ∀ (polyfill : Polyfill) source,
      polyfill.source host (page.cache.currentSettings host) = .ok source →
        source.EndTagFree ∧ host.parser.Cuts source)
    (hkept : ∀ polyfill text, page.cache.script? polyfill = some text → text.EndTagFree)
    (hsources : (Capabilities.ofPlugins plugins).modulesAmd = true →
      page.root.Everywhere Node.ConfinesSource)
    (hbase : (Capabilities.ofPlugins plugins).modulesAmd = true →
      (baseUrl page.root location).EndTagFree)
    (hdone : (transformBy host location (fun _ => strategy) plugins param log page).result = .ok ())
    (hroot : page.root.Everywhere (Node.Guarded R)) :
    (transformBy host location (fun _ => strategy) plugins param log page).page.root.Everywhere
      (Node.Guarded R) := by
  obtain ⟨text, hprovides, hout, -⟩ := transformBy_eq_ok hdone
  have hscript : ∀ polyfill, (polyfill.prepare host page.cache).1.result = .ok (text polyfill) →
      (scriptElement (text polyfill)).Everywhere fun node => node.Guarded R ∧
        ((Capabilities.ofPlugins plugins).modulesAmd = true → node.ConfinesSource) := by
    intro polyfill hread
    have hfree := prepare_endTagFree (hassets polyfill) (hkept polyfill) hread
    have hnone : R (Node.element (Tag.plain scriptName) [] none).contents := hR
    have hguarded : (scriptElement (text polyfill)).Guarded R :=
      Node.guarded_of_text (fun _ => hfree) hnone
    refine Node.everywhere_of_texts (Node.setText_holds_texts _ _) (fun data => ?_)
      ⟨hguarded, fun _ _ hexternal => ?_⟩
    · refine ⟨Node.guarded_textNode hR data, fun _ hscript => ?_⟩
      cases hscript
    · rw [Node.not_external_of_not_module (Node.scriptElement_not_module _)] at hexternal
      cases hexternal
  have hbefore : page.root.Everywhere fun node => node.Guarded R ∧
      ((Capabilities.ofPlugins plugins).modulesAmd = true → node.ConfinesSource) :=
    fun node hnode => ⟨hroot node hnode, fun hamd => hsources hamd node hnode⟩
  have hpolyfilled := @Node.everywhere_polyfilled _ page.root (Capabilities.ofPlugins plugins)
    (fun polyfill => scriptElement (text polyfill)) ?_ ?_
    (fun hregenerator hplace => hscript .runtime (hprovides.runtime_read hregenerator hplace))
    (fun hamd hplace => hscript .loader (hprovides.loader_read hamd hplace)) hbefore
  · rw [hout]
    exact Node.everywhere_fill hR
      (fun given body => newBody_endTagFree hstrategy hparam hbase given)
      (Node.everywhere_versionExternal hparam hR hpolyfilled)
  · intro node nodes hnode hgrow
    refine ⟨⟨hnode.1.confines.grows hgrow, ?_⟩, fun hamd => ?_⟩
    · rw [Node.contents_mapChildren]
      exact hnode.1.content
    · exact (hnode.2 hamd).of_tag? (Node.tag?_mapChildren _ node)
  · exact fun node other hsame hnode =>
      ⟨hnode.1.of_same hsame, fun hamd => (hnode.2 hamd).of_tag? hsame.tag⟩

/-- If no script of the HTML syntax holds anything but texts or has an end tag in
its text, and no asset has one that the parser cuts, no script has one after a
transform, and each is closed by its own end tag. Where modules become definitions,
the sources of external module scripts and the base URL must not have one either.
The content of templates stays as it is. -/
theorem transformBy_closes_scripts
    (hstrategy : strategy = Strategy.standard ∨ strategy = Strategy.passthrough)
    (hparam : '<' ∉ param)
    (hassets : ∀ (polyfill : Polyfill) source,
      polyfill.source host (page.cache.currentSettings host) = .ok source → source.EndTagFree)
    (hparser : ∀ (polyfill : Polyfill) source,
      polyfill.source host (page.cache.currentSettings host) = .ok source →
        host.parser.Cuts source)
    (hkept : ∀ polyfill text, page.cache.script? polyfill = some text → text.EndTagFree)
    (hroot : page.root.Everywhere Node.ConfinesText)
    (hsources : (Capabilities.ofPlugins plugins).modulesAmd = true →
      page.root.Everywhere Node.ConfinesSource)
    (hbase : (Capabilities.ofPlugins plugins).modulesAmd = true →
      (baseUrl page.root location).EndTagFree)
    (hdone : (transformBy host location (fun _ => strategy) plugins param log page).result = .ok ()) :
    let outcome := transformBy host location (fun _ => strategy) plugins param log page
    (outcome.page.root.Everywhere fun node => node.ConfinesText ∧ node.ClosesItself) ∧
      (page.root.Confined → outcome.page.root.Confined) := by
  intro outcome
  have hkeeps : ∀ {R : List Node → Prop}, R [] → page.root.Everywhere (Node.Guarded R) →
      outcome.page.root.Everywhere (Node.Guarded R) := fun hR =>
    everywhere_transformBy hR hstrategy hparam
      (fun polyfill source h => ⟨hassets polyfill source h, hparser polyfill source h⟩) hkept
      hsources hbase hdone
  have hguarded : outcome.page.root.Everywhere (Node.Guarded fun _ => True) :=
    hkeeps trivial (hroot.imp fun node hnode => ⟨hnode, trivial⟩)
  refine ⟨hguarded.imp fun node hnode => ⟨hnode.confines, hnode.confines.closesItself⟩, fun h => ?_⟩
  exact Node.confined_iff.2 (hkeeps (List.forall_mem_nil _) (Node.confined_iff.1 h))

/-- A document in which an external and an inline module script become
definitions, with other tags in the source and the specifier. -/
theorem transformBy_closes_scripts_definition :
    let script (attributes : Attributes) (children : List Node) : Node :=
      .element ⟨scriptName, htmlSpace, some attributes⟩ children none
    let modules : Attributes := [(typeName, some "module".toList)]
    let body : Text := "import './b.js?</b>';".toList
    let root : Node := .document [] [script ((sourceName, some "a.js?</a>".toList) :: modules) [],
      script modules [.text (some body)]]
    let host : Host := ⟨[], fun _ => .ok "L".toList⟩
    let settings : Settings := ⟨some (Path.ofText ['l']), some (Path.ofText ['r']), []⟩
    let outcome := transformBy host "http://e.com/".toList (fun _ => Strategy.standard) [amdPlugin]
      "v=1".toList [] ⟨root, ⟨some settings, none, none⟩⟩
    outcome.result = .ok () ∧
      (outcome.page.root.Everywhere fun node => node.ConfinesText ∧ node.ClosesItself) ∧
      (root.Confined → outcome.page.root.Confined) := by
  intro script modules body root host settings outcome
  have hassets : ∀ (polyfill : Polyfill) source, polyfill.source host settings = .ok source →
      source.EndTagFree := by
    intro polyfill source hsource
    cases polyfill <;> cases hsource <;> decide
  have hscript : host.parser.scriptText "L".toList = "\nL\n".toList :=
    (MarkupParser.alone_scriptText _).trans (by decide)
  have hread : ∀ polyfill : Polyfill,
      (polyfill.prepare host ⟨some settings, none, none⟩).1.result = .ok "\nL\n".toList := by
    intro polyfill
    rw [Polyfill.prepare_result]
    cases polyfill <;> exact congrArg _ hscript
  have hparser : ∀ (polyfill : Polyfill) source, polyfill.source host settings = .ok source →
      host.parser.Cuts source := by
    intro polyfill source hsource
    cases polyfill <;> cases hsource <;> exact hscript.trans (by decide)
  have hroot : root.Everywhere Node.ConfinesText := by
    refine Node.everywhere_iff.2 ⟨fun hscript => absurd hscript Bool.false_ne_true, ?_⟩
    refine List.forall_mem_cons.2 ⟨Node.everywhere_confinesText rfl (by decide), ?_⟩
    exact List.forall_mem_singleton.2 (Node.everywhere_confinesText rfl (by decide))
  have hsources : root.Everywhere Node.ConfinesSource := by
    have htext : ∀ data, (Node.text data).ConfinesSource := fun data hscript =>
      absurd hscript Bool.false_ne_true
    refine Node.everywhere_iff.2 ⟨fun hscript => absurd hscript Bool.false_ne_true, ?_⟩
    refine List.forall_mem_cons.2 ⟨Node.everywhere_of_texts rfl htext fun _ _ => ?_, ?_⟩
    · rw [Node.source_element]
      decide
    · refine List.forall_mem_singleton.2 (Node.everywhere_of_texts rfl htext fun _ hexternal => ?_)
      exact absurd hexternal (by decide)
  have hnobase : root.Everywhere fun node => node.hasName "base".toList = false := by
    refine Node.everywhere_iff.2 ⟨rfl, List.forall_mem_cons.2 ⟨?_, List.forall_mem_singleton.2 ?_⟩⟩
    · exact Node.everywhere_of_texts rfl (fun _ => rfl) (by decide)
    · exact Node.everywhere_of_texts rfl (fun _ => rfl) (by decide)
  have hbase : (baseUrl root "http://e.com/".toList).EndTagFree := by
    refine baseUrl_endTagFree (by decide) fun href url hhref => ?_
    rw [baseReference?, Node.find?_eq_head?, Node.findAll_eq_nil hnobase] at hhref
    cases hhref
  have hparse : Module.parse body = .ok ⟨[.importing ⟨1, body, "./b.js?</b>".toList, none, none,
      []⟩]⟩ := by
    decide +kernel
  have hsucceeds : ∀ options : ModuleOptions, options.capabilities.modulesAmd = true →
      ∃ new, (Strategy.standard body (Module.transform options)).result = .ok new := by
    intro options hamd
    rw [Strategy.standard, hparse]
    change ∃ new, Module.generate options _ = .ok new
    rw [Module.generate, hamd, if_pos rfl, Module.definition_of_isShort (.inl rfl)]
    exact ⟨_, rfl⟩
  have hdone : outcome.result = .ok () := by
    refine (@transformBy_eq host "http://e.com/".toList "v=1".toList []
      (fun _ => Strategy.standard) [amdPlugin] ⟨root, ⟨some settings, none, none⟩⟩
      (fun _ => "\nL\n".toList) (newBody (strategyOn "http://e.com/".toList "v=1".toList []
        (fun _ => Strategy.standard) [amdPlugin] ⟨root, ⟨some settings, none, none⟩⟩)) rfl hread
      fun before given after hgiven => ?_).1
    have hbody : given = body := by
      have hmem : given ∈ [(script modules [.text (some body)]).textContent] := by
        have hlist : [(script modules [.text (some body)]).textContent] = before ++ given :: after :=
          hgiven
        rw [hlist]
        exact List.mem_append_right before List.mem_cons_self
      rw [List.mem_singleton.1 hmem]
      exact Node.textContent_of_text _ _ _
    obtain ⟨new, hnew⟩ := hsucceeds ⟨baseUrl root "http://e.com/".toList,
      Capabilities.ofPlugins [amdPlugin], "v=1".toList, []⟩ rfl
    have hresult : (strategyOn "http://e.com/".toList "v=1".toList [] (fun _ => Strategy.standard)
        [amdPlugin] ⟨root, ⟨some settings, none, none⟩⟩ before body).result = .ok new := hnew
    rw [hbody, newBody, hresult]
    exact hresult
  exact ⟨hdone, @transformBy_closes_scripts host "http://e.com/".toList "v=1".toList []
    Strategy.standard [amdPlugin] ⟨root, ⟨some settings, none, none⟩⟩ (.inl rfl) (by decide)
    hassets hparser (fun polyfill text hkept => by cases polyfill <;> cases hkept) hroot
    (fun _ => hsources) (fun _ => hbase) hdone⟩

/-- An external module script whose source has an end tag becomes a stub that
ends inside its own text. -/
theorem transformBy_ends_early :
    let script (attributes : Attributes) (children : List Node) : Node :=
      .element ⟨scriptName, htmlSpace, some attributes⟩ children none
    let root : Node := .document [] [script [(sourceName, some "</script>".toList),
      (typeName, some "module".toList)] []]
    let host : Host := ⟨[], fun _ => .ok "L".toList⟩
    let settings : Settings := ⟨some (Path.ofText ['l']), some (Path.ofText ['r']), []⟩
    let outcome := transformBy host [] (fun _ => Strategy.standard) [amdPlugin] [] []
      ⟨root, ⟨some settings, none, none⟩⟩
    (∀ (polyfill : Polyfill) source, polyfill.source host settings = .ok source →
        source.EndTagFree ∧ host.parser.Cuts source) ∧
      root.Everywhere Node.ConfinesText ∧ outcome.result = .ok () ∧
      outcome.page.root = .document [] [script [] [.text (some "\nL\n".toList)],
        script [] [.text (some "define(['</script>']);".toList)]] ∧
      ¬outcome.page.root.Everywhere Node.ConfinesText := by
  intro script root host settings outcome
  have hassets : ∀ (polyfill : Polyfill) source, polyfill.source host settings = .ok source →
      source.EndTagFree := by
    intro polyfill source hsource
    cases polyfill <;> cases hsource <;> decide
  have hscript : host.parser.scriptText "L".toList = "\nL\n".toList :=
    (MarkupParser.alone_scriptText _).trans (by decide)
  have hread : ∀ polyfill : Polyfill,
      (polyfill.prepare host ⟨some settings, none, none⟩).1.result = .ok "\nL\n".toList := by
    intro polyfill
    rw [Polyfill.prepare_result]
    cases polyfill <;> exact congrArg _ hscript
  have hparser : ∀ (polyfill : Polyfill) source, polyfill.source host settings = .ok source →
      host.parser.Cuts source := by
    intro polyfill source hsource
    cases polyfill <;> cases hsource <;> exact hscript.trans (by decide)
  have hroot : root.Everywhere Node.ConfinesText := by
    refine Node.everywhere_iff.2 ⟨fun hscript => absurd hscript Bool.false_ne_true, ?_⟩
    exact List.forall_mem_singleton.2 (Node.everywhere_confinesText rfl (by decide))
  obtain ⟨hdone, hout⟩ := @transformBy_eq host [] [] [] (fun _ => Strategy.standard) [amdPlugin]
    ⟨root, ⟨some settings, none, none⟩⟩ (fun _ => "\nL\n".toList) (fun _ body => body) rfl hread
    fun before body after hgiven => by
      have hnone : [] = before ++ body :: after := hgiven
      simp at hnone
  have houtcome : outcome.page.root = .document [] [script [] [.text (some "\nL\n".toList)],
      script [] [.text (some "define(['</script>']);".toList)]] := hout
  refine ⟨fun polyfill source h => ⟨hassets polyfill source h, hparser polyfill source h⟩, hroot,
    hdone, houtcome, fun h => ?_⟩
  rw [houtcome] at h
  have hstub := (h.below _ (List.mem_cons_of_mem _ List.mem_cons_self)).here rfl
  rw [Node.textContent_of_text] at hstub
  exact absurd hstub.2 (by decide)

end Page

end ModuleScripts
