import ModuleScripts.Dom.Markup
import ModuleScripts.Folder
import ModuleScripts.Page.Transform

/-!
# Sessions

A session works on one document in steps: it looks at it, edits it, transforms
it as a whole or stage by stage, and meanwhile the environment and the files
may change. Settings and polyfill scripts are kept from step to step. A step
that fails leaves the session as far as it got. Attributes and children can be
asked of any node but a text.
-/

namespace ModuleScripts

/-- A document at work, with its surroundings. -/
structure Session where
  /-- The document and what is kept beside it. -/
  page : Page
  /-- The environment. -/
  environment : Environment
  /-- The current directory. -/
  folder : Folder
  /-- The parser that makes scripts of sources. -/
  [parser : MarkupParser]

/-- What elements are looked for. -/
inductive Query where
  /-- Elements of a name. -/
  | named (name : Text)
  /-- All elements. -/
  | element
  /-- Module scripts. -/
  | moduleScript
  /-- External module scripts. -/
  | externalModule
  /-- Inline module scripts. -/
  | inlineModule
  /-- Scripts for browsers without modules. -/
  | fallback
  deriving DecidableEq, Repr

/-- Whether a node is looked for. -/
def Query.fits : Query → Node → Bool
  | named name => Node.hasName name
  | element => Node.isElement
  | moduleScript => Node.isModuleScript
  | externalModule => Node.isExternalModule
  | inlineModule => Node.isInlineModule
  | fallback => Node.isFallback

/-- One step of a session. An address is that of the node the step is about. -/
inductive Step where
  /-- The markup of a node. -/
  | markup (target : Address)
  /-- The names of the elements from a node on down. -/
  | elementNames (target : Address)
  /-- The first element from a node on down that is looked for. -/
  | queryFirst (target : Address) (query : Query)
  /-- All elements from a node on down that are looked for. -/
  | queryAll (target : Address) (query : Query)
  /-- Whether a node has an attribute. -/
  | hasAttribute (target : Address) (name : Text)
  /-- The value of an attribute. -/
  | attributeValue (target : Address) (name : Text)
  /-- Gives an attribute a value. -/
  | setAttribute (target : Address) (name : Text) (value : Option Text)
  /-- Takes an attribute away. -/
  | removeAttribute (target : Address) (name : Text)
  /-- The text of a node. -/
  | textContent (target : Address)
  /-- Replaces the children of a node by a text. -/
  | setText (target : Address) (text : Text)
  /-- Puts a node before another. -/
  | insertBefore (target : Address) (node : Node)
  /-- Puts a node before the children of another. -/
  | insertFirst (target : Address) (node : Node)
  /-- Takes a node away. -/
  | remove (target : Address)
  /-- The base URL of the document at a location. -/
  | baseUrl (location : Text)
  /-- Makes a node the stub for its source. -/
  | stub (target : Address)
  /-- Puts in the polyfills that are asked for. -/
  | injectPolyfills (capabilities : Capabilities)
  /-- Puts in the generator runtime. -/
  | injectRuntime
  /-- Puts in the loader. -/
  | injectLoader
  /-- Takes the scripts for browsers without modules away. -/
  | removeFallbacks
  /-- Versions the external module scripts. -/
  | versionExternal (amd : Bool) (param : Text)
  /-- Transforms the inline module scripts. -/
  | transformInline (strategy : Strategy) (options : ModuleOptions)
  /-- Transforms the document. -/
  | transform (options : PageOptions)
  /-- The source of a polyfill. -/
  | polyfillSource (polyfill : Polyfill)
  /-- The settings. -/
  | settings
  /-- Forgets the settings. -/
  | forgetSettings
  /-- Forgets the polyfill scripts. -/
  | forgetScripts
  /-- Replaces the environment. -/
  | setEnvironment (environment : Environment)
  /-- Writes a file. -/
  | writeFile (name text : Text)

/-- The answer of a step. -/
inductive Answer where
  /-- There is nothing to tell. -/
  | nothing
  /-- A text. -/
  | text (t : Text)
  /-- Yes or no. -/
  | flag (b : Bool)
  /-- A number. -/
  | count (n : Nat)
  /-- Several texts. -/
  | texts (list : List Text)
  /-- Where a node stands. -/
  | address (a : Address)
  /-- Where several nodes stand. -/
  | addresses (list : List Address)
  /-- Settings. -/
  | settings (s : Settings)
  deriving DecidableEq, Repr

/-- What stops a step. -/
inductive StepFault where
  /-- A transform is stopped. -/
  | transform (failure : Failure)
  /-- The address leads nowhere. -/
  | nowhere
  /-- The attributes of a text are asked for. -/
  | textAttributes
  /-- A text would get a child. -/
  | textChild
  deriving DecidableEq, Repr

namespace StepFault

/-- The message about what stops a step. -/
def message : StepFault → Text
  | transform failure => failure.message
  | nowhere => "list index out of range".toList
  | textAttributes => "'TextNode' object has no attribute 'attrs'".toList
  | textChild => "'TextNode' object has no attribute 'append_child'".toList

/-- Only a text cannot have attributes. -/
def ofAttributes? : Node → Option StepFault
  | .text _ => some textAttributes
  | _ => none

/-- Only a text refuses children; a comment or a document type just takes none. -/
def ofChildren? : Node → Option StepFault
  | .text _ => some textChild
  | _ => none

end StepFault

namespace Session

/-- The surroundings of the document. -/
def host (s : Session) : Host :=
  { environment := s.environment, read := s.folder.read, parser := s.parser }

/-- The session with its document changed. -/
def edit (f : Node → Node) (s : Session) : Session :=
  { s with page := ⟨f s.page.root, s.page.cache⟩ }

/-- The session with its cache changed. -/
def withCache (cache : Cache) (s : Session) : Session :=
  { s with page := ⟨s.page.root, cache⟩ }

/-- What a step over the document leaves of a session. -/
def ofEffect {α : Type} (s : Session) (answer : α → Answer) (e : Effect α) :
    Session × List Record × Except StepFault Answer :=
  ({ s with page := e.page }, e.records, (e.result.map answer).mapError .transform)

/-- A step that cannot fail and leaves no records. -/
def plain (s : Session) (answer : Answer) : Session × List Record × Except StepFault Answer :=
  (s, [], .ok answer)

/-- A step that asks something of the node at an address. -/
def ask (s : Session) (target : Address) (answer : Node → Except StepFault Answer) :
    Session × List Record × Except StepFault Answer :=
  (s, [],
    match Node.get? target s.page.root with
    | none => .error .nowhere
    | some node => answer node)

/-- A step that changes the document at an address unless the node there is not
fit for it. -/
def change (s : Session) (target : Address) (fault? : Node → Option StepFault)
    (f : Address → Node → Node) : Session × List Record × Except StepFault Answer :=
  match Node.get? target s.page.root with
  | none => (s, [], .error .nowhere)
  | some node =>
    match fault? node with
    | some fault => (s, [], .error fault)
    | none => (s.edit (f target)).plain .nothing

/-- Does one step: the session behind it, its records and its answer. -/
def step (s : Session) : Step → Session × List Record × Except StepFault Answer
  | .markup target => s.ask target fun node => .ok (.text node.toMarkup)
  | .elementNames target =>
    s.ask target fun node =>
      .ok (.texts (node.elements.map fun l => (l.node.tag?.map Tag.name).getD []))
  | .queryFirst target query =>
    s.ask target fun node =>
      match node.find? query.fits with
      | none => .ok .nothing
      | some l => .ok (.address (target ++ l.address))
  | .queryAll target query =>
    s.ask target fun node =>
      .ok (.addresses ((node.findAll query.fits).map fun l => target ++ l.address))
  | .hasAttribute target name =>
    s.ask target fun node =>
      match node.attributes? with
      | none => .error .textAttributes
      | some attributes => .ok (.flag (attributes.has name))
  | .attributeValue target name =>
    s.ask target fun node =>
      match node.attributes? with
      | none => .error .textAttributes
      | some attributes =>
        match attributes.get? name with
        | some (some value) => .ok (.text value)
        | _ => .ok .nothing
  | .setAttribute target name value =>
    s.change target StepFault.ofAttributes? (Node.modify (Node.putAttribute name value))
  | .removeAttribute target name =>
    s.change target StepFault.ofAttributes? (Node.modify (Node.eraseAttribute name))
  | .textContent target => s.ask target fun node => .ok (.text node.textContent)
  | .setText target text =>
    s.change target (if text.isEmpty then fun _ => none else StepFault.ofChildren?)
      (Node.modify (Node.setText text))
  | .insertBefore target node => s.change target (fun _ => none) (Node.insertBefore node)
  | .insertFirst target node => s.change target StepFault.ofChildren? (Node.insertFirst node)
  | .remove target => s.change target (fun _ => none) Node.remove
  | .baseUrl location =>
    (s, Page.baseRecords s.page.root location, .ok (.text (Page.baseUrl s.page.root location)))
  | .stub target => s.change target StepFault.ofAttributes? (Node.modify Node.toStub)
  | .injectPolyfills capabilities =>
    s.ofEffect (fun _ => .nothing) (Page.injectPolyfills s.host capabilities s.page)
  | .injectRuntime => s.ofEffect .flag (Page.injectRuntime s.host s.page)
  | .injectLoader => s.ofEffect .flag (Page.injectLoader s.host s.page)
  | .removeFallbacks => s.ofEffect .count (Page.removeFallbacks s.page)
  | .versionExternal amd param =>
    s.ofEffect (fun _ => .nothing) (Page.versionExternal amd param s.page)
  | .transformInline strategy options =>
    s.ofEffect (fun _ => .nothing) (Page.transformInline strategy options s.page)
  | .transform options => s.ofEffect (fun _ => .flag true) (Page.transform s.host options s.page)
  | .polyfillSource polyfill =>
    let cache := s.page.cache.withSettings s.host
    (s.withCache cache, [],
      match polyfill.source s.host (cache.currentSettings s.host) with
      | .ok source => .ok (.text source)
      | .error e => .error (.transform (.polyfill e)))
  | .settings =>
    let cache := s.page.cache.withSettings s.host
    (s.withCache cache).plain (.settings (cache.currentSettings s.host))
  | .forgetSettings => (s.withCache s.page.cache.forgetSettings).plain .nothing
  | .forgetScripts => (s.withCache s.page.cache.forgetScripts).plain .nothing
  | .setEnvironment environment => ({ s with environment := environment }).plain .nothing
  | .writeFile name text =>
    ({ s with folder := ⟨Folder.putFile name text s.folder.files⟩ }).plain .nothing

/-- Does steps in order: the sessions behind them with their records and
answers, whether they fail or not. -/
def run (s : Session) : List Step → List (Session × List Record × Except StepFault Answer)
  | [] => []
  | step :: steps =>
    let done := s.step step
    done :: run done.1 steps

/-- The session behind all steps. -/
def afterAll (s : Session) (steps : List Step) : Session :=
  steps.foldl (fun s step => (s.step step).1) s

end Session

end ModuleScripts
