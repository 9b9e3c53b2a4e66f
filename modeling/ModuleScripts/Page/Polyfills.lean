import ModuleScripts.Page.Effect
import ModuleScripts.Plugin

/-!
# Putting polyfills into a document

The runtime becomes the first child of the head. The loader goes right before
the first module script, or becomes the first child of the head where there is
none. When modules become definitions, the scripts for browsers without modules
go.
-/

namespace ModuleScripts

/-- The name of the head element. -/
def headName : Text := "head".toList

/-- Where a polyfill goes. -/
inductive Place where
  /-- Right before the node at this address. -/
  | before (address : Address)
  /-- Before the children of the node at this address. -/
  | first (address : Address)
  deriving DecidableEq, Repr

namespace Place

/-- Puts a node at a place. -/
def insert (new : Node) (root : Node) : Place → Node
  | before address => Node.insertBefore new address root
  | first address => Node.insertFirst new address root

/-- The place at the start of the first head. -/
def head? (root : Node) : Option Place :=
  (root.find? (Node.hasName headName)).map fun l => first l.address

/-- The place for the loader: before the first module script unless that is the
root, else at the start of the head. -/
def loader? (root : Node) : Option Place :=
  match root.find? Node.isModuleScript with
  | some ⟨index :: address, _⟩ => some (before (index :: address))
  | _ => head? root

end Place

/-- The tree without the scripts for browsers without modules, its root apart.
All of them are found before the first is taken away. -/
def Node.dropFallbacks (root : Node) : Node :=
  root.removeEach ((root.findAll Node.isFallback).map Located.address)

namespace Page

/-- Puts a polyfill at a place, or leaves a record if there is none. The result
tells whether it was put. -/
def inject (host : Host) (polyfill : Polyfill) (place : Option Place) (missing : Event)
    (page : Page) : Effect Bool :=
  match place with
  | none => Effect.done page [⟨LogName.polyfills, missing⟩] false
  | some place =>
    let prepared := polyfill.prepare host page.cache
    match prepared.1.result with
    | .error e => ⟨⟨page.root, prepared.2⟩, prepared.1.records, .error e⟩
    | .ok text =>
      ⟨⟨place.insert (scriptElement text) page.root, prepared.2⟩, prepared.1.records, .ok true⟩

/-- Puts the runtime into the head. -/
def injectRuntime (host : Host) (page : Page) : Effect Bool :=
  inject host .runtime (Place.head? page.root) (.headMissing .runtime) page

/-- Puts the loader before the first module script or into the head. -/
def injectLoader (host : Host) (page : Page) : Effect Bool :=
  inject host .loader (Place.loader? page.root) (.placeMissing .loader) page

/-- Takes the scripts for browsers without modules away and counts them. -/
def removeFallbacks (page : Page) : Effect Nat :=
  Effect.done ⟨page.root.dropFallbacks, page.cache⟩ [] (page.root.findAll Node.isFallback).length

/-- The record about removed scripts. -/
def removalRecords (count : Nat) : List Record :=
  if count = 0 then [] else [⟨LogName.documents, .fallbacksRemoved count⟩]

/-- Puts the polyfills that the capabilities ask for. -/
def injectPolyfills (host : Host) (capabilities : Capabilities) (page : Page) : Effect Unit :=
  let runtime :=
    if capabilities.regenerator then injectRuntime host page else Effect.done page [] false
  runtime.andThen fun _ page =>
    if capabilities.modulesAmd then
      (injectLoader host page).andThen fun _ page =>
        (removeFallbacks page).andThen fun count page =>
          Effect.done page (removalRecords count) ()
    else Effect.done page [] ()

end Page

end ModuleScripts
