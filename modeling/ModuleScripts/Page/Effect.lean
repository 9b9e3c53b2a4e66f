import ModuleScripts.Dom.Edit
import ModuleScripts.Dom.Script
import ModuleScripts.Polyfill.Cache

/-!
# Steps over a document

A step leaves a document and a cache behind, whether it succeeds or fails: a
failure keeps the document as far as the step got.
-/

namespace ModuleScripts

/-- A document and what is kept beside it. -/
structure Page where
  /-- The document. -/
  root : Node
  /-- Settings and polyfill scripts kept from earlier uses. -/
  cache : Cache

/-- What a step leaves behind. -/
structure Effect (α : Type) where
  /-- The document and the cache behind the step. -/
  page : Page
  /-- The records in order. -/
  records : List Record
  /-- The result. -/
  result : Except Failure α

namespace Effect

/-- A step that changes nothing but may leave records. -/
def done {α : Type} (page : Page) (records : List Record) (a : α) : Effect α :=
  ⟨page, records, .ok a⟩

/-- One step after the other, unless the first fails. -/
def andThen {α β : Type} (e : Effect α) (f : α → Page → Effect β) : Effect β :=
  match e.result with
  | .error failure => ⟨e.page, e.records, .error failure⟩
  | .ok a =>
    let next := f a e.page
    ⟨next.page, e.records ++ next.records, next.result⟩

end Effect

end ModuleScripts
