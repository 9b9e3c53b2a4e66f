import ModuleScripts.Page.BaseUrl
import ModuleScripts.Page.External
import ModuleScripts.Page.Inline
import ModuleScripts.Page.Polyfills

/-!
# The transform of a document

First the base URL is read off the document, then polyfills are put in, then
external module scripts are versioned, and last the inline ones transformed.
Polyfills come before the scripts change, so their places are read off the
document as it was written.
-/

namespace ModuleScripts

/-- How a document is to be transformed. -/
structure PageOptions where
  /-- Where the document is found. -/
  location : Text
  /-- What to do with inline bodies. -/
  strategy : Strategy
  /-- What is asked for. -/
  plugins : List Plugin
  /-- The query parameter of module URLs. -/
  param : Text
  /-- The log of the module transform. -/
  log : Text

namespace Page

/-- Versions the external module scripts. -/
def versionExternal (amd : Bool) (param : Text) (page : Page) : Effect Unit :=
  Effect.done ⟨page.root.versionExternal amd param, page.cache⟩ [] ()

/-- Transforms a document found at a location, by a strategy for each inline
body that may depend on the bodies given before it. -/
def transformBy (host : Host) (location : Text) (strategy : List Text → Strategy)
    (plugins : List Plugin) (param log : Text) (page : Page) : Effect Unit :=
  let capabilities := Capabilities.ofPlugins plugins
  let base := baseUrl page.root location
  (Effect.done page (baseRecords page.root location) ()).andThen fun _ page =>
    (injectPolyfills host capabilities page).andThen fun _ page =>
      (versionExternal capabilities.modulesAmd param page).andThen fun _ page =>
        transformInlineBy strategy ⟨base, capabilities, param, log⟩ page

/-- Transforms a document. -/
def transform (host : Host) (options : PageOptions) : Page → Effect Unit :=
  transformBy host options.location (fun _ => options.strategy) options.plugins options.param
    options.log

end Page

end ModuleScripts
