import ModuleScripts.Output.Transform
import ModuleScripts.Page.Effect

/-!
# Inline module scripts

The inline module scripts are found before the first is changed. Their bodies go
through the strategy one at a time in document order, and each new body is put
into its script, which loses its type, before the next is asked for. A failure
leaves the script it came from and the later ones as they are.
-/

namespace ModuleScripts

/-- A script with its new body and without its type. -/
def Node.fill (body : Text) (node : Node) : Node :=
  (node.setText body).mapTag (Tag.erase typeName)

namespace Page

/-- Transforms scripts one after the other up to the first failure. What becomes
of a body may depend on the bodies given before it. A new body keeps the blanks
around the old one. -/
def fillEach (transform : List Text → Text → Outcome Text) (given : List Text) :
    List Located → Page → Effect Unit
  | [], page => Effect.done page [] ()
  | script :: scripts, page =>
    let body := script.node.textContent
    let outcome := transform given body
    match outcome.result with
    | .error failure => ⟨page, outcome.records, .error failure⟩
    | .ok new =>
      let root := page.root.modify (Node.fill (Text.surroundLike body new)) script.address
      (Effect.done ⟨root, page.cache⟩ outcome.records ()).andThen fun _ page =>
        fillEach transform (given ++ [body]) scripts page

/-- Transforms the inline module scripts by a strategy for each body, which may
depend on the bodies given before it. -/
def transformInlineBy (strategy : List Text → Strategy) (options : ModuleOptions) (page : Page) :
    Effect Unit :=
  fillEach (fun given body => strategy given body (Module.transform options)) []
    (page.root.findAll Node.isInlineModule) page

/-- Transforms the inline module scripts. -/
def transformInline (strategy : Strategy) : ModuleOptions → Page → Effect Unit :=
  transformInlineBy fun _ => strategy

end Page

end ModuleScripts
