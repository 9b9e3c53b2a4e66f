import ModuleScripts.Proofs.Stages

/-!
# What a transform keeps of polyfills

A text that was prepared once is kept, and the settings are used only where a text is
not kept. So what a stage leaves in the cache depends on the polyfills it needs, in their
order, and on nothing else that the stage does to the document. Of the document it leaves
what comes of putting these polyfills in, one in turn behind the other.
-/

namespace ModuleScripts

namespace Polyfill

/-- The record about a polyfill that has no place. -/
def missing : Polyfill → Event
  | .loader => .placeMissing .loader
  | .runtime => .headMissing .runtime

section Preparing

variable {host : Host} {cache : Cache} {polyfill other : Polyfill} {needed : List Polyfill}
  {text source : Text} {e : PolyfillError}

end Preparing

end Polyfill

namespace Page

section Injections

variable {host : Host} {capabilities : Capabilities} {page : Page}

/-- The tree that a stage leaves once its last polyfill is put in: without the scripts for
browsers without modules if the loader was asked for. -/
def finished (capabilities : Capabilities) (put : Effect Bool) : Node :=
  match put.result with
  | .error _ => put.page.root
  | .ok _ =>
    if capabilities.modulesAmd then put.page.root.without Node.isFallback else put.page.root

end Injections

end Page

end ModuleScripts
