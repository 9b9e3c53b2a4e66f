import ModuleScripts.Log
import ModuleScripts.Polyfill.Loader
import ModuleScripts.Polyfill.Parser
import ModuleScripts.Polyfill.Runtime
import ModuleScripts.Settings

/-!
# Preparing polyfills

The text of a polyfill script is made once from its source, by the parser, and
kept. Settings are read once from the environment and kept as well. What is kept
changes only by forgetting it; a source that cannot be read is not kept.
-/

namespace ModuleScripts

/-- What the surroundings offer: an environment, files and a parser of markup. -/
structure Host where
  /-- The environment. -/
  environment : Environment
  /-- The text of a file, or why there is none. -/
  read : Path → Except FileFault Text
  /-- The parser that makes scripts of sources. -/
  [parser : MarkupParser]

/-- What is kept from earlier uses. -/
structure Cache where
  /-- The settings, once they were used. -/
  settings : Option Settings
  /-- The text of the loader script, once it was prepared. -/
  loader : Option Text
  /-- The text of the runtime script, once it was prepared. -/
  runtime : Option Text
  deriving DecidableEq, Repr

namespace Cache

/-- Nothing is kept yet. -/
def empty : Cache := ⟨none, none, none⟩

/-- The settings as first used. -/
def currentSettings (host : Host) (cache : Cache) : Settings :=
  cache.settings.getD (Settings.ofEnvironment host.environment)

/-- The cache once the settings were used. -/
def withSettings (host : Host) (cache : Cache) : Cache :=
  { cache with settings := some (cache.currentSettings host) }

/-- Forgets the settings. -/
def forgetSettings (cache : Cache) : Cache := { cache with settings := none }

/-- Forgets the texts of scripts. -/
def forgetScripts (cache : Cache) : Cache := { cache with loader := none, runtime := none }

/-- The text kept for a polyfill. -/
def script? (cache : Cache) : Polyfill → Option Text
  | .loader => cache.loader
  | .runtime => cache.runtime

/-- Keeps the text for a polyfill. -/
def keep (text : Text) (cache : Cache) : Polyfill → Cache
  | .loader => { cache with loader := some text }
  | .runtime => { cache with runtime := some text }

end Cache

namespace Polyfill

/-- The source that comes with the program. -/
def bundled : Polyfill → Text
  | loader => loaderSource
  | runtime => runtimeSource

/-- The source of a polyfill: the text of the file that replaces it, with one
line feed for every line ending, or the bundled one. -/
def source (host : Host) (settings : Settings) (polyfill : Polyfill) :
    Except PolyfillError Text :=
  match settings.replacement polyfill with
  | none => .ok polyfill.bundled
  | some path =>
    match host.read path with
    | .ok text => .ok (normalizeLineEndings text)
    | .error fault => .error ⟨polyfill, ⟨fault, path.toText⟩⟩

/-- The text of a polyfill script as first prepared, with the cache once it was
asked for. -/
def prepare (host : Host) (cache : Cache) (polyfill : Polyfill) : Outcome Text × Cache :=
  match cache.script? polyfill with
  | some text => (Outcome.pure text, cache)
  | none =>
    let cache := cache.withSettings host
    match polyfill.source host (cache.currentSettings host) with
    | .error e => (Outcome.fail (.polyfill e), cache)
    | .ok source =>
      (⟨[⟨LogName.polyfills, .polyfillPrepared polyfill source.length⟩],
          .ok (host.parser.scriptText source)⟩,
        cache.keep (host.parser.scriptText source) polyfill)

end Polyfill

end ModuleScripts
