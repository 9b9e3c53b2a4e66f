import Mathlib.Data.List.Induction
import ModuleScripts.Proofs.PolyfillCache
import ModuleScripts.Proofs.ScriptChanges
import ModuleScripts.Session

/-!
# What a session remembers of polyfills

A session keeps the settings it first used and the text of each polyfill it first
prepared, until it is told to forget the one or the other. Both memories follow one
law: what is kept stays through every step but the one that forgets it, and a step
that needs it where it is missing fills it. So the text of a polyfill goes back to the
first step since the scripts were forgotten that could prepare it, and the file it was
read from to the first step since the settings were forgotten, as seen from there, that
asked for them. A clone in the document has this text wherever the parser ends a script
at its first end tag.
-/

namespace ModuleScripts

namespace Session

section History

variable {V : Type} {start s : Session} {forget t u : Step} {steps first a b : List Step} {v : V}
  {Does : Session → Step → Prop}

/-- The session behind a step. -/
def after (s : Session) (t : Step) : Session := (s.step t).1

/-- No step of a run does something since the last one that forgets. -/
def NoneSince (start : Session) (forget : Step) (Does : Session → Step → Prop)
    (steps : List Step) : Prop :=
  ∀ a t b, steps = a ++ t :: b → Does (start.afterAll a) t → forget ∈ b

/-- Where something was not done since, no special case of it was. -/
theorem NoneSince.imp {Does' : Session → Step → Prop} (h : NoneSince start forget Does steps)
    (hdoes : ∀ s t, Does' s t → Does s t) : NoneSince start forget Does' steps :=
  fun a t b hsplit ht => h a t b hsplit (hdoes _ t ht)

namespace Remembers

variable {content : Session → Option V} {Gives : Session → Step → V → Prop}

end Remembers

end History

section Cache

variable {s : Session} {t : Step} {polyfill : Polyfill} {text : Text}

end Cache

section Documents

variable {s other : Session} {t : Step} {steps : List Step}

end Documents

section Origins

variable {start : Session} {steps : List Step} {t : Step} {polyfill : Polyfill} {page : Page}
  {place : Place}

/-- A text without so many characters as two texts around it have. -/
def between (front back t : Text) : Text :=
  (t.drop front.length).take (t.length - (front.length + back.length))

end Origins

end Session

end ModuleScripts
