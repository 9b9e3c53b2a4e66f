import ModuleScripts.Failure
import ModuleScripts.Source.Matcher

/-!
# The meta object of a module

An AMD definition has no meta object, so its URL is written in its place. The
quoted base URL serves as a substitution pattern, in which a backslash starts
an escape: two of them stand for one, the letters of the common control
characters for these, and another letter for nothing that can be substituted.
A backslash before anything else stays.
-/

namespace ModuleScripts.Meta

/-- What the escape with this character stands for. -/
def escapeMeaning (c : Char) : Option Text :=
  if c = '\\' then some ['\\']
  else if c = 'n' then some ['\n']
  else if c = 'r' then some ['\r']
  else if c = 't' then some ['\t']
  else if c = 'f' then some ['\x0c']
  else if c = 'b' then some ['\x08']
  else if c = 'a' then some ['\x07']
  else if c = 'v' then some ['\x0b']
  else if isAsciiLetter c then none
  else some ['\\', c]

/-- The text that a substitution pattern stands for. The offset is the place of
its first character. -/
def expandFrom (offset : Nat) : Text → Except BadEscape Text
  | [] => .ok []
  | [c] => .ok [c]
  | c :: d :: r =>
    if c = '\\' then
      match escapeMeaning d with
      | none => .error ⟨d, offset⟩
      | some meaning => (expandFrom (offset + 2) r).map (meaning ++ ·)
    else (expandFrom (offset + 1) (d :: r)).map (c :: ·)

/-- The text that a substitution pattern stands for. -/
def expand (pattern : Text) : Except BadEscape Text := expandFrom 0 pattern

/-- Whether a whole word stands at the start of a text, behind `previous`. -/
def wordAt (word : Text) (previous : Option Char) (t : Text) : Bool :=
  wordMayStart previous &&
    match Text.dropPrefix? word t with
    | none => false
    | some rest => atWordEnd rest

/-- The text with every whole word replaced, behind `previous` and after
skipping the rest of a word already replaced. -/
def replaceFrom (word replacement : Text) (previous : Option Char) (skip : Nat) : Text → Text
  | [] => []
  | c :: r =>
    match skip with
    | skip + 1 => replaceFrom word replacement (some c) skip r
    | 0 =>
      if wordAt word previous (c :: r) then
        replacement ++ replaceFrom word replacement (some c) (word.length - 1) r
      else c :: replaceFrom word replacement (some c) 0 r

/-- The text with every whole word replaced. -/
def replaceWord (word replacement t : Text) : Text := replaceFrom word replacement none 0 t

/-- What stands for the URL of a module and for its whole meta object. -/
structure Substitution where
  /-- The URL. -/
  url : Text
  /-- The meta object. -/
  object : Text
  deriving DecidableEq, Repr

/-- The substitution for a base URL. -/
def Substitution.ofBase (base : Text) : Except BadEscape Substitution :=
  let quoted := Text.json base
  match expand quoted with
  | .error e => .error e
  | .ok url =>
    (expand ("(\x7b url: ".toList ++ quoted ++ " \x7d)".toList)).map fun object => ⟨url, object⟩

/-- The code with the URL of the module substituted, then its meta object. -/
def Substitution.apply (s : Substitution) (code : Text) : Text :=
  replaceWord "import.meta".toList s.object (replaceWord "import.meta.url".toList s.url code)

end ModuleScripts.Meta
