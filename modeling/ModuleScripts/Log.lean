import ModuleScripts.Failure

/-!
# Log records and outcomes

A step of the transform reports what it did as events. Which log a record goes
to is decided by the caller. An outcome is a result, or a failure, together
with the records made on the way.
-/

namespace ModuleScripts

/-- How much a record matters. -/
inductive Level where
  /-- Detail for those who look for it. -/
  | debug
  /-- Something that may not be as wanted. -/
  | warning
  deriving DecidableEq, Repr

/-- The word for a level. -/
def Level.word : Level → Text
  | debug => "DEBUG".toList
  | warning => "WARNING".toList

/-- What a record tells. -/
inductive Event where
  /-- Generator functions of a module body are left as they are. -/
  | generatorsKept
  /-- A specifier that is no path is left as it is. -/
  | bareSpecifier (specifier : Text)
  /-- The reference of the base element cannot be resolved. -/
  | malformedBase (href : Text)
  /-- So many scripts for browsers without modules were removed. -/
  | fallbacksRemoved (count : Nat)
  /-- There is no head to put a polyfill into. -/
  | headMissing (polyfill : Polyfill)
  /-- There is neither a module script nor a head to put a polyfill near. -/
  | placeMissing (polyfill : Polyfill)
  /-- The source of a polyfill, so many characters long, was made a script. -/
  | polyfillPrepared (polyfill : Polyfill) (size : Nat)
  deriving DecidableEq, Repr

namespace Event

/-- How much an event matters. -/
def level : Event → Level
  | generatorsKept => .warning
  | _ => .debug

/-- The words of an event. -/
def message : Event → Text
  | generatorsKept =>
    "The built-in module transform does not desugar generator functions".toList
  | bareSpecifier specifier =>
    "Leaving bare module specifier ".toList ++ Text.display specifier ++ " unchanged".toList
  | malformedBase href =>
    "Ignoring malformed <base href=".toList ++ Text.display href ++ ">".toList
  | fallbacksRemoved count =>
    "Removed ".toList ++ Text.ofNat count ++ " nomodule script(s)".toList
  | headMissing polyfill => "No <head>; skipping ".toList ++ polyfill.name
  | placeMissing polyfill => "No module script and no <head>; skipping ".toList ++ polyfill.name
  | polyfillPrepared polyfill size =>
    "Parsed polyfill template ".toList ++ polyfill.name ++ " (".toList ++ Text.ofNat size ++
      " chars)".toList

end Event

/-- An event in a named log. -/
structure Record where
  /-- The name of the log. -/
  log : Text
  /-- What happened. -/
  event : Event
  deriving DecidableEq, Repr

/-- The record on one line. -/
def Record.line (r : Record) : Text :=
  r.event.level.word ++ [' '] ++ r.log ++ ": ".toList ++ r.event.message

namespace LogName

/-- The log of the module transform on its own. -/
def modules : Text := "esmshim.jsmodule".toList

/-- The log of the document transform. -/
def documents : Text := "esmshim.transform".toList

/-- The log of the polyfills. -/
def polyfills : Text := "esmshim.polyfills".toList

/-- The log of the command. -/
def command : Text := "esmshim".toList

end LogName

/-- A result or a failure, and the records made on the way. -/
structure Outcome (α : Type) where
  /-- The records in order. -/
  records : List Record
  /-- The result. -/
  result : Except Failure α

namespace Outcome

/-- A result without records. -/
def pure {α : Type} (a : α) : Outcome α := ⟨[], .ok a⟩

/-- A failure without records. -/
def fail {α : Type} (f : Failure) : Outcome α := ⟨[], .error f⟩

/-- The result changed by a function. -/
def map {α β : Type} (f : α → β) (o : Outcome α) : Outcome β := ⟨o.records, o.result.map f⟩

/-- One outcome after the other, unless the first is a failure. -/
def andThen {α β : Type} (o : Outcome α) (f : α → Outcome β) : Outcome β :=
  match o.result with
  | .error e => ⟨o.records, .error e⟩
  | .ok a => ⟨o.records ++ (f a).records, (f a).result⟩

end Outcome

end ModuleScripts
