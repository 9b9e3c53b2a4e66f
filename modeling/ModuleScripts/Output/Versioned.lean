import ModuleScripts.Output.Specifier

/-!
# Module source with versioned specifiers

The statements are written one below the other as they were read. Only the
specifiers of imports and re-exports change.
-/

namespace ModuleScripts

/-- A statement with its specifier versioned. -/
def Statement.versioned (param : Text) (s : Statement) : Text :=
  match s.specifier? with
  | none => s.text
  | some specifier =>
    Specifier.replaceQuoted specifier (Specifier.version param specifier) s.text

/-- The source of a module with its specifiers versioned. -/
def Module.versioned (param : Text) (m : Module) : Text :=
  List.intercalate ['\n'] (m.body.map (Statement.versioned param))

end ModuleScripts
