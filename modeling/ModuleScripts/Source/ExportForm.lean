import ModuleScripts.Source.ImportForm

/-!
# Reading one export statement

Export lists and star exports are read from the whole statement. A default
export and a function or class declaration are read from their first line only;
the rest of the declaration is code of its own.
-/

namespace ModuleScripts

/-- The shortest text before a closing brace behind which `tail` succeeds. -/
def braced? {α : Type} (tail : Text → Option α) : Text → Option (Text × α)
  | [] => none
  | c :: r =>
    match if c = '}' then tail r else none with
    | some found => some ([], found)
    | none => (braced? tail r).map fun found => (c :: found.1, found.2)

/-- The name that a star export is given, and what follows it. -/
def starName? (afterStar : Text) : Option (Text × Text) :=
  match ((Matcher.blanks.andThen (Matcher.literal "as".toList)).andThen Matcher.gap) afterStar with
  | none => none
  | some (_, rest) => Matcher.identifier rest

namespace Export

/-- Reads a star export from what follows its star. -/
def parseStar? (line : Nat) (text afterStar : Text) : Option Export :=
  match starName? afterStar with
  | some (name, rest) =>
    if (Text.leading rest).isEmpty then none
    else (fromSpecifier? rest).map fun specifier =>
      ⟨.reexport, line, text, [], [⟨['*'], name⟩], some specifier⟩
  | none =>
    (fromSpecifier? afterStar).map fun specifier => ⟨.star, line, text, [], [], some specifier⟩

/-- Reads an export list from what follows its opening brace. -/
def parseBraced (line : Nat) (text statement afterBrace : Text) : Except Fault Export :=
  match braced? fromSpecifier? afterBrace with
  | some (list, specifier) =>
    (parseBindings list).map fun names => ⟨.reexport, line, text, [], names, some specifier⟩
  | none =>
    match braced? (fun r => if atStatementEnd r then some () else none) afterBrace with
    | some (list, _) =>
      (parseBindings list).map fun names => ⟨.named, line, text, [], names, none⟩
    | none => .error (.invalidExport statement)

/-- Reads an export list or a star export. -/
def parseList (line : Nat) (text : Text) : Except Fault Export :=
  let statement := Text.trim text
  match (Text.dropPrefix? "export".toList statement).map Text.trimStart with
  | some ('*' :: r) =>
    match parseStar? line text r with
    | some e => .ok e
    | none => .error (.invalidExport statement)
  | some ('{' :: r) => parseBraced line text statement r
  | _ => .error (.invalidExport statement)

end Export

/-- The head of a function declaration before its name: the keyword with an
optional `async` before it and an optional star behind it. -/
def functionHead : Matcher :=
  ((((Matcher.optional ((Matcher.literal "async".toList).andThen Matcher.gap)).andThen
    (Matcher.keyword "function".toList)).andThen Matcher.blanks).andThen
      (Matcher.optional (Matcher.literal ['*']))).andThen Matcher.blanks

/-- The head of a class declaration before its name. -/
def classHead : Matcher := (Matcher.literal "class".toList).andThen Matcher.gap

/-- The name of a declaration that starts with `head`. -/
def nameBehind? (head : Matcher) (t : Text) : Option Text :=
  match head t with
  | none => none
  | some (_, rest) => (Matcher.identifier rest).map Prod.fst

/-- The name of a function or class declaration. -/
def declaredName? (t : Text) : Option Text :=
  match nameBehind? functionHead t with
  | some name => some name
  | none => nameBehind? classHead t

namespace Export

/-- Reads the first line of an export of a declaration or a default value. -/
def parseLine (line : Nat) (text : Text) : Except Fault Export :=
  let indent := Text.leading text
  let statement := Text.trim text
  match ((Matcher.literal "export".toList).andThen Matcher.gap) statement with
  | none => .error (.invalidExport statement)
  | some (_, declaration) =>
    match ((Matcher.literal "default".toList).andThen Matcher.gap) declaration with
    | some (_, value) =>
      match declaredName? value with
      | some name =>
        .ok ⟨.declaration, line, text, indent ++ value, [⟨name, "default".toList⟩], none⟩
      | none => .ok ⟨.defaultValue, line, text, indent ++ value, [], none⟩
    | none =>
      match declaredName? declaration with
      | some name => .ok ⟨.declaration, line, text, indent ++ declaration, [⟨name, name⟩], none⟩
      | none => .error (.invalidExport statement)

end Export

end ModuleScripts
