import ModuleScripts.Source.Bindings

/-!
# Reading one import statement

A trimmed import statement is the keyword followed by a quoted specifier, or
the keyword, a clause, the word `from` and a quoted specifier. Of several ways
to split it the one with the shortest clause counts.
-/

namespace ModuleScripts

/-- Nothing but blanks and at most one semicolon at the very end is left. -/
def atStatementEnd (t : Text) : Bool :=
  match Text.trimStart t with
  | [] => true
  | [c] => c = ';'
  | _ => false

/-- The text up to the first closing quote behind which the statement ends. -/
def specifierBefore (quote : Char) : Text → Option Text
  | [] => none
  | c :: r =>
    if c = quote ∧ atStatementEnd r then some []
    else (specifierBefore quote r).map (c :: ·)

/-- The quoted specifier with which a statement ends. -/
def finalSpecifier? : Text → Option Text
  | [] => none
  | quote :: r => if quote = '\'' ∨ quote = '"' then specifierBefore quote r else none

/-- The word `from` with the blanks that may stand around it. -/
def fromWord : Matcher :=
  (Matcher.blanks.andThen (Matcher.literal "from".toList)).andThen Matcher.blanks

/-- The specifier of a statement that goes on with `from` and ends with it. -/
def fromSpecifier? (t : Text) : Option Text :=
  match fromWord t with
  | none => none
  | some (_, rest) => finalSpecifier? rest

/-- The shortest clause, of at least one character, behind which the statement
goes on with `from` and ends with a specifier. -/
def clauseFrom? : Text → Option (Text × Text)
  | [] => none
  | c :: r =>
    match fromSpecifier? r with
    | some specifier => some ([c], specifier)
    | none => (clauseFrom? r).map fun found => (c :: found.1, found.2)

/-- Clause and specifier of what follows the keyword of an import. A blank can
be the clause itself if another blank parts it from the keyword. -/
def splitImport? (afterKeyword : Text) : Option (Text × Text) :=
  match Matcher.gap afterKeyword with
  | none => none
  | some (gap, rest) =>
    match clauseFrom? rest with
    | some found => some found
    | none =>
      if 2 ≤ gap.length then
        (fromSpecifier? rest).map fun specifier => (gap.drop (gap.length - 1), specifier)
      else none

/-- The specifier of an import without a clause. -/
def bareSpecifier? (afterKeyword : Text) : Option Text :=
  finalSpecifier? (Text.trimStart afterKeyword)

/-- Reads one import statement. -/
def Import.parse (line : Nat) (text : Text) : Except Fault Import :=
  let statement := Text.trim text
  match Text.dropPrefix? "import".toList statement with
  | none => .error (.invalidImport statement)
  | some afterKeyword =>
    match bareSpecifier? afterKeyword with
    | some specifier => .ok ⟨line, text, specifier, none, none, []⟩
    | none =>
      match splitImport? afterKeyword with
      | none => .error (.invalidImport statement)
      | some (clause, specifier) =>
        (Clause.parse statement clause).map fun c =>
          ⟨line, text, specifier, c.defaultName, c.namespaceName, c.named⟩

end ModuleScripts
