import ModuleScripts.Source.Matcher

/-!
# Where an import or an export list ends

An import ends behind its quoted specifier, an export list behind its closing
brace or, with `from`, behind its specifier. A semicolon on the same line
belongs to the statement. Both ends are the leftmost ones in the text, whatever
comments it holds, and a cut there loses nothing.
-/

namespace ModuleScripts.Boundary

open Matcher

/-- The blanks and the semicolon behind a statement. -/
def terminator : Matcher := blanks.andThen (optional (literal [';']))

/-- A terminator is cut off without loss. -/
theorem terminator_exact : Exact terminator :=
  andThen_exact blanks_exact (optional_exact (literal_exact _))

/-- The word `from`, blanks and a quoted specifier. -/
def source : Matcher := ((literal "from".toList).andThen blanks).andThen quoted

/-- The word `from` and its specifier are cut off without loss. -/
theorem source_exact : Exact source :=
  andThen_exact (andThen_exact (literal_exact _) blanks_exact) quoted_exact

/-- A source is never empty, as its specifier stands in quotes. -/
theorem source_advances : Advances source := andThen_advances_of_second quoted_advances

/-- The keyword of an import with its specifier right behind it. -/
def bareImport : Matcher :=
  ((((blanks.andThen (literal "import".toList)).andThen blanks).andThen quoted).andThen terminator)

/-- A bare import is cut off without loss. -/
theorem bareImport_exact : Exact bareImport :=
  andThen_exact
    (andThen_exact (andThen_exact (andThen_exact blanks_exact (literal_exact _)) blanks_exact)
      quoted_exact)
    terminator_exact

/-- A bare import is never empty. -/
theorem bareImport_advances : Advances bareImport :=
  andThen_advances (andThen_advances_of_second quoted_advances)

/-- The piece up to the end of an import: a specifier right behind the keyword,
else the first specifier behind the word `from`. -/
def importEnd : Matcher :=
  orElse bareImport (upTo wordMayStart (source.andThen terminator) none)

/-- An import is cut off without loss up to its end. -/
theorem importEnd_exact : Exact importEnd :=
  orElse_exact bareImport_exact
    (upTo_exact (andThen_exact source_exact terminator_exact) none)

/-- The piece that ends an import is never empty. -/
theorem importEnd_advances : Advances importEnd :=
  orElse_advances bareImport_advances (upTo_advances (andThen_advances source_advances) none)

/-- What follows the name of a star export: the word `from` with its specifier,
or the specifier alone behind a name that runs into that word and so gives up
its last four characters. -/
def behindName (name : Text) : Matcher :=
  orElse (blanks.andThen source) fun t =>
    if 4 < name.length ∧ name.drop (name.length - 4) = "from".toList then
      (blanks.andThen quoted) t
    else none

/-- What follows the name of a star export is cut off without loss. -/
theorem behindName_exact (name : Text) : Exact (behindName name) := by
  refine orElse_exact (andThen_exact blanks_exact source_exact) ?_
  intro t piece rest h
  split at h
  · exact andThen_exact blanks_exact quoted_exact _ _ _ h
  · cases h

/-- The name of a star export and the specifier behind it. -/
def nameFrom : Matcher := fun t =>
  match identifier t with
  | none => none
  | some (name, rest) => (behindName name rest).map fun found => (name ++ found.1, found.2)

/-- The name is taken when an identifier is read and its specifier behind
it. -/
theorem nameFrom_eq_some_iff {t piece rest : Text} :
    nameFrom t = some (piece, rest) ↔
      ∃ name r tail, identifier t = some (name, r) ∧ behindName name r = some (tail, rest) ∧
        piece = name ++ tail := by
  unfold nameFrom
  cases identifier t with
  | none => simp
  | some found =>
    obtain ⟨name, r⟩ := found
    simp only [Option.map_eq_some_iff, Prod.mk.injEq, Option.some.injEq, Prod.exists]
    constructor
    · rintro ⟨tail, _, hb, rfl, rfl⟩
      exact ⟨name, r, tail, ⟨rfl, rfl⟩, hb, rfl⟩
    · rintro ⟨_, _, tail, ⟨rfl, rfl⟩, hb, rfl⟩
      exact ⟨tail, rest, hb, rfl, rfl⟩

/-- A named star export is cut off without loss. -/
theorem nameFrom_exact : Exact nameFrom := by
  intro t piece rest h
  obtain ⟨name, r, tail, hn, hb, rfl⟩ := nameFrom_eq_some_iff.1 h
  rw [identifier_exact _ _ _ hn, behindName_exact _ _ _ _ hb, List.append_assoc]

/-- The name of a star export behind its `as`. -/
def renamedFrom : Matcher :=
  ((blanks.andThen (literal "as".toList)).andThen gap).andThen nameFrom

/-- A renaming with its specifier is cut off without loss. -/
theorem renamedFrom_exact : Exact renamedFrom :=
  andThen_exact
    (andThen_exact (andThen_exact blanks_exact (literal_exact _)) gap_exact) nameFrom_exact

/-- A star with its specifier. -/
def star : Matcher := (literal ['*']).andThen (orElse renamedFrom (blanks.andThen source))

/-- A star export is cut off without loss. -/
theorem star_exact : Exact star :=
  andThen_exact (literal_exact _)
    (orElse_exact renamedFrom_exact (andThen_exact blanks_exact source_exact))

/-- A star export is never empty, as it starts with the star. -/
theorem star_advances : Advances star := andThen_advances (literal_advances (by simp))

/-- A closing brace, with a specifier if one follows. -/
def closingBrace : Matcher := (literal ['}']).andThen (optional (blanks.andThen source))

/-- The closing brace and what belongs to it are cut off without loss. -/
theorem closingBrace_exact : Exact closingBrace :=
  andThen_exact (literal_exact _) (optional_exact (andThen_exact blanks_exact source_exact))

/-- A closing brace is never the empty piece. -/
theorem closingBrace_advances : Advances closingBrace :=
  andThen_advances (literal_advances (by simp))

/-- The piece up to the end of an export list or a star export. -/
def exportListEnd : Matcher :=
  upTo (fun _ => true) ((orElse star closingBrace).andThen terminator) none

/-- An export list is cut off without loss up to its end. -/
theorem exportListEnd_exact : Exact exportListEnd :=
  upTo_exact (andThen_exact (orElse_exact star_exact closingBrace_exact) terminator_exact) none

/-- The piece that ends an export list is never empty. -/
theorem exportListEnd_advances : Advances exportListEnd :=
  upTo_advances (andThen_advances (orElse_advances star_advances closingBrace_advances)) none

end ModuleScripts.Boundary
