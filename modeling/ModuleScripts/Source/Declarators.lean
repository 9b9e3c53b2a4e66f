import ModuleScripts.Source.Lexer
import ModuleScripts.Source.Comments
import ModuleScripts.Source.ExportForm

/-!
# Declarators of a variable export

A variable export is cut at the commas and at the first semicolon that are
top-level code and stand outside all brackets. The cut is described by the
declarators and by what follows the semicolon; with the commas and the
semicolon put back they make up the text again.
-/

namespace ModuleScripts

/-- How a character changes the bracket depth. -/
def bracketStep (c : Char) : Int :=
  if c = '(' ∨ c = '[' ∨ c = '{' then 1
  else if c = ')' ∨ c = ']' ∨ c = '}' then -1
  else 0

/-- A declaration list cut into its declarators. -/
structure Pieces where
  /-- The text before the first comma. -/
  first : Text
  /-- The texts behind the commas. -/
  others : List Text
  /-- What follows the semicolon, or nothing if the text ends before one. -/
  rest : Option Text
  deriving DecidableEq, Repr

namespace Pieces

/-- The declarators in order. -/
def declarators (p : Pieces) : List Text := p.first :: p.others

/-- The semicolon of a declaration and what follows it. -/
def ending : Option Text → Text
  | none => []
  | some rest => ';' :: rest

/-- The text that the pieces were cut from. -/
def join (p : Pieces) : Text :=
  p.first ++ p.others.flatMap (',' :: ·) ++ ending p.rest

/-- The pieces with one more character before the first of them. -/
def push (c : Char) (p : Pieces) : Pieces := { p with first := c :: p.first }

/-- The pieces with an empty one before them. -/
def separate (p : Pieces) : Pieces := ⟨[], p.first :: p.others, p.rest⟩

/-- Cut marked characters at the commas of depth zero, up to a semicolon of
depth zero. Only marked characters cut or change the depth. -/
def cut (depth : Int) : List (Char × Bool) → Pieces
  | [] => ⟨[], [], none⟩
  | (c, mark) :: r =>
    if mark && depth == 0 && c == ',' then separate (cut depth r)
    else if mark && depth == 0 && c == ';' then ⟨[], [], some (r.map Prod.fst)⟩
    else push c (cut (if mark then depth + bracketStep c else depth) r)

/-- A cut loses nothing. -/
theorem join_cut (depth : Int) (marked : List (Char × Bool)) :
    (cut depth marked).join = marked.map Prod.fst := by
  induction marked generalizing depth with
  | nil => rfl
  | cons head r ih =>
    obtain ⟨c, mark⟩ := head
    unfold cut
    split
    · next h =>
      have hc : c = ',' := by simp_all
      subst hc
      have := ih depth
      simp only [join, separate, List.nil_append, List.flatMap_cons, List.map_cons] at this ⊢
      rw [← this]
      simp
    · split
      · next h =>
        have hc : c = ';' := by simp_all
        subst hc
        simp [join, ending]
      · have := ih (if mark then depth + bracketStep c else depth)
        simp only [join, push, List.map_cons, List.cons_append] at this ⊢
        rw [← this]

end Pieces

/-- The brackets opened and not closed by the marked characters. -/
def finalDepth : List (Char × Bool) → Int
  | [] => 0
  | (c, mark) :: r => (if mark then bracketStep c else 0) + finalDepth r

/-- The last marked character that is not blank. -/
def lastCode? (marked : List (Char × Bool)) : Option Char :=
  ((marked.filter fun m => m.2 && !isBlank m.1).getLast?).map Prod.fst

/-- A declaration that ends with this character goes on in the next line. -/
def isContinuation (c : Char) : Bool := ",=+-*%&|^?:<>".toList.contains c

/-- Whether a declaration list without a semicolon goes on behind its text:
a bracket, a comment or a template is open, or its last character of code asks
for more. -/
def continues (t : Text) : Bool :=
  0 < finalDepth (Lexer.marked [] t) || !(Lexer.after [] t).isEmpty ||
    match lastCode? (Lexer.marked [] t) with
    | none => true
    | some c => isContinuation c

/-- The keyword of a variable declaration. -/
def variableKeyword : Matcher :=
  Matcher.orElse (Matcher.keyword "const".toList)
    (Matcher.orElse (Matcher.keyword "let".toList) (Matcher.keyword "var".toList))

/-- A variable export up to its declarators. -/
def variableHead : Matcher :=
  ((Matcher.blanks.andThen (Matcher.literal "export".toList)).andThen Matcher.gap).andThen
    variableKeyword

/-- The head of an exported variable declaration is cut off without loss. -/
theorem variableHead_exact : Matcher.Exact variableHead := by
  refine Matcher.andThen_exact (Matcher.andThen_exact (Matcher.andThen_exact
    Matcher.blanks_exact (Matcher.literal_exact _)) Matcher.gap_exact) ?_
  exact Matcher.orElse_exact (Matcher.keyword_exact _)
    (Matcher.orElse_exact (Matcher.keyword_exact _) (Matcher.keyword_exact _))

/-- The head of an exported variable declaration is never empty. -/
theorem variableHead_advances : Matcher.Advances variableHead :=
  Matcher.andThen_advances (Matcher.andThen_advances
    (Matcher.andThen_advances_of_second (Matcher.literal_advances (by simp))))

/-- A variable export, cut behind its keyword and at its commas. -/
structure Declaration where
  /-- Everything up to and including the keyword. -/
  head : Text
  /-- What follows the keyword. -/
  pieces : Pieces
  deriving DecidableEq, Repr

namespace Declaration

/-- The text of the declaration with its semicolon, without what follows. -/
def text (d : Declaration) : Text :=
  d.head ++ Pieces.join { d.pieces with rest := d.pieces.rest.map fun _ => [] }

/-- What follows the declaration. -/
def rest (d : Declaration) : Text := d.pieces.rest.getD []

/-- Cuts a variable export, or fails while it goes on behind the text. -/
def split? (t : Text) : Option Declaration :=
  match variableHead t with
  | none => none
  | some (head, list) =>
    let pieces := Pieces.cut 0 (Lexer.marked [] list)
    if pieces.rest.isNone && continues list then none else some ⟨head, pieces⟩

/-- The declaration and what follows it make up the text. -/
theorem text_append_rest {t : Text} {d : Declaration} (h : split? t = some d) :
    t = d.text ++ d.rest := by
  unfold split? at h
  split at h
  · cases h
  · next head list hh =>
    simp only at h
    split at h
    · cases h
    · simp only [Option.some.injEq] at h
      subst h
      have hj := Pieces.join_cut 0 (Lexer.marked [] list)
      rw [Lexer.map_fst_marked] at hj
      rw [variableHead_exact _ _ _ hh]
      conv => lhs; rw [← hj]
      simp only [text, rest, Pieces.join, List.append_assoc]
      cases (Pieces.cut 0 (Lexer.marked [] list)).rest <;> simp [Pieces.ending]

/-- A declaration that is split off is never the empty text. -/
theorem text_ne_nil {t : Text} {d : Declaration} (h : split? t = some d) : d.text ≠ [] := by
  unfold split? at h
  split at h
  · cases h
  · next head list hh =>
    simp only at h
    split at h
    · cases h
    · simp only [Option.some.injEq] at h
      subst h
      simp [text, variableHead_advances _ _ _ hh]

end Declaration

/-- Whether a declarator is a pattern. -/
def isPattern : Text → Bool
  | [] => false
  | c :: _ => c = '{' || c = '['

/-- The name at the start of a declarator, behind which an initialiser or the
end must follow. -/
def declaratorName? (declarator : Text) : Option Text :=
  match Matcher.identifier declarator with
  | none => none
  | some (name, rest) =>
    match Text.trimStart rest with
    | [] => some name
    | c :: _ => if c = '=' then some name else none

/-- The name of one declarator, read without comments. -/
def parseDeclarator (declarator : Text) : Except Fault Rename :=
  let part := Text.trim (Comments.remove declarator)
  if isPattern part then .error .destructuring
  else
    match declaratorName? part with
    | none => .error (.invalidDeclarator part)
    | some name => .ok ⟨name, name⟩

/-- The names of declarators up to the first that cannot be read. -/
def parseDeclarators : List Text → Except Fault (List Rename)
  | [] => .ok []
  | declarator :: others =>
    match parseDeclarator declarator with
    | .error fault => .error fault
    | .ok name => (parseDeclarators others).map (name :: ·)

/-- Reads a variable export from its text and its declarators. The body is the
declaration without the export keyword, indented as before. -/
def Export.parseVariables (line : Nat) (text : Text) (declarators : List Text) :
    Except Fault Export :=
  (parseDeclarators declarators).map fun names =>
    ⟨.declaration, line, text,
      Text.leading text ++ Text.trimStart ((Text.trim text).drop "export".toList.length),
      names, none⟩

end ModuleScripts
