import ModuleScripts.Source.Boundary
import ModuleScripts.Source.Declarators

/-!
# Reading the statements of a module

Module source is read line by line. A line that starts at top level with
an import or an export is joined with the lines after it until the statement is
complete, and the statement is cut off; what is left of the last line is read
as a line of its own. Every other line is a statement of code. Nothing but a
blank remainder of a line is dropped.
-/

namespace ModuleScripts

/-- What the start of a line announces. -/
inductive LineHead where
  /-- An import. -/
  | importing
  /-- An export list or a star export. -/
  | exportList
  /-- An exported `const`, `let` or `var`. -/
  | exportVariables
  /-- Another export. -/
  | exportOther
  /-- Code. -/
  | code
  deriving DecidableEq, Repr

namespace LineHead

/-- Whether a keyword before `c` can start an import. -/
def opensImport (c : Char) : Bool := isBlank c || c == '{' || c == '*' || c == '\'' || c == '"'

/-- Whether a keyword before `c` can start an export. -/
def opensExport (c : Char) : Bool := isBlank c || c == '{' || c == '*'

/-- What a line behind the word `export` announces. -/
def ofExport (line afterKeyword : Text) : LineHead :=
  match Text.trimStart afterKeyword with
  | '{' :: _ => exportList
  | '*' :: _ => exportList
  | _ =>
    if (variableHead line).isSome then exportVariables
    else
      match afterKeyword with
      | [] => code
      | c :: _ => if opensExport c then exportOther else code

/-- What a line of top-level source announces. -/
def ofLine (line : Text) : LineHead :=
  match Text.dropPrefix? "import".toList (Text.trimStart line) with
  | some (c :: _) => if opensImport c then importing else code
  | some [] => code
  | none =>
    match Text.dropPrefix? "export".toList (Text.trimStart line) with
    | some afterKeyword => ofExport line afterKeyword
    | none => code

end LineHead

/-- Joins lines until the trimmed text is complete: the text and the lines that
are left, or nothing if the lines run out first. -/
def collect (complete : Text → Bool) (text : Text) : List Text → Option (Text × List Text)
  | [] => if complete (Text.trim text) then some (text, []) else none
  | line :: lines =>
    if complete (Text.trim text) then some (text, line :: lines)
    else collect complete (text ++ '\n' :: line) lines

/-- A statement cut off its lines. -/
structure Taken where
  /-- The statement. -/
  statement : Statement
  /-- What is left of the last line that was read. -/
  rest : Text
  /-- Number of the last line that was read. -/
  lastLine : Nat
  /-- The lines after it. -/
  following : List Text
  deriving DecidableEq, Repr

namespace Taken

/-- Cut at the end that a matcher finds. A text without an end is a statement
as a whole. -/
def cutAt (boundary : Matcher) (text : Text) : Text × Text :=
  (boundary text).getD (text, [])

/-- Takes an import. -/
def importing (line : Nat) (raw : Text) (following : List Text) : Except Fault Taken :=
  match collect (fun t => (Boundary.importEnd t).isSome) raw following with
  | none => .error .unterminatedImport
  | some (text, following) =>
    let parts := cutAt Boundary.importEnd text
    (Import.parse line parts.1).map fun i =>
      ⟨.importing i, parts.2, line + Text.lineFeeds text, following⟩

/-- Takes an export list or a star export. -/
def exportList (line : Nat) (raw : Text) (following : List Text) : Except Fault Taken :=
  match collect (fun t => (Boundary.exportListEnd t).isSome) raw following with
  | none => .error .unterminatedExport
  | some (text, following) =>
    let parts := cutAt Boundary.exportListEnd text
    (Export.parseList line parts.1).map fun e =>
      ⟨.exporting e, parts.2, line + Text.lineFeeds text, following⟩

/-- Takes a variable export. -/
def exportVariables (line : Nat) (raw : Text) (following : List Text) : Except Fault Taken :=
  match collect (fun t => (Declaration.split? t).isSome) raw following with
  | none => .error .unterminatedExport
  | some (text, following) =>
    match Declaration.split? text with
    | none => .error .unterminatedExport
    | some d =>
      (Export.parseVariables line d.text d.pieces.declarators).map fun e =>
        ⟨.exporting e, d.rest, line + Text.lineFeeds text, following⟩

/-- Takes the first line of another export. -/
def exportOther (line : Nat) (raw : Text) (following : List Text) : Except Fault Taken :=
  (Export.parseLine line raw).map fun e => ⟨.exporting e, [], line, following⟩

/-- Takes a line of code. -/
def code (line : Nat) (raw : Text) (following : List Text) : Taken :=
  ⟨.code line raw, [], line, following⟩

/-- Takes the next statement. Inside a comment or a template every line is
code. -/
def next (context : Lexer.Context) (line : Nat) (raw : Text) (following : List Text) :
    Except Fault Taken :=
  if !context.isEmpty then .ok (code line raw following)
  else
    match LineHead.ofLine raw with
    | .importing => importing line raw following
    | .exportList => exportList line raw following
    | .exportVariables => exportVariables line raw following
    | .exportOther => exportOther line raw following
    | .code => .ok (code line raw following)

end Taken

/-- The text that is still to be read: the line at hand, and the lines that
follow it behind their line feeds. -/
def unread (raw : Text) (following : List Text) : Text :=
  raw ++ following.flatMap fun line => '\n' :: line

/-- The line at hand counts in full, and the lines behind it on their own. -/
theorem length_unread (raw : Text) (following : List Text) :
    (unread raw following).length = raw.length + (unread [] following).length := by
  simp [unread]

/-- A further line counts with the line feed before it. -/
theorem length_unread_cons (raw line : Text) (lines : List Text) :
    (unread raw (line :: lines)).length = raw.length + (unread line lines).length + 1 := by
  simp only [unread, List.flatMap_cons, List.length_append, List.length_cons]
  omega

/-- Joining lines leaves the text that is still to be read as it is. -/
theorem unread_collect {complete : Text → Bool} {raw text : Text} {lines following : List Text}
    (h : collect complete raw lines = some (text, following)) :
    unread text following = unread raw lines := by
  induction lines generalizing raw with
  | nil =>
    unfold collect at h
    split at h
    · simp only [Option.some.injEq, Prod.mk.injEq] at h
      rw [h.1, h.2]
    · cases h
  | cons line lines ih =>
    unfold collect at h
    split at h
    · simp only [Option.some.injEq, Prod.mk.injEq] at h
      rw [h.1, h.2]
    · rw [ih h]
      simp [unread]

/-- Behind a boundary nothing is left, or less than before. -/
theorem cutAt_rest_lt {boundary : Matcher} (he : boundary.Exact) (ha : boundary.Advances)
    (text : Text) : (Taken.cutAt boundary text).2 = [] ∨
      (Taken.cutAt boundary text).2.length < text.length := by
  unfold Taken.cutAt
  cases h : boundary text with
  | none => exact .inl rfl
  | some parts =>
    obtain ⟨piece, rest⟩ := parts
    right
    have hp := List.length_pos_iff.2 (ha _ _ _ h)
    have := congrArg List.length (he _ _ _ h)
    simp only [Option.getD_some, List.length_append] at this ⊢
    omega

/-- A mapped result succeeded before it was mapped. -/
theorem map_eq_ok {ε α β : Type} {x : Except ε α} {f : α → β} {b : β}
    (h : x.map f = .ok b) : ∃ a, x = .ok a ∧ f a = b := by
  cases x with
  | error e => cases h
  | ok a => exact ⟨a, rfl, by simpa [Except.map] using h⟩

/-- Two maps over a result are one map with both functions. -/
theorem except_map_map {ε α β γ : Type} (x : Except ε α) (f : α → β) (g : β → γ) :
    (x.map f).map g = x.map (g ∘ f) := by
  cases x <;> rfl

/-- What a step leaves of the text: no more than before, and less unless the
line is done. -/
def LeavesLess (before after : List Text × Text) : Prop :=
  (unread after.2 after.1).length ≤ (unread before.2 before.1).length ∧
    (after.2 = [] ∨ (unread after.2 after.1).length < (unread before.2 before.1).length)

/-- Taking the whole line leaves the line done. -/
theorem leavesLess_of_line (raw : Text) (following : List Text) :
    LeavesLess (following, raw) (following, []) :=
  ⟨by rw [length_unread raw]; exact Nat.le_add_left _ _, .inl rfl⟩

/-- A statement cut out of joined lines leaves less of the text. -/
theorem leavesLess_of_cut {raw text rest : Text} {lines following : List Text}
    (hu : unread text following = unread raw lines) (hr : rest = [] ∨ rest.length < text.length) :
    LeavesLess (lines, raw) (following, rest) := by
  have ht := length_unread text following
  have hrest := length_unread rest following
  rw [hu] at ht
  rcases hr with rfl | hr
  · exact ⟨by simp only [ht]; exact Nat.le_add_left _ _, .inl rfl⟩
  · have hlt : (unread rest following).length < (unread raw lines).length := by omega
    exact ⟨Nat.le_of_lt hlt, .inr hlt⟩

/-- An import statement leaves less of the text. -/
theorem importing_leavesLess {line : Nat} {raw : Text} {following : List Text} {t : Taken}
    (h : Taken.importing line raw following = .ok t) :
    LeavesLess (following, raw) (t.following, t.rest) := by
  unfold Taken.importing at h
  split at h
  · cases h
  · next text lines hc =>
    obtain ⟨i, _, rfl⟩ := map_eq_ok h
    exact leavesLess_of_cut (unread_collect hc)
      (cutAt_rest_lt Boundary.importEnd_exact Boundary.importEnd_advances text)

/-- An export list leaves less of the text. -/
theorem exportList_leavesLess {line : Nat} {raw : Text} {following : List Text} {t : Taken}
    (h : Taken.exportList line raw following = .ok t) :
    LeavesLess (following, raw) (t.following, t.rest) := by
  unfold Taken.exportList at h
  split at h
  · cases h
  · next text lines hc =>
    obtain ⟨i, _, rfl⟩ := map_eq_ok h
    exact leavesLess_of_cut (unread_collect hc)
      (cutAt_rest_lt Boundary.exportListEnd_exact Boundary.exportListEnd_advances text)

/-- Exported variables leave less of the text. -/
theorem exportVariables_leavesLess {line : Nat} {raw : Text} {following : List Text} {t : Taken}
    (h : Taken.exportVariables line raw following = .ok t) :
    LeavesLess (following, raw) (t.following, t.rest) := by
  unfold Taken.exportVariables at h
  split at h
  · cases h
  · next text lines hc =>
    split at h
    · cases h
    · next d hd =>
      obtain ⟨i, _, rfl⟩ := map_eq_ok h
      have hsplit := congrArg List.length (Declaration.text_append_rest hd)
      have hpos := List.length_pos_iff.2 (Declaration.text_ne_nil hd)
      rw [List.length_append] at hsplit
      exact leavesLess_of_cut (unread_collect hc)
        (.inr (by change d.rest.length < text.length; omega))

/-- Taking a statement leaves less to be read, or a line that is done. -/
theorem next_leavesLess {context : Lexer.Context} {line : Nat} {raw : Text}
    {following : List Text} {t : Taken} (h : Taken.next context line raw following = .ok t) :
    LeavesLess (following, raw) (t.following, t.rest) := by
  unfold Taken.next at h
  split at h
  · cases h; exact leavesLess_of_line raw following
  · split at h
    · exact importing_leavesLess h
    · exact exportList_leavesLess h
    · exact exportVariables_leavesLess h
    · obtain ⟨e, _, rfl⟩ := map_eq_ok h
      exact leavesLess_of_line raw following
    · cases h; exact leavesLess_of_line raw following

/-- Reads the statements from a line on, in the context left by the statements
before it. -/
def parseFrom (context : Lexer.Context) (line : Nat) (raw : Text) (following : List Text) :
    Except SyntaxError (List Statement) :=
  match _taken : Taken.next context line raw following with
  | .error fault => .error ⟨line, fault⟩
  | .ok taken =>
    let context := Lexer.after context taken.statement.text
    if _blank : Text.allBlank taken.rest then
      match _more : taken.following with
      | [] => .ok [taken.statement]
      | next :: lines =>
        (parseFrom context (taken.lastLine + 1) next lines).map (taken.statement :: ·)
    else
      (parseFrom context taken.lastLine taken.rest taken.following).map (taken.statement :: ·)
termination_by (unread raw following).length
decreasing_by
  · have hle := (next_leavesLess _taken).1
    simp only [_more, length_unread_cons] at hle
    omega
  · rcases (next_leavesLess _taken).2 with hdone | hlt
    · have : taken.rest = [] := hdone
      exact absurd (by rw [this]; rfl) _blank
    · exact hlt

/-- Reads the statements of module source. -/
def Module.parse (source : Text) : Except SyntaxError Module :=
  match Text.lines source with
  | [] => .ok ⟨[]⟩
  | first :: following => (parseFrom [] 1 first following).map Module.mk

end ModuleScripts
