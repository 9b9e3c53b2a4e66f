import ModuleScripts.Proofs.LineShift
import ModuleScripts.Proofs.ListEnd
import ModuleScripts.Proofs.Rereading

/-!
# Layouts of import and export statements

An import, an export list or a star export is a keyword, what it binds or
exports, and mostly a specifier. Here are the ways to write it down that the
parser sees the same statement in. Comments may stand in an import clause and in
an export list, but not around them, and the line feeds must not part an export
list from its keyword or from its specifier. Two ways are told apart that only look
like these: braces or a star right behind the word `import`, and on a later line than
the word `export`.
-/

namespace ModuleScripts

open Matcher

/-- Blanks on one line are blanks. -/
theorem Text.OneLineBlank.blank {t : Text} (h : OneLineBlank t) : Blank t := List.all_eq_true.1 h.1

/-- The word with which a statement starts. -/
inductive Keyword where
  /-- The word `import`. -/
  | importing
  /-- The word `export`. -/
  | exporting
  deriving DecidableEq

namespace Keyword

/-- How the end of the statement is found. -/
def ending : Keyword → Matcher
  | importing => Boundary.importEnd
  | exporting => Boundary.exportListEnd

/-- What the first line announces. -/
def head : Keyword → LineHead
  | importing => .importing
  | exporting => .exportList

/-- How the statement is read once it is cut off. -/
def read (line : Nat) (text : Text) : Keyword → Except Fault Statement
  | importing => (Import.parse line text).map .importing
  | exporting => (Export.parseList line text).map .exporting

end Keyword

/-- What a statement says apart from its specifier. -/
inductive Lead where
  /-- An import that binds nothing. -/
  | run
  /-- An import that binds names. -/
  | binding (bound : Bound)
  /-- A re-export of names. -/
  | names (bindings : List Binding)
  /-- A re-export of everything. -/
  | star
  /-- A re-export of the namespace object. -/
  | starAs (name : Name)
  deriving DecidableEq

/-- What a statement says. -/
inductive Form where
  /-- A statement with a specifier. -/
  | sourced (lead : Lead) (specifier : Text)
  /-- An export of names of the module itself. -/
  | list (bindings : List Binding)
  deriving DecidableEq

namespace Lead

/-- The keyword before the specifier. -/
def keyword : Lead → Keyword
  | run => .importing
  | binding _ => .importing
  | names _ => .exporting
  | star => .exporting
  | starAs _ => .exporting

/-- The statement that is read. -/
def statement (line : Nat) (text specifier : Text) : Lead → Statement
  | run => .importing ⟨line, text, specifier, none, none, []⟩
  | binding bound =>
    .importing ⟨line, text, specifier, bound.clause.defaultName, bound.clause.namespaceName,
      bound.clause.named⟩
  | names bindings =>
    .exporting ⟨.reexport, line, text, [], bindings.map Binding.rename, some specifier⟩
  | star => .exporting ⟨.star, line, text, [], [], some specifier⟩
  | starAs name => .exporting ⟨.reexport, line, text, [], [⟨['*'], name.text⟩], some specifier⟩

end Lead

namespace Form

/-- The keyword of the statement. -/
def keyword : Form → Keyword
  | sourced lead _ => lead.keyword
  | list _ => .exporting

/-- The statement that is read. -/
def statement (line : Nat) (text : Text) : Form → Statement
  | sourced lead specifier => lead.statement line text specifier
  | list bindings => .exporting ⟨.named, line, text, [], bindings.map Binding.rename, none⟩

end Form

/-- No comment in a list holds a closing brace or what could be the star of a
star export with its specifier. -/
structure Listable (list : Text) : Prop where
  /-- There is no closing brace. -/
  brace : '}' ∉ list
  /-- No star leads to a specifier. -/
  star : ∀ u v, list = u ++ '*' :: v → ¬LeadsToQuote v

/-- The layouts of what stands before the specifier. -/
inductive Lead.Written : Lead → Text → Prop where
  /-- The keyword and blanks, which do not start with a line feed. -/
  | run {indent b : Text} (hi : Text.OneLineBlank indent) (hb : Blank b) (hline : b.head? ≠ some '\n') :
      Written .run (indent ++ ("import".toList ++ b))
  /-- The keyword and a blank, the bindings between blanks and comments, the word
  `from` and blanks. -/
  | binding {bound : Bound} {indent g kept clause g' kept' b : Text} {c : Char}
      (hi : Text.OneLineBlank indent) (hc : isBlank c = true) (hline : c ≠ '\n') (hg : Gap g kept)
      (hclause : bound.Written .filled clause) (hg' : Gap g' kept')
      (hend : g' ≠ [] ∨ clause.getLast? = some '}') (hb : Blank b)
      (hfrom : Unsourced (c :: (g ++ (clause ++ g')))) :
      Written (.binding bound)
        (indent ++ ("import".toList ++ (c :: (g ++ (clause ++ (g' ++ ("from".toList ++ b)))))))
  /-- The keyword, the names in braces and the word `from`, with blanks between
  them that hold no line feed. -/
  | names {bindings : List Binding} {indent b₀ list b₁ b₂ : Text} (hi : Text.OneLineBlank indent)
      (h₀ : Text.OneLineBlank b₀) (hw : BindingsWritten .filled bindings list) (hl : Listable list)
      (h₁ : Text.OneLineBlank b₁) (h₂ : Text.OneLineBlank b₂) :
      Written (.names bindings)
        (indent ++ ("export".toList ++ (b₀ ++ '{' :: (list ++ '}' :: (b₁ ++
          ("from".toList ++ b₂))))))
  /-- The keyword, a star and the word `from`, with blanks between them. -/
  | star {indent b₀ b₁ b₂ : Text} (hi : Text.OneLineBlank indent) (h₀ : Text.OneLineBlank b₀) (h₁ : Blank b₁)
      (h₂ : Blank b₂) :
      Written .star (indent ++ ("export".toList ++ (b₀ ++ '*' :: (b₁ ++ ("from".toList ++ b₂)))))
  /-- The same with the word `as` and a name. -/
  | starAs {name : Name} {indent b₀ b₁ g g' b₂ : Text} (hi : Text.OneLineBlank indent)
      (h₀ : Text.OneLineBlank b₀) (h₁ : Blank b₁) (hg : Blank g) (hne : g ≠ []) (hg' : Blank g')
      (hne' : g' ≠ []) (h₂ : Blank b₂) :
      Written (.starAs name)
        (indent ++ ("export".toList ++ (b₀ ++ '*' :: (b₁ ++ ("as".toList ++ (g ++ (name.text ++
          (g' ++ ("from".toList ++ b₂)))))))))

/-- The layouts of a statement without its semicolon. -/
inductive Form.Written : Form → Text → Prop where
  /-- The specifier is the text between two quotes of one kind. -/
  | sourced {lead : Lead} {front s : Text} {q : Char} (hfront : lead.Written front)
      (hs : Encloses q s) : Written (.sourced lead s) (front ++ q :: (s ++ [q]))
  /-- Names in braces. -/
  | list {bindings : List Binding} {indent b₀ list : Text} (hi : Text.OneLineBlank indent)
      (h₀ : Text.OneLineBlank b₀) (hw : BindingsWritten .filled bindings list) (hl : Listable list) :
      Written (.list bindings) (indent ++ ("export".toList ++ (b₀ ++ '{' :: (list ++ ['}']))))

/-- The layouts of an import that have its braces or its star right behind the keyword. -/
inductive Form.Tight : Form → Text → Prop where
  /-- The keyword, the braces or the star with what belongs to them, blanks and comments,
  the word `from`, blanks and the specifier. -/
  | binding {group : Group} {indent clause g' kept' b s : Text} {q : Char}
      (hi : Text.OneLineBlank indent) (hclause : group.Written .filled clause)
      (hg' : Gap g' kept') (hend : g' ≠ [] ∨ clause.getLast? = some '}') (hb : Blank b)
      (hfrom : Unsourced (clause ++ g')) (hs : Encloses q s) :
      Tight (.sourced (.binding (.group group)) s)
        ((indent ++ ("import".toList ++ (clause ++ (g' ++ ("from".toList ++ b))))) ++
          q :: (s ++ [q]))

/-- The layouts of an export that have a line feed between the blanks behind its keyword
and the rest. -/
inductive Form.Parted : Form → Text → Prop where
  /-- A layout with blanks and a line feed more behind its keyword. -/
  | feed {form : Form} {indent b b' behind : Text} (hi : Text.OneLineBlank indent)
      (hb : Text.OneLineBlank b) (hne : b ≠ []) (hb' : Blank b')
      (h : form.Written (indent ++ ("export".toList ++ behind))) :
      Parted form (indent ++ ("export".toList ++ (b ++ '\n' :: (b' ++ behind))))

/-- The end of a statement: nothing, or blanks and a semicolon. -/
inductive Ended : Text → Prop where
  /-- Nothing. -/
  | nil : Ended []
  /-- A semicolon. -/
  | semicolon {b : Text} (hb : Blank b) : Ended (b ++ [';'])

section Ended

variable {b c e front indent r t : Text}

/-- What closes a statement are blanks behind its end. -/
theorem Boundary.ended_of_terminator (h : terminator t = some (c, r)) :
    ∃ e b, c = e ++ b ∧ Ended e ∧ Blank b := by
  obtain ⟨b, rest, e, hb, he, rfl⟩ := andThen_eq_some_iff.1 h
  obtain ⟨_, hblank⟩ := blanks_eq_some hb
  rcases orElse_eq_some he with hs | hn
  · obtain ⟨rfl, _⟩ := literal_eq_some_iff.1 hs
    exact ⟨b ++ [';'], [], (List.append_nil _).symm, .semicolon hblank, blank_nil⟩
  · simp only [nothing, Option.some.injEq, Prod.mk.injEq] at hn
    obtain ⟨rfl, _⟩ := hn
    exact ⟨[], b, List.append_nil b, .nil, hblank⟩

/-- What ends a statement is read as its end. -/
theorem Ended.atStatementEnd (h : Ended e) : atStatementEnd e = true := by
  cases h with
  | nil => rfl
  | semicolon hb =>
    rw [ModuleScripts.atStatementEnd, Text.trimStart_blank_append hb (by decide)]
    rfl

/-- An ended statement ends with a visible character. -/
theorem Ended.exists_last (h : Ended e) {c : Char} (hc : isBlank c = false) (front : Text) :
    ∃ d, (front ++ c :: e).getLast? = some d ∧ isBlank d = false := by
  cases h with
  | nil => exact ⟨c, by simp, hc⟩
  | semicolon hb => exact ⟨';', by simp [List.getLast?_append, List.getLast?_cons], by decide⟩

/-- Trimming takes the blanks off both ends of a statement. -/
theorem Ended.trim (h : Ended e) (hi : Blank indent) (hb : Blank b) {c d : Char} {r : Text}
    (hd : isBlank d = false) (hc : isBlank c = false) (hr : r ++ c :: e = d :: t) :
    Text.trim (indent ++ ((r ++ c :: e) ++ b)) = r ++ c :: e := by
  obtain ⟨last, hlast, hsolid⟩ := h.exists_last hc r
  exact Text.trim_blank_append hi hb (by rw [hr]; rfl) hlast hd hsolid

end Ended

end ModuleScripts
