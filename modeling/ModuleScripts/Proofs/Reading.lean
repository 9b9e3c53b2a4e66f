import ModuleScripts.Proofs.Taking

/-!
# Runs of the parser

A run that succeeds is a derivation: one step for each statement, followed by
the run from the next line, or from what is left of the line if that is not
blank. Properties of whole runs are proved by induction on the derivation.
-/

namespace ModuleScripts

/-- The statements that a run reads from a line on. -/
inductive Reads : Lexer.Context → Nat → Text → List Text → List Statement → Prop where
  /-- The last statement is followed by blanks only. -/
  | last {context : Lexer.Context} {line : Nat} {raw : Text} {lines : List Text} {t : Taken}
      (taken : Taken.next context line raw lines = .ok t) (blank : Text.allBlank t.rest = true)
      (done : t.following = []) :
      Reads context line raw lines [t.statement]
  /-- The run goes on in the next line. -/
  | nextLine {context : Lexer.Context} {line : Nat} {raw next : Text} {lines more : List Text}
      {t : Taken} {statements : List Statement}
      (taken : Taken.next context line raw lines = .ok t) (blank : Text.allBlank t.rest = true)
      (following : t.following = next :: more)
      (reads : Reads (Lexer.after context t.statement.text) (t.lastLine + 1) next more statements) :
      Reads context line raw lines (t.statement :: statements)
  /-- The run goes on in the same line. -/
  | sameLine {context : Lexer.Context} {line : Nat} {raw : Text} {lines : List Text} {t : Taken}
      {statements : List Statement}
      (taken : Taken.next context line raw lines = .ok t) (left : Text.allBlank t.rest = false)
      (reads : Reads (Lexer.after context t.statement.text) t.lastLine t.rest t.following
        statements) :
      Reads context line raw lines (t.statement :: statements)

section Steps

variable {context : Lexer.Context} {line : Nat} {raw : Text} {lines : List Text} {t : Taken}

/-- A fault in the next statement is an error on its line. -/
theorem parseFrom_of_error {fault : Fault} (h : Taken.next context line raw lines = .error fault) :
    parseFrom context line raw lines = .error ⟨line, fault⟩ := by
  rw [parseFrom]
  split
  · next other ho => rw [h] at ho; cases ho; rfl
  · next other ho => rw [h] at ho; cases ho

/-- A statement with nothing behind it is the last one. -/
theorem parseFrom_last (h : Taken.next context line raw lines = .ok t)
    (hb : Text.allBlank t.rest = true) (hd : t.following = []) :
    parseFrom context line raw lines = .ok [t.statement] := by
  rw [parseFrom]
  split
  · next other ho => rw [h] at ho; cases ho
  · next other ho =>
    rw [h] at ho
    cases ho
    rw [dif_pos hb]
    split
    · rfl
    · next hm => rw [hd] at hm; cases hm

/-- Behind a statement that ends its line the next line is read. -/
theorem parseFrom_nextLine {next : Text} {more : List Text}
    (h : Taken.next context line raw lines = .ok t) (hb : Text.allBlank t.rest = true)
    (hf : t.following = next :: more) :
    parseFrom context line raw lines =
      (parseFrom (Lexer.after context t.statement.text) (t.lastLine + 1) next more).map
        (t.statement :: ·) := by
  rw [parseFrom]
  split
  · next other ho => rw [h] at ho; cases ho
  · next other ho =>
    rw [h] at ho
    cases ho
    rw [dif_pos hb]
    split
    · next hm => rw [hf] at hm; cases hm
    · next hm => rw [hf] at hm; cases hm; rfl

/-- Behind a statement that leaves something the same line is read on. -/
theorem parseFrom_sameLine (h : Taken.next context line raw lines = .ok t)
    (hb : Text.allBlank t.rest = false) :
    parseFrom context line raw lines =
      (parseFrom (Lexer.after context t.statement.text) t.lastLine t.rest t.following).map
        (t.statement :: ·) := by
  rw [parseFrom]
  split
  · next other ho => rw [h] at ho; cases ho
  · next other ho =>
    rw [h] at ho
    cases ho
    rw [dif_neg (by simp [hb])]

/-- What a run reads behind a statement: what is left of its line unless that is
blank, and the lines after it. -/
def parseBehind (context : Lexer.Context) (line : Nat) (rest : Text) (following : List Text) :
    Except SyntaxError (List Statement) :=
  if Text.allBlank rest then
    match following with
    | [] => .ok []
    | next :: more => parseFrom context (line + 1) next more
  else parseFrom context line rest following

/-- A step and the run behind it. -/
theorem parseFrom_of_next (h : Taken.next context line raw lines = .ok t) :
    parseFrom context line raw lines =
      (parseBehind (Lexer.after context t.statement.text) t.lastLine t.rest t.following).map
        (t.statement :: ·) := by
  unfold parseBehind
  cases hb : Text.allBlank t.rest with
  | true =>
    cases hf : t.following with
    | nil =>
      rw [parseFrom_last h hb hf]
      rfl
    | cons next more => exact parseFrom_nextLine h hb hf
  | false => exact parseFrom_sameLine h hb

end Steps

/-- A run that succeeds is a derivation. -/
theorem reads_of_parseFrom {context : Lexer.Context} {line : Nat} {raw : Text} {lines : List Text}
    {statements : List Statement} (h : parseFrom context line raw lines = .ok statements) :
    Reads context line raw lines statements := by
  induction context, line, raw, lines using parseFrom.induct generalizing statements with
  | case1 context line raw lines fault hf =>
    rw [parseFrom_of_error hf] at h
    cases h
  | case2 context line raw lines t ht hb hd =>
    rw [parseFrom_last ht hb hd] at h
    cases h
    exact .last ht hb hd
  | case3 context line raw lines t ht _ hb next more hf =>
    rename_i ih
    rw [parseFrom_nextLine ht hb hf] at h
    obtain ⟨tail, htail, rfl⟩ := map_eq_ok h
    exact .nextLine ht hb hf (ih htail)
  | case4 context line raw lines t ht _ hb =>
    rename_i ih
    have hb : Text.allBlank t.rest = false := by simpa using hb
    rw [parseFrom_sameLine ht hb] at h
    obtain ⟨tail, htail, rfl⟩ := map_eq_ok h
    exact .sameLine ht hb (ih htail)

/-- A derivation is a run that succeeds. -/
theorem parseFrom_of_reads {context : Lexer.Context} {line : Nat} {raw : Text} {lines : List Text}
    {statements : List Statement} (h : Reads context line raw lines statements) :
    parseFrom context line raw lines = .ok statements := by
  induction h with
  | last ht hb hd => exact parseFrom_last ht hb hd
  | nextLine ht hb hf _ ih => rw [parseFrom_nextLine ht hb hf, ih]; rfl
  | sameLine ht hb _ ih => rw [parseFrom_sameLine ht hb, ih]; rfl

/-- What every step makes of its statement holds of all statements of a run. -/
theorem Reads.forall_mem {P : Statement → Prop}
    (hP : ∀ {context : Lexer.Context} {line : Nat} {raw : Text} {lines : List Text} {t : Taken},
      Taken.next context line raw lines = .ok t → P t.statement)
    {context : Lexer.Context} {line : Nat} {raw : Text} {lines : List Text}
    {statements : List Statement} (h : Reads context line raw lines statements) :
    ∀ s ∈ statements, P s := by
  induction h with
  | last ht _ _ => exact fun s hs => List.mem_singleton.1 hs ▸ hP ht
  | nextLine ht _ _ _ ih => exact List.forall_mem_cons.2 ⟨hP ht, ih⟩
  | sameLine ht _ _ ih => exact List.forall_mem_cons.2 ⟨hP ht, ih⟩

/-- Parsing is reading from the first line on. -/
theorem Module.reads_of_parse {source : Text} {m : Module} (h : Module.parse source = .ok m) :
    ∃ first following, Text.lines source = first :: following ∧
      Reads [] 1 first following m.body := by
  unfold Module.parse at h
  split at h
  · next hn => exact absurd hn (List.splitOn_ne_nil '\n' source)
  · next first following hs =>
    obtain ⟨body, hb, rfl⟩ := map_eq_ok h
    exact ⟨first, following, hs, reads_of_parseFrom hb⟩

end ModuleScripts
