import Mathlib.Data.List.Basic
import ModuleScripts.Output.Transform

/-!
# Quoting a base URL

A base URL is written between double quotes, and the quoted form serves as a
substitution pattern. This undoes a part of its escapes: a backslash and the
common control characters come out bare, and a character that only its number can
escape stops the substitution. All others come out as they are quoted.
-/

namespace ModuleScripts

section Plain

/-- A character that stands for itself between double quotes and in a
substitution pattern. -/
def isPlain (c : Char) : Bool := 32 ≤ c.toNat && c.toNat < 127 && c ≠ '"' && c ≠ '\\'

/-- A plain character stands for itself between double quotes. -/
theorem jsonChar_of_isPlain {c : Char} (h : isPlain c = true) : Text.jsonChar c = [c] := by
  simp only [isPlain, Bool.and_eq_true, decide_eq_true_eq] at h
  obtain ⟨⟨⟨hlow, hhigh⟩, hquote⟩, hslash⟩ := h
  have hcontrol : ∀ d : Char, d.toNat < 32 → c ≠ d := fun d hd he => by
    rw [he] at hlow
    omega
  simp only [Text.jsonChar, if_neg hquote, if_neg hslash, if_neg (hcontrol '\n' (by decide)),
    if_neg (hcontrol '\r' (by decide)), if_neg (hcontrol '\t' (by decide)),
    if_neg (hcontrol '\x08' (by decide)), if_neg (hcontrol '\x0c' (by decide)), hlow, hhigh,
    decide_true, Bool.and_self, if_true]

end Plain

namespace Meta

section Expansion

variable {c : Char} {r t base : Text} {offset : Nat}

/-- Whether the escape of a character between double quotes stands for the
character itself in a substitution pattern. -/
def isUndone (c : Char) : Bool := ['\\', '\n', '\r', '\t', '\x08', '\x0c'].contains c

/-- Whether a character stands between double quotes without its number. -/
def isShort (c : Char) : Bool := (32 ≤ c.toNat && c.toNat < 127) || isUndone c

/-- What a substitution pattern leaves of a character between double quotes. -/
def undoneChar (c : Char) : Text := if isUndone c then [c] else Text.jsonChar c

/-- What a substitution pattern leaves of a quoted text. -/
def undone (base : Text) : Text := '"' :: (base.flatMap undoneChar ++ ['"'])

/-- The meta object whose URL this is. -/
def objectOf (url : Text) : Text := "(\x7b url: ".toList ++ url ++ " \x7d)".toList

/-- The substitution that quotes a base URL. -/
def Substitution.exact (base : Text) : Substitution := ⟨Text.json base, objectOf (Text.json base)⟩

/-- Nothing in front of a result leaves it as it is. -/
theorem except_map_nil {ε : Type} (x : Except ε Text) : x.map ([] ++ ·) = x := by
  cases x <;> rfl

/-- A character other than a backslash is expanded to itself. -/
theorem expandFrom_cons (h : c ≠ '\\') :
    expandFrom offset (c :: r) = (expandFrom (offset + 1) r).map (c :: ·) := by
  cases r with
  | nil => rfl
  | cons d r => rw [expandFrom, if_neg h]

/-- What stands before the first backslash stays. -/
theorem expandFrom_append {a : Text} (h : '\\' ∉ a) :
    expandFrom offset (a ++ r) = (expandFrom (offset + a.length) r).map (a ++ ·) := by
  induction a generalizing offset with
  | nil => exact (except_map_nil _).symm
  | cons c a ih =>
    obtain ⟨hc, ha⟩ := List.ne_and_not_mem_of_not_mem_cons h
    rw [List.cons_append, expandFrom_cons hc.symm, ih ha, except_map_map, List.length_cons,
      Nat.add_assoc, Nat.add_comm 1]
    rfl

/-- A pattern without a backslash stands for itself. -/
theorem expandFrom_of_notMem (h : '\\' ∉ t) : expandFrom offset t = .ok t := by
  have happend : expandFrom offset (t ++ []) = _ := expandFrom_append h
  rw [List.append_nil] at happend
  exact happend.trans (congrArg Except.ok (List.append_nil t))

/-- The quoted form of a short character is expanded to what is left of it. -/
theorem expandFrom_jsonChar (h : isShort c = true) :
    expandFrom offset (Text.jsonChar c ++ r) =
      (expandFrom (offset + (Text.jsonChar c).length) r).map (undoneChar c ++ ·) := by
  cases hu : isUndone c with
  | true =>
    rw [isUndone, List.contains_iff_mem] at hu
    simp only [List.mem_cons, List.not_mem_nil, or_false] at hu
    rcases hu with rfl | rfl | rfl | rfl | rfl | rfl <;> rfl
  | false =>
    rw [isShort, hu, Bool.or_false] at h
    rw [undoneChar, hu, if_neg Bool.false_ne_true]
    by_cases hquote : c = '"'
    · rw [hquote]
      rfl
    · have hslash : c ≠ '\\' := fun he => by
        rw [he] at hu
        exact absurd hu (by decide)
      have hplain : isPlain c = true := by
        simp only [isPlain, h, hquote, hslash, ne_eq, not_false_eq_true, decide_true, Bool.and_true]
      rw [jsonChar_of_isPlain hplain]
      exact expandFrom_append (by simpa using hslash.symm)

/-- The escape of a code unit starts with a backslash and a letter. -/
theorem exists_of_unitEscape (unit : Nat) (t : Text) :
    ∃ digits, Text.unitEscape unit ++ t = '\\' :: 'u' :: digits := ⟨_, rfl⟩

/-- A character that is not short is quoted with its number. -/
theorem exists_of_not_isShort (h : isShort c = false) :
    ∃ digits, Text.jsonChar c = '\\' :: 'u' :: digits := by
  rw [isShort, Bool.or_eq_false_iff] at h
  have hundone : ∀ d, isUndone d = true → c ≠ d := fun d hd he => by
    rw [he, hd] at h
    exact Bool.false_ne_true h.2.symm
  have hquote : c ≠ '"' := fun he => by
    rw [he] at h
    exact absurd h.1 (by decide)
  simp only [Text.jsonChar, if_neg hquote, if_neg (hundone '\\' (by decide)),
    if_neg (hundone '\n' (by decide)), if_neg (hundone '\r' (by decide)),
    if_neg (hundone '\t' (by decide)), if_neg (hundone '\x08' (by decide)),
    if_neg (hundone '\x0c' (by decide)), h.1, Bool.false_eq_true, if_false]
  split
  · rw [← List.append_nil (Text.unitEscape _)]
    exact exists_of_unitEscape _ _
  · exact exists_of_unitEscape _ _

/-- A character that only its number escapes cannot be substituted. -/
theorem expandFrom_jsonChar_eq_error (h : isShort c = false) :
    expandFrom offset (Text.jsonChar c ++ r) = .error ⟨'u', offset⟩ := by
  obtain ⟨digits, hdigits⟩ := exists_of_not_isShort h
  have hmeaning : escapeMeaning 'u' = none := by decide
  simp only [hdigits, List.cons_append, expandFrom, if_true, hmeaning]

/-- A quoted text of short characters is expanded to what is left of each. -/
theorem expandFrom_flatMap_jsonChar (h : ∀ c ∈ base, isShort c = true) :
    expandFrom offset (base.flatMap Text.jsonChar ++ r) =
      (expandFrom (offset + (base.flatMap Text.jsonChar).length) r).map
        (base.flatMap undoneChar ++ ·) := by
  induction base generalizing offset with
  | nil => exact (except_map_nil _).symm
  | cons c base ih =>
    obtain ⟨hc, hbase⟩ := List.forall_mem_cons.1 h
    rw [List.flatMap_cons, List.flatMap_cons, List.append_assoc, expandFrom_jsonChar hc, ih hbase,
      except_map_map, List.length_append, Nat.add_assoc]
    simp only [Function.comp_def, List.append_assoc]

/-- Behind short characters the first one with a number stops the expansion. -/
theorem expandFrom_flatMap_jsonChar_eq_error (h : ¬∀ c ∈ base, isShort c = true) (offset : Nat)
    (r : Text) : ∃ e, expandFrom offset (base.flatMap Text.jsonChar ++ r) = .error e := by
  induction base generalizing offset with
  | nil => exact absurd (fun _ hc => by cases hc) h
  | cons c base ih =>
    rw [List.flatMap_cons, List.append_assoc]
    cases hc : isShort c with
    | false => exact ⟨_, expandFrom_jsonChar_eq_error hc⟩
    | true =>
      rw [List.forall_mem_cons, not_and] at h
      obtain ⟨e, he⟩ := ih (h hc) (offset + (Text.jsonChar c).length)
      rw [expandFrom_jsonChar hc, he]
      exact ⟨e, rfl⟩

end Expansion

section Base

variable {base : Text}

/-- The substitution that a base URL comes out as. -/
def Substitution.undoing (base : Text) : Substitution := ⟨undone base, objectOf (undone base)⟩

/-- Between texts without backslashes a quoted text of short characters is
expanded. -/
theorem expand_json (before behind : Text) (hbefore : '\\' ∉ before) (hbehind : '\\' ∉ behind)
    (h : ∀ c ∈ base, isShort c = true) :
    expand (before ++ Text.json base ++ behind) = .ok (before ++ undone base ++ behind) := by
  have hquoted : ∀ inner : Text, before ++ '"' :: (inner ++ ['"']) ++ behind =
      (before ++ ['"']) ++ (inner ++ '"' :: behind) := by simp
  have hopening : '\\' ∉ before ++ ['"'] := by simp [hbefore]
  have hclosing : '\\' ∉ '"' :: behind := by simp [hbehind]
  rw [expand, Text.json, undone, hquoted, hquoted, expandFrom_append hopening,
    expandFrom_flatMap_jsonChar h, expandFrom_of_notMem hclosing]
  rfl

/-- A quoted text with another character cannot be expanded. -/
theorem expand_json_eq_error (h : ¬∀ c ∈ base, isShort c = true) :
    ∃ e, expand (Text.json base) = .error e := by
  obtain ⟨e, he⟩ := expandFrom_flatMap_jsonChar_eq_error h 1 ['"']
  refine ⟨e, ?_⟩
  rw [expand, Text.json, expandFrom_cons (by decide), he]
  rfl

/-- A base URL is substituted exactly if no character needs its number. -/
theorem ofBase_eq_ok (h : ∀ c ∈ base, isShort c = true) :
    Substitution.ofBase base = .ok (Substitution.undoing base) := by
  have hurl := expand_json [] [] List.not_mem_nil List.not_mem_nil h
  rw [List.nil_append, List.append_nil, List.nil_append, List.append_nil] at hurl
  have hobject : expand ("(\x7b url: ".toList ++ Text.json base ++ " \x7d)".toList) =
      .ok (objectOf (undone base)) := expand_json _ _ (by decide) (by decide) h
  simp only [Substitution.ofBase, hurl, hobject, Except.map, Substitution.undoing]

/-- A base URL with another character gives no substitution. -/
theorem ofBase_eq_error (h : ¬∀ c ∈ base, isShort c = true) :
    ∃ e, Substitution.ofBase base = .error e := by
  obtain ⟨e, he⟩ := expand_json_eq_error h
  exact ⟨e, by simp only [Substitution.ofBase, he]⟩

/-- Where nothing is undone the base URL comes out quoted. -/
theorem undoing_eq_exact (h : ∀ c ∈ base, isUndone c = false) :
    Substitution.undoing base = Substitution.exact base := by
  have hchar : ∀ c ∈ base, undoneChar c = Text.jsonChar c := fun c hc => by
    rw [undoneChar, h c hc, if_neg Bool.false_ne_true]
  rw [Substitution.undoing, Substitution.exact, undone, List.flatMap_congr hchar]
  rfl

/-- A plain character is short. -/
theorem isShort_of_isPlain {c : Char} (h : isPlain c = true) : isShort c = true := by
  simp only [isPlain, Bool.and_eq_true] at h
  simp only [isShort, h.1.1, Bool.and_self, Bool.true_or]

/-- A plain character is not undone. -/
theorem isUndone_of_isPlain {c : Char} (h : isPlain c = true) : isUndone c = false := by
  rw [Bool.eq_false_iff]
  intro hundone
  rw [isUndone, List.contains_iff_mem] at hundone
  have hnone : ∀ d ∈ ['\\', '\n', '\r', '\t', '\x08', '\x0c'], isPlain d = false := by decide
  rw [hnone c hundone] at h
  cases h

end Base

end Meta

section Lines

variable {base : Text} {lines : List FactoryLine}

/-- Code is substituted when there is none or the base URL is short. -/
theorem substituteAll_of_isShort (h : lines = [] ∨ ∀ c ∈ base, Meta.isShort c = true) :
    substituteAll base lines =
      .ok (lines.map (FactoryLine.substitute (Meta.Substitution.undoing base))) := by
  cases lines with
  | nil => rfl
  | cons line lines =>
    have hshort := h.resolve_left (List.cons_ne_nil _ _)
    simp only [substituteAll, List.isEmpty_cons, Bool.false_eq_true, if_false,
      Meta.ofBase_eq_ok hshort, Except.map]

/-- Code cannot be substituted when there is some and the base URL is not
short. -/
theorem substituteAll_eq_error (h : ¬(lines = [] ∨ ∀ c ∈ base, Meta.isShort c = true)) :
    ∃ e, substituteAll base lines = .error e := by
  rw [not_or] at h
  obtain ⟨e, he⟩ := Meta.ofBase_eq_error h.2
  refine ⟨e, ?_⟩
  rw [substituteAll, if_neg (by simpa using h.1), he]
  rfl

/-- With a plain base URL every code is substituted. -/
theorem substituteAll_of_isPlain {base : Text} (h : ∀ c ∈ base, isPlain c = true)
    (lines : List FactoryLine) : ∃ body, substituteAll base lines = .ok body :=
  ⟨_, substituteAll_of_isShort (.inr fun c hc => Meta.isShort_of_isPlain (h c hc))⟩

end Lines

end ModuleScripts
