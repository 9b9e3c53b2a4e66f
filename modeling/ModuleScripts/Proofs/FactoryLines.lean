import ModuleScripts.Proofs.Announcing
import ModuleScripts.Proofs.Gaps
import ModuleScripts.Proofs.LexicalContext
import ModuleScripts.Proofs.Parameters
import ModuleScripts.Proofs.Rereading

/-!
# Generated lines of a factory

A line that is generated for an import or an export is made of fixed words, of
names, and of quoted texts in which every quote and every line feed is escaped.
So it is one line, the lexer is at the top level behind it as it was before, and
its first word is neither that of an import nor that of an export.
-/

namespace ModuleScripts

/-- What holds of the last part, and of a part before a separator and a rest of
which it holds, holds of all parts with separators between them. -/
theorem Text.intercalate_induction {P : Text → Prop} {separator : Text} {parts : List Text}
    (nil : P []) (last : ∀ part ∈ parts, P part)
    (join : ∀ part ∈ parts, ∀ t, P t → P (part ++ (separator ++ t))) :
    P (List.intercalate separator parts) := by
  induction parts with
  | nil => exact nil
  | cons part parts ih =>
    have hrest := ih (fun p hp => last p (List.mem_cons_of_mem _ hp))
      fun p hp => join p (List.mem_cons_of_mem _ hp)
    cases parts with
    | nil => simpa [List.intercalate] using last part List.mem_cons_self
    | cons next parts =>
      have hsplit : List.intercalate separator (part :: next :: parts) =
          part ++ (separator ++ List.intercalate separator (next :: parts)) := by
        simp [List.intercalate]
      rw [hsplit]
      exact join part List.mem_cons_self _ hrest

namespace Lexer

/-- One line through which the lexer goes from a state back to the same state,
whatever follows. -/
structure Keeps (s : State) (t : Text) : Prop where
  /-- It is one line. -/
  oneLine : '\n' ∉ t
  /-- The lexer is back in the state behind it. -/
  walk_eq : ∀ next, (walk next s t).2 = s

section Keeps

variable {s : State} {a b : Text}

/-- The empty text leaves the lexer where it is. -/
theorem keeps_nil : Keeps s [] := ⟨List.not_mem_nil, fun _ => rfl⟩

/-- Texts that leave the lexer where it is do so in a row. -/
theorem Keeps.append (ha : Keeps s a) (hb : Keeps s b) : Keeps s (a ++ b) where
  oneLine := List.not_mem_append ha.oneLine hb.oneLine
  walk_eq next := by rw [walk_append, ha.walk_eq, hb.walk_eq]

/-- A text made of parts leaves the lexer where it is when the parts do. -/
theorem keeps_flatMap {α : Type} {items : List α} {f : α → Text} (h : ∀ x ∈ items, Keeps s (f x)) :
    Keeps s (items.flatMap f) := by
  induction items with
  | nil => exact keeps_nil
  | cons x items ih =>
    exact (h x List.mem_cons_self).append (ih fun y hy => h y (List.mem_cons_of_mem _ hy))

/-- Joined parts leave the lexer where it is when they and the separator do. -/
theorem keeps_intercalate {separator : Text} {parts : List Text} (hs : Keeps s separator)
    (h : ∀ part ∈ parts, Keeps s part) : Keeps s (List.intercalate separator parts) :=
  Text.intercalate_induction keeps_nil h fun part hpart _ ht => (h part hpart).append (hs.append ht)

end Keeps

/-- Between two characters of top-level code. -/
def top : State := ⟨.plain, []⟩

/-- Between two characters of a double-quoted string of top-level code. -/
def inString : State := ⟨.quoted '"', []⟩

/-- Behind one line of top-level code nothing is open. -/
theorem Keeps.after_eq_nil {t : Text} (h : Keeps top t) : after [] t = [] := by
  rw [after, run_eq_walk]
  exact congrArg State.context (h.walk_eq none)

end Lexer

open Lexer

/-- Calm text of one line, as names are. -/
def Quiet (t : Text) : Prop := Calm t ∧ '\n' ∉ t

instance (t : Text) : Decidable (Quiet t) :=
  inferInstanceAs (Decidable ((∀ c ∈ t, isCalm c = true) ∧ '\n' ∉ t))

/-- A quiet text leaves the lexer at the top level. -/
theorem Quiet.keeps {t : Text} (h : Quiet t) : Keeps top t := ⟨h.2, fun next => walk_calm h.1 next⟩

namespace Matcher

/-- No line feed stands in an identifier. -/
theorem lineFeed_notMem_of_identifier {t name rest : Text} (h : identifier t = some (name, rest)) :
    '\n' ∉ name := by
  cases t with
  | nil => cases h
  | cons c r =>
    simp only [identifier] at h
    split at h
    · next hc =>
      simp only [Option.some.injEq, Prod.mk.injEq] at h
      obtain ⟨rfl, _⟩ := h
      have hpart : ∀ d ∈ r.takeWhile isIdentifierPart, d ≠ '\n' := by
        rintro d hd rfl
        have := List.all_eq_true.1 List.all_takeWhile _ hd
        exact absurd this (by decide +kernel)
      rw [List.mem_cons, not_or]
      refine ⟨?_, fun hm => hpart _ hm rfl⟩
      rintro rfl
      exact absurd hc (by decide)
    · cases h

/-- A name is quiet. -/
theorem identifier_quiet {t name rest : Text} (h : identifier t = some (name, rest)) : Quiet name :=
  ⟨identifier_takesCalm _ _ _ h, lineFeed_notMem_of_identifier h⟩

end Matcher

/-- The name of a parameter is quiet. -/
theorem IsParameter.quiet {name : Text} (h : IsParameter name) : Quiet name := by
  obtain ⟨r, rfl, _, hr⟩ := h
  refine ⟨calm_cons.2 ⟨by decide, fun c hc => isCalm_of_isIdentifierPart (hr c hc)⟩, ?_⟩
  rw [List.mem_cons, not_or]
  refine ⟨by decide, fun hm => ?_⟩
  exact absurd (hr _ hm) (by decide +kernel)

section Quoting

/-- What holds of every hexadecimal digit holds of all digits of a number. -/
theorem Text.of_mem_ofNatHex {p : Char → Prop} (hp : ∀ k < 16, p (Nat.digitChar k))
    {width n : Nat} {c : Char} (h : c ∈ ofNatHex width n) : p c := by
  have hdigits : ∀ n, ∀ c ∈ Nat.toDigits 16 n, p c := by
    intro n
    induction n using Nat.strongRecOn with
    | _ n ih =>
      intro c hc
      rw [Nat.toDigits_eq_if (by decide)] at hc
      split at hc
      · next hn => rw [List.mem_singleton.1 hc]; exact hp n hn
      · next hn =>
        rcases List.mem_append.1 hc with hc | hc
        · exact ih (n / 16) (by omega) c hc
        · rw [List.mem_singleton.1 hc]
          exact hp _ (Nat.mod_lt n (by decide))
  rcases List.mem_append.1 h with h | h
  · rw [List.eq_of_mem_replicate h]
    exact hp 0 (by decide)
  · exact hdigits n c h

/-- A character of a string that neither ends it nor escapes anything. -/
def isInner (c : Char) : Bool := c ≠ '"' && c ≠ '\\' && c ≠ '\n'

/-- Characters that do not end a string leave the lexer in it. -/
theorem keeps_inner {t : Text} (h : ∀ c ∈ t, isInner c = true) : Keeps inString t := by
  have hne : ∀ c ∈ t, c ≠ '"' ∧ c ≠ '\\' ∧ c ≠ '\n' := by
    intro c hc
    simpa [isInner, and_assoc] using h c hc
  refine ⟨fun hm => (hne _ hm).2.2 rfl, fun next => ?_⟩
  refine walk_induction (p := fun s => s = inString) (fun s c next hc hs => ?_) next rfl
  obtain ⟨hquote, hslash, hline⟩ := hne c hc
  simp only [hs, inString, step, quotedStep, if_neg hslash, hquote, hline, or_self, if_false]

/-- A backslash takes the next character into the string. -/
theorem keeps_escape {c : Char} (h : c ≠ '\n') : Keeps inString ['\\', c] := by
  refine ⟨by simp [Ne.symm h], fun next => ?_⟩
  simp [walk, inString, step, quotedStep]

/-- The escape of a code unit leaves the lexer in its string. -/
theorem unitEscape_keeps (unit : Nat) : Keeps inString (Text.unitEscape unit) := by
  have hdigits : ∀ c ∈ Text.ofNatHex 4 unit, isInner c = true := fun c hc =>
    Text.of_mem_ofNatHex (p := fun c => isInner c = true) (by decide) hc
  exact (keeps_escape (c := 'u') (by decide)).append (keeps_inner hdigits)

/-- Whatever the character, between the quotes it stays one. -/
theorem jsonChar_keeps (c : Char) : Keeps inString (Text.jsonChar c) := by
  unfold Text.jsonChar
  by_cases hquote : c = '"'
  · rw [if_pos hquote]
    exact keeps_escape (by decide)
  rw [if_neg hquote]
  by_cases hslash : c = '\\'
  · rw [if_pos hslash]
    exact keeps_escape (by decide)
  rw [if_neg hslash]
  by_cases hline : c = '\n'
  · rw [if_pos hline]
    exact keeps_escape (by decide)
  rw [if_neg hline]
  have hinner : isInner c = true := by simp [isInner, hquote, hslash, hline]
  repeat' split
  all_goals first
    | exact keeps_escape (by decide)
    | exact keeps_inner (List.forall_mem_singleton.2 hinner)
    | exact unitEscape_keeps _
    | exact (unitEscape_keeps _).append (unitEscape_keeps _)

/-- A quoted text is one string, whatever it quotes. -/
theorem json_keeps (t : Text) : Keeps top (Text.json t) := by
  have hinner : Keeps inString (t.flatMap Text.jsonChar) := keeps_flatMap fun c _ => jsonChar_keeps c
  refine ⟨?_, fun next => ?_⟩
  · rw [Text.json, List.mem_cons, not_or]
    exact ⟨by decide, List.not_mem_append hinner.oneLine (by decide)⟩
  · have hopen : ∀ next, (step top '"' next).2 = inString := fun next => by
      simp [top, inString, step, codeStep]
    rw [Text.json, walk, hopen, walk_append, hinner.walk_eq]
    simp [walk, inString, top, step, quotedStep]

/-- A list of quoted texts leaves the lexer at the top level. -/
theorem jsonList_keeps (items : List Text) : Keeps top (Text.jsonList items) := by
  have hitems : Keeps top (List.intercalate [',', ' '] (items.map Text.json)) := by
    refine keeps_intercalate (Quiet.keeps (by decide)) fun part hpart => ?_
    obtain ⟨t, _, rfl⟩ := List.mem_map.1 hpart
    exact json_keeps t
  have hopen : Keeps top ['['] := Quiet.keeps (by decide)
  have hclose : Keeps top [']'] := Quiet.keeps (by decide)
  exact hopen.append (hitems.append hclose)

end Quoting

/-- A line that starts with a visible character, but not with that of either
keyword, is code. -/
theorem LineHead.ofLine_of_head {line r : Text} {c : Char} (h : Text.trimStart line = c :: r)
    (hi : c ≠ 'i') (he : c ≠ 'e') : ofLine line = code := by
  refine ofLine_eq_code (fun d s hd => ?_) fun d s hd => ?_
  · exact absurd (List.cons.inj (h.symm.trans hd)).1 hi
  · exact absurd (List.cons.inj (h.symm.trans hd)).1 he

/-- Both names are quiet. -/
def Rename.IsQuiet (r : Rename) : Prop := Quiet r.name ∧ Quiet r.newName

namespace FactoryLine

/-- A line that is generated from quiet names. -/
def IsQuiet : FactoryLine → Prop
  | strict => True
  | bindNamespace name param => Quiet name ∧ Quiet param
  | bindDefault name param => Quiet name ∧ Quiet param
  | bindNamed names param => (∀ r ∈ names, r.IsQuiet) ∧ Quiet param
  | assign exported name => Quiet exported ∧ Quiet name
  | copy exported param name => Quiet exported ∧ Quiet param ∧ Quiet name
  | copyAll param => Quiet param
  | assignDefault _ => False
  | code _ => False

section Render

variable {name param : Text}

/-- Access to a property leaves the lexer at the top level. -/
theorem property_keeps (h : Quiet name) : Keeps top (property name) := by
  have hdot : Keeps top ['.'] := Quiet.keeps (by decide)
  have hopen : Keeps top ['['] := Quiet.keeps (by decide)
  have hclose : Keeps top [']'] := Quiet.keeps (by decide)
  unfold property
  split
  · exact hdot.append h.keeps
  · exact hopen.append ((json_keeps name).append hclose)

/-- The value that a name of another module has leaves the lexer at the top
level. -/
theorem sourceValue_keeps (hp : Quiet param) (hn : Quiet name) :
    Keeps top (sourceValue param name) := by
  unfold sourceValue
  split
  · exact hp.keeps
  · exact hp.keeps.append (property_keeps hn)

/-- A binding leaves the lexer at the top level. -/
theorem binding_keeps {r : Rename} (h : r.IsQuiet) :
    Keeps top r.binding := by
  have hword : Keeps top (Text.json "default".toList ++ ": ".toList) :=
    (json_keeps _).append (Quiet.keeps (by decide))
  have hcolon : Keeps top ": ".toList := Quiet.keeps (by decide)
  unfold Rename.binding
  split
  · exact h.2.keeps
  · split
    · exact hword.append h.2.keeps
    · exact (h.1.keeps.append hcolon).append h.2.keeps

/-- A generated line leaves the top level as it is. -/
theorem render_keeps {line : FactoryLine} (h : line.IsQuiet) : Keeps top line.render := by
  have hbind : Keeps top "const ".toList := Quiet.keeps (by decide)
  have hequals : Keeps top " = ".toList := Quiet.keeps (by decide)
  have hsemicolon : Keeps top [';'] := Quiet.keeps (by decide)
  have hexports : Keeps top exportsObject := exportsObject_isParameter.quiet.keeps
  cases line with
  | strict => exact (json_keeps "use strict".toList).append hsemicolon
  | bindNamespace name param =>
    exact (((hbind.append h.1.keeps).append hequals).append h.2.keeps).append hsemicolon
  | bindDefault name param =>
    exact (((hbind.append h.1.keeps).append hequals).append h.2.keeps).append
      (Quiet.keeps (by decide))
  | bindNamed names param =>
    have hnames : Keeps top (List.intercalate ", ".toList (names.map Rename.binding)) := by
      refine keeps_intercalate (Quiet.keeps (by decide)) fun part hpart => ?_
      obtain ⟨r, hr, rfl⟩ := List.mem_map.1 hpart
      exact binding_keeps (h.1 r hr)
    have hopen : Keeps top "const \x7b ".toList := Quiet.keeps (by decide)
    have hclose : Keeps top " \x7d = ".toList := Quiet.keeps (by decide)
    exact (((hopen.append hnames).append hclose).append h.2.keeps).append hsemicolon
  | assign exported name =>
    exact (((hexports.append (property_keeps h.1)).append hequals).append h.2.keeps).append hsemicolon
  | copy exported param name =>
    exact (((hexports.append (property_keeps h.1)).append hequals).append
      (sourceValue_keeps h.2.1 h.2.2)).append hsemicolon
  | copyAll param =>
    have hkeys : Keeps top "Object.keys(".toList := Quiet.keeps (by decide)
    have heach : Keeps top ").forEach(function (key) \x7b ".toList := Quiet.keeps (by decide)
    have hother : Keeps top "if (key !== ".toList := Quiet.keeps (by decide)
    have hnew : Keeps top " && !(key in _exports)) _exports[key] = ".toList :=
      Quiet.keeps (by decide)
    have hguard := (hother.append (json_keeps "default".toList)).append hnew
    have hend : Keeps top "[key]; \x7d);".toList := Quiet.keeps (by decide)
    exact ((((hkeys.append h.keeps).append heach).append hguard).append h.keeps).append hend
  | assignDefault value => exact absurd h id
  | code text => exact absurd h id

/-- A generated line announces neither an import nor an export. -/
theorem ofLine_render {line : FactoryLine} (h : line.IsQuiet) :
    LineHead.ofLine line.render = .code := by
  cases line with
  | strict => exact LineHead.ofLine_of_head (c := '"') rfl (by decide) (by decide)
  | bindNamespace => exact LineHead.ofLine_of_head (c := 'c') rfl (by decide) (by decide)
  | bindDefault => exact LineHead.ofLine_of_head (c := 'c') rfl (by decide) (by decide)
  | bindNamed => exact LineHead.ofLine_of_head (c := 'c') rfl (by decide) (by decide)
  | assign => exact LineHead.ofLine_of_head (c := '_') rfl (by decide) (by decide)
  | copy => exact LineHead.ofLine_of_head (c := '_') rfl (by decide) (by decide)
  | copyAll => exact LineHead.ofLine_of_head (c := 'O') rfl (by decide) (by decide)
  | assignDefault value => exact absurd h id
  | code text => exact absurd h id

end Render

end FactoryLine

end ModuleScripts
