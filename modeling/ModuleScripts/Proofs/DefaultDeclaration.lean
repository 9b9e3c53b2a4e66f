import ModuleScripts.Output.Amd
import ModuleScripts.Proofs.BindingLayout
import ModuleScripts.Proofs.StatementLayout

/-!
# Default exports of declarations

A default export of a function or a class is read from one line. If the
declaration has a name of its own, that name is exported as the default, and if
parameters or a body stand in its place the declaration is a default value. So
the default export is never assigned from a word that is not declared, with one
exception: in a class without a name the word before its superclass is taken for
the name.
-/

namespace ModuleScripts

open Matcher

/-- The word that makes a function asynchronous with the blanks behind it, or
nothing. -/
inductive AsyncWord : Text → Prop where
  /-- Nothing. -/
  | missing : AsyncWord []
  /-- The word and blanks. -/
  | async {g : Text} (hg : Blank g) (hne : g ≠ []) : AsyncWord ("async".toList ++ g)

/-- The words of a declaration up to the place of its name. -/
inductive Opening : Text → Prop where
  /-- A function. -/
  | ofFunction {a g : Text} (ha : AsyncWord a) (hg : Blank g) :
      Opening (a ++ ("function".toList ++ g))
  /-- A generator. -/
  | ofGenerator {a g g' : Text} (ha : AsyncWord a) (hg : Blank g) (hg' : Blank g') :
      Opening (a ++ ("function".toList ++ (g ++ '*' :: g')))
  /-- A class. -/
  | ofClass {g : Text} (hg : Blank g) : Opening ("class".toList ++ g)

/-- A word behind the text is a word of its own. -/
def Parts (t : Text) : Prop := ∀ c, t.getLast? = some c → isIdentifierPart c = false

/-- A word before the text is not gone on with. -/
def EndsWord (t : Text) : Prop := ∀ c, t.head? = some c → isIdentifierPart c = false

/-- A text parts from any other behind a character that continues no
identifier. -/
theorem parts_of_getLast? {t : Text} {c : Char} (h : t.getLast? = some c)
    (hc : isIdentifierPart c = false) : Parts t :=
  fun _ hd => Option.some.inj (h.symm.trans hd) ▸ hc

/-- A word ends before a character that continues no identifier. -/
theorem endsWord_of_head? {t : Text} {c : Char} (h : t.head? = some c)
    (hc : isIdentifierPart c = false) : EndsWord t :=
  fun _ hd => Option.some.inj (h.symm.trans hd) ▸ hc

/-- The word before the superclass of a class. -/
def superclassWord : Text := "extends".toList

/-- A declaration with a name of its own. -/
inductive Declares : Text → Name → Prop where
  /-- The name stands right behind the opening. -/
  | named {o r : Text} {name : Name} (ho : Opening o) (hp : Parts o)
      (hn : name.text ≠ superclassWord) (hr : EndsWord r) : Declares (o ++ (name.text ++ r)) name

/-- A declaration with a superclass in the place of the name. -/
def Inherits (d : Text) : Prop :=
  ∃ o r, Opening o ∧ Parts o ∧ EndsWord r ∧ d = o ++ (superclassWord ++ r)

/-- A declaration without a name: parameters, a body or a superclass stand in its
place. -/
def Anonymous (d : Text) : Prop :=
  (∃ o c r, Opening o ∧ (c = '(' ∨ c = '{') ∧ d = o ++ c :: r) ∨ Inherits d

/-- A word ends before a blank. -/
theorem atWordEnd_blank_cons {g : Text} {c : Char} (hg : Blank (c :: g)) (t : Text) :
    atWordEnd (c :: t) = true := by
  simp [atWordEnd, isWord_of_isBlank (hg c List.mem_cons_self)]

/-- A word ends before blanks and before what is not part of a word. -/
theorem atWordEnd_blank_append {g : Text} {c : Char} (hg : Blank g) (hc : isWord c = false)
    (t : Text) : atWordEnd (g ++ c :: t) = true := by
  cases g with
  | nil => simp [atWordEnd, hc]
  | cons d g => exact atWordEnd_blank_cons hg (g ++ c :: t)

section Heads

variable {a g t : Text} {c : Char}

/-- The optional word of a function is read as far as it goes. -/
theorem AsyncWord.optional (ha : AsyncWord a) (t : Text) :
    optional ((literal "async".toList).andThen gap) (a ++ ("function".toList ++ t)) =
      some (a, "function".toList ++ t) := by
  cases ha with
  | missing => rfl
  | async hg hne =>
    rw [List.append_assoc]
    exact orElse_of_some (andThen_of_some (literal_append _ _) (gap_append hg hne rfl _))

/-- The keyword of a function with the words before it. -/
theorem AsyncWord.keyword (ha : AsyncWord a) (ht : atWordEnd t = true) :
    ((Matcher.optional ((literal "async".toList).andThen gap)).andThen
        (Matcher.keyword "function".toList)) (a ++ ("function".toList ++ t)) =
      some (a ++ "function".toList, t) :=
  andThen_of_some (ha.optional t) (keyword_eq_some_iff.2 ⟨rfl, rfl, ht⟩)

/-- A declaration of a function or of a generator, whether asynchronous or not. -/
def IsFunction (d : Text) : Prop :=
  ∃ indent a r, d = indent ++ (a ++ ("function".toList ++ r)) ∧ Blank indent ∧ AsyncWord a ∧
    atWordEnd r = true

/-- An export is there before the code of the module runs if it is that of a function, and
only then. -/
theorem Export.isHoisted_iff (e : Export) : e.isHoisted = true ↔ IsFunction e.body := by
  rw [isHoisted, Option.isSome_iff_exists]
  constructor
  · rintro ⟨⟨piece, rest⟩, h⟩
    obtain ⟨_, r, _, hwords, hkeyword, -⟩ := andThen_eq_some_iff.1 h
    obtain ⟨indent, t, a, hindent, hasync, -⟩ := andThen_eq_some_iff.1 hwords
    obtain ⟨hsplit, hblank⟩ := blanks_eq_some hindent
    obtain ⟨-, rfl, hend⟩ := keyword_eq_some_iff.1 hkeyword
    refine ⟨indent, a, rest, ?_, hblank, ?_, hend⟩
    · rw [hsplit, optional_exact (andThen_exact (literal_exact _) gap_exact) _ _ _ hasync]
    · rcases orElse_eq_some hasync with hfound | hnothing
      · obtain ⟨_, behind, g, hword, hgap, rfl⟩ := andThen_eq_some_iff.1 hfound
        obtain ⟨rfl, -⟩ := literal_eq_some_iff.1 hword
        obtain ⟨hblanks, hne⟩ := gap_eq_some_iff.1 hgap
        exact .async (blanks_eq_some hblanks).2 hne
      · simp only [nothing, Option.some.injEq, Prod.mk.injEq] at hnothing
        obtain ⟨rfl, -⟩ := hnothing
        exact .missing
  · rintro ⟨indent, a, r, hbody, hindent, ha, hend⟩
    have hvisible : ∃ c t, a ++ ("function".toList ++ r) = c :: t ∧ isBlank c = false := by
      cases ha <;> exact ⟨_, _, rfl, rfl⟩
    obtain ⟨c, t, ht, hc⟩ := hvisible
    have hblanks := blanks_append hindent hc t
    rw [← ht] at hblanks
    rw [hbody]
    exact ⟨_, andThen_of_some (andThen_of_some hblanks (ha.optional r))
      (keyword_eq_some_iff.2 ⟨rfl, rfl, hend⟩)⟩

/-- The words of a function without a star, up to the next visible character. -/
theorem functionHead_function (ha : AsyncWord a) (hg : Blank g)
    (hword : atWordEnd (g ++ c :: t) = true) (hc : isBlank c = false) (hstar : c ≠ '*') :
    ∃ piece, functionHead (a ++ ("function".toList ++ (g ++ c :: t))) = some (piece, c :: t) := by
  have hkeyword := andThen_of_some (ha.keyword hword) (blanks_append hg hc t)
  have hnone : Matcher.optional (literal ['*']) (c :: t) = some ([], c :: t) :=
    orElse_of_none (literal_cons_eq_none hstar [] t)
  have hblanks : blanks (c :: t) = some ([], c :: t) := blanks_append blank_nil hc t
  exact ⟨_, andThen_of_some (andThen_of_some hkeyword hnone) hblanks⟩

/-- The words of a generator, up to the next visible character. -/
theorem functionHead_generator {g' : Text} (ha : AsyncWord a) (hg : Blank g) (hg' : Blank g')
    (hc : isBlank c = false) :
    ∃ piece, functionHead (a ++ ("function".toList ++ (g ++ '*' :: (g' ++ c :: t)))) =
      some (piece, c :: t) := by
  have hword : atWordEnd (g ++ '*' :: (g' ++ c :: t)) = true :=
    atWordEnd_blank_append hg (by decide +kernel) _
  have hkeyword := andThen_of_some (ha.keyword hword)
    (blanks_append hg (c := '*') rfl (g' ++ c :: t))
  have hstar : Matcher.optional (literal ['*']) ('*' :: (g' ++ c :: t)) =
      some (['*'], g' ++ c :: t) := orElse_of_some (literal_append ['*'] _)
  exact ⟨_, andThen_of_some (andThen_of_some hkeyword hstar) (blanks_append hg' hc t)⟩

/-- The keyword of a class is no head of a function. -/
theorem functionHead_class (t : Text) : functionHead ("class".toList ++ t) = none := rfl

/-- The keyword of a function is no head of a class. -/
theorem classHead_function (ha : AsyncWord a) (t : Text) :
    classHead (a ++ ("function".toList ++ t)) = none := by
  cases ha <;> rfl

end Heads

section Names

variable {o r t : Text} {c : Char}

/-- What can stand behind the opening of a declaration: a word of its own, or
parameters or a body. -/
def MayFollow (o : Text) (c : Char) : Prop := Parts o ∨ c = '(' ∨ c = '{'

/-- Behind a text that ends in a part of a word no word of its own follows. -/
theorem MayFollow.bracket {w : Text} {d : Char} (h : MayFollow (w ++ [d]) c)
    (hd : isIdentifierPart d = true) : c = '(' ∨ c = '{' := by
  refine h.resolve_left fun hp => ?_
  have hlast := hp d (by simp)
  rw [hd] at hlast
  cases hlast

/-- The name of a declaration is the identifier in the place of the name. -/
theorem declaredName?_opening (ho : Opening o) (hc : isBlank c = false) (hstar : c ≠ '*')
    (hf : MayFollow o c) : declaredName? (o ++ c :: t) = (identifier (c :: t)).map Prod.fst := by
  have hfunction : ∀ {d : Text}, (∃ piece, functionHead d = some (piece, c :: t)) →
      classHead d = none → declaredName? d = (identifier (c :: t)).map Prod.fst := by
    rintro d ⟨piece, hm⟩ hclass
    have hbehind : nameBehind? functionHead d = (identifier (c :: t)).map Prod.fst := by
      rw [nameBehind?, hm]
    have hnone : nameBehind? classHead d = none := by rw [nameBehind?, hclass]
    rw [declaredName?, hbehind, hnone]
    cases (identifier (c :: t)).map Prod.fst <;> rfl
  cases ho with
  | @ofFunction a g ha hg =>
    have hword : atWordEnd (g ++ c :: t) = true := by
      cases g with
      | nil =>
        have hbracket : c = '(' ∨ c = '{' :=
          MayFollow.bracket (w := a ++ "functio".toList) (d := 'n')
            (by simpa using hf) (by decide +kernel)
        rcases hbracket with rfl | rfl <;> exact atWordEnd_blank_append hg (by decide +kernel) t
      | cons d g => exact atWordEnd_blank_cons hg (g ++ c :: t)
    simp only [List.append_assoc]
    exact hfunction (functionHead_function ha hg hword hc hstar) (classHead_function ha _)
  | ofGenerator ha hg hg' =>
    simp only [List.append_assoc, List.cons_append]
    exact hfunction (functionHead_generator ha hg hg' hc) (classHead_function ha _)
  | @ofClass g hg =>
    rw [declaredName?, List.append_assoc, nameBehind?, functionHead_class]
    cases g with
    | nil =>
      have hbracket : c = '(' ∨ c = '{' :=
        MayFollow.bracket (w := "clas".toList) (d := 's') hf (by decide +kernel)
      rcases hbracket with rfl | rfl <;> rfl
    | cons d g =>
      have hhead : classHead ("class".toList ++ (d :: g ++ c :: t)) = some (_, c :: t) :=
        andThen_of_some (literal_append _ _) (gap_append hg (by simp) hc t)
      rw [nameBehind?, hhead]

/-- A declaration with a name of its own is read with this name. -/
theorem Declares.declaredName? {d : Text} {name : Name} (h : Declares d name) :
    declaredName? d = some name.text := by
  obtain ⟨ho, hp, -, hr⟩ := h
  rename_i o r
  obtain ⟨c, rest, hn, hs, -⟩ := name.exists_cons
  have hmem : c ∈ name.text := by
    rw [hn]
    exact List.mem_cons_self
  have hstar : c ≠ '*' := by
    rintro rfl
    cases hs
  have hname := name.identifier_append hr
  rw [hn, List.cons_append] at hname
  rw [hn, List.cons_append, declaredName?_opening ho (name.isBlank_of_mem hmem) hstar (.inl hp),
    hname]
  rfl

/-- A declaration with parameters or a body in the place of the name is read
without one. -/
theorem declaredName?_anonymous {d : Text} (h : Anonymous d) (hi : ¬Inherits d) :
    declaredName? d = none := by
  obtain ⟨o, c, r, ho, hc, rfl⟩ := h.resolve_right hi
  have hvisible : isBlank c = false ∧ c ≠ '*' ∧ identifier (c :: r) = none := by
    rcases hc with rfl | rfl <;> exact ⟨rfl, by decide, rfl⟩
  rw [declaredName?_opening ho hvisible.1 hvisible.2.1 (.inr hc), hvisible.2.2]
  rfl

end Names

/-- The assignments of local names to exported names. -/
def Module.assignments (m : Module) : List FactoryLine :=
  m.exports.flatMap Export.hoistedLines ++ m.exports.flatMap Export.epilogueLines

section Lines

variable {indent g d : Text}

/-- The line of a default export announces neither a list nor a variable. -/
theorem LineHead.ofLine_defaultExport (hi : Blank indent) (t : Text) :
    ofLine (indent ++ ("export default".toList ++ t)) = exportOther := by
  have htrim : Text.trimStart (indent ++ ("export default".toList ++ t)) =
      "export".toList ++ ' ' :: ("default".toList ++ t) := by
    rw [Text.trimStart_append_of_blank hi]
    rfl
  have hvariable : (variableHead (indent ++ ("export default".toList ++ t))).isSome = false := by
    by_contra hv
    obtain ⟨a, c, r, ha, hr, hc⟩ := exists_keyword_of_variableHead (Bool.not_eq_false _ ▸ hv)
    obtain rfl := List.append_cancel_left (htrim.symm.trans ha)
    obtain ⟨rfl, -⟩ : 'd' = c ∧ _ := List.cons.inj hr
    rcases hc with hc | hc | hc <;> exact absurd hc (by decide)
  rw [ofLine_of_export htrim, ofExport_eq, ofDeclaration, hvariable]
  rfl

/-- A default export in the first line: of a declaration with this name, or of a
value. -/
def Export.ofDefault (text body : Text) : Option Text → Export
  | some name => ⟨.declaration, 1, text, body, [⟨name, "default".toList⟩], none⟩
  | none => ⟨.defaultValue, 1, text, body, [], none⟩

/-- What is exported by default is what follows the words, with the indentation
before it. -/
theorem Export.parseLine_default (hi : Blank indent) (hg : Blank g) (hne : g ≠ [])
    (hend : Text.EndsSolid d) (hstart : ∃ c r, d = c :: r ∧ isBlank c = false) :
    Export.parseLine 1 (indent ++ ("export default".toList ++ (g ++ d))) =
      .ok (ofDefault (indent ++ ("export default".toList ++ (g ++ d))) (indent ++ d)
        (declaredName? d)) := by
  obtain ⟨c, r, rfl, hc⟩ := hstart
  have hleading : Text.leading (indent ++ ("export default".toList ++ (g ++ c :: r))) = indent :=
    Text.leading_blank_append hi (c := 'e') rfl _
  have hsolid : Text.EndsSolid ("export default".toList ++ (g ++ c :: r)) :=
    (hend.append g).append _
  have htrim : Text.trim (indent ++ ("export default".toList ++ (g ++ c :: r))) =
      "export default".toList ++ (g ++ c :: r) := by
    rw [Text.trim, Text.trimStart_append_of_blank hi]
    have h := Text.trimEnd_append hsolid []
    rw [List.append_nil] at h
    exact h.trans (List.append_nil _)
  have hexport : ((literal "export".toList).andThen gap)
      ("export default".toList ++ (g ++ c :: r)) =
        some ("export".toList ++ [' '], "default".toList ++ (g ++ c :: r)) :=
    andThen_of_some (literal_append "export".toList (' ' :: ("default".toList ++ (g ++ c :: r))))
      (gap_append (g := [' ']) (by decide) (by simp) rfl _)
  have hdefault : ((literal "default".toList).andThen gap) ("default".toList ++ (g ++ c :: r)) =
      some ("default".toList ++ g, c :: r) :=
    andThen_of_some (literal_append _ _) (gap_append hg hne hc r)
  unfold Export.parseLine
  dsimp only
  rw [htrim, hleading, hexport]
  dsimp only
  rw [hdefault]
  dsimp only
  cases declaredName? (c :: r) <;> rfl

/-- The line is read as that export alone. -/
theorem Module.parse_default (hi : Text.OneLineBlank indent) (hg : Text.OneLineBlank g)
    (hne : g ≠ []) (hd : '\n' ∉ d) (hend : Text.EndsSolid d)
    (hstart : ∃ c r, d = c :: r ∧ isBlank c = false) :
    Module.parse (indent ++ ("export default".toList ++ (g ++ d))) =
      .ok ⟨[.exporting (.ofDefault (indent ++ ("export default".toList ++ (g ++ d))) (indent ++ d)
        (declaredName? d))]⟩ := by
  have hline : '\n' ∉ indent ++ ("export default".toList ++ (g ++ d)) := by
    simp only [List.mem_append, not_or]
    exact ⟨hi.2, by decide, hg.2, hd⟩
  have hhead := LineHead.ofLine_defaultExport hi.blank (g ++ d)
  have hread := Export.parseLine_default hi.blank hg.blank hne hend hstart
  rw [Module.parse, Text.lines_of_oneLine hline]
  dsimp only
  rw [parseFrom_last (Taken.next_eq_ok_iff.2 (.exportOther hhead hread)) rfl rfl]
  rfl

/-- The opening of a declaration starts with a visible character. -/
theorem Opening.exists_head {o : Text} (h : Opening o) (t : Text) :
    ∃ c r, o ++ t = c :: r ∧ isBlank c = false := by
  cases h with
  | ofFunction ha _ => cases ha <;> exact ⟨_, _, rfl, rfl⟩
  | ofGenerator ha _ _ => cases ha <;> exact ⟨_, _, rfl, rfl⟩
  | ofClass _ => exact ⟨_, _, rfl, rfl⟩

/-- A declaration is assigned before the code or behind it. -/
theorem Export.lines_of_declaration {e : Export} (h : e.kind = .declaration) :
    e.hoistedLines ++ e.epilogueLines = e.assignments := by
  simp only [hoistedLines, epilogueLines, h]
  cases e.isHoisted with
  | false => rfl
  | true => exact List.append_nil _

/-- The assignments of a default export: of the name of the declaration if it has
one. -/
theorem Module.assignments_ofDefault (text body : Text) (name : Option Text) :
    Module.assignments ⟨[.exporting (.ofDefault text body name)]⟩ =
      name.toList.map (.assign "default".toList) := by
  cases name with
  | none => rfl
  | some name =>
    have hexports : Module.exports ⟨[.exporting (.ofDefault text body (some name))]⟩ =
        [.ofDefault text body (some name)] := rfl
    rw [Module.assignments, hexports, List.flatMap_singleton, List.flatMap_singleton]
    exact Export.lines_of_declaration rfl

end Lines

/-- The default export of a function or a class in a single line. One with a name of
its own is a declaration that exports this name, which is assigned to the default
export. One with parameters or a body in the place of the name is a default value, and
no name is assigned. In both cases the body is the declaration as indented before. -/
theorem Module.parse_defaultDeclaration {indent g d : Text} (hi : Text.OneLineBlank indent)
    (hg : Text.OneLineBlank g) (hne : g ≠ []) (hd : '\n' ∉ d) (hend : Text.EndsSolid d) :
    (∀ name : Name, Declares d name →
      ∃ m, Module.parse (indent ++ ("export default".toList ++ (g ++ d))) = .ok m ∧
        m.body = [.exporting ⟨.declaration, 1, indent ++ ("export default".toList ++ (g ++ d)),
          indent ++ d, [⟨name.text, "default".toList⟩], none⟩] ∧
        m.assignments = [.assign "default".toList name.text]) ∧
    (Anonymous d → ¬Inherits d →
      ∃ m, Module.parse (indent ++ ("export default".toList ++ (g ++ d))) = .ok m ∧
        m.body = [.exporting ⟨.defaultValue, 1, indent ++ ("export default".toList ++ (g ++ d)),
          indent ++ d, [], none⟩] ∧
        m.assignments = []) := by
  refine ⟨fun name hname => ?_, fun hanonymous hinherits => ?_⟩
  · have hstart : ∃ c r, d = c :: r ∧ isBlank c = false := by
      cases hname with
      | named ho _ _ _ => exact ho.exists_head _
    have hparse := Module.parse_default hi hg hne hd hend hstart
    rw [hname.declaredName?] at hparse
    exact ⟨_, hparse, rfl, Module.assignments_ofDefault _ _ _⟩
  · have hstart : ∃ c r, d = c :: r ∧ isBlank c = false := by
      obtain ⟨o, c, r, ho, -, rfl⟩ := hanonymous.resolve_right hinherits
      exact ho.exists_head _
    have hparse := Module.parse_default hi hg hne hd hend hstart
    rw [declaredName?_anonymous hanonymous hinherits] at hparse
    exact ⟨_, hparse, rfl, Module.assignments_ofDefault _ _ _⟩

/-- An asynchronous generator with a name that starts like the word before a
superclass, and a class with nothing before its body. -/
theorem Module.parse_defaultDeclaration_generator :
    (∃ m, Module.parse ("  ".toList ++ ("export default".toList ++
        ("\t".toList ++ "async function * extends2(a) \x7b\x7d".toList))) = .ok m ∧
      m.body = [.exporting ⟨.declaration, 1, "  ".toList ++ ("export default".toList ++
          ("\t".toList ++ "async function * extends2(a) \x7b\x7d".toList)),
        "  ".toList ++ "async function * extends2(a) \x7b\x7d".toList,
        [⟨"extends2".toList, "default".toList⟩], none⟩] ∧
      m.assignments = [.assign "default".toList "extends2".toList]) ∧
    ∃ m, Module.parse ("  ".toList ++ ("export default".toList ++
        ("\t".toList ++ "class\x7b\x7d".toList))) = .ok m ∧
      m.body = [.exporting ⟨.defaultValue, 1, "  ".toList ++ ("export default".toList ++
          ("\t".toList ++ "class\x7b\x7d".toList)),
        "  ".toList ++ "class\x7b\x7d".toList, [], none⟩] ∧
      m.assignments = [] := by
  have hi : Text.OneLineBlank "  ".toList := ⟨by decide, by decide⟩
  have hg : Text.OneLineBlank "\t".toList := ⟨by decide, by decide⟩
  have hblank : Blank " ".toList := by decide
  let name : Name := ⟨"extends2".toList, by decide +kernel⟩
  have hname : Declares "async function * extends2(a) \x7b\x7d".toList name := by
    have hsplit : "async function * extends2(a) \x7b\x7d".toList =
        ("async".toList ++ " ".toList ++ ("function".toList ++ (" ".toList ++ '*' :: " ".toList))) ++
          (name.text ++ "(a) \x7b\x7d".toList) := by decide +kernel
    rw [hsplit]
    exact Declares.named (.ofGenerator (.async hblank (by decide)) hblank hblank)
      (parts_of_getLast? (c := ' ') (by decide +kernel) (by decide +kernel)) (by decide)
      (endsWord_of_head? (c := '(') (by decide +kernel) (by decide +kernel))
  have hclass : Anonymous "class\x7b\x7d".toList :=
    .inl ⟨_, '\x7b', ['\x7d'], .ofClass (g := []) blank_nil, .inr rfl, by decide +kernel⟩
  have hinherits : ¬Inherits "class\x7b\x7d".toList := by
    rintro ⟨o, r, -, -, -, ho⟩
    have hinfix : superclassWord <:+: "class\x7b\x7d".toList :=
      ⟨o, r, by rw [ho, List.append_assoc]⟩
    exact absurd hinfix (by decide +kernel)
  have hsolid : Text.EndsSolid "async function * extends2(a) \x7b\x7d".toList :=
    ⟨"async function * extends2(a) \x7b".toList, '\x7d', by decide +kernel, rfl⟩
  have hsolid' : Text.EndsSolid "class\x7b\x7d".toList :=
    ⟨"class\x7b".toList, '\x7d', by decide +kernel, rfl⟩
  have hgenerator := (Module.parse_defaultDeclaration hi hg (by decide) (by decide) hsolid).1 _ hname
  have hvalue :=
    (Module.parse_defaultDeclaration hi hg (by decide) (by decide) hsolid').2 hclass hinherits
  exact ⟨hgenerator, hvalue⟩

/-- A class without a name that has a superclass is read as a class named by the word
before the superclass, which is then assigned to the default export. -/
theorem Module.parse_defaultDeclaration_superclass :
    Anonymous "class extends Base \x7b\x7d".toList ∧
    ∃ m, Module.parse "export default class extends Base \x7b\x7d".toList = .ok m ∧
      m.body = [.exporting ⟨.declaration, 1,
        "export default class extends Base \x7b\x7d".toList,
        "class extends Base \x7b\x7d".toList, [⟨superclassWord, "default".toList⟩], none⟩] ∧
      m.assignments = [.assign "default".toList superclassWord] := by
  have hparts : Parts ("class".toList ++ " ".toList) :=
    parts_of_getLast? (c := ' ') (by decide +kernel) (by decide +kernel)
  have hends : EndsWord " Base \x7b\x7d".toList :=
    endsWord_of_head? (c := ' ') (by decide +kernel) (by decide +kernel)
  have hinherits : Inherits "class extends Base \x7b\x7d".toList :=
    ⟨_, _, .ofClass (by decide), hparts, hends, by decide +kernel⟩
  have hparse : Module.parse "export default class extends Base \x7b\x7d".toList =
      .ok ⟨[.exporting (.ofDefault "export default class extends Base \x7b\x7d".toList
        "class extends Base \x7b\x7d".toList (some superclassWord))]⟩ := by decide +kernel
  exact ⟨.inr hinherits, _, hparse, rfl, Module.assignments_ofDefault _ _ _⟩

end ModuleScripts
