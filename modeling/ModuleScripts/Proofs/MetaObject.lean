import Mathlib.Data.List.Forall2
import ModuleScripts.Proofs.MetaQuoting
import ModuleScripts.Proofs.MetaWords

/-!
# The base URL in a definition

The code of a module has the quoted base URL wherever a word for the URL or the
meta object stands, if quoting undoes nothing and gives no such word again. A
character that cannot be quoted stops the transform of every module with code.
-/

namespace ModuleScripts

namespace Meta

section Base

variable {base t : Text} {pieces : List Piece}

/-- What a text with these words asks of a base URL: if it has any, nothing is
undone, and if it has one for the URL, no word stands in the quoted base URL. -/
structure Suits (base t : Text) : Prop where
  /-- Nothing in the base URL is undone. -/
  kept : occurs objectWord t = true → ∀ c ∈ base, isUndone c = false
  /-- No word stands in it. -/
  free : occurs urlWord t = true → occurs objectWord (Text.json base) = false

/-- With a base URL that suits it, a text has each word filled with the exact
substitution. -/
theorem Suits.apply_undoing (h : Suits base t) (hp : Pieces none t pieces) :
    (Substitution.undoing base).apply t =
      pieces.flatMap (Piece.filled (Substitution.exact base)) := by
  cases ho : occurs objectWord t with
  | false =>
    have hurl : .url ∉ pieces := fun hm => by
      rw [occurs, hp.occursFrom_objectWord (.inl hm)] at ho
      cases ho
    rw [hp.apply_eq fun hm => absurd hm hurl, hp.filled_of_not_occurs ho,
      hp.filled_of_not_occurs ho]
  | true =>
    rw [undoing_eq_exact (h.kept ho)]
    exact hp.apply_eq fun hm =>
      ⟨⟨base.flatMap Text.jsonChar, rfl⟩, h.free (hp.occursFrom_urlWord hm)⟩

end Base

end Meta

section Definition

variable {m : Module} {base : Text} {lines : List FactoryLine}

/-- The code in a line. -/
def FactoryLine.codeText : FactoryLine → Text
  | code text => text
  | assignDefault value => value
  | _ => []

/-- A line of code and the same line with every word in it filled. -/
inductive FactoryLine.Filled (s : Meta.Substitution) : FactoryLine → FactoryLine → Prop where
  /-- Code of the module. -/
  | code {text : Text} {pieces : List Meta.Piece} (cut : Meta.Pieces none text pieces) :
    Filled s (.code text) (.code (pieces.flatMap (Meta.Piece.filled s)))
  /-- The default expression. -/
  | assignDefault {value : Text} {pieces : List Meta.Piece} (cut : Meta.Pieces none value pieces) :
    Filled s (.assignDefault value) (.assignDefault (pieces.flatMap (Meta.Piece.filled s)))

/-- The code of a statement is its own line or the value of a default
export. -/
theorem Statement.code?_cases {s : Statement} {line : FactoryLine} (h : s.code? = some line) :
    (∃ text, line = .code text) ∨ ∃ value, line = .assignDefault value := by
  cases s with
  | code number text => exact .inl ⟨text, (Option.some.inj h).symm⟩
  | importing i => cases h
  | exporting e =>
    simp only [Statement.code?, Export.code?] at h
    split at h
    · exact .inl ⟨_, (Option.some.inj h).symm⟩
    · exact .inr ⟨_, (Option.some.inj h).symm⟩
    · cases h

/-- With a base URL that suits its code, a line is filled with the exact
substitution. -/
theorem FactoryLine.filled_substitute {line : FactoryLine}
    (hline : (∃ text, line = .code text) ∨ ∃ value, line = .assignDefault value)
    (h : Meta.Suits base line.codeText) :
    line.Filled (Meta.Substitution.exact base)
      (line.substitute (Meta.Substitution.undoing base)) := by
  obtain ⟨pieces, hp⟩ := Meta.Pieces.exists_pieces none line.codeText
  have hfilled := h.apply_undoing hp
  rcases hline with ⟨text, rfl⟩ | ⟨value, rfl⟩
  · simp only [FactoryLine.substitute, FactoryLine.codeText] at hfilled ⊢
    rw [hfilled]
    exact .code hp
  · simp only [FactoryLine.substitute, FactoryLine.codeText] at hfilled ⊢
    rw [hfilled]
    exact .assignDefault hp

/-- With a base URL of short characters, or without code, the definition is
made and each line of code substituted. -/
theorem Module.definition_of_isShort
    (h : m.body.filterMap Statement.code? = [] ∨ ∀ c ∈ base, Meta.isShort c = true) (param : Text) :
    m.definition base param = .ok ⟨m.dependencies param,
      m.reservedParams ++ m.dependencyParams.map Prod.snd, m.prologue,
      m.exports.flatMap Export.hoistedLines,
      (m.body.filterMap Statement.code?).map
        (FactoryLine.substitute (Meta.Substitution.undoing base)),
      m.exports.flatMap Export.epilogueLines⟩ := by
  rw [Module.definition, substituteAll_of_isShort h]
  rfl

/-- The AMD transform succeeds exactly if there is no code or every character of
the base URL is short. Then, if the base URL suits the code of every statement,
each whole word for the URL in it becomes the quoted base URL, each other whole
word for the meta object the object with this URL, and all else stays. -/
theorem Module.transform_meta (m : Module) (options : ModuleOptions)
    (hamd : options.capabilities.modulesAmd = true) :
    ((∃ text, (m.transform options).result = .ok text) ↔
      m.body.filterMap Statement.code? = [] ∨ ∀ c ∈ options.base, Meta.isShort c = true) ∧
    ((m.body.filterMap Statement.code? = [] ∨ ∀ c ∈ options.base, Meta.isShort c = true) →
      (∀ line ∈ m.body.filterMap Statement.code?, Meta.Suits options.base line.codeText) →
      ∃ d, m.definition options.base options.param = .ok d ∧
        (m.transform options).result = .ok d.render ∧
        List.Forall₂ (FactoryLine.Filled (Meta.Substitution.exact options.base))
          (m.body.filterMap Statement.code?) d.body) := by
  have hlines : ∀ line ∈ m.body.filterMap Statement.code?,
      (∃ text, line = .code text) ∨ ∃ value, line = .assignDefault value := fun line hline => by
    obtain ⟨s, -, hs⟩ := List.mem_filterMap.1 hline
    exact Statement.code?_cases hs
  refine ⟨⟨fun ⟨text, htext⟩ => ?_, fun hshort => ?_⟩, fun hshort hsuits => ?_⟩
  · by_contra hlong
    obtain ⟨e, he⟩ := substituteAll_eq_error hlong
    simp only [Module.transform, Module.generate, hamd, if_true, Module.definition, he,
      Except.map] at htext
    cases htext
  · simp only [Module.transform, Module.generate, hamd, if_true,
      Module.definition_of_isShort hshort, Except.ok.injEq, exists_eq']
  · have hd := Module.definition_of_isShort hshort options.param
    refine ⟨_, hd, ?_, ?_⟩
    · simp only [Module.transform, Module.generate, hamd, if_true, hd]
    · rw [List.forall₂_map_right_iff]
      exact List.forall₂_same.2 fun line hline =>
        FactoryLine.filled_substitute (hlines line hline) (hsuits line hline)

/-- A base URL with double quotes, and words that are longer than those for the
meta object. -/
theorem Module.transform_meta_quoted :
    ∃ m, Module.parse
        "f(import.meta.url, import.meta.urls, import.metal)\nexport default import.meta".toList =
        .ok m ∧
      (m.body.filterMap Statement.code? = [] ∨
        ∀ c ∈ "https://a.b/\"c\"/".toList, Meta.isShort c = true) ∧
      (∀ line ∈ m.body.filterMap Statement.code?,
        Meta.Suits "https://a.b/\"c\"/".toList line.codeText) ∧
      ∃ d, m.definition "https://a.b/\"c\"/".toList [] = .ok d ∧
        (m.transform ⟨"https://a.b/\"c\"/".toList, ⟨true, false⟩, [], []⟩).result =
          .ok d.render ∧
        List.Forall₂
          (FactoryLine.Filled (Meta.Substitution.exact "https://a.b/\"c\"/".toList))
          (m.body.filterMap Statement.code?) d.body := by
  have h : Module.parse
      "f(import.meta.url, import.meta.urls, import.metal)\nexport default import.meta".toList =
      .ok ⟨[.code 1 "f(import.meta.url, import.meta.urls, import.metal)".toList,
        .exporting ⟨.defaultValue, 2, "export default import.meta".toList,
          "import.meta".toList, [], none⟩]⟩ := by
    decide +kernel
  have hshort : ∀ c ∈ "https://a.b/\"c\"/".toList, Meta.isShort c = true := by decide +kernel
  have hkept : ∀ c ∈ "https://a.b/\"c\"/".toList, Meta.isUndone c = false := by decide +kernel
  have hfree : Meta.occurs Meta.objectWord (Text.json "https://a.b/\"c\"/".toList) = false := by
    decide +kernel
  exact ⟨_, h, .inr hshort, fun _ _ => ⟨fun _ => hkept, fun _ => hfree⟩,
    (Module.transform_meta _ ⟨"https://a.b/\"c\"/".toList, ⟨true, false⟩, [], []⟩ rfl).2
      (.inr hshort) fun _ _ => ⟨fun _ => hkept, fun _ => hfree⟩⟩

/-- Base URLs that are not substituted as they are quoted: one with a character
that only its number escapes, one with a backslash, and one in which a word for
the meta object stands. -/
theorem Module.transform_meta_rescanned :
    (∃ m, Module.parse "f()".toList = .ok m ∧
      (m.transform ⟨"https://a.b/\u00e9/".toList, ⟨true, false⟩, [], []⟩).result =
        .error (.badEscape ⟨'u', 13⟩)) ∧
    (∃ m, Module.parse "f(import.meta.url)".toList = .ok m ∧
      (m.transform ⟨"a\\b".toList, ⟨true, false⟩, [], []⟩).result =
        .ok "define([], function () \x7b\n\"use strict\";\nf(\"a\\b\")\n\x7d);".toList ∧
      Text.json "a\\b".toList = "\"a\\\\b\"".toList) ∧
    ∃ m, Module.parse "f(import.meta.url)".toList = .ok m ∧
      (m.transform ⟨"import.meta".toList, ⟨true, false⟩, [], []⟩).result =
        .ok "define([], function () \x7b\n\"use strict\";\nf(\"(\x7b url: \"import.meta\" \x7d)\")\n\x7d);".toList ∧
      Text.json "import.meta".toList = "\"import.meta\"".toList := by
  have hcall : Module.parse "f(import.meta.url)".toList =
      .ok ⟨[.code 1 "f(import.meta.url)".toList]⟩ := by
    decide +kernel
  have hplain : Module.parse "f()".toList = .ok ⟨[.code 1 "f()".toList]⟩ := by decide +kernel
  exact ⟨⟨_, hplain, by decide +kernel⟩, ⟨_, hcall, by decide +kernel, by decide⟩,
    ⟨_, hcall, by decide +kernel, by decide⟩⟩

end Definition

end ModuleScripts
