import ModuleScripts.Proofs.Gaps

/-!
# Layouts of binding lists and import clauses

What an import binds and what a list exports is a sequence of names, commas,
braces and words. Between two of them stand blanks or comments, and between two
words a blank that is not part of a comment. Every such layout is read to the
same bindings: without its comments it is a layout with blanks alone, and there
the items between the commas are trimmed.
-/

namespace ModuleScripts

open Matcher

/-- An identifier. -/
structure Name where
  /-- The characters. -/
  text : Text
  /-- They are an identifier as a whole. -/
  isIdentifier : identifier text = some (text, [])
  deriving DecidableEq

/-- One item of a binding list. -/
structure Binding where
  /-- The name in the module that the binding comes from. -/
  name : Name
  /-- The name in the module that the binding goes to. -/
  newName : Name
  deriving DecidableEq

/-- The item as it is read. -/
def Binding.rename (b : Binding) : Rename := ⟨b.name.text, b.newName.text⟩

/-- What an import binds besides the default export. -/
inductive Group where
  /-- The namespace object. -/
  | namespaceObject (name : Name)
  /-- Names in braces. -/
  | named (bindings : List Binding)
  deriving DecidableEq

/-- What an import binds. -/
inductive Bound where
  /-- The default export. -/
  | default (name : Name)
  /-- A namespace object or names in braces. -/
  | group (g : Group)
  /-- The default export and one of these. -/
  | both (name : Name) (g : Group)
  deriving DecidableEq

/-- The clause that a group is read to, behind a default name if there is one. -/
def Group.clause (defaultName : Option Text) : Group → Clause
  | namespaceObject name => ⟨defaultName, some name.text, []⟩
  | named bindings => ⟨defaultName, none, bindings.map Binding.rename⟩

/-- The clause that is read. -/
def Bound.clause : Bound → Clause
  | .default name => ⟨some name.text, none, []⟩
  | .group g => g.clause none
  | .both name g => g.clause (some name.text)

/-- What may stand between two tokens, and what between two words. -/
structure Spacing where
  /-- Between two tokens. -/
  gap : Text → Prop
  /-- Between two words. -/
  parting : Text → Prop

/-- Blanks and comments. Two words are parted by a blank outside the comments. -/
def Spacing.filled : Spacing := ⟨fun t => ∃ kept, Gap t kept, fun t => ∃ kept, Gap t kept ∧ kept ≠ []⟩

/-- Blanks alone. -/
def Spacing.blank : Spacing := ⟨Blank, fun t => Blank t ∧ t ≠ []⟩

/-- The layouts of an item. -/
inductive Binding.Written (spacing : Spacing) : Binding → Text → Prop where
  /-- A name. -/
  | same (name : Name) : Written spacing ⟨name, name⟩ name.text
  /-- A name and another name. -/
  | renamed (name newName : Name) {g g' : Text} (hg : spacing.parting g)
      (hg' : spacing.parting g') :
      Written spacing ⟨name, newName⟩ (name.text ++ (g ++ ("as".toList ++ (g' ++ newName.text))))

/-- The layouts of a list of items. A comma may stand behind the last item. -/
inductive BindingsWritten (spacing : Spacing) : List Binding → Text → Prop where
  /-- No item. -/
  | nil {g : Text} (hg : spacing.gap g) : BindingsWritten spacing [] g
  /-- The last item. -/
  | last {binding : Binding} {g t g' : Text} (hg : spacing.gap g)
      (ht : binding.Written spacing t) (hg' : spacing.gap g') :
      BindingsWritten spacing [binding] (g ++ (t ++ g'))
  /-- An item and a comma before others. -/
  | cons {binding : Binding} {bindings : List Binding} {g t g' u : Text} (hg : spacing.gap g)
      (ht : binding.Written spacing t) (hg' : spacing.gap g')
      (hu : BindingsWritten spacing bindings u) :
      BindingsWritten spacing (binding :: bindings) (g ++ (t ++ (g' ++ ',' :: u)))

/-- The layouts of a group. -/
inductive Group.Written (spacing : Spacing) : Group → Text → Prop where
  /-- A star and a name. -/
  | namespaceObject (name : Name) {g g' : Text} (hg : spacing.gap g) (hg' : spacing.parting g') :
      Written spacing (.namespaceObject name) ('*' :: (g ++ ("as".toList ++ (g' ++ name.text))))
  /-- Names in braces. -/
  | named {bindings : List Binding} {u : Text} (hu : BindingsWritten spacing bindings u) :
      Written spacing (.named bindings) ('{' :: (u ++ ['}']))

/-- The layouts of what an import binds. -/
inductive Bound.Written (spacing : Spacing) : Bound → Text → Prop where
  /-- A name. -/
  | default (name : Name) : Written spacing (.default name) name.text
  /-- A star or braces. -/
  | group {group : Group} {t : Text} (ht : group.Written spacing t) :
      Written spacing (.group group) t
  /-- A name and a comma before one of these. -/
  | both (name : Name) {group : Group} {g g' t : Text} (hg : spacing.gap g)
      (hg' : spacing.gap g') (ht : group.Written spacing t) :
      Written spacing (.both name group) (name.text ++ (g ++ ',' :: (g' ++ t)))

namespace Name

variable (n : Name)

/-- A name has a first character, and the others continue it. -/
theorem exists_cons : ∃ c r, n.text = c :: r ∧ isIdentifierStart c = true ∧
    ∀ d ∈ r, isIdentifierPart d = true := by
  have h := n.isIdentifier
  cases ht : n.text with
  | nil =>
    rw [ht] at h
    cases h
  | cons c r =>
    rw [ht] at h
    simp only [identifier] at h
    split at h
    · next hs =>
      simp only [Option.some.injEq, Prod.mk.injEq, List.cons.injEq, true_and] at h
      exact ⟨c, r, rfl, hs, List.takeWhile_eq_self_iff.1 h.1⟩
    · cases h

/-- A name is not the empty text. -/
theorem text_ne_nil : n.text ≠ [] := by
  obtain ⟨c, r, h, _⟩ := n.exists_cons
  simp [h]

/-- A character that no identifier holds does not stand in a name. -/
theorem notMem {c : Char} (hs : isIdentifierStart c = false) (hp : isIdentifierPart c = false) :
    c ∉ n.text := by
  obtain ⟨d, r, hn, hstart, hr⟩ := n.exists_cons
  rw [hn, List.mem_cons, not_or]
  refine ⟨?_, fun hm => ?_⟩
  · rintro rfl
    rw [hs] at hstart
    cases hstart
  · rw [hr c hm] at hp
    cases hp

/-- No blank stands in a name. -/
theorem isBlank_of_mem {c : Char} (h : c ∈ n.text) : isBlank c = false := by
  cases hb : isBlank c with
  | false => rfl
  | true =>
    have hs : isIdentifierStart c = false :=
      of_isBlank (p := fun c => isIdentifierStart c = false) hb (by decide +kernel)
    have hp : isIdentifierPart c = false :=
      of_isBlank (p := fun c => isIdentifierPart c = false) hb (by decide +kernel)
    exact absurd h (n.notMem hs hp)

/-- A name opens no comment, no template and no string. -/
theorem calm : Calm n.text := identifier_takesCalm _ _ _ n.isIdentifier

/-- No quote stands in a name. -/
theorem quoteFree : QuoteFree n.text := n.calm.quoteFree

/-- A name starts with a visible character. -/
theorem exists_head : ∃ c, n.text.head? = some c ∧ isBlank c = false := by
  obtain ⟨c, r, hn, _⟩ := n.exists_cons
  exact ⟨c, by rw [hn]; rfl, n.isBlank_of_mem (by rw [hn]; exact List.mem_cons_self)⟩

/-- A name ends with a visible character. -/
theorem exists_last : ∃ c, n.text.getLast? = some c ∧ isBlank c = false := by
  have hlast := List.getLast?_eq_some_getLast n.text_ne_nil
  exact ⟨_, hlast, n.isBlank_of_mem (List.getLast_mem n.text_ne_nil)⟩

/-- A name is read up to the first character that cannot be part of it. -/
theorem identifier_append {rest : Text}
    (h : ∀ c, rest.head? = some c → isIdentifierPart c = false) :
    identifier (n.text ++ rest) = some (n.text, rest) := by
  obtain ⟨c, r, hn, hs, hr⟩ := n.exists_cons
  have htake : (r ++ rest).takeWhile isIdentifierPart = r ∧
      (r ++ rest).dropWhile isIdentifierPart = rest := by
    cases rest with
    | nil =>
      rw [List.append_nil]
      exact ⟨List.takeWhile_eq_self_iff.2 hr, List.dropWhile_eq_nil_iff.2 hr⟩
    | cons d rest =>
      have hd : ¬isIdentifierPart d = true := by simp [h d rfl]
      rw [List.takeWhile_append_of_pos hr, List.dropWhile_append_of_pos hr,
        List.takeWhile_cons_of_neg hd, List.dropWhile_cons_of_neg hd, List.append_nil]
      exact ⟨rfl, rfl⟩
  rw [hn, List.cons_append, identifier, if_pos hs, htake.1, htake.2]

end Name

section Matching

variable {g t : Text} {c : Char}

/-- A piece behind another one. -/
theorem Matcher.andThen_of_some {first second : Matcher} {t a r b rest : Text}
    (ha : first t = some (a, r)) (hb : second r = some (b, rest)) :
    (first.andThen second) t = some (a ++ b, rest) :=
  andThen_eq_some_iff.2 ⟨a, r, b, ha, hb, rfl⟩

/-- A word is taken where it stands first. -/
theorem literal_append (word t : Text) : literal word (word ++ t) = some (word, t) :=
  literal_eq_some_iff.2 ⟨rfl, rfl⟩

/-- Blanks are taken up to the first visible character. -/
theorem blanks_append (hg : Blank g) (hc : isBlank c = false) (t : Text) :
    blanks (g ++ c :: t) = some (g, c :: t) := by
  rw [blanks, Text.leading_blank_append hg hc, Text.trimStart_blank_append hg hc]

/-- A gap that is not empty is taken up to the first visible character. -/
theorem gap_append (hg : Blank g) (hne : g ≠ []) (hc : isBlank c = false) (t : Text) :
    gap (g ++ c :: t) = some (g, c :: t) :=
  gap_eq_some_iff.2 ⟨blanks_append hg hc t, hne⟩

/-- A blank does not continue an identifier. -/
theorem isIdentifierPart_of_isBlank (h : isBlank c = true) : isIdentifierPart c = false :=
  of_isBlank (p := fun c => isIdentifierPart c = false) h (by decide +kernel)

/-- A name ends where blanks follow it. -/
theorem Name.identifier_append_gap (n : Name) (hg : Blank g) (hne : g ≠ []) (t : Text) :
    identifier (n.text ++ (g ++ t)) = some (n.text, g ++ t) := by
  refine n.identifier_append fun d hd => isIdentifierPart_of_isBlank ?_
  cases g with
  | nil => exact absurd rfl hne
  | cons e g =>
    obtain rfl := Option.some.inj hd
    exact hg _ List.mem_cons_self

/-- The word `as` before a name, and the blanks around it. -/
theorem asWord_append {g' : Text} (hg : Blank g) (hg' : Blank g') (hne : g' ≠ []) (n : Name)
    (t : Text) :
    ((blanks.andThen (literal "as".toList)).andThen gap)
        (g ++ ("as".toList ++ (g' ++ (n.text ++ t)))) =
      some ((g ++ "as".toList) ++ g', n.text ++ t) := by
  obtain ⟨c, r, hn, _⟩ := n.exists_cons
  have hc : isBlank c = false := n.isBlank_of_mem (by rw [hn]; exact List.mem_cons_self)
  have hword : (blanks.andThen (literal "as".toList)) (g ++ ("as".toList ++ (g' ++ (n.text ++ t)))) =
      some (g ++ "as".toList, g' ++ (n.text ++ t)) :=
    andThen_eq_some_iff.2 ⟨g, _, "as".toList, blanks_append hg rfl _, literal_append _ _, rfl⟩
  refine andThen_eq_some_iff.2 ⟨_, _, g', hword, ?_, rfl⟩
  rw [hn]
  exact gap_append hg' hne hc _

end Matching

section Clearing

variable {t : Text}

/-- Without its comments a layout is one with blanks alone. -/
theorem Binding.Written.cleared {b : Binding} (h : b.Written .filled t) :
    ∃ kept, Clears t kept ∧ b.Written .blank kept := by
  cases h with
  | same name => exact ⟨name.text, clears_of_calm name.calm, .same name⟩
  | renamed name newName hg hg' =>
    obtain ⟨k, hk, hne⟩ := hg
    obtain ⟨k', hk', hne'⟩ := hg'
    refine ⟨_, ?_, .renamed name newName ⟨hk.blank_kept, hne⟩ ⟨hk'.blank_kept, hne'⟩⟩
    exact (clears_of_calm name.calm).append (hk.clears.append
      ((clears_of_calm (by decide)).append (hk'.clears.append (clears_of_calm newName.calm))))

/-- Without its comments a list of bindings is laid out with blanks alone. -/
theorem BindingsWritten.cleared {bs : List Binding} (h : BindingsWritten .filled bs t) :
    ∃ kept, Clears t kept ∧ BindingsWritten .blank bs kept := by
  induction h with
  | nil hg =>
    obtain ⟨k, hk⟩ := hg
    exact ⟨k, hk.clears, .nil hk.blank_kept⟩
  | last hg ht hg' =>
    obtain ⟨k, hk⟩ := hg
    obtain ⟨k', hk'⟩ := hg'
    obtain ⟨u, hu, hw⟩ := ht.cleared
    exact ⟨_, hk.clears.append (hu.append hk'.clears), .last hk.blank_kept hw hk'.blank_kept⟩
  | cons hg ht hg' _ ih =>
    obtain ⟨k, hk⟩ := hg
    obtain ⟨k', hk'⟩ := hg'
    obtain ⟨u, hu, hw⟩ := ht.cleared
    obtain ⟨v, hv, hbs⟩ := ih
    have hcomma : Clears [','] [','] := clears_of_calm (by decide)
    exact ⟨_, hk.clears.append (hu.append (hk'.clears.append (hcomma.append hv))),
      .cons hk.blank_kept hw hk'.blank_kept hbs⟩

/-- Without its comments a group is laid out with blanks alone. -/
theorem Group.Written.cleared {g : Group} (h : g.Written .filled t) :
    ∃ kept, Clears t kept ∧ g.Written .blank kept := by
  cases h with
  | namespaceObject name hg hg' =>
    obtain ⟨k, hk⟩ := hg
    obtain ⟨k', hk', hne'⟩ := hg'
    have hstar : Clears ['*'] ['*'] := clears_of_calm (by decide)
    refine ⟨_, ?_, .namespaceObject name hk.blank_kept ⟨hk'.blank_kept, hne'⟩⟩
    exact hstar.append (hk.clears.append ((clears_of_calm (by decide)).append
      (hk'.clears.append (clears_of_calm name.calm))))
  | named hu =>
    obtain ⟨k, hk, hbs⟩ := hu.cleared
    have hopen : Clears ['{'] ['{'] := clears_of_calm (by decide)
    exact ⟨_, hopen.append (hk.append (clears_of_calm (by decide))), .named hbs⟩

/-- Without its comments a clause is laid out with blanks alone. -/
theorem Bound.Written.cleared {b : Bound} (h : b.Written .filled t) :
    ∃ kept, Clears t kept ∧ b.Written .blank kept := by
  cases h with
  | default name => exact ⟨name.text, clears_of_calm name.calm, .default name⟩
  | group ht =>
    obtain ⟨k, hk, hw⟩ := ht.cleared
    exact ⟨k, hk, .group hw⟩
  | both name hg hg' ht =>
    obtain ⟨k, hk⟩ := hg
    obtain ⟨k', hk'⟩ := hg'
    obtain ⟨u, hu, hw⟩ := ht.cleared
    have hcomma : Clears [','] [','] := clears_of_calm (by decide)
    refine ⟨_, ?_, .both name hk.blank_kept hk'.blank_kept hw⟩
    exact (clears_of_calm name.calm).append (hk.clears.append (hcomma.append
      (hk'.clears.append hu)))

end Clearing

section Calm

variable {t : Text}

/-- A binding laid out with blanks opens nothing. -/
theorem Binding.Written.calm {b : Binding} (h : b.Written .blank t) : Calm t := by
  cases h with
  | same name => exact name.calm
  | renamed name newName hg hg' =>
    exact calm_append.2 ⟨name.calm, calm_append.2 ⟨hg.1.calm, calm_append.2 ⟨by decide,
      calm_append.2 ⟨hg'.1.calm, newName.calm⟩⟩⟩⟩

/-- A list of bindings laid out with blanks opens nothing. -/
theorem BindingsWritten.calm {bs : List Binding} (h : BindingsWritten .blank bs t) : Calm t := by
  induction h with
  | nil hg => exact hg.calm
  | last hg ht hg' => exact calm_append.2 ⟨hg.calm, calm_append.2 ⟨ht.calm, hg'.calm⟩⟩
  | cons hg ht hg' _ ih =>
    exact calm_append.2 ⟨hg.calm, calm_append.2 ⟨ht.calm, calm_append.2 ⟨hg'.calm,
      calm_cons.2 ⟨by decide, ih⟩⟩⟩⟩

/-- A group laid out with blanks opens nothing. -/
theorem Group.Written.calm {g : Group} (h : g.Written .blank t) : Calm t := by
  cases h with
  | namespaceObject name hg hg' =>
    exact calm_cons.2 ⟨by decide, calm_append.2 ⟨hg.calm, calm_append.2 ⟨by decide,
      calm_append.2 ⟨hg'.1.calm, name.calm⟩⟩⟩⟩
  | named hu => exact calm_cons.2 ⟨by decide, calm_append.2 ⟨hu.calm, by decide⟩⟩

/-- A clause laid out with blanks opens nothing. -/
theorem Bound.Written.calm {b : Bound} (h : b.Written .blank t) : Calm t := by
  cases h with
  | default name => exact name.calm
  | group ht => exact ht.calm
  | both name hg hg' ht =>
    exact calm_append.2 ⟨name.calm, calm_append.2 ⟨hg.calm, calm_cons.2 ⟨by decide,
      calm_append.2 ⟨hg'.calm, ht.calm⟩⟩⟩⟩

end Calm

section Items

variable {t : Text}

/-- The character that stands for `c` in the items of a list. -/
def joinLine (c : Char) : Char := if c = '\n' then ' ' else c

/-- Joining lines leaves a text of one line as it is. -/
theorem map_joinLine_of_notMem (h : '\n' ∉ t) : t.map joinLine = t := by
  have hid : ∀ c ∈ t, joinLine c = id c := by
    intro c hc
    have hn : c ≠ '\n' := fun he => h (he ▸ hc)
    exact if_neg hn
  rw [List.map_congr_left hid, List.map_id]

/-- A name stands on one line, so joining lines leaves it as it is. -/
theorem Name.map_joinLine (n : Name) : n.text.map joinLine = n.text :=
  map_joinLine_of_notMem (n.notMem (by decide) (by decide +kernel))

/-- Blanks stay blanks when lines are joined. -/
theorem Blank.map_joinLine (h : Blank t) : Blank (t.map joinLine) := by
  intro c hc
  obtain ⟨d, hd, rfl⟩ := List.mem_map.1 hc
  by_cases hn : d = '\n'
  · rw [hn]
    decide
  · rw [joinLine, if_neg hn]
    exact h d hd

/-- A binding stays laid out when its lines are joined. -/
theorem Binding.Written.map_joinLine {b : Binding} (h : b.Written .blank t) :
    b.Written .blank (t.map joinLine) := by
  cases h with
  | same name =>
    rw [name.map_joinLine]
    exact .same name
  | renamed name newName hg hg' =>
    have has : "as".toList.map joinLine = "as".toList := by decide
    simp only [List.map_append, name.map_joinLine, newName.map_joinLine, has]
    exact .renamed name newName ⟨hg.1.map_joinLine, by simpa using hg.2⟩
      ⟨hg'.1.map_joinLine, by simpa using hg'.2⟩

/-- A list of bindings stays laid out when its lines are joined. -/
theorem BindingsWritten.map_joinLine {bs : List Binding} (h : BindingsWritten .blank bs t) :
    BindingsWritten .blank bs (t.map joinLine) := by
  induction h with
  | nil hg => exact .nil hg.map_joinLine
  | last hg ht hg' =>
    simp only [List.map_append]
    exact .last hg.map_joinLine ht.map_joinLine hg'.map_joinLine
  | cons hg ht hg' _ ih =>
    have hcomma : joinLine ',' = ',' := by decide
    simp only [List.map_append, List.map_cons, hcomma]
    exact .cons hg.map_joinLine ht.map_joinLine hg'.map_joinLine ih

/-- An item starts and ends with a name. -/
theorem Binding.Written.ends {spacing : Spacing} {b : Binding} (h : b.Written spacing t) :
    ∃ c d, t.head? = some c ∧ t.getLast? = some d ∧ isBlank c = false ∧ isBlank d = false := by
  cases h with
  | same name =>
    obtain ⟨c, hc, hcs⟩ := name.exists_head
    obtain ⟨d, hd, hds⟩ := name.exists_last
    exact ⟨c, d, hc, hd, hcs, hds⟩
  | renamed name newName hg hg' =>
    obtain ⟨c, hc, hcs⟩ := name.exists_head
    obtain ⟨d, hd, hds⟩ := newName.exists_last
    exact ⟨c, d, by simp [List.head?_append, hc],
      by simp [List.getLast?_append, List.getLast?_cons, hd], hcs, hds⟩

/-- The trimmed item of a list is the binding that is written there. -/
theorem Binding.Written.trim {spacing : Spacing} {b : Binding} {g g' : Text}
    (h : b.Written spacing t) (hg : Blank g) (hg' : Blank g') : Text.trim (g ++ (t ++ g')) = t := by
  obtain ⟨c, d, hc, hd, hcs, hds⟩ := h.ends
  exact Text.trim_blank_append hg hg' hc hd hcs hds

/-- A binding is not the empty text. -/
theorem Binding.Written.ne_nil {spacing : Spacing} {b : Binding} (h : b.Written spacing t) :
    t ≠ [] := by
  obtain ⟨c, d, hc, _⟩ := h.ends
  rintro rfl
  cases hc

/-- No comma stands in a name. -/
theorem Name.comma_notMem (n : Name) : ',' ∉ n.text := n.notMem (by decide) (by decide +kernel)

/-- No comma stands in a binding. -/
theorem Binding.Written.comma_notMem {b : Binding} (h : b.Written .blank t) : ',' ∉ t := by
  cases h with
  | same name => exact name.comma_notMem
  | renamed name newName hg hg' =>
    have hblank : ∀ {g : Text}, Blank g → ',' ∉ g := fun hg => hg.notMem (by decide)
    have has : ',' ∉ "as".toList := by decide
    simp only [List.mem_append, not_or]
    exact ⟨name.comma_notMem, hblank hg.1, has, hblank hg'.1, newName.comma_notMem⟩

/-- An item is read to its two names. -/
theorem Binding.Written.parse {b : Binding} (h : b.Written .blank t) :
    Rename.parse? t = some b.rename := by
  cases h with
  | same name =>
    rw [Rename.parse?, name.isIdentifier]
    rfl
  | @renamed name newName g g' hg hg' =>
    have hname := name.identifier_append_gap hg.1 hg.2 ("as".toList ++ (g' ++ newName.text))
    obtain ⟨e, u, hcons⟩ : ∃ e u, g ++ ("as".toList ++ (g' ++ newName.text)) = e :: u := by
      cases hg' : g with
      | nil => exact absurd hg' hg.2
      | cons e u => exact ⟨e, _, rfl⟩
    obtain ⟨c, hc, hcs⟩ := newName.exists_head
    obtain ⟨r, hr⟩ : ∃ r, newName.text = c :: r := by
      cases ht : newName.text with
      | nil => exact absurd ht newName.text_ne_nil
      | cons d r =>
        rw [ht] at hc
        exact ⟨r, by rw [Option.some.inj hc]⟩
    have has : (gap.andThen (literal "as".toList)) (g ++ ("as".toList ++ (g' ++ newName.text))) =
        some (g ++ "as".toList, g' ++ newName.text) :=
      andThen_eq_some_iff.2 ⟨g, _, "as".toList, gap_append hg.1 hg.2 rfl _, literal_append _ _, rfl⟩
    have hword : renameWord (g ++ ("as".toList ++ (g' ++ newName.text))) =
        some ((g ++ "as".toList) ++ g', newName.text) := by
      refine andThen_eq_some_iff.2 ⟨_, _, g', has, ?_, rfl⟩
      rw [hr]
      exact gap_append hg'.1 hg'.2 hcs r
    rw [hcons] at hname hword
    rw [Rename.parse?, hcons, hname]
    dsimp only
    rw [hword]
    dsimp only
    rw [newName.isIdentifier]
    rfl

/-- The items of a list are read one by one. -/
theorem BindingsWritten.parseItems {bs : List Binding} (h : BindingsWritten .blank bs t) :
    parseItems (((List.splitOn ',' t).map Text.trim).filter fun item => !item.isEmpty) =
      .ok (bs.map Binding.rename) := by
  have hblank : ∀ {g : Text}, Blank g → ',' ∉ g := fun hg => hg.notMem (by decide)
  have hitem : ∀ {b : Binding} {g t g' : Text}, Blank g → b.Written .blank t → Blank g' →
      ',' ∉ g ++ (t ++ g') := by
    intro b g t g' hg ht hg'
    simp only [List.mem_append, not_or]
    exact ⟨hblank hg, ht.comma_notMem, hblank hg'⟩
  have hkept : ∀ {b : Binding} {g t g' : Text} (others : List Text), Blank g →
      b.Written .blank t → Blank g' →
      (((g ++ (t ++ g')) :: others).map Text.trim).filter (fun item => !item.isEmpty) =
        t :: (others.map Text.trim).filter fun item => !item.isEmpty := by
    intro b g t g' others hg ht hg'
    rw [List.map_cons, ht.trim hg hg', List.filter_cons_of_pos (by simpa using ht.ne_nil)]
  induction h with
  | nil hg =>
    rw [List.splitOn_eq_singleton (hblank hg), List.map_singleton, Text.trim_blank hg]
    rfl
  | last hg ht hg' =>
    rw [List.splitOn_eq_singleton (hitem hg ht hg'), hkept [] hg ht hg', ModuleScripts.parseItems,
      ht.parse]
    rfl
  | @cons b bs g t g' u hg ht hg' _ ih =>
    have hsplit : g ++ (t ++ (g' ++ ',' :: u)) = (g ++ (t ++ g')) ++ ',' :: u := by simp
    rw [hsplit, List.splitOn_append_cons_self, List.splitOn_eq_singleton (hitem hg ht hg'),
      List.singleton_append, hkept _ hg ht hg', ModuleScripts.parseItems, ht.parse]
    dsimp only
    rw [ih]
    rfl

/-- A list is read to its items. -/
theorem BindingsWritten.parseBindings {kept : Text} {bs : List Binding}
    (h : BindingsWritten .blank bs kept) (hc : Clears t kept) :
    parseBindings t = .ok (bs.map Binding.rename) := by
  have hitems := h.map_joinLine.parseItems
  rw [ModuleScripts.parseBindings, bindingItems, hc.remove_eq]
  exact hitems

end Items

section Clauses

variable {t : Text}

/-- A group starts with a visible character that starts no identifier. -/
theorem Group.Written.exists_cons {spacing : Spacing} {g : Group} (h : g.Written spacing t) :
    ∃ c r, t = c :: r ∧ isBlank c = false ∧ identifier t = none := by
  cases h with
  | namespaceObject name _ _ => exact ⟨'*', _, rfl, by decide, rfl⟩
  | named _ => exact ⟨'{', _, rfl, by decide, rfl⟩

/-- A group ends with a visible character. -/
theorem Group.Written.exists_last {spacing : Spacing} {g : Group} (h : g.Written spacing t) :
    ∃ d, t.getLast? = some d ∧ isBlank d = false := by
  cases h with
  | namespaceObject name _ _ =>
    obtain ⟨d, hd, hds⟩ := name.exists_last
    exact ⟨d, by simp [List.getLast?_cons, List.getLast?_append, hd], hds⟩
  | named _ => exact ⟨'}', by simp [List.getLast?_cons, List.getLast?_append], by decide⟩

/-- What an import binds starts and ends with a visible character. -/
theorem Bound.Written.ends {spacing : Spacing} {b : Bound} (h : b.Written spacing t) :
    ∃ c d, t.head? = some c ∧ t.getLast? = some d ∧ isBlank c = false ∧ isBlank d = false := by
  cases h with
  | default name =>
    obtain ⟨c, hc, hcs⟩ := name.exists_head
    obtain ⟨d, hd, hds⟩ := name.exists_last
    exact ⟨c, d, hc, hd, hcs, hds⟩
  | group ht =>
    obtain ⟨c, r, rfl, hcs, _⟩ := ht.exists_cons
    obtain ⟨d, hd, hds⟩ := ht.exists_last
    exact ⟨c, d, rfl, hd, hcs, hds⟩
  | both name hg hg' ht =>
    obtain ⟨c, hc, hcs⟩ := name.exists_head
    obtain ⟨d, hd, hds⟩ := ht.exists_last
    exact ⟨c, d, by simp [List.head?_append, hc],
      by simp [List.getLast?_append, List.getLast?_cons, hd], hcs, hds⟩

/-- A group is read behind every default name. -/
theorem Group.Written.parseRest {g : Group} (h : g.Written .blank t) (defaultName : Option Text)
    (statement : Text) :
    Clause.parseRest defaultName statement t = .ok (g.clause defaultName) := by
  cases h with
  | @namespaceObject name g g' hg hg' =>
    have hword := asWord_append hg hg'.1 hg'.2 name []
    rw [List.append_nil] at hword
    have hname : Clause.namespaceName? (g ++ ("as".toList ++ (g' ++ name.text))) =
        some name.text := by
      rw [Clause.namespaceName?, hword]
      dsimp only
      rw [name.isIdentifier]
    rw [Clause.parseRest, if_pos rfl, hname]
    rfl
  | @named bs u hu =>
    have hlast : (u ++ ['}']).getLast? = some '}' := by simp
    have hread := hu.parseBindings (clears_of_calm hu.calm)
    rw [Clause.parseRest, if_neg (by decide), if_pos rfl, if_pos hlast, List.dropLast_concat, hread]
    rfl

/-- The default name of a clause is told from the rest. -/
theorem Bound.Written.parse {b : Bound} (h : b.Written .blank t) {statement clause : Text}
    (hclause : Text.trim (Comments.remove clause) = t) :
    Clause.parse statement clause = .ok b.clause := by
  rw [Clause.parse, hclause]
  cases h with
  | default name =>
    have hsplit : Clause.splitDefault name.text = (some name.text, []) := by
      rw [Clause.splitDefault, name.isIdentifier]
      rfl
    rw [hsplit]
    rfl
  | group ht =>
    obtain ⟨c, r, _, _, hnone⟩ := ht.exists_cons
    have hsplit : Clause.splitDefault t = (none, t) := by
      rw [Clause.splitDefault, hnone]
    rw [hsplit]
    exact ht.parseRest none statement
  | @both name group g g' u hg hg' ht =>
    have hname : identifier (name.text ++ (g ++ ',' :: (g' ++ u))) =
        some (name.text, g ++ ',' :: (g' ++ u)) := by
      refine name.identifier_append fun c hc => ?_
      cases g with
      | nil =>
        obtain rfl := Option.some.inj hc
        decide +kernel
      | cons d g =>
        obtain rfl := Option.some.inj hc
        exact isIdentifierPart_of_isBlank (hg _ List.mem_cons_self)
    have hrest : Text.trim (g' ++ u) = u := by
      obtain ⟨c, r, hcons, hcs, _⟩ := ht.exists_cons
      obtain ⟨d, hd, hds⟩ := ht.exists_last
      have htrim := Text.trim_blank_append (c := c) hg' blank_nil (by rw [hcons]; rfl) hd hcs hds
      rwa [List.append_nil] at htrim
    have hsplit : Clause.splitDefault (name.text ++ (g ++ ',' :: (g' ++ u))) =
        (some name.text, u) := by
      rw [Clause.splitDefault, hname]
      dsimp only
      rw [Text.trimStart_blank_append hg (by decide)]
      exact congrArg (some name.text, ·) hrest
    rw [hsplit]
    exact ht.parseRest (some name.text) statement

end Clauses

end ModuleScripts
