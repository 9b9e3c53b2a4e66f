import Mathlib.Data.List.Infix
import ModuleScripts.Dom.Markup
import ModuleScripts.Dom.Script
import ModuleScripts.Page.External
import ModuleScripts.Polyfill.Cache
import ModuleScripts.Proofs.FactoryLines
import ModuleScripts.Proofs.MetaQuoting

/-!
# End tags of scripts in texts

A script ends at the first end tag in its text. A text can be put together from
parts without end tags and hold one nevertheless, which starts in one part and
ends in the next. This does not happen where the parts are kept apart: by a
character that the start of an end tag does not hold, or because the later part
goes on behind such a character without opening a tag.
-/

namespace ModuleScripts

section Infix

variable {α : Type} {w x y : List α} {d : α}

/-- A word that could only begin with an element is in what stands before it, or
in what starts with it. -/
theorem infix_append_cons_of_notMem_tail (hd : d ∉ w.tail) (h : w <:+: x ++ d :: y) :
    w <:+: x ∨ w <:+: d :: y := by
  rcases List.infix_append_iff.1 h with hx | hy | ⟨front, behind, rfl, hfront, hbehind⟩
  · exact .inl hx
  · exact .inr hy
  · cases front with
    | nil => exact .inr hbehind.isInfix
    | cons c front =>
      rcases List.prefix_cons_iff.1 hbehind with rfl | ⟨rest, rfl, -⟩
      · rw [List.append_nil]
        exact .inl hfront.isInfix
      · rw [List.cons_append, List.tail_cons] at hd
        exact absurd (List.mem_append_right front List.mem_cons_self) hd

/-- A word that could only begin with an element does not reach it from before. -/
theorem prefix_of_prefix_append_cons (hx : x ≠ []) (hd : d ∉ w.tail) (h : w <+: x ++ d :: y) :
    w <+: x := by
  obtain ⟨r, hr⟩ := h
  rcases List.append_eq_append_iff.1 hr with ⟨more, rfl, -⟩ | ⟨behind, rfl, hbehind⟩
  · exact List.prefix_append w more
  · cases behind with
    | nil => rw [List.append_nil]
    | cons c behind =>
      obtain ⟨e, x, rfl⟩ := List.exists_cons_of_ne_nil hx
      rw [List.cons_append, List.tail_cons] at hd
      rw [← (List.cons.inj hbehind).1] at hd
      exact absurd (List.mem_append_right x List.mem_cons_self) hd

/-- A word that does not start with an element starts behind it. -/
theorem infix_of_infix_cons_of_head?_ne (hw : w.head? ≠ some d) (h : w <:+: d :: y) : w <:+: y := by
  rcases List.infix_cons_iff.1 h with hp | hi
  · rcases List.prefix_cons_iff.1 hp with rfl | ⟨rest, rfl, -⟩
    · exact List.nil_infix
    · exact absurd rfl hw
  · exact hi

end Infix

/-- How the end tag of a script starts, in lower case. -/
def endTagStart : Text := "</script".toList

namespace Text

/-- No end tag of a script starts in the text, in any case of its letters. -/
def EndTagFree (t : Text) : Prop := ¬endTagStart <:+: t.map lowerAscii

instance (t : Text) : Decidable t.EndTagFree :=
  inferInstanceAs (Decidable (¬endTagStart <:+: t.map lowerAscii))

/-- A character that is not in the start of an end tag. -/
def isApart (c : Char) : Bool := !endTagStart.contains (lowerAscii c)

section Free

variable {a b e t u : Text} {c : Char}

/-- Only a capital letter has another character as its lower case. -/
theorem eq_of_lowerAscii_eq {d : Char} (hc : c.toNat < 97) (h : lowerAscii d = c) : d = c := by
  unfold lowerAscii at h
  split at h
  · next hd =>
    rw [Bool.and_eq_true, decide_eq_true_eq, decide_eq_true_eq] at hd
    have hlow : 65 ≤ d.toNat := hd.1
    have hhigh : d.toNat ≤ 90 := hd.2
    have hvalid : Nat.isValidChar (d.toNat + 32) := .inl (by omega)
    have hnat : (Char.ofNat (d.toNat + 32)).toNat = d.toNat + 32 := by
      unfold Char.ofNat
      rw [dif_pos hvalid]
      rfl
    rw [h] at hnat
    omega
  · exact h

/-- A part of a text without end tags has none. -/
theorem EndTagFree.of_part (h : u.EndTagFree) (hi : t <:+: u) : t.EndTagFree :=
  fun ht => h (ht.trans (hi.map lowerAscii))

/-- A text without end tags has none behind its first character. -/
theorem EndTagFree.tail (h : EndTagFree (c :: t)) : EndTagFree t :=
  h.of_part (List.suffix_cons c t).isInfix

/-- Without one of its marks there is no end tag. -/
theorem endTagFree_of_notMem (hc : c ∈ endTagStart) (hmark : c.toNat < 97) (h : c ∉ t) :
    t.EndTagFree := by
  intro ht
  obtain ⟨d, hd, hlower⟩ := List.mem_map.1 (ht.subset hc)
  exact h (eq_of_lowerAscii_eq hmark hlower ▸ hd)

/-- A text that opens no tag has no end tag. -/
theorem endTagFree_of_notMem_open (h : '<' ∉ t) : t.EndTagFree :=
  endTagFree_of_notMem (by decide) (by decide) h

/-- A text without a slash has no end tag. -/
theorem endTagFree_of_notMem_slash (h : '/' ∉ t) : t.EndTagFree :=
  endTagFree_of_notMem (by decide) (by decide) h

/-- A text that opens no tag before one without end tags. -/
theorem EndTagFree.append_left (hb : b.EndTagFree) (he : '<' ∉ e) : EndTagFree (e ++ b) := by
  induction e with
  | nil => exact hb
  | cons d e ih =>
    rw [List.mem_cons, not_or] at he
    intro h
    have hhead : endTagStart.head? ≠ some (lowerAscii d) := by
      intro hd
      have hopen : lowerAscii d = '<' := (Option.some.inj hd).symm
      exact he.1 (eq_of_lowerAscii_eq (by decide) hopen).symm
    exact ih he.2 (infix_of_infix_cons_of_head?_ne hhead h)

/-- A character that is apart keeps two texts apart. -/
theorem EndTagFree.append_cons (ha : a.EndTagFree) (hc : isApart c = true) (hb : b.EndTagFree) :
    EndTagFree (a ++ c :: b) := by
  have hnotMem : lowerAscii c ∉ endTagStart := by simpa [isApart] using hc
  intro h
  rw [EndTagFree, List.map_append, List.map_cons] at *
  rcases infix_append_cons_of_notMem_tail (fun hm => hnotMem (List.mem_of_mem_tail hm)) h with
    hin | hin
  · exact ha hin
  · refine hb (infix_of_infix_cons_of_head?_ne (fun hhead => hnotMem ?_) hin)
    exact List.mem_of_mem_head? hhead

end Free

/-- A text that gives no end tag together with what stands around it, unless that
holds one. -/
def Sealed (t : Text) : Prop := ∀ a b, EndTagFree a → EndTagFree b → EndTagFree (a ++ (t ++ b))

section Sealed

variable {a b e t u : Text} {c : Char}

/-- A sealed text has no end tag itself. -/
theorem Sealed.endTagFree (h : t.Sealed) : t.EndTagFree := by
  have hfree : EndTagFree [] := by decide
  simpa using h [] [] hfree hfree

/-- A sealed text before one without end tags. -/
theorem Sealed.append_free (h : t.Sealed) (hb : b.EndTagFree) : EndTagFree (t ++ b) :=
  h [] b (by decide) hb

/-- A text that starts with a character apart and opens no tag. -/
theorem sealed_cons (hc : isApart c = true) (he : '<' ∉ e) : Sealed (c :: e) := by
  intro a b ha hb
  rw [List.cons_append]
  exact ha.append_cons hc (hb.append_left he)

/-- A text whose first character is apart and that opens no tag is sealed. -/
theorem sealed_of_head (hc : t.head?.any isApart = true) (ho : '<' ∉ t) : t.Sealed := by
  cases t with
  | nil => cases hc
  | cons c e => exact sealed_cons hc fun hm => ho (List.mem_cons_of_mem c hm)

/-- Two sealed texts are sealed together. -/
theorem Sealed.append (ht : t.Sealed) (hu : u.Sealed) : Sealed (t ++ u) := by
  intro a b ha hb
  rw [List.append_assoc]
  exact ht a (u ++ b) ha (hu.append_free hb)

/-- A text without end tags between two sealed ones. -/
theorem Sealed.around (ht : t.Sealed) (he : e.EndTagFree) (hu : u.Sealed) :
    Sealed (t ++ (e ++ u)) := by
  intro a b ha hb
  rw [List.append_assoc, List.append_assoc]
  exact ht a (e ++ (u ++ b)) ha (hu e b he hb)

/-- Texts without end tags with a sealed one between them. -/
theorem endTagFree_intercalate {separator : Text} {parts : List Text} (hs : separator.Sealed)
    (h : ∀ part ∈ parts, part.EndTagFree) : EndTagFree (List.intercalate separator parts) :=
  intercalate_induction (by decide : EndTagFree []) h fun part hpart t ht => hs part t (h part hpart) ht

end Sealed

/-- A text and what becomes of it if some of its parts are replaced by sealed
texts. -/
inductive Resealed : Text → Text → Prop where
  /-- Nothing is left. -/
  | nil : Resealed [] []
  /-- A character stays. -/
  | keep {t u : Text} (c : Char) (rest : Resealed t u) : Resealed (c :: t) (c :: u)
  /-- A part is replaced. -/
  | swap {t u new : Text} (old : Text) (hnew : new.Sealed) (rest : Resealed t u) :
    Resealed (old ++ t) (new ++ u)

namespace Resealed

variable {t u : Text}

/-- A text of which no part is replaced. -/
theorem refl (t : Text) : Resealed t t := by
  induction t with
  | nil => exact nil
  | cons c t ih => exact ih.keep c

/-- What stands before a replaced part is kept apart from what stands behind it. -/
theorem endTagFree_append (h : Resealed t u) {a : Text} (ha : EndTagFree (a ++ t)) :
    EndTagFree (a ++ u) := by
  induction h generalizing a with
  | nil => exact ha
  | @keep t u c rest ih =>
    rw [← List.singleton_append, ← List.append_assoc] at ha ⊢
    exact ih ha
  | @swap t u new old hnew rest ih =>
    have hrest : EndTagFree ([] ++ t) := ha.of_part ⟨a ++ old, [], by simp⟩
    exact hnew a u (ha.of_part ⟨[], old ++ t, rfl⟩) (ih hrest)

/-- Sealed parts bring no end tag into a text. -/
theorem endTagFree (h : Resealed t u) (ht : t.EndTagFree) : u.EndTagFree :=
  h.endTagFree_append (a := []) ht

end Resealed

section Escapes

variable {t : Text} {c : Char}

/-- Escaping characters one by one. -/
theorem resealed_flatMap {f : Char → Text} (h : ∀ c ∈ t, f c = [c] ∨ (f c).Sealed) :
    Resealed t (t.flatMap f) := by
  induction t with
  | nil => exact .nil
  | cons c t ih =>
    obtain ⟨hc, ht⟩ := List.forall_mem_cons.1 h
    rw [List.flatMap_cons]
    rcases hc with hc | hc
    · rw [hc]
      exact (ih ht).keep c
    · exact .swap [c] hc (ih ht)

/-- The escape of a code unit is sealed. -/
theorem unitEscape_sealed (unit : Nat) : (unitEscape unit).Sealed := by
  refine sealed_cons (by decide) ?_
  rw [List.mem_cons, not_or]
  exact ⟨by decide, fun hm => absurd rfl (Text.of_mem_ofNatHex (p := (· ≠ '<')) (by decide) hm)⟩

/-- A character between double quotes is itself or an escape. -/
theorem jsonChar_eq_or_sealed (c : Char) : jsonChar c = [c] ∨ (jsonChar c).Sealed := by
  have hescape : ∀ d, d ≠ '<' → Sealed ['\\', d] := fun d hd =>
    sealed_cons (by decide) (by simpa using Ne.symm hd)
  unfold jsonChar
  -- the escapes of one letter, a printed character, one unit and two
  iterate 7
    split
    · exact .inr (hescape _ (by decide))
  split
  · exact .inl rfl
  split
  · exact .inr (unitEscape_sealed _)
  · exact .inr ((unitEscape_sealed _).append (unitEscape_sealed _))

/-- In a stub a character stays, or its escape is sealed. -/
theorem stubChar_eq_or_sealed (c : Char) : stubChar c = [c] ∨ (stubChar c).Sealed := by
  unfold stubChar
  split
  · next hc =>
    refine .inr (sealed_cons (by decide) ?_)
    rw [List.mem_singleton]
    rintro rfl
    exact absurd hc (by decide)
  · exact .inl rfl

/-- In a base URL a character stays, or what becomes of it is sealed. -/
theorem undoneChar_eq_or_sealed (c : Char) :
    Meta.undoneChar c = [c] ∨ (Meta.undoneChar c).Sealed := by
  unfold Meta.undoneChar
  split
  · exact .inl rfl
  · exact jsonChar_eq_or_sealed c

/-- An escaped text between two double quotes. -/
theorem sealed_quoted {f : Char → Text} (hf : ∀ c, f c = [c] ∨ (f c).Sealed) (ht : t.EndTagFree) :
    Sealed ('"' :: (t.flatMap f ++ ['"'])) := by
  have hquote : Sealed ['"'] := sealed_cons (by decide) (by decide)
  exact hquote.around ((resealed_flatMap fun c _ => hf c).endTagFree ht) hquote

/-- A quoted text without end tags is sealed. -/
theorem json_sealed (ht : t.EndTagFree) : (json t).Sealed := sealed_quoted jsonChar_eq_or_sealed ht

/-- A base URL without end tags is sealed where it is written. -/
theorem undone_sealed (ht : t.EndTagFree) : (Meta.undone t).Sealed :=
  sealed_quoted undoneChar_eq_or_sealed ht

/-- A list of quoted texts without end tags is sealed. -/
theorem jsonList_sealed {items : List Text} (h : ∀ item ∈ items, item.EndTagFree) :
    (jsonList items).Sealed := by
  have hopen : Sealed ['['] := sealed_cons (by decide) (by decide)
  have hclose : Sealed [']'] := sealed_cons (by decide) (by decide)
  have hcomma : Sealed [',', ' '] := sealed_cons (by decide) (by decide)
  refine hopen.around (endTagFree_intercalate hcomma fun part hpart => ?_) hclose
  obtain ⟨item, hitem, rfl⟩ := List.mem_map.1 hpart
  exact (json_sealed (h item hitem)).endTagFree

/-- The characters of an end tag are not escaped in the argument of a stub. -/
theorem escapeSingle_eq_self (h : t.map lowerAscii = endTagStart) : escapeSingle t = t := by
  have hchar : ∀ c ∈ t, stubChar c = [c] := by
    intro c hc
    have hmem : lowerAscii c ∈ endTagStart := h ▸ List.mem_map_of_mem hc
    refine if_neg fun hescaped => ?_
    rw [Bool.or_eq_true, decide_eq_true_eq, decide_eq_true_eq] at hescaped
    rcases hescaped with rfl | rfl
    · exact absurd hmem (by decide)
    · exact absurd hmem (by decide)
  rw [escapeSingle, List.flatMap_congr hchar, List.flatMap_singleton']

/-- Escaping brings no end tag into a text and takes none out of it. -/
theorem escapeSingle_endTagFree_iff : (escapeSingle t).EndTagFree ↔ t.EndTagFree := by
  constructor
  · rintro h ⟨front, behind, hsplit⟩
    obtain ⟨a, b, rfl, ha, -⟩ := List.map_eq_append_iff.1 hsplit.symm
    obtain ⟨a, tag, rfl, -, htag⟩ := List.map_eq_append_iff.1 ha
    have hpart : tag <:+: escapeSingle (a ++ tag ++ b) := by
      rw [escapeSingle, List.flatMap_append, List.flatMap_append]
      exact ⟨escapeSingle a, escapeSingle b, by
        conv => lhs; rw [← escapeSingle_eq_self htag]
        rfl⟩
    exact h.of_part hpart (htag ▸ List.infix_rfl)
  · exact fun h => (resealed_flatMap fun c _ => stubChar_eq_or_sealed c).endTagFree h

end Escapes

section Blanks

variable {t body new : Text}

/-- Blanks are apart from every tag. -/
theorem isApart_of_isBlank {c : Char} (h : isBlank c = true) : isApart c = true := by
  have hlower : lowerAscii c = c := by
    refine if_neg fun hcapital => ?_
    rw [Bool.and_eq_true, decide_eq_true_eq, decide_eq_true_eq] at hcapital
    have hlow : 65 ≤ c.toNat := hcapital.1
    have hhigh : c.toNat ≤ 90 := hcapital.2
    simp only [isBlank, Bool.or_eq_true, Bool.and_eq_true, decide_eq_true_eq, beq_iff_eq] at h
    omega
  have hnone : ∀ d ∈ endTagStart, isBlank d = false := by decide
  have hnotMem : c ∉ endTagStart := fun hm => by
    rw [hnone c hm] at h
    cases h
  simpa [isApart, hlower] using hnotMem

/-- Blanks open no tag. -/
theorem open_notMem_of_blank (h : Blank t) : '<' ∉ t := fun hm => absurd (h _ hm) (by decide)

/-- Blanks behind a text without end tags bring none. -/
theorem EndTagFree.append_blank (ht : t.EndTagFree) (hb : Blank body) : EndTagFree (t ++ body) := by
  cases body with
  | nil => rwa [List.append_nil]
  | cons c body =>
    obtain ⟨hc, hbody⟩ := List.forall_mem_cons.1 hb
    exact ht.append_cons (isApart_of_isBlank hc)
      (endTagFree_of_notMem_open (open_notMem_of_blank hbody))

/-- The trimmed text is a part of the text. -/
theorem trim_part (t : Text) : trim t <:+: t := by
  obtain ⟨before, behind, ht, -, -⟩ := exists_trim t
  exact ⟨before, behind, by rw [List.append_assoc, ← ht]⟩

/-- The blanks of an old body bring no end tag into a new one. -/
theorem surroundLike_endTagFree (hnew : new.EndTagFree) :
    (surroundLike body new).EndTagFree := by
  have htrim : (trim new).EndTagFree := hnew.of_part (trim_part new)
  unfold surroundLike
  split
  · next hblank => exact htrim.append_left (open_notMem_of_blank (List.all_eq_true.1 hblank))
  · have hfront : EndTagFree (leading body ++ trim new) :=
      htrim.append_left (open_notMem_of_blank isBlank_of_mem_leading)
    exact hfront.append_blank isBlank_of_mem_trailing

end Blanks

end Text

namespace Polyfill

section Splitting

variable {source body t : Text}

/-- What stands before the first end tag starts the text. -/
theorem splitEndTag_start (t : Text) : (splitEndTag t).1 <+: t := by
  induction t with
  | nil => exact List.nil_prefix
  | cons c r ih =>
    rw [splitEndTag]
    split
    · exact List.nil_prefix
    · exact List.cons_prefix_cons.2 ⟨rfl, ih⟩

/-- What a source is cut to holds no end tag that the source does not hold. -/
theorem cutText_endTagFree (h : source.EndTagFree) : (cutText source).EndTagFree := by
  have hline : Text.Sealed ['\n'] := Text.sealed_cons (by decide) (by decide)
  have hwhole : Text.EndTagFree ('\n' :: source ++ ['\n']) := (hline.around h hline).endTagFree
  exact hwhole.of_part (splitEndTag_start ('\n' :: source ++ ['\n'])).isInfix

/-- A mark is found only behind the start of an end tag. -/
theorem prefix_of_endTagMark {mark : Char} (h : endTagMark? t = some mark) :
    endTagStart <+: t.map lowerAscii := by
  unfold endTagMark? at h
  split at h
  · next c r hd =>
    have htaken : endTagStart <+: (t.take 9).map lowerAscii :=
      ⟨c :: r, (Text.dropPrefix?_eq_some_iff.1 hd).symm⟩
    have htake : t.take 9 <+: t := List.take_prefix 9 t
    exact htaken.trans (htake.map lowerAscii)
  · cases h

/-- The first end tag behind a body without end tags is the one that closes it. -/
theorem splitEndTag_append (h : body.EndTagFree) (rest : Text) :
    splitEndTag (body ++ (Markup.endTag scriptName ++ rest)) = (body, some '>') := by
  induction body with
  | nil => rfl
  | cons c body ih =>
    have hmark : endTagMark? (c :: (body ++ (Markup.endTag scriptName ++ rest))) = none := by
      cases hm : endTagMark? (c :: (body ++ (Markup.endTag scriptName ++ rest))) with
      | none => rfl
      | some mark =>
        have hfound := prefix_of_endTagMark hm
        have hsplit : (c :: (body ++ (Markup.endTag scriptName ++ rest))).map lowerAscii =
            (c :: body).map lowerAscii ++ '<' :: ("/script>".toList ++ rest.map lowerAscii) := by
          rw [← List.cons_append, List.map_append, List.map_append]
          rfl
        rw [hsplit] at hfound
        exact absurd (prefix_of_prefix_append_cons (by simp) (by decide) hfound).isInfix h
    rw [List.cons_append, splitEndTag, hmark, ih h.tail]

end Splitting

end Polyfill

end ModuleScripts
