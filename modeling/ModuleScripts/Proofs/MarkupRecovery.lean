import Mathlib.Data.List.Chain
import ModuleScripts.Dom.Markup
import ModuleScripts.Proofs.InPlace

/-!
# Trees are recovered from their markup

Markup is read from the left, and what comes first is always settled by what it
starts with: an element, a comment or an end tag by its first two characters, a
text by not starting a tag. Each of them goes on to its own delimiter, which does
not occur in it: a text to the next tag, an attribute value to the quote, the data
of a comment and the text of a raw-text element to the first end there is. So two
trees with the same markup are the same tree, except that an attribute without a
value is written like one with an empty value.
-/

namespace ModuleScripts

section Delimiters

variable {α : Type} {mark a b c r s : List α} {last : α}

/-- A text that goes on with a delimiter does not start with one, unless there is
one in front of it. -/
theorem eq_nil_of_append_delimiter (hlast : last ∉ mark) (hc : ¬mark ++ [last] <:+: c)
    (h : mark ++ last :: r = c ++ (mark ++ last :: s)) : c = [] := by
  rw [List.append_cons] at h
  rcases List.append_eq_append_iff.1 h with ⟨rest, rfl, -⟩ | ⟨rest, hmark, hrest⟩
  · exact absurd (List.prefix_append _ rest).isInfix hc
  · rcases List.eq_nil_or_concat rest with rfl | ⟨front, d, rfl⟩
    · rw [List.append_nil] at hmark
      exact absurd (hmark ▸ List.infix_refl c) hc
    · rw [List.concat_eq_append, ← List.append_assoc] at hmark
      obtain ⟨rfl, hd⟩ := List.append_inj' hmark rfl
      obtain rfl := (List.cons.inj hd).1
      -- Its last element stands behind `front` and behind `c ++ front`.
      rw [List.concat_eq_append, ← List.append_cons] at hrest
      rcases List.append_eq_append_iff.1 hrest with ⟨more, hfront, -⟩ | ⟨more, hcf, hmore⟩
      · have hlength := congrArg List.length hfront
        rw [List.length_append, List.length_append] at hlength
        exact List.length_eq_zero_iff.1 (by omega)
      · cases more with
        | nil => exact List.self_eq_append_left.1 ((List.append_nil front).symm.trans hcf.symm)
        | cons e more =>
          obtain ⟨rfl, -⟩ := List.cons.inj hmore
          exact absurd (hcf ▸ List.mem_append_right front List.mem_cons_self) hlast

/-- What stands before the first delimiter, if the last element of the delimiter
occurs in it only there. -/
theorem eq_of_append_delimiter (hlast : last ∉ mark) (ha : ¬mark ++ [last] <:+: a)
    (hb : ¬mark ++ [last] <:+: b) (h : a ++ (mark ++ last :: r) = b ++ (mark ++ last :: s)) :
    a = b ∧ r = s := by
  have hab : a = b := by
    rcases List.append_eq_append_iff.1 h with ⟨c, rfl, hc⟩ | ⟨c, rfl, hc⟩
    · have hnil := eq_nil_of_append_delimiter hlast
        (fun hi => hb (hi.trans (List.suffix_append a c).isInfix)) hc
      rw [hnil, List.append_nil]
    · have hnil := eq_nil_of_append_delimiter hlast
        (fun hi => ha (hi.trans (List.suffix_append b c).isInfix)) hc
      rw [hnil, List.append_nil]
  subst hab
  rw [List.append_cancel_left_eq, List.append_cancel_left_eq, List.cons.injEq] at h
  exact ⟨rfl, h.2⟩

/-- What stands before the first element of a kind. -/
theorem eq_of_append_stop {p : α → Prop} {d e : α} (ha : ∀ c ∈ a, ¬p c) (hb : ∀ c ∈ b, ¬p c)
    (hd : p d) (he : p e) (h : a ++ d :: r = b ++ e :: s) : a = b ∧ d :: r = e :: s := by
  induction a generalizing b with
  | nil =>
    cases b with
    | nil => exact ⟨rfl, h⟩
    | cons c b => exact absurd ((List.cons.inj h).1 ▸ hd) (hb c List.mem_cons_self)
  | cons c a ih =>
    cases b with
    | nil => exact absurd ((List.cons.inj h).1 ▸ he) (ha c List.mem_cons_self)
    | cons f b =>
      obtain ⟨rfl, hrest⟩ := List.cons.inj h
      obtain ⟨rfl, hstop⟩ :=
        ih (List.forall_mem_cons.1 ha).2 (List.forall_mem_cons.1 hb).2 hrest
      exact ⟨rfl, hstop⟩

end Delimiters

/-- A code in which no character is written like the start of another one is read
back. -/
theorem flatMap_injective {f : Char → Text} (hne : ∀ c, f c ≠ [])
    (hf : ∀ {c d : Char} {r s : Text}, f c ++ r = f d ++ s → c = d ∧ r = s) {t u : Text}
    (h : t.flatMap f = u.flatMap f) : t = u := by
  induction t generalizing u with
  | nil =>
    cases u with
    | nil => rfl
    | cons d u => exact absurd (List.append_eq_nil_iff.1 h.symm).1 (hne d)
  | cons c t ih =>
    cases u with
    | nil => exact absurd (List.append_eq_nil_iff.1 h).1 (hne c)
    | cons d u =>
      rw [List.flatMap_cons, List.flatMap_cons] at h
      obtain ⟨rfl, hrest⟩ := hf h
      rw [ih hrest]

/-- The attributes with an empty value in the place of a missing one. -/
def Attributes.settled (attributes : Attributes) : Attributes :=
  attributes.map fun a => (a.1, some (a.2.getD []))

/-- The tag with an empty value in the place of a missing one, and an empty list in
the place of missing attributes. -/
def Tag.settled (tag : Tag) : Tag :=
  { tag with attributes := some (tag.attributes.getD []).settled }

namespace Markup

section Escapes

variable {c d : Char} {r s t u : Text}

/-- No character is written as the empty text. -/
theorem escapeTextChar_ne_nil (c : Char) : escapeTextChar c ≠ [] := by
  unfold escapeTextChar
  split_ifs <;> exact List.cons_ne_nil _ _

/-- A written character of a text tells the character and what follows. -/
theorem escapeTextChar_append_inj (h : escapeTextChar c ++ r = escapeTextChar d ++ s) :
    c = d ∧ r = s := by
  unfold escapeTextChar at h
  split_ifs at h <;> simp at h <;> grind

/-- No tag opens in a written character. -/
theorem lessThan_notMem_escapeTextChar (c : Char) : '<' ∉ escapeTextChar c := by
  unfold escapeTextChar
  split_ifs with hand hless hgreater
  · decide
  · decide
  · decide
  · exact fun hmem => hless (List.mem_singleton.1 hmem).symm

/-- No character of a value is written as the empty text. -/
theorem escapeValueChar_ne_nil (c : Char) : escapeValueChar c ≠ [] := by
  unfold escapeValueChar
  split_ifs <;> exact List.cons_ne_nil _ _

/-- A written character of a value tells the character and what follows. -/
theorem escapeValueChar_append_inj (h : escapeValueChar c ++ r = escapeValueChar d ++ s) :
    c = d ∧ r = s := by
  unfold escapeValueChar at h
  split_ifs at h <;> simp at h <;> grind

/-- No value ends in a written character. -/
theorem quote_notMem_escapeValueChar (c : Char) : '"' ∉ escapeValueChar c := by
  unfold escapeValueChar
  split_ifs with hand hquote
  · decide
  · decide
  · exact fun hmem => hquote (List.mem_singleton.1 hmem).symm

/-- Texts that are written alike are the same. -/
theorem escapeText_injective (h : escapeText t = escapeText u) : t = u :=
  flatMap_injective escapeTextChar_ne_nil escapeTextChar_append_inj h

/-- A text does not start a tag. -/
theorem lessThan_notMem_escapeText (t : Text) : '<' ∉ escapeText t := fun h =>
  let ⟨c, _, hc⟩ := List.mem_flatMap.1 h
  lessThan_notMem_escapeTextChar c hc

/-- Values that are written alike are the same. -/
theorem escapeValue_injective (h : escapeValue t = escapeValue u) : t = u :=
  flatMap_injective escapeValueChar_ne_nil escapeValueChar_append_inj h

/-- A value does not end its quotes. -/
theorem quote_notMem_escapeValue (t : Text) : '"' ∉ escapeValue t := fun h =>
  let ⟨c, _, hc⟩ := List.mem_flatMap.1 h
  quote_notMem_escapeValueChar c hc

/-- A text that is there is written as a text that is there. -/
theorem exists_escapeText (h : t ≠ []) : ∃ c rest, escapeText t = c :: rest ∧ c ≠ '<' := by
  cases ht : escapeText t with
  | nil =>
    have hnil : escapeText t = escapeText [] := ht
    exact absurd (escapeText_injective hnil) h
  | cons c rest =>
    refine ⟨c, rest, rfl, fun hc => lessThan_notMem_escapeText t ?_⟩
    rw [ht, hc]
    exact List.mem_cons_self

end Escapes

section Tags

variable {name other r s : Text} {attributes others : Attributes}

/-- A name that ends before a value, another attribute or the end of its tag. -/
def TagWord (name : Text) : Prop := ∀ c ∈ name, ¬(c = ' ' ∨ c = '=' ∨ c = '>')

/-- The value of an attribute behind its name. -/
def writtenValue : Text → Text
  | [] => []
  | value => "=\"".toList ++ escapeValue value ++ ['"']

/-- An attribute is written as its name and its value behind a blank. -/
theorem writtenAttribute_eq (name : Text) (value : Option Text) :
    writtenAttribute name value = ' ' :: (name ++ writtenValue (value.getD [])) := by
  rcases value with _ | _ | ⟨c, value⟩
  · exact congrArg (' ' :: ·) (List.append_nil name).symm
  · exact congrArg (' ' :: ·) (List.append_nil name).symm
  · simp only [writtenAttribute, writtenValue, Option.getD_some, List.cons_append,
      List.append_assoc]

/-- The attributes of a tag as they are written. -/
def writtenAttributes (attributes : Attributes) : Text :=
  attributes.flatMap fun a => writtenAttribute a.1 a.2

/-- The first attribute is written in front of the others. -/
theorem writtenAttributes_cons (a : Text × Option Text) (attributes : Attributes) (r : Text) :
    writtenAttributes (a :: attributes) ++ r =
      ' ' :: (a.1 ++ (writtenValue (a.2.getD []) ++ (writtenAttributes attributes ++ r))) := by
  rw [writtenAttributes, List.flatMap_cons, writtenAttribute_eq, ← writtenAttributes]
  simp only [List.cons_append, List.append_assoc]

/-- Behind an attribute stands another one or the end of the tag. -/
theorem exists_writtenAttributes (attributes : Attributes) (r : Text) :
    ∃ c rest, writtenAttributes attributes ++ '>' :: r = c :: rest ∧ (c = ' ' ∨ c = '>') := by
  cases attributes with
  | nil => exact ⟨'>', r, rfl, .inr rfl⟩
  | cons a attributes => exact ⟨' ', _, writtenAttributes_cons a attributes _, .inl rfl⟩

/-- Behind the name of an attribute stands what ends it. -/
theorem exists_writtenValue (v : Text) {c : Char} (hc : c = ' ' ∨ c = '>') (r : Text) :
    ∃ d rest, writtenValue v ++ c :: r = d :: rest ∧ (d = ' ' ∨ d = '=' ∨ d = '>') := by
  cases v with
  | nil => exact ⟨c, r, rfl, hc.imp_right .inr⟩
  | cons e v => exact ⟨'=', _, rfl, .inr (.inl rfl)⟩

/-- A value is told from what stands behind it. -/
theorem writtenValue_append_inj {v w : Text} {c d : Char} (hc : c = ' ' ∨ c = '>')
    (hd : d = ' ' ∨ d = '>') (h : writtenValue v ++ c :: r = writtenValue w ++ d :: s) :
    v = w ∧ c :: r = d :: s := by
  have hc' : c ≠ '=' := by rcases hc with rfl | rfl <;> decide
  have hd' : d ≠ '=' := by rcases hd with rfl | rfl <;> decide
  cases v with
  | nil =>
    cases w with
    | nil => exact ⟨rfl, h⟩
    | cons f w => exact absurd (List.cons.inj h).1 hc'
  | cons e v =>
    cases w with
    | nil => exact absurd (List.cons.inj h).1.symm hd'
    | cons f w =>
      simp only [writtenValue, List.append_assoc, List.append_cancel_left_eq,
        List.singleton_append] at h
      obtain ⟨hvalue, hrest⟩ := eq_of_append_stop (p := (· = '"'))
        (fun q hq he => quote_notMem_escapeValue _ (he ▸ hq))
        (fun q hq he => quote_notMem_escapeValue _ (he ▸ hq)) rfl rfl h
      exact ⟨escapeValue_injective hvalue, (List.cons.inj hrest).2⟩

/-- The attributes of a tag are told from what stands behind the tag, but not a
missing value from an empty one. -/
theorem writtenAttributes_append_inj (ha : ∀ a ∈ attributes, TagWord a.1)
    (ho : ∀ a ∈ others, TagWord a.1)
    (h : writtenAttributes attributes ++ '>' :: r = writtenAttributes others ++ '>' :: s) :
    attributes.settled = others.settled ∧ r = s := by
  induction attributes generalizing others with
  | nil =>
    cases others with
    | nil => exact ⟨rfl, (List.cons.inj h).2⟩
    | cons b others =>
      rw [writtenAttributes_cons] at h
      exact absurd (List.cons.inj h).1 (by decide)
  | cons a attributes ih =>
    cases others with
    | nil =>
      rw [writtenAttributes_cons] at h
      exact absurd (List.cons.inj h).1 (by decide)
    | cons b others =>
      obtain ⟨hname, hnames⟩ := List.forall_mem_cons.1 ha
      obtain ⟨hother, hothers⟩ := List.forall_mem_cons.1 ho
      rw [writtenAttributes_cons, writtenAttributes_cons] at h
      obtain ⟨c, more, hmore, hc⟩ := exists_writtenAttributes attributes r
      obtain ⟨d, most, hmost, hd⟩ := exists_writtenAttributes others s
      obtain ⟨e, value, hvalue, he⟩ := exists_writtenValue (a.2.getD []) hc more
      obtain ⟨f, word, hword, hf⟩ := exists_writtenValue (b.2.getD []) hd most
      have hrest := (List.cons.inj h).2
      rw [hmore, hmost, hvalue, hword] at hrest
      obtain ⟨hnamed, hvalues⟩ := eq_of_append_stop hname hother he hf hrest
      rw [← hvalue, ← hword] at hvalues
      obtain ⟨hvalued, htails⟩ := writtenValue_append_inj hc hd hvalues
      rw [← hmore, ← hmost] at htails
      obtain ⟨hattributes, hbehind⟩ := ih hnames hothers htails
      refine ⟨?_, hbehind⟩
      rw [Attributes.settled, Attributes.settled, List.map_cons, List.map_cons, hnamed, hvalued,
        ← Attributes.settled, ← Attributes.settled, hattributes]

/-- The name and the attributes of a tag are told from what stands behind it. -/
theorem startTag_append_inj {attributes others : Option Attributes} (hname : TagWord name)
    (hother : TagWord other) (ha : ∀ a ∈ attributes.getD [], TagWord a.1)
    (ho : ∀ a ∈ others.getD [], TagWord a.1)
    (h : startTag name attributes ++ r = startTag other others ++ s) :
    name = other ∧ (attributes.getD []).settled = (others.getD []).settled ∧ r = s := by
  have hstart : ∀ (name : Text) (attributes : Option Attributes) (r : Text),
      startTag name attributes ++ r =
        '<' :: (name ++ (writtenAttributes (attributes.getD []) ++ '>' :: r)) := by
    intro name attributes r
    simp only [startTag, writtenAttributes, List.cons_append, List.append_assoc, List.nil_append]
  rw [hstart, hstart] at h
  obtain ⟨c, more, hmore, hc⟩ := exists_writtenAttributes (attributes.getD []) r
  obtain ⟨d, most, hmost, hd⟩ := exists_writtenAttributes (others.getD []) s
  have hrest := (List.cons.inj h).2
  rw [hmore, hmost] at hrest
  obtain ⟨rfl, htails⟩ :=
    eq_of_append_stop hname hother (hc.imp_right .inr) (hd.imp_right .inr) hrest
  rw [← hmore, ← hmost] at htails
  exact ⟨rfl, writtenAttributes_append_inj ha ho htails⟩

/-- A missing value is written like an empty one, and missing attributes like none. -/
theorem startTag_settled (tag : Tag) :
    startTag tag.name tag.settled.attributes = startTag tag.name tag.attributes := by
  have hwritten : writtenAttributes (tag.attributes.getD []).settled =
      writtenAttributes (tag.attributes.getD []) := by
    rw [writtenAttributes, writtenAttributes, Attributes.settled, List.flatMap_map]
    refine List.flatMap_congr fun a _ => ?_
    rw [writtenAttribute_eq, writtenAttribute_eq, Option.getD_some]
  exact congrArg (fun w => '<' :: tag.name ++ w ++ ['>']) hwritten

end Tags

end Markup

namespace Node

mutual

/-- The tree with an empty value in the place of each missing one. -/
def settled : Node → Node
  | text data => text data
  | comment attributes data => comment attributes data
  | doctype attributes => doctype attributes
  | document attributes children => document attributes (settledAll children)
  | fragment attributes children => fragment attributes (settledAll children)
  | element tag children none => element tag.settled (settledAll children) none
  | element tag children (some content) =>
    element tag.settled (settledAll children) (some (settledAll content))

/-- The trees with an empty value in the place of each missing one. -/
def settledAll : List Node → List Node
  | [] => []
  | node :: nodes => settled node :: settledAll nodes

end

/-- Nodes of which at most one is a text. -/
def Apart (node other : Node) : Prop := node.isText = true → other.isText = false

/-- How the name of an element is formed: of lower case letters, digits and hyphens,
with a letter in front. -/
def ElementName (name : Text) : Prop :=
  ∃ c rest, name = c :: rest ∧ ('a' ≤ c ∧ c ≤ 'z') ∧
    ∀ d ∈ rest, ('a' ≤ d ∧ d ≤ 'z') ∨ isAsciiDigit d = true ∨ d = '-'

/-- What an element holds. -/
structure Holds (tag : Tag) (nodes : List Node) : Prop where
  /-- Nothing, if it has no end tag. -/
  ofVoid : tag.isVoid = true → nodes = []
  /-- A text without an end tag at most, if its text is raw. -/
  ofRaw : tag.isRawText = true →
    nodes = [] ∨ ∃ data, nodes = [text (some data)] ∧ ¬"</".toList <:+: data
  /-- No text next to another one. -/
  apart : nodes.IsChain Apart

/-- The trees whose markup can be read: ordinary elements, texts and comments, with
nothing in a place where there is no way to write it. -/
inductive Legible : Node → Prop where
  /-- A text that is not empty. -/
  | text {data : Text} (hdata : data ≠ []) : Legible (text (some data))
  /-- A comment that does not end before its end. -/
  | comment {data : Text} (hdata : ¬"-->".toList <:+: data) : Legible (comment [] (some data))
  /-- An element. -/
  | element {name : Text} {attributes : Option Attributes} {children : List Node}
    (hname : ElementName name) (hattributes : ∀ a ∈ attributes.getD [], Markup.TagWord a.1)
    (hholds : Holds ⟨name, htmlSpace, attributes⟩ children)
    (hchildren : ∀ child ∈ children, Legible child) :
    Legible (element ⟨name, htmlSpace, attributes⟩ children none)

mutual

/-- Missing values are written like empty ones. -/
theorem write_settled (raw : Bool) : (node : Node) → node.settled.write raw = node.write raw
  | text _ => rfl
  | comment _ _ => rfl
  | doctype _ => rfl
  | document _ children => writeAll_settledAll false children
  | fragment _ children => writeAll_settledAll false children
  | element tag children none => by
    change (if tag.isVoid then Markup.startTag tag.name tag.settled.attributes
      else Markup.startTag tag.name tag.settled.attributes ++
        writeAll tag.isRawText (settledAll children) ++ Markup.endTag tag.name) = _
    rw [Markup.startTag_settled, writeAll_settledAll tag.isRawText children]
    rfl
  | element tag children (some content) => by
    change (if tag.isVoid then Markup.startTag tag.name tag.settled.attributes
      else Markup.startTag tag.name tag.settled.attributes ++
        (if tag.isTemplate then writeAll tag.isRawText (settledAll content)
          else writeAll tag.isRawText (settledAll children)) ++ Markup.endTag tag.name) = _
    rw [Markup.startTag_settled, writeAll_settledAll tag.isRawText children,
      writeAll_settledAll tag.isRawText content]
    rfl

/-- Missing values in nodes next to each other are written like empty ones. -/
theorem writeAll_settledAll (raw : Bool) :
    (nodes : List Node) → writeAll raw (settledAll nodes) = writeAll raw nodes
  | [] => rfl
  | node :: nodes => by
    rw [settledAll, writeAll, writeAll, write_settled raw node, writeAll_settledAll raw nodes]

end

section Recovery

variable {node other : Node} {nodes others : List Node} {r s : Text}

/-- The name of an element ends with the name. -/
theorem ElementName.tagWord {name : Text} (h : ElementName name) : Markup.TagWord name := by
  obtain ⟨c, rest, rfl, ⟨hc, -⟩, hrest⟩ := h
  have hstop : ∀ d : Char, (d = ' ' ∨ d = '=' ∨ d = '>') →
      ¬( 'a' ≤ d) ∧ isAsciiDigit d = false ∧ d ≠ '-' := by
    rintro d (rfl | rfl | rfl) <;> decide
  refine List.forall_mem_cons.2 ⟨fun hd => (hstop c hd).1 hc, fun d hd hstopped => ?_⟩
  obtain ⟨hlower, hdigit, hhyphen⟩ := hstop d hstopped
  rcases hrest d hd with ⟨hletter, -⟩ | hnumber | hsign
  · exact hlower hletter
  · exact absurd (hnumber.symm.trans hdigit) (by decide)
  · exact hhyphen hsign

/-- A text is written with its characters escaped. -/
theorem write_text (data : Text) : (text (some data)).write false = Markup.escapeText data := rfl

/-- A comment is written between its marks. -/
theorem write_comment (data : Text) (raw : Bool) :
    (comment [] (some data)).write raw = Markup.comment data := rfl

/-- An element is written as its start tag and, unless it is void, its children
and its end tag. -/
theorem write_element (raw : Bool) (tag : Tag) (children : List Node) :
    (element tag children none).write raw =
      Markup.startTag tag.name tag.attributes ++
        if tag.isVoid then [] else writeAll tag.isRawText children ++ Markup.endTag tag.name := by
  change (if tag.isVoid then _ else Markup.startTag tag.name tag.attributes ++
    writeAll tag.isRawText children ++ Markup.endTag tag.name) = _
  cases tag.isVoid with
  | true => exact (List.append_nil _).symm
  | false => exact List.append_assoc _ _ _

/-- An element is settled with its tag and its children. -/
theorem settled_element (tag : Tag) (children : List Node) :
    (element tag children none).settled = element tag.settled (settledAll children) none := rfl

/-- A legible text has data. -/
theorem Legible.exists_text (h : Legible node) (hnode : node.isText = true) :
    ∃ data, node = .text (some data) ∧ data ≠ [] := by
  cases h with
  | text hdata => exact ⟨_, rfl, hdata⟩
  | comment _ => cases hnode
  | element _ _ _ _ => cases hnode

/-- A tag or a comment is told from a text and from an end tag by its start. -/
theorem Legible.exists_write (h : Legible node) (hnode : node.isText = false) (raw : Bool) :
    ∃ c t, node.write raw = '<' :: c :: t ∧ c ≠ '/' := by
  cases h with
  | text hdata => cases hnode
  | comment hdata => exact ⟨'!', _, rfl, by decide⟩
  | element hname _ _ _ =>
    obtain ⟨c, rest, rfl, ⟨hc, -⟩, -⟩ := hname
    have hslash : c ≠ '/' := fun he => absurd (he ▸ hc) (by decide)
    rw [write_element]
    exact ⟨c, _, rfl, hslash⟩

/-- A text among other nodes is followed by a tag. -/
theorem exists_writeAll (hlegible : ∀ node ∈ nodes, Legible node)
    (hhead : ∀ node ∈ nodes.head?, node.isText = false) (r : Text) :
    ∃ t, writeAll false nodes ++ '<' :: r = '<' :: t := by
  cases nodes with
  | nil => exact ⟨r, rfl⟩
  | cons node nodes =>
    obtain ⟨c, t, ht, -⟩ := (hlegible node List.mem_cons_self).exists_write (hhead node rfl) false
    rw [writeAll, ht]
    exact ⟨_, rfl⟩

/-- What is written first is not the end tag of what is around it. -/
theorem Legible.write_ne_end (h : Legible node) (r s : Text) :
    node.write false ++ r ≠ '<' :: '/' :: s := by
  intro he
  cases hnode : node.isText with
  | false =>
    obtain ⟨c, t, ht, hc⟩ := h.exists_write hnode false
    rw [ht] at he
    exact hc (List.cons.inj (List.cons.inj he).2).1
  | true =>
    obtain ⟨data, rfl, hdata⟩ := h.exists_text hnode
    obtain ⟨c, t, ht, hc⟩ := Markup.exists_escapeText hdata
    rw [write_text, ht] at he
    exact hc (List.cons.inj he).1

/-- A text is not a tag or a comment. -/
theorem Legible.isText_eq (h : Legible node) (ho : Legible other)
    (hwrite : node.write false ++ r = other.write false ++ s) : node.isText = other.isText := by
  have hless : ∀ {first second : Node} {u v : Text}, Legible first → Legible second →
      first.isText = true → second.isText = false →
      first.write false ++ u ≠ second.write false ++ v := by
    intro first second u v hfirst hsecond hyes hno he
    obtain ⟨c, t, ht, -⟩ := hsecond.exists_write hno false
    obtain ⟨data, rfl, hdata⟩ := hfirst.exists_text hyes
    obtain ⟨d, rest, hd, hne⟩ := Markup.exists_escapeText hdata
    rw [ht, write_text, hd] at he
    exact hne (List.cons.inj he).1
  cases hnode : node.isText with
  | true =>
    cases hother : other.isText with
    | true => rfl
    | false => exact absurd hwrite (hless h ho hnode hother)
  | false =>
    cases hother : other.isText with
    | true => exact absurd hwrite.symm (hless ho h hother hnode)
    | false => rfl

/-- Whether a node that is no text is told from whatever stands behind it. -/
def Recovered (node : Node) : Prop :=
  ∀ {other : Node} {r s : Text}, Legible other → node.isText = false → other.isText = false →
    node.write false ++ r = other.write false ++ s → node.settled = other.settled ∧ r = s

/-- The nodes in an element are told from its end tag and from each other. -/
theorem writeAll_append_inj (hnodes : ∀ node ∈ nodes, Legible node ∧ Recovered node)
    (hothers : ∀ other ∈ others, Legible other) (hapart : nodes.IsChain Apart)
    (hothersApart : others.IsChain Apart)
    (h : writeAll false nodes ++ '<' :: '/' :: r = writeAll false others ++ '<' :: '/' :: s) :
    settledAll nodes = settledAll others ∧ r = s := by
  induction nodes generalizing others with
  | nil =>
    cases others with
    | nil => exact ⟨rfl, (List.cons.inj (List.cons.inj h).2).2⟩
    | cons other others =>
      rw [writeAll, writeAll, List.nil_append, List.append_assoc] at h
      exact absurd h.symm ((hothers other List.mem_cons_self).write_ne_end _ _)
  | cons node nodes ih =>
    obtain ⟨⟨hnode, hrecovered⟩, hrest⟩ := List.forall_mem_cons.1 hnodes
    cases others with
    | nil =>
      rw [writeAll, writeAll, List.nil_append, List.append_assoc] at h
      exact absurd h (hnode.write_ne_end _ _)
    | cons other others =>
      obtain ⟨hother, hothersRest⟩ := List.forall_mem_cons.1 hothers
      rw [writeAll, writeAll, List.append_assoc, List.append_assoc] at h
      have hsame : node.settled = other.settled ∧
          writeAll false nodes ++ '<' :: '/' :: r = writeAll false others ++ '<' :: '/' :: s := by
        have hkind := hnode.isText_eq hother h
        cases htext : node.isText with
        | false => exact hrecovered hother htext (hkind.symm.trans htext) h
        | true =>
          obtain ⟨data, rfl, -⟩ := hnode.exists_text htext
          obtain ⟨data', rfl, -⟩ := hother.exists_text (hkind.symm.trans htext)
          obtain ⟨t, ht⟩ := exists_writeAll (fun node hn => (hrest node hn).1)
            (fun node hn => (List.isChain_cons.1 hapart).1 node hn rfl) ('/' :: r)
          obtain ⟨u, hu⟩ := exists_writeAll hothersRest
            (fun node hn => (List.isChain_cons.1 hothersApart).1 node hn rfl) ('/' :: s)
          rw [write_text, write_text, ht, hu] at h
          obtain ⟨hdatas, htails⟩ := eq_of_append_stop (p := (· = '<'))
            (fun c hc he => Markup.lessThan_notMem_escapeText _ (he ▸ hc))
            (fun c hc he => Markup.lessThan_notMem_escapeText _ (he ▸ hc)) rfl rfl h
          rw [Markup.escapeText_injective hdatas, ht, hu]
          exact ⟨rfl, htails⟩
      obtain ⟨hsettled, hmore⟩ := hsame
      obtain ⟨hall, hbehind⟩ :=
        ih hrest hothersRest (List.isChain_cons.1 hapart).2 (List.isChain_cons.1 hothersApart).2 hmore
      exact ⟨by rw [settledAll, settledAll, hsettled, hall], hbehind⟩

/-- What is in a raw-text element is its text. -/
theorem Holds.exists_raw {tag : Tag} (h : Holds tag nodes) (hraw : tag.isRawText = true)
    (hlegible : ∀ node ∈ nodes, Legible node) :
    ∃ data, writeAll true nodes = data ∧ ¬"</".toList <:+: data ∧
      nodes = if data = [] then [] else [.text (some data)] := by
  rcases h.ofRaw hraw with rfl | ⟨data, rfl, hdata⟩
  · exact ⟨[], rfl, by decide, rfl⟩
  · obtain ⟨data', heq, hne⟩ := (hlegible _ List.mem_cons_self).exists_text rfl
    cases heq
    exact ⟨data, List.append_nil data, hdata, (if_neg hne).symm⟩

/-- What an element holds is told from its end tag. -/
theorem writeAll_append_end_inj {tag : Tag} (hnodes : Holds tag nodes)
    (hothers : Holds tag others) (hlegible : ∀ node ∈ nodes, Legible node ∧ Recovered node)
    (hothersLegible : ∀ other ∈ others, Legible other)
    (h : writeAll tag.isRawText nodes ++ ("</".toList ++ r) =
      writeAll tag.isRawText others ++ ("</".toList ++ s)) :
    settledAll nodes = settledAll others ∧ r = s := by
  cases hraw : tag.isRawText with
  | false =>
    rw [hraw] at h
    exact writeAll_append_inj hlegible hothersLegible hnodes.apart hothers.apart h
  | true =>
    rw [hraw] at h
    obtain ⟨data, hdata, hend, hnodesEq⟩ := hnodes.exists_raw hraw fun node hn => (hlegible node hn).1
    obtain ⟨data', hdata', hend', hothersEq⟩ := hothers.exists_raw hraw hothersLegible
    rw [hdata, hdata'] at h
    have hmark : '/' ∉ ['<'] := by decide
    obtain ⟨rfl, hbehind⟩ := eq_of_append_delimiter hmark hend hend' h
    exact ⟨by rw [hnodesEq, hothersEq], hbehind⟩

/-- What stands behind the start tag of an element is told from what stands behind the
element. -/
theorem body_append_inj {tag : Tag} (hnodes : Holds tag nodes) (hothers : Holds tag others)
    (hlegible : ∀ node ∈ nodes, Legible node ∧ Recovered node)
    (hothersLegible : ∀ other ∈ others, Legible other)
    (h : (if tag.isVoid then [] else writeAll tag.isRawText nodes ++ Markup.endTag tag.name) ++ r =
      (if tag.isVoid then [] else writeAll tag.isRawText others ++ Markup.endTag tag.name) ++ s) :
    settledAll nodes = settledAll others ∧ r = s := by
  cases hvoid : tag.isVoid with
  | true =>
    rw [hvoid, if_pos rfl, if_pos rfl] at h
    rw [hnodes.ofVoid hvoid, hothers.ofVoid hvoid]
    exact ⟨rfl, h⟩
  | false =>
    rw [hvoid, if_neg Bool.false_ne_true, if_neg Bool.false_ne_true] at h
    simp only [Markup.endTag, List.append_assoc] at h
    obtain ⟨hall, hends⟩ :=
      writeAll_append_end_inj hnodes hothers hlegible hothersLegible h
    rw [List.append_cancel_left_eq, List.append_cancel_left_eq] at hends
    exact ⟨hall, hends⟩

/-- A comment is told from an element. -/
theorem comment_ne_element {data name : Text} {attributes : Option Attributes}
    {children : List Node} (hname : ElementName name) (raw : Bool) :
    Markup.comment data ++ r ≠
      (element ⟨name, htmlSpace, attributes⟩ children none).write raw ++ s := by
  obtain ⟨c, rest, rfl, ⟨hc, -⟩, -⟩ := hname
  intro he
  rw [write_element] at he
  have hbang : '!' = c := (List.cons.inj (List.cons.inj he).2).1
  exact absurd (hbang ▸ hc) (by decide)

/-- A node is told from whatever stands behind it. -/
theorem Legible.recovered (h : Legible node) : Recovered node := by
  induction h with
  | text hdata =>
    intro other r s ho hnode
    cases hnode
  | comment hdata =>
    intro other r s ho _ hother hwrite
    cases ho with
    | text _ => cases hother
    | comment hdata' =>
      rw [write_comment, write_comment] at hwrite
      simp only [Markup.comment, List.append_assoc, List.append_cancel_left_eq] at hwrite
      have hmark : '>' ∉ ['-', '-'] := by decide
      obtain ⟨rfl, hbehind⟩ := eq_of_append_delimiter hmark hdata hdata' hwrite
      exact ⟨rfl, hbehind⟩
    | element hname _ _ _ => exact absurd hwrite (comment_ne_element hname false)
  | @element name attributes children hname hattributes hholds hchildren ih =>
    intro other r s ho _ hother hwrite
    cases ho with
    | text _ => cases hother
    | comment _ => exact absurd hwrite.symm (comment_ne_element hname false)
    | @element name' attributes' children' hname' hattributes' hholds' hchildren' =>
      rw [write_element, write_element, List.append_assoc, List.append_assoc] at hwrite
      obtain ⟨rfl, hsettled, hbodies⟩ := Markup.startTag_append_inj hname.tagWord hname'.tagWord
        hattributes hattributes' hwrite
      -- What an element holds depends on its attributes no more than its end tag does.
      have hothers : Holds ⟨name, htmlSpace, attributes⟩ children' :=
        ⟨hholds'.ofVoid, hholds'.ofRaw, hholds'.apart⟩
      obtain ⟨hall, hbehind⟩ := body_append_inj hholds hothers
        (fun child hchild => ⟨hchildren child hchild, ih child hchild⟩) hchildren' hbodies
      exact ⟨by rw [settled_element, settled_element, Tag.settled, Tag.settled, hsettled, hall],
        hbehind⟩

/-- Trees are recovered from their markup, up to missing values. -/
theorem toMarkup_eq_iff (h : Legible node) (ho : Legible other) :
    node.toMarkup = other.toMarkup ↔ node.settled = other.settled := by
  constructor
  · intro hmarkup
    have hends : writeAll false [node] ++ '<' :: '/' :: [] =
        writeAll false [other] ++ '<' :: '/' :: [] := by
      rw [writeAll, writeAll, writeAll, writeAll, List.append_nil, List.append_nil]
      exact congrArg (· ++ _) hmarkup
    have hall := (writeAll_append_inj (List.forall_mem_singleton.2 ⟨h, h.recovered⟩)
      (List.forall_mem_singleton.2 ho) (.singleton node) (.singleton other) hends).1
    exact (List.cons.inj hall).1
  · intro hsettled
    rw [toMarkup, toMarkup, ← write_settled false node, ← write_settled false other, hsettled]

/-- A paragraph with an attribute without a value, a text that looks like a tag, and a
script that compares. -/
theorem toMarkup_eq_iff_missing_value :
    (element ⟨"p".toList, htmlSpace, some [("a".toList, none), ("b".toList, some ['"'])]⟩
      [.text (some "<br>".toList),
        element ⟨"script".toList, htmlSpace, none⟩ [.text (some "a<b".toList)] none] none).toMarkup =
    (element ⟨"p".toList, htmlSpace, some [("a".toList, some []), ("b".toList, some ['"'])]⟩
      [.text (some "<br>".toList),
        element ⟨"script".toList, htmlSpace, none⟩ [.text (some "a<b".toList)] none] none).toMarkup := by
  have hscript : Legible
      (element ⟨"script".toList, htmlSpace, none⟩ [.text (some "a<b".toList)] none) := by
    refine .element ⟨'s', "cript".toList, rfl, by decide, by decide⟩ (List.forall_mem_nil _)
      ⟨fun hvoid => absurd hvoid (by decide), fun _ => .inr ⟨_, rfl, by decide⟩, .singleton _⟩ ?_
    exact List.forall_mem_singleton.2 (.text (by decide))
  have hparagraph : ∀ value : Option Text, Legible (element
      ⟨"p".toList, htmlSpace, some [("a".toList, value), ("b".toList, some ['"'])]⟩
      [.text (some "<br>".toList),
        element ⟨"script".toList, htmlSpace, none⟩ [.text (some "a<b".toList)] none] none) := by
    intro value
    have hwords : ∀ name ∈ ["a".toList, "b".toList], ∀ c ∈ name, ¬(c = ' ' ∨ c = '=' ∨ c = '>') := by
      decide
    have hvoid : Markup.voidElements.contains "p".toList = false := by decide
    have hraw : Markup.rawTextElements.contains "p".toList = false := by decide
    refine .element ⟨'p', [], rfl, by decide, by decide⟩
      (List.forall_mem_cons.2 ⟨hwords _ List.mem_cons_self, List.forall_mem_singleton.2
        (hwords _ (List.mem_cons_of_mem _ List.mem_cons_self))⟩)
      ⟨fun h => absurd (hvoid.symm.trans h) Bool.false_ne_true, fun h => ?_,
        List.isChain_pair.2 fun _ => rfl⟩ ?_
    · rw [Tag.isRawText, hraw] at h
      exact absurd h Bool.false_ne_true
    · exact List.forall_mem_cons.2 ⟨.text (by decide), List.forall_mem_singleton.2 hscript⟩
  exact (toMarkup_eq_iff (hparagraph none) (hparagraph (some []))).2 rfl

end Recovery

end Node

end ModuleScripts
