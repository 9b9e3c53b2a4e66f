import Mathlib.Data.List.Basic
import ModuleScripts.Output.Meta

/-!
# Words of the meta object in code

Code is cut into pieces: the words for the URL of a module, the other words for
its meta object, and single characters. The substitution goes over the code
twice, and what the first pass puts in lies before the second. As long as no word
stands in it, the two passes fill every piece once and keep every character.
-/

namespace ModuleScripts.Meta

/-- The word for the URL of a module. -/
def urlWord : Text := "import.meta.url".toList

/-- The word for the meta object of a module. -/
def objectWord : Text := "import.meta".toList

section Words

variable {word replacement t r : Text} {previous : Option Char} {c : Char}

/-- A word stands at a place exactly if the characters around it are no part of a
longer one. -/
theorem wordAt_eq_true_iff :
    wordAt word previous t = true ↔
      wordMayStart previous = true ∧ ∃ r, t = word ++ r ∧ atWordEnd r = true := by
  rw [wordAt, Bool.and_eq_true]
  refine and_congr_right fun _ => ?_
  cases h : Text.dropPrefix? word t with
  | none =>
    refine ⟨fun hfalse => absurd hfalse Bool.false_ne_true, fun ⟨r, hr, _⟩ => ?_⟩
    rw [Text.dropPrefix?_eq_some_iff.2 hr] at h
    cases h
  | some rest =>
    refine ⟨fun hend => ⟨rest, Text.dropPrefix?_eq_some_iff.1 h, hend⟩, fun ⟨r, hr, hend⟩ => ?_⟩
    rw [Text.dropPrefix?_eq_some_iff.2 hr] at h
    obtain rfl := Option.some.inj h
    exact hend

/-- A word does not stand where another character does. -/
theorem wordAt_cons_of_ne (h : word.head? ≠ some c) (hne : word ≠ []) :
    wordAt word previous (c :: r) = false := by
  rw [Bool.eq_false_iff]
  intro hword
  obtain ⟨_, rest, heq, _⟩ := wordAt_eq_true_iff.1 hword
  cases word with
  | nil => exact hne rfl
  | cons d word =>
    rw [List.cons_append] at heq
    rw [(List.cons.inj heq).1] at h
    exact h rfl

/-- Whether a whole word stands anywhere in a text, behind `previous`. -/
def occursFrom (word : Text) (previous : Option Char) : Text → Bool
  | [] => false
  | c :: r => wordAt word previous (c :: r) || occursFrom word (some c) r

/-- Whether a whole word stands anywhere in a text. -/
def occurs (word t : Text) : Bool := occursFrom word none t

/-- The last character of a longer text is that of its rest, if there is
one. -/
theorem getLast?_cons_or (a : Text) : (c :: a).getLast?.or previous = a.getLast?.or (some c) := by
  rw [List.getLast?_cons]
  cases a.getLast? <;> rfl

/-- A word behind others is in the text. -/
theorem occursFrom_append {a : Text} (h : occursFrom word (a.getLast?.or previous) t = true) :
    occursFrom word previous (a ++ t) = true := by
  induction a generalizing previous with
  | nil => exact h
  | cons c a ih =>
    rw [getLast?_cons_or] at h
    rw [List.cons_append, occursFrom, ih h, Bool.or_true]

/-- A word at the start of a text occurs in it. -/
theorem occursFrom_of_wordAt (hne : word ≠ []) (h : wordAt word previous t = true) :
    occursFrom word previous t = true := by
  cases t with
  | nil =>
    obtain ⟨_, r, heq, _⟩ := wordAt_eq_true_iff.1 h
    exact absurd (List.append_eq_nil_iff.1 heq.symm).1 hne
  | cons c t => rw [occursFrom, h, Bool.true_or]

/-- Where no word starts a character stays. -/
theorem replaceFrom_cons (h : wordAt word previous (c :: r) = false) :
    replaceFrom word replacement previous 0 (c :: r) =
      c :: replaceFrom word replacement (some c) 0 r := by
  simp only [replaceFrom, h, Bool.false_eq_true, if_false]

/-- The characters of a word that was replaced are passed over. -/
theorem replaceFrom_skip (a : Text) :
    replaceFrom word replacement previous a.length (a ++ t) =
      replaceFrom word replacement (a.getLast?.or previous) 0 t := by
  induction a generalizing previous with
  | nil => rfl
  | cons c a ih => rw [getLast?_cons_or, ← ih]; rfl

/-- A word that stands at the start is replaced. -/
theorem replaceFrom_word (hne : word ≠ []) (h : wordAt word previous (word ++ r) = true) :
    replaceFrom word replacement previous 0 (word ++ r) =
      replacement ++ replaceFrom word replacement word.getLast? 0 r := by
  cases word with
  | nil => exact absurd rfl hne
  | cons c word =>
    have hlast : word.getLast?.or (some c) = (c :: word).getLast? := by
      rw [← getLast?_cons_or, Option.or_none]
    rw [List.cons_append] at h ⊢
    rw [replaceFrom, if_pos h, List.length_cons, Nat.add_sub_cancel, replaceFrom_skip, hlast]

/-- Characters that start no word are passed over. -/
theorem replaceFrom_append (hne : word ≠ []) {a : Text} (h : ∀ c ∈ a, word.head? ≠ some c) :
    replaceFrom word replacement previous 0 (a ++ t) =
      a ++ replaceFrom word replacement (a.getLast?.or previous) 0 t := by
  induction a generalizing previous with
  | nil => rfl
  | cons c a ih =>
    obtain ⟨hc, ha⟩ := List.forall_mem_cons.1 h
    rw [List.cons_append, replaceFrom_cons (wordAt_cons_of_ne hc hne), ih ha, getLast?_cons_or]
    rfl

end Words

/-- A piece of code as the substitution sees it. -/
inductive Piece where
  /-- A character that stays. -/
  | kept (c : Char)
  /-- A word for the URL. -/
  | url
  /-- A word for the meta object. -/
  | object
  deriving DecidableEq, Repr

namespace Piece

/-- The piece as it stands in the code. -/
def source : Piece → Text
  | kept c => [c]
  | url => urlWord
  | object => objectWord

/-- The piece with what stands for the meta object in its place. -/
def filled (s : Substitution) : Piece → Text
  | kept c => [c]
  | url => s.url
  | object => s.object

end Piece

/-- The pieces of a text behind a character: every whole word for the URL, every
other whole word for the meta object, and the characters between them. -/
inductive Pieces : Option Char → Text → List Piece → Prop where
  /-- Nothing is left. -/
  | nil (previous : Option Char) : Pieces previous [] []
  /-- A word for the URL stands here. -/
  | url {previous : Option Char} {r : Text} {pieces : List Piece}
    (word : wordAt urlWord previous (urlWord ++ r) = true) (more : Pieces (some 'l') r pieces) :
    Pieces previous (urlWord ++ r) (.url :: pieces)
  /-- A word for the meta object stands here that is no word for the URL. -/
  | object {previous : Option Char} {r : Text} {pieces : List Piece}
    (word : wordAt objectWord previous (objectWord ++ r) = true)
    (other : wordAt urlWord previous (objectWord ++ r) = false)
    (more : Pieces (some 'a') r pieces) : Pieces previous (objectWord ++ r) (.object :: pieces)
  /-- Neither stands here. -/
  | kept {previous : Option Char} {c : Char} {r : Text} {pieces : List Piece}
    (url : wordAt urlWord previous (c :: r) = false)
    (object : wordAt objectWord previous (c :: r) = false) (more : Pieces (some c) r pieces) :
    Pieces previous (c :: r) (.kept c :: pieces)

namespace Pieces

variable {previous : Option Char} {t r : Text} {pieces : List Piece} {s : Substitution}

/-- Every text is cut into pieces. -/
theorem exists_pieces (previous : Option Char) (t : Text) : ∃ pieces, Pieces previous t pieces := by
  have hshorter : ∀ {word r : Text}, word ≠ [] → r.length < (word ++ r).length := by
    intro word r hne
    rw [List.length_append]
    exact Nat.lt_add_of_pos_left (List.length_pos_iff.2 hne)
  induction hn : t.length using Nat.strongRecOn generalizing previous t with
  | ind n ih =>
    subst hn
    cases hurl : wordAt urlWord previous t with
    | true =>
      obtain ⟨_, r, rfl, _⟩ := wordAt_eq_true_iff.1 hurl
      obtain ⟨pieces, hp⟩ := ih r.length (hshorter (by decide)) (some 'l') r rfl
      exact ⟨_, .url hurl hp⟩
    | false =>
      cases hobject : wordAt objectWord previous t with
      | true =>
        obtain ⟨_, r, rfl, _⟩ := wordAt_eq_true_iff.1 hobject
        obtain ⟨pieces, hp⟩ := ih r.length (hshorter (by decide)) (some 'a') r rfl
        exact ⟨_, .object hobject hurl hp⟩
      | false =>
        cases t with
        | nil => exact ⟨[], .nil previous⟩
        | cons c r =>
          obtain ⟨pieces, hp⟩ := ih r.length (Nat.lt_succ_self _) (some c) r rfl
          exact ⟨_, .kept hurl hobject hp⟩

/-- The pieces are the text. -/
theorem source_eq (h : Pieces previous t pieces) : pieces.flatMap Piece.source = t := by
  induction h with
  | nil => rfl
  | url _ _ ih => rw [List.flatMap_cons, ih]; rfl
  | object _ _ _ ih => rw [List.flatMap_cons, ih]; rfl
  | kept _ _ _ ih => rw [List.flatMap_cons, ih]; rfl

/-- A piece for the URL is a word of the text. -/
theorem occursFrom_urlWord (h : Pieces previous t pieces) (hm : .url ∈ pieces) :
    occursFrom urlWord previous t = true := by
  induction h with
  | nil => cases hm
  | url word _ _ => exact occursFrom_of_wordAt (by decide) word
  | object _ _ _ ih =>
    rcases List.mem_cons.1 hm with hm | hm
    · cases hm
    · exact occursFrom_append (a := objectWord) (ih hm)
  | kept _ _ _ ih =>
    rcases List.mem_cons.1 hm with hm | hm
    · cases hm
    · rw [occursFrom, ih hm, Bool.or_true]

/-- The word for the URL starts with that for the meta object. -/
theorem wordAt_objectWord (h : wordAt urlWord previous t = true) :
    wordAt objectWord previous t = true := by
  obtain ⟨hstart, r, rfl, _⟩ := wordAt_eq_true_iff.1 h
  exact wordAt_eq_true_iff.2 ⟨hstart, ".url".toList ++ r, rfl, rfl⟩

/-- Every piece but a kept character is a word of the text. -/
theorem occursFrom_objectWord (h : Pieces previous t pieces)
    (hm : .url ∈ pieces ∨ .object ∈ pieces) : occursFrom objectWord previous t = true := by
  induction h with
  | nil => simp at hm
  | url word _ _ => exact occursFrom_of_wordAt (by decide) (wordAt_objectWord word)
  | object word _ _ _ => exact occursFrom_of_wordAt (by decide) word
  | kept _ _ _ ih => rw [occursFrom, ih (by simpa using hm), Bool.or_true]

/-- Without a word every piece is kept. -/
theorem filled_of_not_occurs (h : Pieces previous t pieces)
    (ho : occursFrom objectWord previous t = false) (s : Substitution) :
    pieces.flatMap (Piece.filled s) = t := by
  have hkept : ∀ p ∈ pieces, p.filled s = p.source := by
    intro p hp
    have hword := mt h.occursFrom_objectWord (by simp [ho])
    cases p with
    | kept c => rfl
    | url => exact absurd (.inl hp) hword
    | object => exact absurd (.inr hp) hword
  rw [List.flatMap_congr hkept, h.source_eq]

/-- Behind a character of a word no word starts. -/
theorem atWordEnd_filled (h : Pieces previous t pieces) (hp : wordMayStart previous = false) :
    atWordEnd (pieces.flatMap (Piece.filled s)) = atWordEnd t := by
  cases h with
  | nil => rfl
  | url word _ =>
    rw [(wordAt_eq_true_iff.1 word).1] at hp
    cases hp
  | object word _ _ =>
    rw [(wordAt_eq_true_iff.1 word).1] at hp
    cases hp
  | kept => rfl

end Pieces

/-- A text for the URL that the second pass leaves as it is: it is quoted, and no
word for the meta object stands in it. -/
structure Settled (url : Text) : Prop where
  /-- It is in double quotes. -/
  quoted : ∃ inner, url = '"' :: (inner ++ ['"'])
  /-- No word stands in it. -/
  free : occurs objectWord url = false

section Settled

variable {word object url r v : Text} {previous : Option Char} {d : Char}

/-- Behind a character that the word does not have no word goes on. -/
theorem wordAt_of_append (hd : d ∉ word) (h : wordAt word previous (v ++ [d] ++ r) = true) :
    wordAt word previous (v ++ [d]) = true := by
  obtain ⟨hstart, rest, heq, hend⟩ := wordAt_eq_true_iff.1 h
  rcases List.append_eq_append_iff.1 heq with ⟨more, hword, _⟩ | ⟨more, hv, hrest⟩
  · exact absurd (by rw [hword]; simp) hd
  · refine wordAt_eq_true_iff.2 ⟨hstart, more, hv, ?_⟩
    cases more with
    | nil => exact absurd (by rw [← List.append_nil word, ← hv]; simp) hd
    | cons c more =>
      rw [hrest, List.cons_append] at hend
      exact hend

/-- Without a word in it a quoted text is passed over. -/
theorem replaceFrom_quoted (h : occursFrom objectWord previous (v ++ ['"']) = false) :
    replaceFrom objectWord object previous 0 (v ++ ['"'] ++ r) =
      v ++ ['"'] ++ replaceFrom objectWord object (some '"') 0 r := by
  induction v generalizing previous with
  | nil => exact replaceFrom_cons (wordAt_cons_of_ne (by decide) (by decide))
  | cons c v ih =>
    rw [List.cons_append, occursFrom, Bool.or_eq_false_iff] at h
    have hword : wordAt objectWord previous (c :: (v ++ ['"'] ++ r)) = false := by
      rw [Bool.eq_false_iff] at h ⊢
      exact fun hw => h.1 (wordAt_of_append (v := c :: v) (by decide) hw)
    rw [List.cons_append, List.cons_append, replaceFrom_cons hword, ih h.2]
    rfl

/-- A settled URL is passed over. -/
theorem Settled.replaceFrom_append (h : Settled url) :
    replaceFrom objectWord object previous 0 (url ++ r) =
      url ++ replaceFrom objectWord object (some '"') 0 r := by
  obtain ⟨inner, rfl⟩ := h.quoted
  have hfree := h.free
  have hquote : ∀ previous : Option Char, ∀ t, wordAt objectWord previous ('"' :: t) = false :=
    fun _ _ => wordAt_cons_of_ne (by decide) (by decide)
  rw [occurs, occursFrom, hquote, Bool.false_or] at hfree
  rw [List.cons_append, replaceFrom_cons (hquote _ _), replaceFrom_quoted hfree]
  rfl

end Settled

/-- The substitution of the first pass. -/
def Substitution.first (s : Substitution) : Substitution := ⟨s.url, objectWord⟩

namespace Pieces

variable {previous : Option Char} {t r : Text} {pieces : List Piece} {s : Substitution}

/-- The first pass fills the words for the URL. -/
theorem replace_urlWord (h : Pieces previous t pieces) (s : Substitution) :
    replaceFrom urlWord s.url previous 0 t = pieces.flatMap (Piece.filled s.first) := by
  induction h with
  | nil => rfl
  | url word _ ih =>
    have hlast : urlWord.getLast? = some 'l' := by decide
    rw [replaceFrom_word (by decide) word, hlast, ih]
    rfl
  | @object previous r pieces word other _ ih =>
    have hsplit : objectWord ++ r = 'i' :: ("mport.meta".toList ++ r) := rfl
    have hlast : "mport.meta".toList.getLast?.or (some 'i') = some 'a' := by decide
    rw [hsplit] at other ⊢
    rw [replaceFrom_cons other, replaceFrom_append (by decide) (by decide), hlast, ih]
    rfl
  | kept url _ _ ih =>
    rw [replaceFrom_cons url, ih]
    rfl

/-- What the first pass leaves of a word is the word. -/
theorem exists_of_first_append (h : Pieces previous t pieces)
    (hs : .url ∈ pieces → Settled s.url) {w rest : Text} (hw : ∀ c ∈ w, c ≠ 'i' ∧ c ≠ '"')
    (heq : pieces.flatMap (Piece.filled s.first) = w ++ rest) :
    ∃ r more, t = w ++ r ∧ Pieces (w.getLast?.or previous) r more ∧
      more.flatMap (Piece.filled s.first) = rest := by
  induction w generalizing previous t pieces with
  | nil => exact ⟨t, pieces, rfl, h, heq⟩
  | cons c w ih =>
    obtain ⟨⟨hi, hquote⟩, hrestw⟩ := List.forall_mem_cons.1 hw
    cases h with
    | nil => cases heq
    | url word _ =>
      obtain ⟨inner, hinner⟩ := (hs List.mem_cons_self).quoted
      have hfirst : s.first.url = '"' :: (inner ++ ['"']) := hinner
      rw [List.flatMap_cons, Piece.filled, hfirst, List.cons_append] at heq
      exact absurd (List.cons.inj heq).1.symm hquote
    | object => exact absurd (List.cons.inj heq).1.symm hi
    | kept _ _ more =>
      obtain ⟨rfl, hrest⟩ := List.cons.inj heq
      obtain ⟨r, left, rfl, hleft, hfilled⟩ :=
        ih more (fun hm => hs (List.mem_cons_of_mem _ hm)) hrestw hrest
      rw [getLast?_cons_or]
      exact ⟨r, left, rfl, hleft, hfilled⟩

/-- A kept character starts no word after the first pass either. -/
theorem wordAt_first {c : Char} (h : Pieces (some c) r pieces)
    (hs : .url ∈ pieces → Settled s.url) (hkept : wordAt objectWord previous (c :: r) = false) :
    wordAt objectWord previous (c :: pieces.flatMap (Piece.filled s.first)) = false := by
  rw [Bool.eq_false_iff] at hkept ⊢
  intro hword
  obtain ⟨hstart, rest, heq, hend⟩ := wordAt_eq_true_iff.1 hword
  have hsplit : objectWord ++ rest = 'i' :: ("mport.meta".toList ++ rest) := rfl
  rw [hsplit] at heq
  obtain ⟨rfl, htail⟩ := List.cons.inj heq
  obtain ⟨r', more, rfl, hmore, rfl⟩ := h.exists_of_first_append hs (by decide) htail
  rw [hmore.atWordEnd_filled (by decide)] at hend
  exact hkept (wordAt_eq_true_iff.2 ⟨hstart, r', rfl, hend⟩)

/-- The second pass fills the other words. What stands before a piece may have
been filled, but then the piece is no word. -/
theorem replace_objectWord (h : Pieces previous t pieces) (hs : .url ∈ pieces → Settled s.url)
    {before : Option Char} (hb : before = previous ∨ atWordEnd t = true) :
    replaceFrom objectWord s.object before 0 (pieces.flatMap (Piece.filled s.first)) =
      pieces.flatMap (Piece.filled s) := by
  induction h generalizing before with
  | nil => rfl
  | @url previous r pieces word _ ih =>
    obtain ⟨_, r', heq, hend⟩ := wordAt_eq_true_iff.1 word
    obtain rfl := List.append_cancel_left heq
    have hmore := @ih (fun hm => hs (List.mem_cons_of_mem _ hm)) (some '"') (.inr hend)
    have hfirst : Piece.filled s.first .url = s.url := rfl
    rw [List.flatMap_cons, hfirst, (hs List.mem_cons_self).replaceFrom_append, hmore]
    rfl
  | @object previous r pieces word _ more ih =>
    obtain ⟨hstart, r', heq, hend⟩ := wordAt_eq_true_iff.1 word
    obtain rfl := List.append_cancel_left heq
    obtain rfl : before = previous := hb.resolve_right fun hend => Bool.false_ne_true hend
    have hmore := @ih (fun hm => hs (List.mem_cons_of_mem _ hm)) (some 'a') (.inl rfl)
    have hword : wordAt objectWord before
        (objectWord ++ pieces.flatMap (Piece.filled s.first)) = true := by
      refine wordAt_eq_true_iff.2 ⟨hstart, _, rfl, ?_⟩
      rw [more.atWordEnd_filled (by decide), hend]
    have hfirst : Piece.filled s.first .object = objectWord := rfl
    have hlast : objectWord.getLast? = some 'a' := by decide
    rw [List.flatMap_cons, hfirst, replaceFrom_word (by decide) hword, hlast, hmore]
    rfl
  | @kept previous c r pieces _ object more ih =>
    have hs' : .url ∈ pieces → Settled s.url := fun hm => hs (List.mem_cons_of_mem _ hm)
    have hword : wordAt objectWord before (c :: r) = false := by
      rcases hb with rfl | hend
      · exact object
      · rw [Bool.eq_false_iff]
        intro hw
        obtain ⟨_, rest, heq, _⟩ := wordAt_eq_true_iff.1 hw
        rw [heq] at hend
        cases hend
    have hfirst : Piece.filled s.first (.kept c) = [c] := rfl
    rw [List.flatMap_cons, hfirst, List.singleton_append,
      replaceFrom_cons (more.wordAt_first hs' hword), ih hs' (.inl rfl)]
    rfl

/-- The two passes fill every piece once. -/
theorem apply_eq (h : Pieces none t pieces) (hs : .url ∈ pieces → Settled s.url) :
    s.apply t = pieces.flatMap (Piece.filled s) := by
  have hfirst := h.replace_urlWord s
  have hsecond := h.replace_objectWord hs (.inl rfl)
  rw [← hfirst] at hsecond
  exact hsecond

end Pieces

end ModuleScripts.Meta
