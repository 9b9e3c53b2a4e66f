import ModuleScripts.Proofs.LexicalContext

/-!
# Gaps between tokens

Between two tokens of an import or an export list stand blanks and comments.
Removing the comments keeps the blanks and the line feed of a line comment, and
goes on behind the gap as if the text started there. So comments are removed
from a text of tokens and gaps piece by piece.
-/

namespace ModuleScripts

open Comments

/-- Blanks only. -/
def Blank (t : Text) : Prop := ∀ c ∈ t, isBlank c = true

instance (t : Text) : Decidable (Blank t) := inferInstanceAs (Decidable (∀ c ∈ t, _))

/-- Blanks and comments, and what is left of them without the comments. -/
inductive Gap : Text → Text → Prop where
  /-- Nothing at all. -/
  | nil : Gap [] []
  /-- A blank. -/
  | blank {c : Char} {t kept : Text} (hc : isBlank c = true) (ht : Gap t kept) :
      Gap (c :: t) (c :: kept)
  /-- A comment up to the end of its line. -/
  | line {body t kept : Text} (hbody : '\n' ∉ body) (ht : Gap t kept) :
      Gap ('/' :: '/' :: (body ++ '\n' :: t)) ('\n' :: kept)
  /-- A comment between its marks. -/
  | block {body t kept : Text} (hbody : hasClosing body = false) (ht : Gap t kept) :
      Gap ('/' :: '*' :: (body ++ '*' :: '/' :: t)) kept

/-- Comment removal leaves `kept` of the text, in front of every other text. -/
def Clears (t kept : Text) : Prop :=
  ∀ more, removeFrom .code (t ++ more) = kept ++ removeFrom .code more

section Blank

variable {a b t : Text}

/-- Two texts are blank together when both are. -/
theorem blank_append : Blank (a ++ b) ↔ Blank a ∧ Blank b := List.forall_mem_append

/-- The empty text is blank. -/
theorem blank_nil : Blank [] := fun _ h => absurd h List.not_mem_nil

/-- A text is blank when its first character and the others are. -/
theorem blank_cons {c : Char} : Blank (c :: t) ↔ isBlank c = true ∧ Blank t := List.forall_mem_cons

/-- A blank text is calm. -/
theorem Blank.calm (h : Blank t) : Calm t := calm_of_isBlank h

/-- No visible character stands in a blank text. -/
theorem Blank.notMem {c : Char} (h : Blank t) (hc : isBlank c = false) : c ∉ t := by
  intro hm
  have := h c hm
  rw [hc] at this
  cases this

/-- No quote stands in a blank text. -/
theorem Blank.quoteFree (h : Blank t) : QuoteFree t := fun c hc => isQuote_of_isBlank (h c hc)

/-- The blanks that are read are blanks. -/
theorem Matcher.blanks_eq_some {r : Text} (h : Matcher.blanks t = some (b, r)) :
    t = b ++ r ∧ Blank b := by
  refine ⟨Matcher.blanks_exact _ _ _ h, ?_⟩
  simp only [Matcher.blanks, Option.some.injEq, Prod.mk.injEq] at h
  rw [← h.1]
  exact List.all_eq_true.1 List.all_takeWhile

/-- The check for blanks finds what is blank. -/
theorem Text.allBlank_iff : allBlank t = true ↔ Blank t := List.all_eq_true

/-- Trimming the start of a blank text leaves nothing. -/
theorem Text.trimStart_blank (h : Blank t) : trimStart t = [] :=
  List.dropWhile_eq_nil_iff.2 h

/-- The white space at the start ends before the first visible character. -/
theorem Text.leading_blank_append (h : Blank b) {c : Char} (hc : isBlank c = false) (t : Text) :
    leading (b ++ c :: t) = b := by
  rw [leading, List.takeWhile_append_of_pos h, List.takeWhile_cons_of_neg (by simp [hc]),
    List.append_nil]

/-- Trimming the start drops the blanks before the first visible character. -/
theorem Text.trimStart_blank_append (h : Blank b) {c : Char} (hc : isBlank c = false) (t : Text) :
    trimStart (b ++ c :: t) = c :: t := by
  rw [trimStart_append_of_blank h, trimStart_cons_of_not_isBlank hc]

/-- Trimming a blank text leaves nothing. -/
theorem Text.trim_blank (h : Blank t) : trim t = [] := by
  rw [trim, trimStart_blank h]
  rfl

/-- Blanks behind a text are trimmed away. -/
theorem Text.trimEnd_append_blank (h : Blank b) (t : Text) : trimEnd (t ++ b) = trimEnd t := by
  have hr : Blank b.reverse := fun c hc => h c (List.mem_reverse.1 hc)
  rw [trimEnd, trimEnd, List.reverse_append, List.dropWhile_append_of_pos hr]

/-- A text with a visible character is trimmed to one that starts with such. -/
theorem Text.exists_trimStart_cons (h : ¬ Blank t) :
    ∃ c r, trimStart t = c :: r ∧ isBlank c = false := by
  cases hs : trimStart t with
  | nil => exact absurd (List.dropWhile_eq_nil_iff.1 hs) h
  | cons c r =>
    have hc := List.head?_dropWhile_not isBlank t
    rw [show t.dropWhile isBlank = c :: r from hs] at hc
    exact ⟨c, r, rfl, by simpa using hc⟩

/-- Blanks around a text are trimmed away. -/
theorem Text.trim_append_blank (ha : Blank a) (hb : Blank b) (t : Text) :
    trim (a ++ (t ++ b)) = trim t := by
  have hstart : trimStart (a ++ (t ++ b)) = trimStart (t ++ b) := trimStart_append_of_blank ha _
  rw [trim, hstart, trim]
  by_cases ht : Blank t
  · rw [trimStart_blank (blank_append.2 ⟨ht, hb⟩), trimStart_blank ht]
  · obtain ⟨blank, hblank, hx⟩ := exists_blank_append t
    obtain ⟨c, r, hs, hc⟩ := exists_trimStart_cons ht
    rw [hs] at hx ⊢
    rw [hx, List.append_assoc, List.cons_append, trimStart_blank_append hblank hc]
    exact trimEnd_append_blank hb (c :: r)

/-- A text that starts and ends with visible characters is what trimming leaves
of it and the blanks around it. -/
theorem Text.trim_blank_append {c d : Char} (ha : Blank a) (hb : Blank b)
    (hc : t.head? = some c) (hd : t.getLast? = some d) (hcs : isBlank c = false)
    (hds : isBlank d = false) : trim (a ++ (t ++ b)) = t := by
  rw [trim_append_blank ha hb]
  obtain ⟨r, rfl⟩ : ∃ r, t = c :: r := by
    cases t with
    | nil => cases hc
    | cons e r => exact ⟨r, by rw [Option.some.inj hc]⟩
  obtain ⟨start, hstart⟩ := List.getLast?_eq_some_iff.1 hd
  have hsolid : EndsSolid (c :: r) := ⟨start, d, hstart, hds⟩
  have hend := trimEnd_append hsolid []
  rw [trim, trimStart_cons_of_not_isBlank hcs]
  rw [List.append_nil] at hend
  rw [hend]
  exact List.append_nil _

end Blank

/-- Blanks behind a text do not start it with a visible character. -/
theorem Text.head?_append_blank {b : Text} (hb : Blank b) {d : Char} (hd : isBlank d = false)
    (t : Text) : (t ++ b).head? = some d ↔ t.head? = some d := by
  cases t with
  | cons c r => rfl
  | nil =>
    cases b with
    | nil => rfl
    | cons c b =>
      have hc : c ≠ d := by
        rintro rfl
        rw [hb _ List.mem_cons_self] at hd
        cases hd
      simp [hc]

namespace Comments

/-- Blanks behind a text change nothing about its comments. -/
theorem hasClosing_append_blank {b : Text} (hb : Blank b) (t : Text) :
    hasClosing (t ++ b) = hasClosing t := by
  have hstar : hasClosing b = false := by
    induction b with
    | nil => rfl
    | cons c r ih =>
      have hc : c ≠ '*' := by
        rintro rfl
        exact absurd (hb _ List.mem_cons_self) (by decide)
      have hr := ih (blank_cons.1 hb).2
      simp [hasClosing, hc, hr]
  induction t with
  | nil => exact hstar
  | cons c r ih =>
    have hhead := Text.head?_append_blank hb (d := '/') rfl r
    simp only [List.cons_append, hasClosing, hhead, ih]

/-- Of blanks only blanks are kept, whatever they stand in. -/
theorem blank_removeFrom (region : Region) {b : Text} (hb : Blank b) :
    Blank (removeFrom region b) := by
  induction b generalizing region with
  | nil => cases region <;> exact blank_nil
  | cons c r ih =>
    obtain ⟨hc, hr⟩ := blank_cons.1 hb
    have hslash : c ≠ '/' := by
      rintro rfl
      cases hc
    have hstar : c ≠ '*' := by
      rintro rfl
      cases hc
    cases region with
    | code =>
      simp only [removeFrom, hslash, false_and, if_false]
      exact blank_cons.2 ⟨hc, ih .code hr⟩
    | line =>
      simp only [removeFrom]
      split
      · exact blank_cons.2 ⟨hc, ih .code hr⟩
      · exact ih .line hr
    | opening => exact ih .block hr
    | block =>
      simp only [removeFrom, hstar, false_and, if_false]
      exact ih .block hr
    | closing => exact ih .code hr

/-- A block comment opens in front of blanks as it does in front of nothing. -/
theorem opensBlock_append_blank {b : Text} (hb : Blank b) (r : Text) :
    ((r ++ b).head? = some '*' ∧ hasClosing (r ++ b).tail = true) ↔
      (r.head? = some '*' ∧ hasClosing r.tail = true) := by
  cases r with
  | nil =>
    have hhead : b.head? ≠ some '*' := fun h =>
      absurd ((Text.head?_append_blank hb (d := '*') rfl []).1 h) (by simp)
    simp [hhead]
  | cons d r =>
    simp only [List.cons_append, List.head?_cons, List.tail_cons, hasClosing_append_blank hb r]

/-- Comment removal leaves blanks of the blanks at the end. -/
theorem removeFrom_append_blank (region : Region) (t : Text) {b : Text} (hb : Blank b) :
    ∃ kept, Blank kept ∧ removeFrom region (t ++ b) = removeFrom region t ++ kept := by
  induction t generalizing region with
  | nil =>
    refine ⟨removeFrom region b, blank_removeFrom region hb, ?_⟩
    cases region <;> rfl
  | cons c r ih =>
    have hslash := Text.head?_append_blank hb (d := '/') rfl r
    cases region with
    | code =>
      simp only [List.cons_append, removeFrom, hslash, opensBlock_append_blank hb r]
      split
      · exact ih .line
      · split
        · exact ih .opening
        · obtain ⟨kept, hkept, heq⟩ := ih .code
          exact ⟨kept, hkept, by rw [heq]; rfl⟩
    | line =>
      simp only [List.cons_append, removeFrom]
      split
      · obtain ⟨kept, hkept, heq⟩ := ih .code
        exact ⟨kept, hkept, by rw [heq]; rfl⟩
      · exact ih .line
    | opening => exact ih .block
    | block =>
      simp only [List.cons_append, removeFrom, hslash]
      split
      · exact ih .closing
      · exact ih .block
    | closing => exact ih .code

/-- A text is left the same without its comments, up to blanks at its ends, if
blanks are taken off its end first. -/
theorem trim_remove_append_blank (t : Text) {b : Text} (hb : Blank b) :
    Text.trim (remove (t ++ b)) = Text.trim (remove t) := by
  obtain ⟨kept, hkept, heq⟩ := removeFrom_append_blank .code t hb
  have htrim := Text.trim_append_blank blank_nil hkept (remove t)
  rw [List.nil_append] at htrim
  rw [remove, heq]
  exact htrim

/-- A text with the mark that ends a comment closes one. -/
theorem hasClosing_append_mark (t r : Text) : hasClosing (t ++ '*' :: '/' :: r) = true := by
  induction t with
  | nil => rfl
  | cons c t ih => simp [hasClosing, ih]

/-- Comment removal drops a line comment and leaves its line feed. -/
theorem removeFrom_line {body : Text} (h : '\n' ∉ body) (r : Text) :
    removeFrom .line (body ++ '\n' :: r) = '\n' :: removeFrom .code r := by
  induction body with
  | nil => rfl
  | cons c body ih =>
    have hc : c ≠ '\n' := fun hc => h (hc ▸ List.mem_cons_self)
    rw [List.cons_append, removeFrom, if_neg hc]
    exact ih fun hm => h (List.mem_cons_of_mem c hm)

/-- Comment removal drops a block comment with both its marks. -/
theorem removeFrom_block {body : Text} (h : hasClosing body = false) (r : Text) :
    removeFrom .block (body ++ '*' :: '/' :: r) = removeFrom .code r := by
  induction body with
  | nil => rfl
  | cons c body ih =>
    simp only [hasClosing, Bool.or_eq_false_iff, Bool.and_eq_false_iff, decide_eq_false_iff_not] at h
    have hopen : ¬(c = '*' ∧ (body ++ '*' :: '/' :: r).head? = some '/') := by
      rintro ⟨hc, hhead⟩
      refine (h.1.resolve_left fun hn => hn hc) ?_
      cases body with
      | nil => cases hhead
      | cons d body => exact hhead
    rw [List.cons_append, removeFrom, if_neg hopen]
    exact ih h.2

end Comments

section Clears

variable {a a' b b' t kept : Text}

/-- Two texts are cleared one after the other. -/
theorem Clears.append (ha : Clears a a') (hb : Clears b b') : Clears (a ++ b) (a' ++ b') := by
  intro more
  rw [List.append_assoc, ha, hb, List.append_assoc]

/-- Without a slash there is no comment. -/
theorem clears_of_notMem (h : '/' ∉ t) : Clears t t := by
  induction t with
  | nil => exact fun _ => rfl
  | cons c r ih =>
    intro more
    have hc : c ≠ '/' := fun hc => h (hc ▸ List.mem_cons_self)
    have hr := ih (fun hm => h (List.mem_cons_of_mem c hm)) more
    rw [List.cons_append, removeFrom, if_neg fun hl => hc hl.1, if_neg fun hl => hc hl.1, hr]
    rfl

/-- A calm text is cleared as it is. -/
theorem clears_of_calm (h : Calm t) : Clears t t := by
  refine clears_of_notMem fun hm => ?_
  exact absurd (h _ hm) (by decide)

/-- Comment removal leaves what a cleared text keeps. -/
theorem Clears.remove_eq (h : Clears t kept) : Comments.remove t = kept := by
  have hnil := h []
  rw [List.append_nil] at hnil
  exact hnil.trans (List.append_nil kept)

/-- What a gap keeps is blank. -/
theorem Gap.blank_kept (h : Gap t kept) : Blank kept := by
  induction h with
  | nil => exact blank_nil
  | blank hc _ ih => exact blank_cons.2 ⟨hc, ih⟩
  | line _ _ ih => exact blank_cons.2 ⟨by decide, ih⟩
  | block _ _ ih => exact ih

/-- Comment removal leaves the blanks of a gap. -/
theorem Gap.clears (h : Gap t kept) : Clears t kept := by
  induction h with
  | nil => exact fun _ => rfl
  | @blank c t kept hc _ ih =>
    have hslash : '/' ∉ [c] := by
      rw [List.mem_singleton]
      rintro rfl
      cases hc
    exact (clears_of_notMem hslash).append ih
  | @line body t kept hbody _ ih =>
    intro more
    have hopen : removeFrom .code ('/' :: '/' :: (body ++ '\n' :: (t ++ more))) =
        removeFrom .line (body ++ '\n' :: (t ++ more)) := by
      simp [removeFrom]
    have htext : '/' :: '/' :: (body ++ '\n' :: t) ++ more =
        '/' :: '/' :: (body ++ '\n' :: (t ++ more)) := by
      simp
    rw [htext, hopen, removeFrom_line hbody, ih]
    rfl
  | @block body t kept hbody _ ih =>
    intro more
    have hopen : removeFrom .code ('/' :: '*' :: (body ++ '*' :: '/' :: (t ++ more))) =
        removeFrom .block (body ++ '*' :: '/' :: (t ++ more)) := by
      simp [removeFrom, hasClosing_append_mark]
    have htext : '/' :: '*' :: (body ++ '*' :: '/' :: t) ++ more =
        '/' :: '*' :: (body ++ '*' :: '/' :: (t ++ more)) := by
      simp
    rw [htext, hopen, removeFrom_block hbody, ih]

/-- Blanks alone are a gap. -/
theorem gap_of_blank (h : Blank t) : Gap t t := by
  induction t with
  | nil => exact .nil
  | cons c r ih => exact .blank (blank_cons.1 h).1 (ih (blank_cons.1 h).2)

end Clears

end ModuleScripts
