import Mathlib.Data.List.DropRight
import ModuleScripts.Text.Blank
import ModuleScripts.Text.CharClass

/-!
# Trimmed texts

Trimming a text that goes on behind a visible character trims only what goes
on. A blank is neither part of a word nor a quote nor a bracket, so nothing
that a statement is recognised by is ever trimmed away.
-/

namespace ModuleScripts

/-- The code points of the blanks. -/
def blankCodes : List Nat :=
  List.range' 9 5 ++ List.range' 28 5 ++ List.range' 0x2000 11 ++
    [0x85, 0xA0, 0x1680, 0x2028, 0x2029, 0x202F, 0x205F, 0x3000]

/-- A blank has one of the codes of blanks. -/
theorem toNat_mem_blankCodes {c : Char} (h : isBlank c = true) : c.toNat ∈ blankCodes := by
  simp only [isBlank, Bool.or_eq_true, Bool.and_eq_true, decide_eq_true_eq, beq_iff_eq] at h
  simp only [blankCodes, List.mem_append, List.mem_range'_1, List.mem_cons, List.not_mem_nil,
    or_false]
  omega

/-- Blanks are a finite set, so a test of characters is settled on them by
looking at each. -/
theorem of_isBlank {p : Char → Prop} {c : Char} (h : isBlank c = true)
    (hp : ∀ n ∈ blankCodes, p (Char.ofNat n)) : p c := by
  have hc := hp c.toNat (toNat_mem_blankCodes h)
  rwa [Char.ofNat_toNat] at hc

/-- No blank is a word character. -/
theorem isWord_of_isBlank {c : Char} (h : isBlank c = true) : isWord c = false :=
  of_isBlank (p := fun c => isWord c = false) h (by decide +kernel)

namespace Text

/-- The last character of the text is there and is not blank. -/
def EndsSolid (t : Text) : Prop := ∃ start c, t = start ++ [c] ∧ isBlank c = false

/-- A text that ends visibly does so behind another text. -/
theorem EndsSolid.append {t : Text} (h : EndsSolid t) (before : Text) :
    EndsSolid (before ++ t) := by
  obtain ⟨start, c, rfl, hc⟩ := h
  exact ⟨before ++ start, c, (List.append_assoc _ _ _).symm, hc⟩

/-- A visible character ends visibly. -/
theorem endsSolid_singleton {c : Char} (h : isBlank c = false) : EndsSolid [c] := ⟨[], c, rfl, h⟩

/-- Behind a visible character only what follows it is trimmed. -/
theorem trimEnd_append {t : Text} (h : EndsSolid t) (more : Text) :
    trimEnd (t ++ more) = t ++ trimEnd more := by
  obtain ⟨start, c, rfl, hc⟩ := h
  unfold trimEnd
  rw [List.reverse_append, List.dropWhile_append]
  split
  · next hm =>
    rw [List.isEmpty_iff.1 hm]
    simp [hc]
  · simp

/-- A text without blanks at its start has none to trim. -/
theorem trimStart_trimStart (t : Text) : trimStart (trimStart t) = trimStart t :=
  List.dropWhile_idempotent isBlank t

/-- A blank at the start is dropped. -/
theorem trimStart_cons_of_isBlank {c : Char} (h : isBlank c = true) (r : Text) :
    trimStart (c :: r) = trimStart r := List.dropWhile_cons_of_pos h

/-- A visible character at the start is kept. -/
theorem trimStart_cons_of_not_isBlank {c : Char} (h : isBlank c = false) (r : Text) :
    trimStart (c :: r) = c :: r := List.dropWhile_cons_of_neg (by simp [h])

end Text

end ModuleScripts
