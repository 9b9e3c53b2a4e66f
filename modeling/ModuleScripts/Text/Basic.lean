/-!
# Texts as lists of characters

A text is a list of characters, so that cutting a text in two is an equation
between appends and every scan over it is a structural recursion. This module
holds the cuts that need no character class: the lines of a text, the part after
the last separator, and replacing the last occurrence.
-/

namespace ModuleScripts

/-- A sequence of Unicode code points. -/
abbrev Text := List Char

/-- Whether all characters of a text fit is decided by going through the text,
not through all characters there are. -/
instance decidableForallMem (p : Char → Prop) [DecidablePred p] (t : Text) :
    Decidable (∀ c ∈ t, p c) :=
  List.decidableBAll p t

namespace Text

/-- A character that is no separator belongs to the first piece. -/
theorem splitOn_cons_of_ne {separator c : Char} (hc : c ≠ separator) {r piece : Text}
    {pieces : List Text} (h : r.splitOn separator = piece :: pieces) :
    (c :: r).splitOn separator = (c :: piece) :: pieces := by
  rw [List.splitOn_cons_eq_if_modifyHead, if_neg (by simpa using hc), h]
  rfl

/-- A separator ends an empty piece. -/
theorem splitOn_cons_self (separator : Char) (r : Text) :
    (separator :: r).splitOn separator = [] :: r.splitOn separator :=
  List.splitOn_append_cons_self [] r

/-- The lines of a text. Only the line feed ends a line. -/
def lines (t : Text) : List Text := t.splitOn '\n'

/-- Number of line feeds. -/
def lineFeeds (t : Text) : Nat := t.count '\n'

/-- Line feeds are counted part by part. -/
theorem lineFeeds_append (a b : Text) : lineFeeds (a ++ b) = lineFeeds a + lineFeeds b :=
  List.count_append

/-- A text without a line feed counts none. -/
theorem lineFeeds_of_oneLine {t : Text} (h : '\n' ∉ t) : lineFeeds t = 0 := List.count_eq_zero.2 h

/-- A text without a line feed adds none to the count. -/
theorem lineFeeds_append_oneLine (a : Text) {l : Text} (h : '\n' ∉ l) :
    lineFeeds (a ++ l) = lineFeeds a := by
  rw [lineFeeds_append, lineFeeds_of_oneLine h, Nat.add_zero]

/-- The part after the last separator, or the whole text without one. -/
def afterLast (separator : Char) (t : Text) : Text :=
  (t.reverse.takeWhile (· ≠ separator)).reverse

/-- What follows a given start of a text, or nothing when the text starts
otherwise. -/
def dropPrefix? : Text → Text → Option Text
  | [], t => some t
  | _ :: _, [] => none
  | p :: start, c :: r => if p = c then dropPrefix? start r else none

/-- A prefix drops exactly when the text starts with it, and leaves what
follows. -/
theorem dropPrefix?_eq_some_iff {start t r : Text} :
    dropPrefix? start t = some r ↔ t = start ++ r := by
  induction start generalizing t with
  | nil => simp [dropPrefix?, eq_comm]
  | cons p start ih =>
    cases t with
    | nil => simp [dropPrefix?]
    | cons c t =>
      by_cases h : p = c
      · subst h; simp [dropPrefix?, ih]
      · simp [dropPrefix?, h, eq_comm]

/-- Whether a text starts with another. -/
def startsWith (start t : Text) : Bool := (dropPrefix? start t).isSome

/-- The text with the last occurrence of `needle` replaced, or nothing when
`needle` does not occur. -/
def replaceLast? (needle replacement : Text) : Text → Option Text
  | [] => none
  | c :: r =>
    match replaceLast? needle replacement r with
    | some replaced => some (c :: replaced)
    | none => (dropPrefix? needle (c :: r)).map (replacement ++ ·)

/-- What is replaced was there, and all else stays. -/
theorem replaceLast?_eq_some {needle replacement t u : Text}
    (h : replaceLast? needle replacement t = some u) :
    ∃ before behind, t = before ++ (needle ++ behind) ∧ u = before ++ (replacement ++ behind) := by
  induction t generalizing u with
  | nil => cases h
  | cons c t ih =>
    unfold replaceLast? at h
    split at h
    · next replaced hr =>
      cases h
      obtain ⟨before, behind, rfl, rfl⟩ := ih hr
      exact ⟨c :: before, behind, rfl, rfl⟩
    · obtain ⟨behind, hd, rfl⟩ := Option.map_eq_some_iff.1 h
      have hstart : c :: t = needle ++ behind := dropPrefix?_eq_some_iff.1 hd
      exact ⟨[], behind, hstart, rfl⟩

/-- Number of bytes of a text in UTF-8. -/
def byteCount : Text → Nat
  | [] => 0
  | c :: r => c.utf8Size + byteCount r

/-- The decimal digits of a number. -/
def ofNat (n : Nat) : Text := Nat.toDigits 10 n

/-- The lower-case hexadecimal digits of a number, padded with zeros on the
left to at least `width` digits. -/
def ofNatHex (width n : Nat) : Text :=
  let digits := Nat.toDigits 16 n
  List.replicate (width - digits.length) '0' ++ digits

end Text

end ModuleScripts
