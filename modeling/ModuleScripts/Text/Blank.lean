import ModuleScripts.Text.Basic

/-!
# Blank characters and trimming

One set of blanks serves trimming, the gaps between the words of a statement
and the space around a script body. A text is its leading blanks, its trimmed
middle and its trailing blanks.
-/

namespace ModuleScripts

/-- White space: the control characters that separate lines and fields, the
spaces of every width, and the line and paragraph separators. The zero-width
space and the byte order mark are not blank. -/
def isBlank (c : Char) : Bool :=
  let n := c.toNat
  (9 ≤ n && n ≤ 13) || (28 ≤ n && n ≤ 32) || n == 0x85 || n == 0xA0 || n == 0x1680 ||
    (0x2000 ≤ n && n ≤ 0x200A) || n == 0x2028 || n == 0x2029 || n == 0x202F || n == 0x205F ||
    n == 0x3000

namespace Text

/-- Every character is blank; true of the empty text. -/
def allBlank (t : Text) : Bool := t.all isBlank

/-- The maximal run of blanks at the start. -/
def leading (t : Text) : Text := t.takeWhile isBlank

/-- The text without the blanks at its start. -/
def trimStart (t : Text) : Text := t.dropWhile isBlank

/-- The maximal run of blanks at the end. -/
def trailing (t : Text) : Text := (t.reverse.takeWhile isBlank).reverse

/-- The text without the blanks at its end. -/
def trimEnd (t : Text) : Text := (t.reverse.dropWhile isBlank).reverse

/-- The text without the blanks at both ends. -/
def trim (t : Text) : Text := trimEnd (trimStart t)

/-- The white space at the start and the rest make up the text. -/
theorem leading_append_trimStart (t : Text) : leading t ++ trimStart t = t :=
  List.takeWhile_append_dropWhile

/-- The text without its last white space and that white space make up the
text. -/
theorem trimEnd_append_trailing (t : Text) : trimEnd t ++ trailing t = t := by
  unfold trimEnd trailing
  rw [← List.reverse_append, List.takeWhile_append_dropWhile, List.reverse_reverse]

/-- `inner`, trimmed, inside the blanks that surround `outer`. An all-blank
`outer` counts as leading blanks only, so its blanks are not doubled. -/
def surroundLike (outer inner : Text) : Text :=
  if allBlank outer then outer ++ trim inner
  else leading outer ++ trim inner ++ trailing outer

end Text

end ModuleScripts
