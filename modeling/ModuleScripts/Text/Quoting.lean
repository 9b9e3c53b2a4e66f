import ModuleScripts.Text.CharClass

/-!
# Quoted forms of a text

Three ways to write a text between quotes: the ASCII-only double-quoted form
used in generated code, the form shown in messages, and the single-quoted
argument of a stub call.
-/

namespace ModuleScripts.Text

/-- One UTF-16 unit as a four-digit escape. -/
def unitEscape (unit : Nat) : Text := '\\' :: 'u' :: ofNatHex 4 unit

/-- A character inside double quotes, in ASCII. A character above the basic
plane is written as its two surrogate units. -/
def jsonChar (c : Char) : Text :=
  if c = '"' then ['\\', '"']
  else if c = '\\' then ['\\', '\\']
  else if c = '\n' then ['\\', 'n']
  else if c = '\r' then ['\\', 'r']
  else if c = '\t' then ['\\', 't']
  else if c = '\x08' then ['\\', 'b']
  else if c = '\x0c' then ['\\', 'f']
  else if 32 ≤ c.toNat && c.toNat < 127 then [c]
  else if c.toNat < 0x10000 then unitEscape c.toNat
  else
    unitEscape (0xD800 + (c.toNat - 0x10000) / 0x400) ++
      unitEscape (0xDC00 + (c.toNat - 0x10000) % 0x400)

/-- The ASCII-only double-quoted form of a text. -/
def json (t : Text) : Text := '"' :: (t.flatMap jsonChar ++ ['"'])

/-- A list of double-quoted texts in square brackets. -/
def jsonList (items : List Text) : Text :=
  '[' :: (List.intercalate [',', ' '] (items.map json) ++ [']'])

/-- The quote of a message: single, unless the text has a single quote and no
double quote. -/
def displayQuote (t : Text) : Char :=
  if t.contains '\'' && !t.contains '"' then '"' else '\''

/-- A character inside the quotes of a message. What does not print is an
escape as wide as its code point needs. -/
def displayChar (quote c : Char) : Text :=
  if c = quote || c = '\\' then ['\\', c]
  else if c = '\n' then ['\\', 'n']
  else if c = '\r' then ['\\', 'r']
  else if c = '\t' then ['\\', 't']
  else if isPrintable c then [c]
  else if c.toNat < 0x100 then '\\' :: 'x' :: ofNatHex 2 c.toNat
  else if c.toNat < 0x10000 then '\\' :: 'u' :: ofNatHex 4 c.toNat
  else '\\' :: 'U' :: ofNatHex 8 c.toNat

/-- The form in which a message shows a text. -/
def display (t : Text) : Text :=
  let quote := displayQuote t
  quote :: (t.flatMap (displayChar quote) ++ [quote])

/-- A character inside the single-quoted argument of a stub call. -/
def stubChar (c : Char) : Text :=
  if c = '\\' || c = '\'' then ['\\', c] else [c]

/-- The text with every backslash and single quote escaped. -/
def escapeSingle (t : Text) : Text := t.flatMap stubChar

end ModuleScripts.Text
