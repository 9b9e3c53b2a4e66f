import ModuleScripts.Dom.Markup
import ModuleScripts.Text.Blank
import ModuleScripts.Text.CharClass

/-!
# Tokens of markup

Markup is a sequence of tags, texts, comments and doctypes. Names are read in
lower case, the common character references are replaced, and the text of a
raw-text element reaches up to its end tag. Nothing is refused: what starts no
token is text.
-/

namespace ModuleScripts.Markup

/-- One token. -/
inductive Token where
  /-- A piece of text. -/
  | text (data : Text)
  /-- A comment. -/
  | comment (data : Text)
  /-- A doctype. -/
  | doctype
  /-- A start tag. -/
  | start (name : Text) (attributes : Attributes)
  /-- An end tag. -/
  | stop (name : Text)
  deriving DecidableEq, Repr

/-- The character references that are replaced. -/
def references : List (Text × Char) :=
  [("&amp;".toList, '&'), ("&lt;".toList, '<'), ("&gt;".toList, '>'), ("&quot;".toList, '"'),
    ("&apos;".toList, '\''), ("&#39;".toList, '\''), ("&nbsp;".toList, '\xa0')]

/-- The character that a reference at the start of a text stands for, and the
length of the reference. -/
def referenceAt? (t : Text) : Option (Char × Nat) :=
  references.findSome? fun r => if Text.startsWith r.1 t then some (r.2, r.1.length) else none

/-- The text with its references replaced, after skipping the rest of one. -/
def unescapeFrom (skip : Nat) : Text → Text
  | [] => []
  | c :: r =>
    match skip with
    | skip + 1 => unescapeFrom skip r
    | 0 =>
      match referenceAt? (c :: r) with
      | some (d, length) => d :: unescapeFrom (length - 1) r
      | none => c :: unescapeFrom 0 r

/-- The text with its references replaced. -/
def unescape (t : Text) : Text := unescapeFrom 0 t

/-- A character of a name in a tag. -/
def isNameChar (c : Char) : Bool := !isBlank c && c != '/' && c != '>'

/-- A character of the name of an attribute. -/
def isAttributeNameChar (c : Char) : Bool := isNameChar c && c != '='

/-- A name in lower case. -/
def lowerName (t : Text) : Text := t.map lowerAscii

/-- The value behind an equals sign, and what follows it. -/
def readValue (t : Text) : Text × Text :=
  match Text.trimStart t with
  | [] => ([], [])
  | c :: r =>
    if c = '"' ∨ c = '\'' then (unescape (r.takeWhile (· ≠ c)), (r.dropWhile (· ≠ c)).tail)
    else
      (unescape ((c :: r).takeWhile fun d => !isBlank d && d != '>'),
        (c :: r).dropWhile fun d => !isBlank d && d != '>')

/-- One attribute, and what follows it. -/
def readAttribute (t : Text) : (Text × Option Text) × Text :=
  let name := lowerName (t.takeWhile isAttributeNameChar)
  let rest := t.dropWhile isAttributeNameChar
  match Text.trimStart rest with
  | '=' :: r => ((name, some (readValue r).1), (readValue r).2)
  | _ => ((name, none), rest)

/-- The attributes of a tag up to its end, and what follows the tag. -/
def readAttributes (found : Attributes) (t : Text) : Attributes × Text :=
  match t.dropWhile fun c => isBlank c || c == '/' with
  | [] => (found, [])
  | c :: r =>
    if c = '>' then (found, r)
    else
      let item := readAttribute (c :: r)
      let found := if found.has item.1.1 then found else found ++ [item.1]
      if _shorter : item.2.length < t.length then readAttributes found item.2 else (found, [])
termination_by t.length
decreasing_by exact _shorter

/-- The part of a text before the first occurrence of a mark and the part
behind it, or the whole text without one. -/
def splitAtWord (mark : Text) : Text → Text × Text
  | [] => ([], [])
  | c :: r =>
    match Text.dropPrefix? mark (c :: r) with
    | some rest => ([], rest)
    | none =>
      let parts := splitAtWord mark r
      (c :: parts.1, parts.2)

/-- The text of a raw-text element of this name, and what follows it from its
end tag on. -/
def splitRawText (name : Text) : Text → Text × Text
  | [] => ([], [])
  | c :: r =>
    if Text.startsWith ("</".toList ++ name) (((c :: r).take (name.length + 2)).map lowerAscii) then
      ([], c :: r)
    else
      let parts := splitRawText name r
      (c :: parts.1, parts.2)

/-- Whether a mark, a letter or a slash behind a less-than sign starts a token. -/
def startsToken : Text → Bool
  | [] => false
  | c :: _ => isAsciiLetter c || c == '/' || c == '!' || c == '?'

/-- What a less-than sign starts, and what follows the token. -/
def readMarkup (t : Text) : Token × Text :=
  match t with
  | '!' :: '-' :: '-' :: r =>
    let parts := splitAtWord "-->".toList r
    (.comment parts.1, parts.2)
  | '!' :: r =>
    let parts := splitAtWord ['>'] r
    if Text.startsWith "doctype".toList (lowerName parts.1) then (.doctype, parts.2)
    else (.comment parts.1, parts.2)
  | '?' :: r =>
    let parts := splitAtWord ['>'] r
    (.comment parts.1, parts.2)
  | '/' :: r =>
    (.stop (lowerName (r.takeWhile isNameChar)), (splitAtWord ['>'] r).2)
  | _ =>
    let tag := readAttributes [] (t.dropWhile isNameChar)
    (.start (lowerName (t.takeWhile isNameChar)) tag.1, tag.2)

/-- The text up to the next token, and what follows it. -/
def readText : Text → Text × Text
  | [] => ([], [])
  | c :: r =>
    if c = '<' ∧ startsToken r then ([], c :: r)
    else
      let parts := readText r
      (c :: parts.1, parts.2)

/-- The first token of a text, with the raw text behind a start tag, and what
follows. -/
def readToken (t : Text) : List Token × Text :=
  match readText t with
  | ([], '<' :: r) =>
    match readMarkup r with
    | (.start name attributes, rest) =>
      if rawTextElements.contains name then
        let parts := splitRawText name rest
        (.start name attributes :: if parts.1.isEmpty then [] else [.text parts.1], parts.2)
      else ([.start name attributes], rest)
    | (token, rest) => ([token], rest)
  | (data, rest) => ([.text (unescape data)], rest)

/-- The tokens of a text. -/
def tokens (t : Text) : List Token :=
  match t with
  | [] => []
  | c :: r =>
    let first := readToken (c :: r)
    if _shorter : first.2.length < (c :: r).length then first.1 ++ tokens first.2 else first.1
termination_by t.length
decreasing_by exact _shorter

end ModuleScripts.Markup
