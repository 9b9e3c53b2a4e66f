import ModuleScripts.Source.Statement
import ModuleScripts.Text.CharClass
import ModuleScripts.Url.Query

/-!
# Specifiers

A specifier that is a path or a URL gets the query parameter. A bare one names
a package and stays as it is.
-/

namespace ModuleScripts.Specifier

/-- A character behind the first letter of a URL scheme. -/
def isSchemePart (c : Char) : Bool :=
  isAsciiLetter c || isDecimal c || c == '+' || c == '.' || c == '-'

/-- Whether a text starts with a URL scheme and its colon. -/
def hasScheme : Text → Bool
  | [] => false
  | c :: r => isAsciiLetter c && (r.dropWhile isSchemePart).head? == some ':'

/-- Whether a specifier is a path or a URL. -/
def isPath (specifier : Text) : Bool :=
  Text.startsWith "./".toList specifier || Text.startsWith "../".toList specifier ||
    Text.startsWith ['/'] specifier || hasScheme specifier

/-- The specifier with the query parameter, if it is a path. -/
def version (param specifier : Text) : Text :=
  if isPath specifier then Url.appendQuery specifier param else specifier

/-- A text between two of the same quote. -/
def quoteWith (quote : Char) (t : Text) : Text := quote :: (t ++ [quote])

/-- The statement with the last quoted `old` replaced. The single-quoted form
is looked for first, the double-quoted one only where there is none. -/
def replaceQuoted (old new statement : Text) : Text :=
  match Text.replaceLast? (quoteWith '\'' old) (quoteWith '\'' new) statement with
  | some replaced => replaced
  | none =>
    (Text.replaceLast? (quoteWith '"' old) (quoteWith '"' new) statement).getD statement

end ModuleScripts.Specifier
