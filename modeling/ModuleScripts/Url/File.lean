import ModuleScripts.Files
import ModuleScripts.Text.CharClass

/-!
# File URLs

The URL of a file is its resolved path, percent-encoded byte by byte.
-/

namespace ModuleScripts.Url

/-- A character that stands for itself in the path of a file URL. -/
def isUnreserved (c : Char) : Bool :=
  isAsciiLetter c || isAsciiDigit c || c == '_' || c == '.' || c == '-' || c == '~' || c == '/'

/-- One byte as a percent sign and two upper-case digits. -/
def percentByte (byte : UInt8) : Text :=
  '%' :: (Text.ofNatHex 2 byte.toNat).map Char.toUpper

/-- A character in the path of a file URL. -/
def percentChar (c : Char) : Text :=
  if isUnreserved c then [c] else (String.utf8EncodeChar c).flatMap percentByte

/-- The URL of a file whose path is taken from a directory. -/
def ofFile (directory : Path) (file : Path) : Text :=
  let parts := if file.root.isEmpty then directory.parts ++ file.parts else file.parts
  "file://".toList ++ (Path.toText ⟨['/'], Path.resolveParts [] parts⟩).flatMap percentChar

end ModuleScripts.Url
