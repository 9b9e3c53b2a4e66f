import ModuleScripts.Files
import ModuleScripts.Polyfill.Basic
import ModuleScripts.Source.SyntaxError

/-!
# Failures of a transform

Everything that can stop the transform of a document or of one module.
-/

namespace ModuleScripts

/-- A polyfill whose source cannot be read. -/
structure PolyfillError where
  /-- The polyfill. -/
  polyfill : Polyfill
  /-- What is wrong with its file. -/
  cause : FileError
  deriving DecidableEq, Repr

/-- The message about a polyfill that cannot be read. -/
def PolyfillError.message (e : PolyfillError) : Text :=
  "cannot read polyfill ".toList ++ Text.display e.polyfill.name ++ ": ".toList ++ e.cause.message

/-- An escape that no substitution pattern may hold, and where it stands. -/
structure BadEscape where
  /-- The character behind the backslash. -/
  letter : Char
  /-- The place of the backslash in the pattern. -/
  position : Nat
  deriving DecidableEq, Repr

/-- The message about an escape that no substitution pattern may hold. -/
def BadEscape.message (e : BadEscape) : Text :=
  "bad escape \\".toList ++ [e.letter] ++ " at position ".toList ++ Text.ofNat e.position

/-- What stops a transform. -/
inductive Failure where
  /-- A module body cannot be parsed. -/
  | syntaxError (e : SyntaxError)
  /-- The base URL cannot be substituted. -/
  | badEscape (e : BadEscape)
  /-- A polyfill cannot be read. -/
  | polyfill (e : PolyfillError)
  deriving DecidableEq, Repr

/-- The message of a failure. -/
def Failure.message : Failure → Text
  | syntaxError e => e.diagnostic.describe
  | badEscape e => e.message
  | polyfill e => e.message

end ModuleScripts
