import ModuleScripts.Text.Quoting

/-!
# Files and file errors

A path is written in a normal form before it is used. Reading answers with a
text or with the reason why there is none.
-/

namespace ModuleScripts

/-- Why a path cannot be read. -/
inductive FileFault where
  /-- Nothing has this name. -/
  | missing
  /-- It names a directory. -/
  | isDirectory
  /-- One of its directories is a file. -/
  | notDirectory
  /-- It is longer than a path can be, or one of its parts longer than a name. -/
  | nameTooLong
  /-- It holds the null character, so that the system is not even asked. -/
  | nullCharacter
  deriving DecidableEq, Repr

/-- A file that cannot be read. -/
structure FileError where
  /-- The reason. -/
  fault : FileFault
  /-- The path as it was asked for. -/
  path : Text
  deriving DecidableEq, Repr

namespace FileFault

/-- The number and the words of the system for a reason, if it is one of the
system. -/
def report? : FileFault → Option (Nat × Text)
  | missing => some (2, "No such file or directory".toList)
  | isDirectory => some (21, "Is a directory".toList)
  | notDirectory => some (20, "Not a directory".toList)
  | nameTooLong => some (36, "File name too long".toList)
  | nullCharacter => none

end FileFault

/-- The message about a file that cannot be read. -/
def FileError.message (e : FileError) : Text :=
  match e.fault.report? with
  | some (number, words) =>
    "[Errno ".toList ++ Text.ofNat number ++ "] ".toList ++ words ++ ": ".toList ++
      Text.display e.path
  | none => "embedded null byte".toList

/-- The text of a file with every line ending as one line feed. -/
def normalizeLineEndings : Text → Text
  | [] => []
  | c :: r =>
    if c = '\r' then
      if r.head? = some '\n' then normalizeLineEndings r else '\n' :: normalizeLineEndings r
    else c :: normalizeLineEndings r

/-- A path in normal form: a root of no, one or two slashes, and the parts. -/
structure Path where
  /-- The slashes at the start. -/
  root : Text
  /-- The names between slashes. A single dot is no part. -/
  parts : List Text
  deriving DecidableEq, Repr

namespace Path

/-- The root of a path as written. Exactly two slashes stay two. -/
def rootOf (t : Text) : Text :=
  match (t.takeWhile (· = '/')).length with
  | 0 => []
  | 2 => ['/', '/']
  | _ => ['/']

/-- The path as written, without empty parts and single dots. -/
def ofText (t : Text) : Path :=
  ⟨rootOf t, (List.splitOn '/' t).filter fun part => !part.isEmpty && part != ['.']⟩

/-- The written form of a path, a dot for the empty one. -/
def toText (p : Path) : Text :=
  if p.root.isEmpty && p.parts.isEmpty then ['.']
  else p.root ++ List.intercalate ['/'] p.parts

/-- The most bytes that a part of a path can have. -/
def longestPart : Nat := 255

/-- The most bytes that a path can have. -/
def longestPath : Nat := 4095

/-- Why a path cannot be used, wherever it leads. -/
def fault? (p : Path) : Option FileFault :=
  if p.toText.contains '\x00' then some .nullCharacter
  else if longestPath < Text.byteCount p.toText then some .nameTooLong
  else none

/-- A home directory without the slashes at its end. -/
def ofHome (home : Text) : Path :=
  let kept := (home.reverse.dropWhile (· = '/')).reverse
  ofText (if kept.isEmpty then ['/'] else kept)

/-- The path with a leading tilde replaced by a home directory. -/
def expandHome (home : Option Text) (p : Path) : Path :=
  match p.root, p.parts, home with
  | [], ['~'] :: parts, some home =>
    let base := ofHome home
    ⟨base.root, base.parts ++ parts⟩
  | _, _, _ => p

/-- The parts without those that a double dot takes back. -/
def resolveParts (done : List Text) : List Text → List Text
  | [] => done.reverse
  | part :: parts =>
    if part = ['.', '.'] then resolveParts done.tail parts else resolveParts (part :: done) parts

end Path

end ModuleScripts
