import ModuleScripts.Files

/-!
# A folder of files

A folder holds files side by side and no folders of its own. It stands for the
current directory of a run. A path is followed part by part: a double dot leads
to a directory above the folder, where nothing else is known, and no way leads
back from there.
-/

namespace ModuleScripts

/-- Files by name. -/
structure Folder where
  /-- Names and texts. -/
  files : List (Text × Text)
  deriving DecidableEq, Repr

namespace Folder

/-- Where a path leads. -/
inductive Target where
  /-- To the folder or to a directory above it. -/
  | directory
  /-- To this name in the folder, whether a file has it or not. -/
  | entry (name : Text)
  /-- To a name that is free in a directory above the folder. -/
  | outside
  deriving DecidableEq, Repr

/-- Follows the parts of a path from the folder, or else from a directory above
it. -/
def follow (folder : Folder) (inFolder : Bool) : List Text → Except FileFault Target
  | [] => .ok .directory
  | part :: parts =>
    if part = ['.', '.'] then follow folder false parts
    else if Path.longestPart < Text.byteCount part then .error .nameTooLong
    else
      match parts with
      | [] => .ok (if inFolder then .entry part else .outside)
      | _ :: _ =>
        if inFolder && (folder.files.lookup part).isSome then .error .notDirectory
        else .error .missing

/-- Where a path leads, if it can be followed. -/
def target (folder : Folder) (path : Path) : Except FileFault Target :=
  match path.fault? with
  | some fault => .error fault
  | none => folder.follow path.root.isEmpty path.parts

/-- The text at a path. -/
def read (folder : Folder) (path : Path) : Except FileFault Text :=
  match folder.target path with
  | .error fault => .error fault
  | .ok .directory => .error .isDirectory
  | .ok .outside => .error .missing
  | .ok (.entry name) =>
    match folder.files.lookup name with
    | some text => .ok text
    | none => .error .missing

/-- Files with a text under a name. A name that is there keeps its place. -/
def putFile (name text : Text) : List (Text × Text) → List (Text × Text)
  | [] => [(name, text)]
  | (key, old) :: rest =>
    if key = name then (key, text) :: rest else (key, old) :: putFile name text rest

/-- The folder with a text written to a path. What is written outside the folder
leaves the folder as it is. -/
def write (folder : Folder) (path : Path) (text : Text) : Except FileFault Folder :=
  match folder.target path with
  | .error fault => .error fault
  | .ok .directory => .error .isDirectory
  | .ok .outside => .ok folder
  | .ok (.entry name) => .ok ⟨putFile name text folder.files⟩

/-- The files of a folder whose names another folder does not have, with their
texts as they are read. -/
def newFiles (before after : Folder) : List (Text × Text) :=
  (after.files.filter fun file => (before.files.lookup file.1).isNone).map fun file =>
    (file.1, normalizeLineEndings file.2)

end Folder

end ModuleScripts
