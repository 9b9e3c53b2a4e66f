import ModuleScripts.Text.Blank
import ModuleScripts.Url.Reference

/-!
# Resolving references

A reference is resolved against a base URL: what the reference leaves out comes
from the base, and the dots of a merged path are taken out.
-/

namespace ModuleScripts.Url

/-- Path segments with the dots taken out. Two dots take back the segment
before, wherever there is one. -/
def removeDots (done : List Text) : List Text → List Text
  | [] => done.reverse
  | segment :: segments =>
    if segment = ['.', '.'] then removeDots done.tail segments
    else if segment = ['.'] then removeDots done segments
    else removeDots (segment :: done) segments

/-- The segments of a base path that a relative path is appended to: all but
the last, or all when the last is empty. -/
def baseSegments (path : Text) : List Text :=
  let segments := List.splitOn '/' path
  if segments.getLast? = some [] then segments else segments.dropLast

/-- The segments without the empty ones between the first and the last. -/
def dropEmptyInner : List Text → List Text
  | [] => []
  | first :: rest =>
    match rest.getLast? with
    | none => [first]
    | some last => first :: (rest.dropLast.filter fun s => !s.isEmpty) ++ [last]

/-- The segments of a path on top of a base path. -/
def mergeSegments (base path : Text) : List Text :=
  if path.head? = some '/' then List.splitOn '/' path
  else dropEmptyInner (baseSegments base ++ List.splitOn '/' path)

/-- The path of a reference on top of a base path. -/
def mergePath (base path : Text) : Text :=
  let segments := mergeSegments base path
  let kept := removeDots [] segments
  let closed :=
    if segments.getLast? = some ['.'] || segments.getLast? = some ['.', '.'] then kept ++ [[]]
    else kept
  let merged := List.intercalate ['/'] closed
  if merged.isEmpty then ['/'] else merged

namespace Reference

/-- A relative reference with the authority it resolves to, on top of a base
of the same scheme. -/
def onTopOf (base : Reference) (r : Reference) : Reference :=
  if r.path.isEmpty && r.params.isEmpty then
    { r with
      path := base.path
      params := base.params
      query := if r.query.isEmpty then base.query else r.query }
  else { r with path := mergePath base.path r.path }

/-- The text of a reference resolved against a base. One that is not relative to
the base stays as it was written. -/
def resolve (base : Reference) (written : Text) (r : Reference) : Text :=
  if r.scheme ≠ base.scheme || !relativeSchemes.contains r.scheme then written
  else if authoritySchemes.contains r.scheme then
    if !r.authority.isEmpty then r.toText
    else (onTopOf base { r with authority := base.authority }).toText
  else (onTopOf base r).toText

end Reference

/-- Resolves a reference against a base URL, or fails if one of them is
malformed. Where one of them is empty the other is the result. -/
def resolve? (base reference : Text) : Option Text :=
  let written := Text.trim reference
  if base.isEmpty then some written
  else if written.isEmpty then some base
  else
    match Reference.parse? [] base with
    | none => none
    | some b =>
      match Reference.parse? b.scheme written with
      | none => none
      | some r => some (Reference.resolve b written r)

end ModuleScripts.Url
