import ModuleScripts.Url.Host

/-!
# URL references

A reference has a scheme, an authority, a path, parameters of its last path
segment, a query and a fragment. An empty component is a missing one.
-/

namespace ModuleScripts.Url

/-- The components of a URL reference. -/
structure Reference where
  /-- The scheme in lower case. -/
  scheme : Text
  /-- The host with what belongs to it. -/
  authority : Text
  /-- The path without the parameters of its last segment. -/
  path : Text
  /-- The parameters of the last segment. -/
  params : Text
  /-- The query without its question mark. -/
  query : Text
  /-- The fragment without its number sign. -/
  fragment : Text
  deriving DecidableEq, Repr

/-- The schemes whose references can be relative. -/
def relativeSchemes : List Text :=
  ["", "ftp", "http", "gopher", "nntp", "imap", "wais", "file", "https", "shttp", "mms",
    "prospero", "rtsp", "rtspu", "sftp", "svn", "svn+ssh", "ws", "wss"].map String.toList

/-- The schemes with an authority. -/
def authoritySchemes : List Text :=
  ["", "ftp", "http", "gopher", "nntp", "telnet", "imap", "wais", "file", "mms", "https",
    "shttp", "snews", "prospero", "rtsp", "rtspu", "rsync", "svn", "svn+ssh", "sftp", "nfs",
    "git", "git+ssh", "ws", "wss"].map String.toList

/-- The schemes with parameters in the last path segment. -/
def paramSchemes : List Text :=
  ["", "ftp", "hdl", "prospero", "http", "imap", "https", "shttp", "rtsp", "rtspu", "sip",
    "sips", "mms", "sftp", "tel"].map String.toList

/-- The text without controls and spaces at its start and without tabs and line
ends. -/
def dropControls (url : Text) : Text :=
  (url.dropWhile fun c => c.toNat ≤ 32).filter fun c => c ≠ '\t' ∧ c ≠ '\r' ∧ c ≠ '\n'

/-- A character of a scheme. -/
def isSchemeChar (c : Char) : Bool :=
  isAsciiLetter c || isAsciiDigit c || c == '+' || c == '-' || c == '.'

/-- The scheme at the start of a URL and what follows its colon. -/
def splitScheme (default url : Text) : Text × Text :=
  let name := url.takeWhile (· ≠ ':')
  match url.dropWhile (· ≠ ':') with
  | [] => (default, url)
  | _ :: rest =>
    if (name.head?.any isAsciiLetter) && name.all isSchemeChar then (name.map lowerAscii, rest)
    else (default, url)

/-- A character that does not end an authority. -/
def isAuthorityChar (c : Char) : Bool := c ≠ '/' && c ≠ '?' && c ≠ '#'

/-- The authority behind two slashes, and what follows it. -/
def splitAuthority (t : Text) : Text × Text :=
  match t with
  | '/' :: '/' :: r => (r.takeWhile isAuthorityChar, r.dropWhile isAuthorityChar)
  | _ => ([], t)

/-- The text before a mark and the text behind it. -/
def splitAtMark (mark : Char) (t : Text) : Text × Text :=
  (t.takeWhile (· ≠ mark), (t.dropWhile (· ≠ mark)).tail)

/-- The path without the parameters of its last segment, and these. -/
def splitParams (path : Text) : Text × Text :=
  let last := Text.afterLast '/' path
  let before := path.take (path.length - last.length)
  let parts := splitAtMark ';' last
  (before ++ parts.1, parts.2)

namespace Reference

/-- Takes a reference apart, or fails at a malformed authority. -/
def parse? (defaultScheme url : Text) : Option Reference :=
  let schemed := splitScheme defaultScheme (dropControls url)
  let located := splitAuthority schemed.2
  if !isAuthority located.1 then none
  else
    let fragmented := splitAtMark '#' located.2
    let queried := splitAtMark '?' fragmented.1
    let parted :=
      if paramSchemes.contains schemed.1 then splitParams queried.1 else (queried.1, [])
    some ⟨schemed.1, located.1, parted.1, parted.2, queried.2, fragmented.2⟩

/-- A component behind its mark, nothing where it is missing. -/
def marked (mark : Char) (component : Text) : Text :=
  if component.isEmpty then [] else mark :: component

/-- The path with its parameters. -/
def fullPath (r : Reference) : Text := r.path ++ marked ';' r.params

/-- Authority and path. The two slashes are written for an authority, and for a
scheme that has one unless the path starts with two slashes itself. -/
def location (r : Reference) : Text :=
  let path := r.fullPath
  if !r.authority.isEmpty ||
      (!r.scheme.isEmpty && authoritySchemes.contains r.scheme &&
        !Text.startsWith ['/', '/'] path) then
    ['/', '/'] ++ r.authority ++
      if path.isEmpty || path.head? = some '/' then path else '/' :: path
  else path

/-- The reference as text. -/
def toText (r : Reference) : Text :=
  (if r.scheme.isEmpty then [] else r.scheme ++ [':']) ++ r.location ++
    marked '?' r.query ++ marked '#' r.fragment

end Reference

end ModuleScripts.Url
