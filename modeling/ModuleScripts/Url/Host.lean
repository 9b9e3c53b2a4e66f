import ModuleScripts.Text.CharClass

/-!
# Hosts in brackets

A host in brackets is an IPv6 address, with a zone if need be, or an address of
a later version. An authority with brackets is well formed when such a host
stands behind its user information, and nothing but a colon comes right behind
the brackets. An authority of other scripts must not hide a delimiter in a
compatibility character.
-/

namespace ModuleScripts.Url

/-- A hexadecimal digit. -/
def isHexDigit (c : Char) : Bool :=
  isAsciiDigit c || ('a' ≤ c && c ≤ 'f') || ('A' ≤ c && c ≤ 'F')

/-- A group of an IPv6 address. -/
def isGroup (t : Text) : Bool := !t.isEmpty && t.length ≤ 4 && t.all isHexDigit

/-- The value of ASCII digits. -/
def decimalValue (t : Text) : Nat := t.foldl (fun n c => 10 * n + (c.toNat - 48)) 0

/-- A part of a dotted address: at most 255 in decimal, without leading zeros. -/
def isOctet (t : Text) : Bool :=
  !t.isEmpty && t.length ≤ 3 && t.all isAsciiDigit && (t == ['0'] || t.head? != some '0') &&
    decimalValue t ≤ 255

/-- A dotted address of four parts. -/
def isDotted (t : Text) : Bool :=
  let parts := List.splitOn '.' t
  parts.length == 4 && parts.all isOctet

/-- The groups of an address whose last part may be a dotted address, which
counts as two groups. -/
def addressGroups? (parts : List Text) : Option (List Text) :=
  match parts.getLast? with
  | none => none
  | some last =>
    if last.contains '.' then
      if isDotted last then some (parts.dropLast ++ [['0'], ['0']]) else none
    else some parts

/-- The groups on one side of a gap. Next to the end of the address an empty
group may stand alone. -/
def isSide (groups : List Text) : Bool := groups == [[]] || groups.all isGroup

/-- The number of groups on one side of a gap. -/
def sideLength (groups : List Text) : Nat := if groups == [[]] then 0 else groups.length

/-- Whether groups make up an address: eight of them, or fewer around one gap.
An empty group that is neither the first nor the last is the gap. -/
def areGroups (groups : List Text) : Bool :=
  let inner := (groups.drop 1).dropLast
  if inner.contains [] then
    let before := groups.take 1 ++ inner.takeWhile (!·.isEmpty)
    let behind := groups.drop (before.length + 1)
    isSide before && isSide behind && sideLength before + sideLength behind ≤ 7
  else groups.length == 8 && groups.all isGroup

/-- An IPv6 address without a zone. -/
def isAddress (t : Text) : Bool :=
  let parts := List.splitOn ':' t
  3 ≤ parts.length &&
    match addressGroups? parts with
    | none => false
    | some groups => groups.length ≤ 9 && areGroups groups

/-- An IPv6 address. A zone is not empty and has no second percent sign. -/
def isZonedAddress (t : Text) : Bool :=
  match t.dropWhile (· ≠ '%') with
  | [] => isAddress t
  | _ :: zone => !zone.isEmpty && !zone.contains '%' && isAddress (t.takeWhile (· ≠ '%'))

/-- An address of a later version: its number in hexadecimal, a dot, and at
least one more character. -/
def isLaterVersion : Text → Bool
  | 'v' :: r =>
    !(r.takeWhile isHexDigit).isEmpty &&
      match r.dropWhile isHexDigit with
      | '.' :: _ :: _ => true
      | _ => false
  | _ => false

/-- A host that may stand in brackets. -/
def isBracketedHost (host : Text) : Bool :=
  if host.head? = some 'v' then isLaterVersion host else isZonedAddress host

/-- Whether an authority that has both brackets has them around its host. -/
def hasBracketedHost (authority : Text) : Bool :=
  let host := Text.afterLast '@' authority
  match host.dropWhile (· ≠ '[') with
  | [] => isBracketedHost (host.takeWhile (· ≠ ':'))
  | _ :: bracketed =>
    host.head? = some '[' &&
      (match (bracketed.dropWhile (· ≠ ']')).tail with
        | [] => true
        | c :: _ => c = ':') &&
      isBracketedHost (bracketed.takeWhile (· ≠ ']'))

/-- The characters that stand for a text with a delimiter of URLs in it. -/
def delimiterLookalikes : List Nat :=
  [0x2047, 0x2048, 0x2049, 0x2100, 0x2101, 0x2105, 0x2106, 0x2A74, 0xFE13, 0xFE16, 0xFE55,
    0xFE56, 0xFE5F, 0xFE6B, 0xFF03, 0xFF0F, 0xFF1A, 0xFF1F, 0xFF20]

/-- Whether an authority is well formed as far as resolving looks at it. -/
def isAuthority (authority : Text) : Bool :=
  (authority.contains '[' == authority.contains ']') &&
    (!authority.contains '[' || hasBracketedHost authority) &&
    !authority.any fun c => delimiterLookalikes.contains c.toNat

end ModuleScripts.Url
