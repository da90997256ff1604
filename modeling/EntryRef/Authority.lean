import EntryRef.Text.Quoted

/-!
# Authorities

The part of a file identifier between two slashes and the path names a host. Its name does not
matter here, but it has to be well formed: `Authority.fault?` looks at brackets, which must hold an
IPv6 address or an address of a future form, and at characters that a compatible spelling would turn
into one of those that end a host.
-/

namespace EntryRef.Authority

open Text

/-! ### Addresses -/

/-- A number from 0 to 255 in decimal, without leading zeros. -/
def isOctet (s : Text) : Bool :=
  !s.isEmpty && s.all Char.isDigit && s.length ≤ 3 &&
    (s == ['0'] || s.head? != some '0') &&
    s.foldl (fun n c => 10 * n + (c.toNat - '0'.toNat)) 0 ≤ 255

/-- Four octets between dots. -/
def isIpv4 (s : Text) : Bool :=
  let octets := pieces '.' s
  octets.length == 4 && octets.all isOctet

/-- One to four hexadecimal digits. -/
def isGroup (s : Text) : Bool := !s.isEmpty && s.length ≤ 4 && s.all isHex

/-- The number of groups of sixteen bits in a list of them, none for an empty text. Where `tail`
allows it, an IPv4 address may stand for the last two. -/
def groups? (tail : Bool) (s : Text) : Option Nat :=
  if s.isEmpty then some 0
  else
    let parts := pieces ':' s
    if parts.all isGroup then some parts.length
    else if tail && parts.dropLast.all isGroup && isIpv4 (parts.getLastD []) then
      some (parts.length + 1)
    else none

/-- Cuts a text at its first two colons in a row. -/
def atGap? : Text → Option (Text × Text)
  | ':' :: ':' :: r => some ([], r)
  | c :: r => (atGap? r).map fun (a, b) => (c :: a, b)
  | [] => none

/-- Eight groups between colons, or fewer with a gap at one place. -/
def isIpv6Address (s : Text) : Bool :=
  match atGap? s with
  | none => groups? true s == some 8
  | some (left, right) =>
    match groups? false left, groups? true right with
    | some m, some n => m + n ≤ 7
    | _, _ => false

/-- An IPv6 address, with a zone behind a percent sign or without one. -/
def isIpv6 (s : Text) : Bool :=
  isIpv6Address (before '%' s) &&
    match after? '%' s with
    | none => true
    | some zone => !zone.isEmpty && !zone.contains '%'

/-- An address of a future form: a `v`, hexadecimal digits, a dot and more text. -/
def isFuture : Text → Bool
  | 'v' :: r =>
    !(r.takeWhile isHex).isEmpty &&
      match r.dropWhile isHex with
      | '.' :: _ :: _ => true
      | _ => false
  | _ => false

/-! ### Faults -/

/-- The characters whose compatible spelling contains one of `/`, `?`, `#`, `@` and `:`. -/
def compatibles : Text :=
  ['\u2047', '\u2048', '\u2049', '\u2100', '\u2101', '\u2105', '\u2106', '\u2a74', '\ufe13',
    '\ufe16', '\ufe55', '\ufe56', '\ufe5f', '\ufe6b', '\uff03', '\uff0f', '\uff1a', '\uff1f',
    '\uff20']

/-- What is wrong with an authority. -/
inductive Fault
  /-- There is a bracket of one kind and none of the other. -/
  | brackets
  /-- What stands in brackets starts like an address of a future form and is none. -/
  | badFuture
  /-- An IPv4 address stands in brackets. -/
  | bracketedIpv4
  /-- What stands in brackets is no address. -/
  | noAddress (host : Text)
  /-- A character could be taken for one that ends the host. -/
  | compatible (authority : Text)
deriving DecidableEq

/-- The words for a fault. -/
def Fault.message : Fault → Text
  | .brackets => "Invalid IPv6 URL"
  | .badFuture => "IPvFuture address is invalid"
  | .bracketedIpv4 => "An IPv4 address cannot be in brackets"
  | .noAddress host => quoted host ++ " does not appear to be an IPv4 or IPv6 address"
  | .compatible authority =>
    "netloc '" ++ authority ++ "' contains invalid characters under NFKC normalization"

/-- What is wrong with a host in brackets. -/
def bracketedFault? (host : Text) : Option Fault :=
  if host.head? = some 'v' then if isFuture host then none else some .badFuture
  else if isIpv4 host then some .bracketedIpv4
  else if isIpv6 host then none
  else some (.noAddress host)

/-- What is wrong with a host and the number that may follow it behind a colon, of which the host
should stand in brackets: nothing may stand before the opening bracket, and nothing that does not
start with a colon behind the closing one. -/
def hostFault? (hostAndNumber : Text) : Option Fault :=
  match after? '[' hostAndNumber with
  | none => bracketedFault? (before ':' hostAndNumber)
  | some inside =>
    let rest := (after? ']' inside).getD []
    if !(before '[' hostAndNumber).isEmpty ∨ (!rest.isEmpty ∧ rest.head? ≠ some ':') then
      some .brackets
    else bracketedFault? (before ']' inside)

/-- What is wrong with the brackets of an authority: either kind needs the other, and where there
are any, the host behind the last at sign has to be an address in brackets. -/
def bracketFault? (authority : Text) : Option Fault :=
  match authority.contains '[', authority.contains ']' with
  | false, false => none
  | true, true => hostFault? (afterLast '@' authority)
  | _, _ => some .brackets

/-- What is wrong with an authority, if anything. -/
def fault? (authority : Text) : Option Fault :=
  bracketFault? authority <|>
    if authority.any compatibles.contains then some (.compatible authority) else none

end EntryRef.Authority
