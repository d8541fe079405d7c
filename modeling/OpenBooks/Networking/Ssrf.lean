import Mathlib.Data.List.Infix
import Mathlib.Tactic.Linarith

/-!
# The address check behind outgoing requests

A connector may only be pointed at public unicast addresses. An address arrives
as text; `isPublicUnicastAddress` strips the brackets of a URL host, asks
`net.isIP` which family the text is a literal of, reads the number the text
denotes with its own IPv6 expander, and looks the number up in IANA's two
registries of special purpose ranges, where the longest matching prefix decides.

`net.isIP` is a parameter. A text is a list of characters; a number read with
`parseInt` is exact, which differs from a double only above the bounds that are
tested.
-/

namespace OpenBooks.Networking

abbrev Text := List Char

/-! ### The string operations of the source -/

/-- `toLowerCase`; the texts that reach the registries are ASCII. -/
def toLowerCase (s : Text) : Text := s.map Char.toLower

/-- The positions at which `part` stands in a text that starts at position `i`:
`indexOf` is the first of them, `lastIndexOf` the last. -/
def positionsOf (part : Text) : Nat → Text → List Nat
  | _, [] => []
  | i, c :: rest =>
    (if part.isPrefixOf (c :: rest) then [i] else []) ++ positionsOf part (i + 1) rest

/-- `split("::")`. -/
def splitDoubleColon : Text → List Text
  | [] => [[]]
  | [c] => [[c]]
  | a :: b :: rest =>
    if a = ':' ∧ b = ':' then [] :: splitDoubleColon rest
    else (splitDoubleColon (b :: rest)).modifyHead (a :: ·)

/-- The value of a hexadecimal digit. -/
def hexDigit? (c : Char) : Option Nat :=
  if '0' ≤ c ∧ c ≤ '9' then some (c.toNat - 48)
  else if 'a' ≤ c ∧ c ≤ 'f' then some (c.toNat - 87)
  else if 'A' ≤ c ∧ c ≤ 'F' then some (c.toNat - 55)
  else none

def isHexDigit (c : Char) : Bool := (hexDigit? c).isSome

def hexValue (digits : Text) : Nat :=
  digits.foldl (fun v c => v * 16 + (hexDigit? c).getD 0) 0

def decimalValue (digits : Text) : Nat :=
  digits.foldl (fun v c => v * 10 + (c.toNat - 48)) 0

/-- White space and line terminators, as `parseInt` skips them. -/
def isWhite (c : Char) : Bool :=
  c.toNat ∈ [9, 10, 11, 12, 13, 32, 0xa0, 0x1680, 0x2028, 0x2029, 0x202f, 0x205f, 0x3000, 0xfeff]
    ∨ (0x2000 ≤ c.toNat ∧ c.toNat ≤ 0x200a)

/-- `Number.parseInt(s, 16)`: what follows the longest run of digits is ignored,
and no digit at all is `NaN`. -/
def parseInt16 (s : Text) : Option Int :=
  let s := s.dropWhile isWhite
  let negative := s.head? = some '-'
  let s := if s.head? = some '-' ∨ s.head? = some '+' then s.tail else s
  let s := if s.take 2 = ['0', 'x'] ∨ s.take 2 = ['0', 'X'] then s.drop 2 else s
  let digits := s.takeWhile isHexDigit
  if digits = [] then none
  else some (if negative then -(hexValue digits : Int) else hexValue digits)

/-! ### Reading the text -/

def stripIpv6Brackets (host : Text) : Text :=
  let host := if host.head? = some '[' then host.tail else host
  let host := if host.getLast? = some ']' then host.dropLast else host
  toLowerCase host

/-- A `\d{1,3}` text, as a number. -/
def shortDecimal? (part : Text) : Option Nat :=
  if 1 ≤ part.length ∧ part.length ≤ 3 ∧ part.all Char.isDigit then some (decimalValue part)
  else none

def dotted (octets : List Nat) : Text :=
  ['.'].intercalate (octets.map (Nat.toDigits 10))

/-- The four octets of two 16 bit groups. -/
def octetsOf (high low : Nat) : List Nat :=
  [high >>> 8, high &&& 255, low >>> 8, low &&& 255]

def ipv4FromMapped6 (host : Text) : Option Text :=
  let prefixes := ["::ffff:".toList, "0:0:0:0:0:ffff:".toList]
  match prefixes.find? (·.isPrefixOf host) with
  | none => none
  | some p =>
    let rest := host.drop p.length
    let parts := rest.splitOn '.'
    if parts.length = 4 ∧ parts.all (fun part => (shortDecimal? part).isSome) then some rest
    else
      match rest.splitOn ':' with
      | [high, low] =>
        if [high, low].all (fun g => 1 ≤ g.length ∧ g.length ≤ 4 ∧ g.all isHexDigit)
        then some (dotted ((octetsOf (hexValue high) (hexValue low)).map (· &&& 255)))
        else none
      | _ => none

def parseIpv4 (ip : Text) : Option (List Nat) :=
  let parts := ip.splitOn '.'
  if parts.length ≠ 4 then none
  else
    match parts.mapM shortDecimal? with
    | none => none
    | some octets => if octets.any (255 < ·) then none else some octets

/-- One side of a `::`. -/
def parseSide (side : Text) : List (Option Int) :=
  if side = [] then [] else (side.splitOn ':').map parseInt16

/-- The eight groups, once each is an integer of 16 bits. -/
def groupsIn (groups : List (Option Int)) : Option (List Nat) :=
  if groups.length ≠ 8 then none
  else groups.mapM fun group =>
    match group with
    | none => none
    | some g => if g < 0 ∨ 0xffff < g then none else some g.toNat

/-- The eight groups of a literal that has no dotted tail. -/
def expandIpv6 (host : Text) : Option (List Nat) :=
  if '.' ∈ host then none
  else
    let positions := positionsOf [':', ':'] 0 host
    if positions ≠ [] then
      if positions.head? ≠ positions.getLast? then none
      else
        let parts := splitDoubleColon host
        let left := parseSide (parts.getD 0 [])
        let right := parseSide (parts.getD 1 [])
        if 8 < left.length + right.length then none
        else groupsIn (left ++ List.replicate (8 - left.length - right.length) (some 0) ++ right)
    else groupsIn ((host.splitOn ':').map parseInt16)

/-! ### The registries -/

/-- One registered range. The label of its registry entry decides nothing. -/
structure AddressRange where
  cidr : String
  globallyReachable : Bool

def IPV4_SPECIAL_PURPOSE : List AddressRange := [
  ⟨"0.0.0.0/8", false⟩, ⟨"0.0.0.0/32", false⟩, ⟨"10.0.0.0/8", false⟩,
  ⟨"100.64.0.0/10", false⟩, ⟨"127.0.0.0/8", false⟩, ⟨"169.254.0.0/16", false⟩,
  ⟨"172.16.0.0/12", false⟩, ⟨"192.0.0.0/24", false⟩, ⟨"192.0.0.0/29", false⟩,
  ⟨"192.0.0.8/32", false⟩, ⟨"192.0.0.9/32", true⟩, ⟨"192.0.0.10/32", true⟩,
  ⟨"192.0.0.170/32", false⟩, ⟨"192.0.0.171/32", false⟩, ⟨"192.0.2.0/24", false⟩,
  ⟨"192.31.196.0/24", true⟩, ⟨"192.52.193.0/24", true⟩, ⟨"192.88.99.0/24", false⟩,
  ⟨"192.88.99.2/32", false⟩, ⟨"192.168.0.0/16", false⟩, ⟨"192.175.48.0/24", true⟩,
  ⟨"198.18.0.0/15", false⟩, ⟨"198.51.100.0/24", false⟩, ⟨"203.0.113.0/24", false⟩,
  ⟨"240.0.0.0/4", false⟩, ⟨"255.255.255.255/32", false⟩, ⟨"224.0.0.0/4", false⟩]

def IPV6_SPECIAL_PURPOSE : List AddressRange := [
  ⟨"::1/128", false⟩, ⟨"::/128", false⟩, ⟨"::ffff:0:0/96", false⟩, ⟨"64:ff9b::/96", true⟩,
  ⟨"64:ff9b:1::/48", false⟩, ⟨"100::/64", false⟩, ⟨"100:0:0:1::/64", false⟩,
  ⟨"2001::/23", false⟩, ⟨"2001::/32", false⟩, ⟨"2001:1::1/128", true⟩,
  ⟨"2001:1::2/128", true⟩, ⟨"2001:1::3/128", true⟩, ⟨"2001:2::/48", false⟩,
  ⟨"2001:3::/32", true⟩, ⟨"2001:4:112::/48", true⟩, ⟨"2001:10::/28", false⟩,
  ⟨"2001:20::/28", true⟩, ⟨"2001:30::/28", true⟩, ⟨"2001:db8::/32", false⟩,
  ⟨"2002::/16", false⟩, ⟨"2620:4f:8000::/48", true⟩, ⟨"3fff::/20", false⟩,
  ⟨"5f00::/16", false⟩, ⟨"fc00::/7", false⟩, ⟨"fe80::/10", false⟩, ⟨"ff00::/8", false⟩]

/-- The network and the prefix length that `cidr.split("/")` yields. -/
def AddressRange.networkText (range : AddressRange) : Text :=
  (range.cidr.toList.splitOn '/').getD 0 []

def AddressRange.bits (range : AddressRange) : Nat :=
  decimalValue ((range.cidr.toList.splitOn '/').getD 1 [])

/-- Parts of `size` bits each, put together from the most significant. -/
def joinBits (size : Nat) (parts : List Nat) : Nat :=
  parts.foldl (fun value part => value <<< size ||| part) 0

def ipv4Value (ip : Text) : Option Nat := (parseIpv4 ip).map (joinBits 8)

def ipv6Value (ip : Text) : Option Nat := (expandIpv6 ip).map (joinBits 16)

def cidrContains (address network bits width : Nat) : Bool :=
  address >>> (width - bits) == network >>> (width - bits)

/-- The number of an address text of the family with `width` bits. -/
def addressValue (width : Nat) (ip : Text) : Option Nat :=
  if width = 32 then ipv4Value ip else ipv6Value ip

/-- Whether the range covers an address. -/
def AddressRange.covers (width address : Nat) (range : AddressRange) : Bool :=
  match addressValue width range.networkText with
  | none => false
  | some network => cidrContains address network range.bits width

def registeredRangeDecision (ip : Text) (ranges : List AddressRange) (width : Nat) :
    Option Bool :=
  match addressValue width ip with
  | none => none
  | some address =>
    let matching := (ranges.filter (·.covers width address)).mergeSort
      fun left right => right.bits ≤ left.bits
    matching.head?.map (·.globallyReachable)

/-! ### The decision -/

def isPublicUnicastIpv4 (ip : Text) : Bool :=
  if parseIpv4 ip = none then false
  else (registeredRangeDecision ip IPV4_SPECIAL_PURPOSE 32).getD true

/-- The groups lie in the translation prefix `64:ff9b::/96`. -/
def isTranslation (groups : List Nat) : Bool :=
  groups.take 6 == [0x64, 0xff9b, 0, 0, 0, 0]

def isPublicUnicastIpv6 (host : Text) : Bool :=
  match expandIpv6 host with
  | none => false
  | some groups =>
    if isTranslation groups then
      -- the destination is the embedded IPv4 address
      isPublicUnicastIpv4 (dotted (octetsOf (groups.getD 6 0) (groups.getD 7 0)))
    else
      (registeredRangeDecision host IPV6_SPECIAL_PURPOSE 128).getD
        (groups.getD 0 0 &&& 0xe000 == 0x2000)

section Address

-- `net.isIP`: `4` and `6` for the literals of the two families
variable (isIP : Text → Nat)

/-- Whether a literal may be connected to. -/
def isPublicUnicastAddress (address : Text) : Bool :=
  let host := stripIpv6Brackets address
  let kind := isIP host
  if kind = 4 then isPublicUnicastIpv4 host
  else if kind = 6 then isPublicUnicastIpv6 host
  else
    match ipv4FromMapped6 host with
    | none => false
    | some mapped => isPublicUnicastIpv4 mapped

end Address

end OpenBooks.Networking
