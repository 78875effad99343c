import SipProxy.Text.Cut
import SipProxy.Text.Decimal
import SipProxy.Text.Hex

/-!
# IP addresses

An address is kept as its bits, so that `::1` and `0:0:0:0:0:0:0:1` are the same address however
they were written. `IpAddress.text` writes an IPv6 address with its longest run of zero groups
folded (the first of several, never a single group) and an IPv4-mapped one with a dotted quad.

Reading is stricter than the usual library call: an octet has no leading zero, a group has at most
four digits, and a zone (`%eth0`) is no part of an address. It is stated over the pieces between
separators instead of as a cursor over the text, because a piece stands for itself in a proof.
-/

namespace SipProxy

/-- An IPv4 address, octets in network order. -/
structure Ipv4 where
  a : UInt8
  b : UInt8
  c : UInt8
  d : UInt8
deriving DecidableEq, Repr

/-- An IPv6 address, groups in network order. -/
structure Ipv6 where
  groups : List UInt16
  length_groups : groups.length = 8
deriving DecidableEq, Repr

inductive IpAddress where
  | v4 (ip : Ipv4)
  | v6 (ip : Ipv6)
deriving DecidableEq, Repr

/-! ## Writing -/

namespace Ipv4

def text (ip : Ipv4) : String :=
  s!"{ip.a.toNat}.{ip.b.toNat}.{ip.c.toNat}.{ip.d.toNat}"

def isUnspecified (ip : Ipv4) : Bool := ip = ⟨0, 0, 0, 0⟩

/-- Is the address one of `127.0.0.0/8`? -/
def isLoopback (ip : Ipv4) : Bool := ip.a == 127

/-- The two groups an embedded IPv4 address fills. -/
def groups (ip : Ipv4) : List UInt16 :=
  [ip.a.toUInt16 * 256 + ip.b.toUInt16, ip.c.toUInt16 * 256 + ip.d.toUInt16]

end Ipv4

namespace Ipv6

/-- A group in lower-case hexadecimal digits, as few as possible. -/
def groupText (g : UInt16) : List Char := Nat.toDigits 16 g.toNat

/-- Groups with colons between them. -/
def groupsText (gs : List UInt16) : List Char := [':'].intercalate (gs.map groupText)

/-- Where the longest run of zero groups starts and how long it is; of equal runs, the first. -/
def longestZeros : List UInt16 → Nat × Nat
  | [] => (0, 0)
  | g :: gs =>
    let here := ((g :: gs).takeWhile (· == 0)).length
    let later := longestZeros gs
    if later.2 ≤ here then (0, here) else (later.1 + 1, later.2)

/-- The IPv4 address inside an IPv4-mapped one (`::ffff:0:0/96`). -/
def mapped? (ip : Ipv6) : Option Ipv4 :=
  match ip.groups with
  | [0, 0, 0, 0, 0, 0xFFFF, g, h] =>
    some ⟨(g / 256).toUInt8, g.toUInt8, (h / 256).toUInt8, h.toUInt8⟩
  | _ => none

def text (ip : Ipv6) : String :=
  match ip.mapped? with
  | some quad => "::ffff:" ++ quad.text
  | none =>
    let zeros := longestZeros ip.groups
    if 1 < zeros.2 then
      String.ofList (groupsText (ip.groups.take zeros.1) ++ [':', ':']
        ++ groupsText (ip.groups.drop (zeros.1 + zeros.2)))
    else String.ofList (groupsText ip.groups)

def isUnspecified (ip : Ipv6) : Bool := ip.groups.all (· == 0)

def isLoopback (ip : Ipv6) : Bool := ip.groups == [0, 0, 0, 0, 0, 0, 0, 1]

/-- Is the address one of `fe80::/10`, which means nothing without an interface? -/
def isLinkLocal (ip : Ipv6) : Bool := ip.groups.head?.any fun g => g / 64 == 0x3FA

end Ipv6

/-! ## Reading -/

/-- One octet of a dotted quad. -/
def Ipv4.octet? (cs : List Char) : Option UInt8 :=
  if cs.length ≤ 3 && (cs.length == 1 || cs.head? != some '0') then
    (Decimal.ofDigitsBelow? UInt8.size cs).map UInt8.ofNat
  else none

def Ipv4.ofChars? (cs : List Char) : Option Ipv4 :=
  match (cs.splitOn '.').map Ipv4.octet? with
  | [some a, some b, some c, some d] => some ⟨a, b, c, d⟩
  | _ => none

namespace Ipv6

/-- One group: one to four hexadecimal digits of either case. -/
def group? (cs : List Char) : Option UInt16 :=
  if 0 < cs.length && cs.length ≤ 4 then
    (Hex.ofDigits? cs).map UInt16.ofNat
  else none

/-- The groups of the pieces between colons. The last piece may be a dotted quad if `quad`. -/
def ofPieces? (quad : Bool) : List (List Char) → Option (List UInt16)
  | [] => some []
  | [piece] =>
    match group? piece with
    | some g => some [g]
    | none => if quad then (Ipv4.ofChars? piece).map Ipv4.groups else none
  | piece :: pieces =>
    match group? piece with
    | some g => (ofPieces? quad pieces).map (g :: ·)
    | none => none

/-- The groups of a text without `::`. -/
def run? (quad : Bool) (cs : List Char) : Option (List UInt16) :=
  if cs.isEmpty then some [] else ofPieces? quad (cs.splitOn ':')

/-- An address from the groups around `::`, which stands for at least one zero group. -/
def expand? (front back : List UInt16) : Option Ipv6 :=
  if h : front.length + back.length ≤ 7 then
    some ⟨front ++ List.replicate (8 - (front.length + back.length)) 0 ++ back, by
      simp only [List.length_append, List.length_replicate]; omega⟩
  else none

def ofChars? (cs : List Char) : Option Ipv6 :=
  match Text.cutFirstText [':', ':'] cs with
  | some (front, back) =>
    match run? false front, run? true back with
    | some front, some back => expand? front back
    | _, _ => none
  | none =>
    match run? true cs with
    | some gs => if h : gs.length = 8 then some ⟨gs, h⟩ else none
    | none => none

end Ipv6

namespace IpAddress

def text : IpAddress → String
  | v4 ip => ip.text
  | v6 ip => ip.text

def isUnspecified : IpAddress → Bool
  | v4 ip => ip.isUnspecified
  | v6 ip => ip.isUnspecified

def isLoopback : IpAddress → Bool
  | v4 ip => ip.isLoopback
  | v6 ip => ip.isLoopback

/-- The address itself; an IPv4-mapped one is the IPv4 address inside. -/
def canonical : IpAddress → IpAddress
  | v4 ip => v4 ip
  | v6 ip =>
    match ip.mapped? with
    | some quad => v4 quad
    | none => v6 ip

/-- The address that the whole text spells. -/
def ofText? (s : String) : Option IpAddress :=
  match Ipv4.ofChars? s.toList with
  | some ip => some (v4 ip)
  | none => (Ipv6.ofChars? s.toList).map v6

end IpAddress

end SipProxy
