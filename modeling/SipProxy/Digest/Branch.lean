import SipProxy.Digest.Sha1

/-!
# Branch identifiers

The branch of a Via entry names the transaction it belongs to. A proxy that keeps no transactions
still has to give every retransmission of a request the branch of the first, so the branch is
computed from a seed: the name-based identifier (version 5) of the seed in the object-identifier
name space, in lower-case hexadecimal after the cookie that marks a branch as globally unique.
-/

namespace SipProxy.Branch

/-- Begins every branch made under RFC 3261. -/
def cookie : String := "z9hG4bK"

/-- The object-identifier name space, `6ba7b812-9dad-11d1-80b4-00c04fd430c8`. -/
def nameSpace : Octets :=
  [0x6B, 0xA7, 0xB8, 0x12, 0x9D, 0xAD, 0x11, 0xD1, 0x80, 0xB4, 0x00, 0xC0, 0x4F, 0xD4, 0x30, 0xC8]

/-- The sixteen octets of a name's identifier: a digest with version and variant written into it. -/
def identifier (name : Octets) : Octets :=
  ((Sha1.digest (nameSpace ++ name)).take 16).zipIdx.map fun p =>
    if p.2 = 6 then (p.1 &&& 0x0F) ||| 0x50
    else if p.2 = 8 then (p.1 &&& 0x3F) ||| 0x80
    else p.1

/-- An octet as two lower-case hexadecimal digits. -/
def hexPair (b : UInt8) : List Char := [Nat.digitChar (b.toNat / 16), Nat.digitChar (b.toNat % 16)]

/-- The branch that a seed stands for. -/
def ofSeed (seed : String) : String :=
  cookie ++ String.ofList ((identifier (Utf8.encode seed)).flatMap hexPair)

end SipProxy.Branch
