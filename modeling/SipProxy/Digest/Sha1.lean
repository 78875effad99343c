import SipProxy.Text.Utf8

/-!
# SHA-1

The digest under a branch identifier: five words folded over blocks of sixteen. It is used to make
equal inputs give equal branches, not for secrecy, so its known collisions do not matter here.
-/

namespace SipProxy.Sha1

/-- The five words carried from block to block. -/
structure State where
  a : UInt32
  b : UInt32
  c : UInt32
  d : UInt32
  e : UInt32

def initial : State := ⟨0x67452301, 0xEFCDAB89, 0x98BADCFE, 0x10325476, 0xC3D2E1F0⟩

def rotateLeft (x n : UInt32) : UInt32 := (x <<< n) ||| (x >>> (32 - n))

/-- A number in `n` octets, the most significant first. -/
def bigEndian : Nat → Nat → Octets
  | 0, _ => []
  | n + 1, v => bigEndian n (v / 256) ++ [UInt8.ofNat v]

/-- The octets with a one bit, zeros and the bit length behind them: a whole number of blocks. -/
def pad (s : Octets) : Octets :=
  s ++ 0x80 :: List.replicate ((119 - s.length % 64) % 64) 0 ++ bigEndian 8 (8 * s.length)

/-- The words of a run of octets, four octets each. -/
def words : Octets → List UInt32
  | a :: b :: c :: d :: s =>
    (a.toUInt32 <<< 24 ||| b.toUInt32 <<< 16 ||| c.toUInt32 <<< 8 ||| d.toUInt32) :: words s
  | _ => []

/-- The next word of the schedule, from the sixteen before it, the latest first. -/
def nextWord (recent : List UInt32) : UInt32 :=
  rotateLeft (recent.getD 2 0 ^^^ recent.getD 7 0 ^^^ recent.getD 13 0 ^^^ recent.getD 15 0) 1

/-- `n` more words on top of a schedule whose latest word stands first. -/
def extend : Nat → List UInt32 → List UInt32
  | 0, ws => ws
  | n + 1, ws => extend n (nextWord ws :: ws)

/-- Round `t` with its word. -/
def round (s : State) (t : Nat) (w : UInt32) : State :=
  let f :=
    if t < 20 then (s.b &&& s.c) ||| (~~~s.b &&& s.d)
    else if t < 40 then s.b ^^^ s.c ^^^ s.d
    else if t < 60 then (s.b &&& s.c) ||| (s.b &&& s.d) ||| (s.c &&& s.d)
    else s.b ^^^ s.c ^^^ s.d
  let k : UInt32 :=
    if t < 20 then 0x5A827999
    else if t < 40 then 0x6ED9EBA1
    else if t < 60 then 0x8F1BBCDC
    else 0xCA62C1D6
  ⟨rotateLeft s.a 5 + f + s.e + k + w, s.a, rotateLeft s.b 30, s.c, s.d⟩

/-- The state after one block of sixteen words. -/
def compress (s : State) (block : List UInt32) : State :=
  let ws := (extend 64 block.reverse).reverse
  let r := ws.zipIdx.foldl (fun r p => round r p.2 p.1) s
  ⟨s.a + r.a, s.b + r.b, s.c + r.c, s.d + r.d, s.e + r.e⟩

/-- The state after `n` blocks in front of the words. -/
def blocks : Nat → State → List UInt32 → State
  | 0, s, _ => s
  | n + 1, s, ws => blocks n (compress s (ws.take 16)) (ws.drop 16)

/-- The twenty octets of the digest. -/
def digest (s : Octets) : Octets :=
  let ws := words (pad s)
  let r := blocks (ws.length / 16) initial ws
  [r.a, r.b, r.c, r.d, r.e].flatMap fun w => bigEndian 4 w.toNat

end SipProxy.Sha1
