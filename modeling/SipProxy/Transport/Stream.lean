import SipProxy.Message.Framing

/-!
# Messages on a stream

A stream carries messages one behind the other, with any number of carriage returns and line feeds
between them to keep it alive. The reader holds what has arrived and is not yet a whole message;
`feed` gives it the next piece of the stream and takes out the messages that are now complete.

The reader gives up when the octets cannot be framed or when an incomplete message has grown beyond
`maxMessage`; it then ignores the rest of the stream, since nothing says where a next message would
begin.
-/

namespace SipProxy

/-- The largest message on a stream, in octets. -/
def maxMessage : Nat := 1024 * 1024

inductive StreamReader where
  /-- Waits for more octets. -/
  | reading (pending : Octets)
  | gaveUp
deriving DecidableEq, Repr

namespace StreamReader

/-- The reader of a stream on which nothing has arrived. -/
def start : StreamReader := reading []

/-- Is the octet one that may stand between messages? -/
def isFiller (b : UInt8) : Bool := b == 0x0D || b == 0x0A

/-- The whole messages in front, and the reader of what follows them. -/
def drain (s : Octets) : List Octets × StreamReader :=
  match _h : frameLengthWithin maxMessage (s.dropWhile isFiller) with
  | .ok (some n) =>
    let rest := drain ((s.dropWhile isFiller).drop n)
    ((s.dropWhile isFiller).take n :: rest.1, rest.2)
  | .ok none =>
    ([], if maxMessage < (s.dropWhile isFiller).length then gaveUp
      else reading (s.dropWhile isFiller))
  | .error _ => ([], gaveUp)
termination_by s.length
decreasing_by
  have h₁ := pos_of_frameLengthWithin _h
  have h₂ := le_of_frameLengthWithin _h
  have h₃ := (List.dropWhile_sublist (p := isFiller) (l := s)).length_le
  simp only [List.length_drop]
  omega

/-- Takes the next piece of the stream. -/
def feed (piece : Octets) : StreamReader → List Octets × StreamReader
  | reading pending => drain (pending ++ piece)
  | gaveUp => ([], gaveUp)

/-- Takes the pieces of a stream one after another. -/
def feedAll : List Octets → StreamReader → List Octets × StreamReader
  | [], r => ([], r)
  | piece :: pieces, r =>
    let first := feed piece r
    let rest := feedAll pieces first.2
    (first.1 ++ rest.1, rest.2)

/-- The messages of a stream that arrives in these pieces. -/
def frames (pieces : List Octets) : List Octets := (feedAll pieces start).1

theorem feedAll_gaveUp (pieces : List Octets) : feedAll pieces gaveUp = ([], gaveUp) := by
  induction pieces with
  | nil => rfl
  | cons _ _ ih => simp [feedAll, feed, ih]

end StreamReader

end SipProxy
