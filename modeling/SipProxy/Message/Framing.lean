import SipProxy.Message.Basic

/-!
# Lines and frames

A message is a first line, header lines up to an empty one, and as many octets of body as
Content-Length says. The same two readers, of one line (`Line.read`) and of the header block
(`HeaderBlock.read`), serve the parser of a whole message and the framing of a stream, so that the
two cannot disagree about where a message ends.

A line ends with a line feed, or with a carriage return and a line feed; a carriage return alone
ends nothing and makes the line unreadable. Header folding is not supported: a line is a header.
-/

namespace SipProxy

namespace Line

/-- Neither carriage return nor line feed. -/
def isInside (b : UInt8) : Bool := b != 0x0D && b != 0x0A

/-- The first line without its ending, and what follows it. -/
def read (s : Octets) : Option (Octets × Octets) :=
  match s.dropWhile isInside with
  | 0x0A :: rest => some (s.takeWhile isInside, rest)
  | 0x0D :: 0x0A :: rest => some (s.takeWhile isInside, rest)
  | _ => none

theorem length_lt_of_read {s line rest : Octets} (h : read s = some (line, rest)) :
    line.length + rest.length < s.length := by
  have hl : (s.takeWhile isInside).length + (s.dropWhile isInside).length = s.length := by
    rw [← List.length_append, List.takeWhile_append_dropWhile]
  unfold read at h
  split at h <;> simp_all <;> omega

end Line

/-- The header that a line writes: a name before the first colon and a value behind it. -/
def Header.parse (line : Octets) : Except SipError Header :=
  let name := line.takeWhile (· != 0x3A)
  match line.dropWhile (· != 0x3A) with
  | _ :: value =>
    if name.isEmpty then .error (.malformedHeader s!"no ':' in '{Utf8.decode line}'")
    else
      let name := Text.trim (Utf8.decode name)
      if name.isEmpty || Text.hasBlank name then
        .error (.malformedHeader s!"invalid header name in '{Utf8.decode line}'")
      else .ok (.ofText name (Text.trim (Utf8.decode value)))
  | [] => .error (.malformedHeader s!"no ':' in '{Utf8.decode line}'")

/-- What the octets after the first line say about the header block. -/
inductive HeaderBlock where
  /-- It goes on behind the last octet. -/
  | unfinished
  | malformed (e : SipError)
  /-- It ended, and the body follows. -/
  | ended (headers : Headers) (body : Octets)

namespace HeaderBlock

/-- Puts a header in front of a block. -/
def cons (h : Header) : HeaderBlock → HeaderBlock
  | ended hs body => ended (h :: hs) body
  | block => block

/-- Header lines up to an empty line or the first line that is no header. -/
def read (s : Octets) : HeaderBlock :=
  match _h : Line.read s with
  | none => unfinished
  | some ([], body) => ended [] body
  | some (line, rest) =>
    match Header.parse line with
    | .ok header => cons header (read rest)
    | .error e => malformed e
termination_by s.length
decreasing_by
  have := Line.length_lt_of_read _h
  omega

end HeaderBlock

/-- The largest length that fits a machine word. -/
def maxLength : Nat := 0xFFFFFFFFFFFFFFFF

namespace Headers

/-- The number that a Content-Length value spells. -/
def length? (text : String) : Option Nat :=
  Decimal.ofDigitsBelow? (maxLength + 1) text.toList

/-- The announced length of the body, from the first Content-Length line. -/
def contentLength (hs : Headers) : Except SipError Nat :=
  match named? .contentLength hs with
  | some h =>
    match length? h.valueText with
    | some n => .ok n
    | none => .error (.invalidContentLength h.valueText)
  | none => .error (.invalidContentLength "missing")

end Headers

/-- The length of the message in front of a stream, `none` while it is incomplete. A message that
announces more than `limit` octets in all is refused as soon as its header block is there. -/
def frameLengthWithin (limit : Nat) (s : Octets) : Except SipError (Option Nat) :=
  match Line.read s with
  | none => .ok none
  | some (_, rest) =>
    match HeaderBlock.read rest with
    | .unfinished => .ok none
    | .malformed e => .error e
    | .ended headers body =>
      match headers.contentLength with
      | .error e => .error e
      | .ok length =>
        let total := s.length - body.length + length
        if total ≤ limit then .ok (if total ≤ s.length then some total else none)
        else .error (.invalidContentLength s!"{length} exceeds the message size limit")

/-- The length of the message in front of a stream, bounded by the machine word alone. -/
def frameLength (s : Octets) : Except SipError (Option Nat) := frameLengthWithin maxLength s

theorem HeaderBlock.length_lt_of_read {s body : Octets} {hs : Headers}
    (h : read s = .ended hs body) : body.length < s.length := by
  fun_induction read s generalizing hs with
  | case1 => simp at h
  | case2 s b hb =>
    have := Line.length_lt_of_read hb
    simp only [HeaderBlock.ended.injEq] at h
    rw [← h.2]
    simpa using this
  | case3 s line rest hne hr header hp ih =>
    have := Line.length_lt_of_read hr
    cases hb : read rest with
    | unfinished => simp [hb, cons] at h
    | malformed e => simp [hb, cons] at h
    | ended hs' body' =>
      simp only [hb, cons, HeaderBlock.ended.injEq] at h
      have := ih (h.2 ▸ hb)
      omega
  | case4 => simp at h

/-- A frame holds at least its first line. -/
theorem pos_of_frameLengthWithin {limit n : Nat} {s : Octets}
    (h : frameLengthWithin limit s = .ok (some n)) : 0 < n := by
  unfold frameLengthWithin at h
  split at h
  · simp at h
  · rename_i line rest hl
    have h₁ := Line.length_lt_of_read hl
    split at h
    · simp at h
    · simp at h
    · rename_i headers body hb
      have h₂ := HeaderBlock.length_lt_of_read hb
      split at h
      · simp at h
      · simp only at h
        split at h
        · simp only [Except.ok.injEq, Option.ite_none_right_eq_some, Option.some.injEq] at h
          omega
        · simp at h

/-- A frame is there in full. -/
theorem le_of_frameLengthWithin {limit n : Nat} {s : Octets}
    (h : frameLengthWithin limit s = .ok (some n)) : n ≤ s.length := by
  unfold frameLengthWithin at h
  split at h
  · simp at h
  · split at h
    · simp at h
    · simp at h
    · split at h
      · simp at h
      · simp only at h
        split at h
        · simp only [Except.ok.injEq, Option.ite_none_right_eq_some, Option.some.injEq] at h
          omega
        · simp at h

end SipProxy
