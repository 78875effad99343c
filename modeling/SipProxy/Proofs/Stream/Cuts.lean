import SipProxy.Proofs.Framing.Extension
import SipProxy.Transport.Listener

/-!
# Streams do not depend on how they are cut

A stream arrives in pieces of any sizes, and the reader strips fillers, frames and checks sizes
again after every piece. None of it can be seen in what it takes out: reading the pieces one after
another is reading all of them at once (`feedAll_eq_drain`), since the pass over a buffer splits at
any octet (`drain_append`).

The splitting is where the rules could disagree. A frame or a fault found early is found late
(`frameLengthWithin_append`), fillers dropped early are dropped late, and a reader that gave up on
a buffer that had grown too large would not have found a frame in it with more octets either
(`frameLengthWithin_append_ne_some`).
-/

namespace SipProxy

namespace StreamReader

/-! ## One pass over a buffer -/

section Drain

variable {n : Nat} {s : Octets} {e : SipError}

theorem drain_of_frame (h : frameLengthWithin maxMessage (s.dropWhile isFiller) = .ok (some n)) :
    drain s =
      ((s.dropWhile isFiller).take n :: (drain ((s.dropWhile isFiller).drop n)).1,
        (drain ((s.dropWhile isFiller).drop n)).2) := by
  conv => lhs; unfold drain
  split <;> simp_all

theorem drain_of_incomplete (h : frameLengthWithin maxMessage (s.dropWhile isFiller) = .ok none) :
    drain s =
      ([], if maxMessage < (s.dropWhile isFiller).length then gaveUp
        else reading (s.dropWhile isFiller)) := by
  unfold drain
  split <;> simp_all

theorem drain_of_fault (h : frameLengthWithin maxMessage (s.dropWhile isFiller) = .error e) :
    drain s = ([], gaveUp) := by
  unfold drain
  split <;> simp_all

theorem drain_congr {t : Octets} (h : s.dropWhile isFiller = t.dropWhile isFiller) :
    drain s = drain t := by
  cases hf : frameLengthWithin maxMessage (s.dropWhile isFiller) with
  | error e => rw [drain_of_fault hf, drain_of_fault (h ▸ hf)]
  | ok r =>
    cases r with
    | none => rw [drain_of_incomplete hf, drain_of_incomplete (h ▸ hf), h]
    | some n =>
      have ht : frameLengthWithin maxMessage (t.dropWhile isFiller) = .ok (some n) := h ▸ hf
      rw [drain_of_frame hf, drain_of_frame ht, h]

/-- Fillers can be dropped before more octets come. -/
theorem drain_dropWhile_append (s x : Octets) :
    drain (s.dropWhile isFiller ++ x) = drain (s ++ x) := by
  apply drain_congr
  have hfill : ∀ b ∈ s.takeWhile isFiller, isFiller b = true :=
    List.all_eq_true.1 List.all_takeWhile
  conv => rhs; rw [← List.takeWhile_append_dropWhile (p := isFiller) (l := s), List.append_assoc]
  rw [List.dropWhile_append_of_pos hfill]

theorem dropWhile_append_of_ne_nil (x : Octets) (h : s.dropWhile isFiller ≠ []) :
    (s ++ x).dropWhile isFiller = s.dropWhile isFiller ++ x := by
  rw [List.dropWhile_append, if_neg (by simpa using h)]

/-- A pass over a buffer can be cut at any octet. -/
theorem drain_append (s x : Octets) :
    drain (s ++ x) = ((drain s).1 ++ (feed x (drain s).2).1, (feed x (drain s).2).2) := by
  fun_induction drain s with
  -- a frame is the same frame with more octets behind it, and the rest is shorter
  | case1 s n hn rest ih =>
    have hpos := pos_of_frameLengthWithin hn
    have hle := le_of_frameLengthWithin hn
    have hx : (s ++ x).dropWhile isFiller = s.dropWhile isFiller ++ x :=
      dropWhile_append_of_ne_nil x (List.length_pos_iff.1 (by omega))
    have hnx : frameLengthWithin maxMessage ((s ++ x).dropWhile isFiller) = .ok (some n) := by
      rw [hx, frameLengthWithin_append x (by simp [hn]), hn]
    rw [drain_of_frame hnx, hx, List.take_append_of_le_length hle,
      List.drop_append_of_le_length hle, ih]
    rfl
  -- an incomplete buffer waits, unless it is too long: then no octets make a frame of it
  | case2 s hn =>
    split
    · rename_i hlong
      have hx : (s ++ x).dropWhile isFiller = s.dropWhile isFiller ++ x :=
        dropWhile_append_of_ne_nil x (List.length_pos_iff.1 (by omega))
      cases hf : frameLengthWithin maxMessage ((s ++ x).dropWhile isFiller) with
      | error e => exact drain_of_fault hf
      | ok r =>
        cases r with
        | none =>
          rw [drain_of_incomplete hf, hx, if_pos (by rw [List.length_append]; omega)]
          rfl
        | some n => exact absurd (hx ▸ hf) (frameLengthWithin_append_ne_some x hn hlong)
    · exact (drain_dropWhile_append s x).symm
  -- a fault is the same fault
  | case3 s e he =>
    have hne : s.dropWhile isFiller ≠ [] := by
      intro hnil
      rw [hnil] at he
      cases he
    have hx : frameLengthWithin maxMessage ((s ++ x).dropWhile isFiller) = .error e := by
      rw [dropWhile_append_of_ne_nil x hne, frameLengthWithin_append x (by simp [he]), he]
    exact drain_of_fault hx

end Drain

/-! ## A stream in pieces -/

/-- Taking pieces one after another is one pass over all there is in the end. -/
theorem drain_append_flatten (s : Octets) (pieces : List Octets) :
    drain (s ++ pieces.flatten) =
      ((drain s).1 ++ (feedAll pieces (drain s).2).1, (feedAll pieces (drain s).2).2) := by
  induction pieces generalizing s with
  | nil => simp [feedAll]
  | cons piece pieces ih =>
    rw [List.flatten_cons, ← List.append_assoc, ih, drain_append]
    simp only [feedAll, List.append_assoc]

theorem drain_nil : drain [] = ([], start) := drain_of_incomplete rfl

theorem feedAll_eq_drain (pieces : List Octets) : feedAll pieces start = drain pieces.flatten := by
  have h := drain_append_flatten [] pieces
  rw [drain_nil] at h
  exact h.symm

end StreamReader

/-! ## What a listener delivers -/

namespace Listener

open StreamReader

variable {peer : Endpoint} {l : Listener} {r : StreamReader}

theorem receiveAll_of_no_stream (h : l.streams.find? peer = none) (pieces : List Octets) :
    receiveAll peer pieces l = [] := by
  induction pieces with
  | nil => rfl
  | cons piece pieces ih => simp [receiveAll, receive, h, ih]

theorem receive_of_gaveUp {piece : Octets} (h : l.streams.find? peer = some r)
    (hr : (r.feed piece).2 = gaveUp) :
    l.receive peer piece = ((r.feed piece).1.filterMap (l.deliver peer), l.hangUp peer) := by
  simp only [receive, h]
  generalize r.feed piece = fed at hr ⊢
  obtain ⟨frames, _⟩ := fed
  subst hr
  rfl

theorem receive_of_reading {piece pending : Octets} (h : l.streams.find? peer = some r)
    (hr : (r.feed piece).2 = reading pending) :
    l.receive peer piece =
      ((r.feed piece).1.filterMap (l.deliver peer),
        { l with streams := l.streams.put peer (reading pending) }) := by
  simp only [receive, h]
  generalize r.feed piece = fed at hr ⊢
  obtain ⟨frames, _⟩ := fed
  subst hr
  rfl

/-- The deliveries of a stream are those of the messages that its reader takes out. -/
theorem receiveAll_eq (h : l.streams.find? peer = some r) (pieces : List Octets) :
    receiveAll peer pieces l = (feedAll pieces r).1.filterMap (l.deliver peer) := by
  induction pieces generalizing l r with
  | nil => rfl
  | cons piece pieces ih =>
    simp only [receiveAll, feedAll, List.filterMap_append]
    -- a reader that gave up has its stream closed, and a closed stream delivers nothing
    cases hr : (r.feed piece).2 with
    | gaveUp =>
      have hnone : (l.hangUp peer).streams.find? peer = none := by
        simp [hangUp, Table.find?_erase]
      rw [receive_of_gaveUp h hr, receiveAll_of_no_stream hnone, feedAll_gaveUp, List.filterMap_nil]
    | reading pending =>
      rw [receive_of_reading h hr]
      congr 1
      apply ih
      simp [Table.find?_put]

theorem receiveAll_accept (peer : Endpoint) (pieces : List Octets) (l : Listener) :
    receiveAll peer pieces (l.accept peer) = (frames pieces).filterMap (l.deliver peer) := by
  apply receiveAll_eq
  simp [accept, Table.find?_put]

end Listener

namespace StreamReader

/-- However a stream is cut, the reader takes out the same messages in the same order and is left in
the same state, and a listener delivers the same. If the reader gives up after some pieces, no cut
of the stream yields a message more than those it had taken out by then. -/
theorem feedAll_eq_of_flatten_eq {pieces pieces' : List Octets}
    (h : pieces.flatten = pieces'.flatten) :
    feedAll pieces start = feedAll pieces' start ∧
      (∀ (l : Listener) (peer : Endpoint),
        (l.accept peer).receiveAll peer pieces = (l.accept peer).receiveAll peer pieces') ∧
      ∀ read unread : List Octets, pieces = read ++ unread → (feedAll read start).2 = gaveUp →
        frames pieces' = frames read := by
  have hall : feedAll pieces start = feedAll pieces' start := by
    rw [feedAll_eq_drain, feedAll_eq_drain, h]
  refine ⟨hall, ?_, ?_⟩
  · intro l peer
    rw [Listener.receiveAll_accept, Listener.receiveAll_accept, frames, frames, hall]
  · rintro read unread rfl hup
    rw [feedAll_eq_drain] at hup
    rw [frames, frames, ← hall, feedAll_eq_drain, feedAll_eq_drain, List.flatten_append,
      drain_append, hup]
    exact List.append_nil _

/-- A stream cut inside its line endings that loses its framing behind the first message. -/
theorem feedAll_eq_of_cut_line_endings :
    feedAll [Utf8.encode "A b S\r\nl:1\n\nx\r\nc\nd\n", Utf8.encode "e"] start =
        feedAll [Utf8.encode "A b S\r", Utf8.encode "\nl:1\n\nx\r", Utf8.encode "\nc\nd\ne"] start ∧
      (feedAll [Utf8.encode "A b S\r\nl:1\n\nx\r\nc\nd\n"] start).2 = gaveUp ∧
      frames [Utf8.encode "A b S\r", Utf8.encode "\nl:1\n\nx\r", Utf8.encode "\nc\nd\ne"] =
        [Utf8.encode "A b S\r\nl:1\n\nx"] := by
  have hup : (feedAll [Utf8.encode "A b S\r\nl:1\n\nx\r\nc\nd\n"] start).2 = gaveUp := by
    decide +kernel
  have hread : frames [Utf8.encode "A b S\r\nl:1\n\nx\r\nc\nd\n"] =
      [Utf8.encode "A b S\r\nl:1\n\nx"] := by
    decide +kernel
  have h := @feedAll_eq_of_flatten_eq
    [Utf8.encode "A b S\r\nl:1\n\nx\r\nc\nd\n", Utf8.encode "e"]
    [Utf8.encode "A b S\r", Utf8.encode "\nl:1\n\nx\r", Utf8.encode "\nc\nd\ne"] (by decide +kernel)
  exact ⟨h.1, hup, (h.2.2 [_] [_] rfl hup).trans hread⟩

end StreamReader

end SipProxy
