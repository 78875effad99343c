import SipProxy.Proofs.Grammar.Classes
import SipProxy.Proofs.Text.Utf8

/-!
# Quoted strings

A quoted string is a quote, octets that stand for themselves or behind a backslash, and a quote
(`Lexeme.IsQuoted`). Every such octets are taken off as a quoted string, whatever follows them, and
nothing else is (`Lexeme.quotedRaw_eq_some`): a backslash takes the octet behind it along, so the
first quote that none of them takes is the last octet.

It is still a quoted string when it is read as text and its stray octets are replaced
(`Lexeme.IsQuoted.encode_decode`), though a backslash may take an octet along that begins a longer
character.
-/

namespace SipProxy.Lexeme

open Utf8

variable {s w tail rest : Octets} {b : UInt8}

theorem isPlain_iff : isPlain b = true ↔ b ≠ 0x22 ∧ b ≠ 0x5C := by
  rw [isPlain, isOneOf_cons, isOneOf_cons, isOneOf_nil, Bool.or_false, Bool.not_or,
    Bool.and_eq_true]
  exact and_congr bne_iff_ne bne_iff_ne

/-- What follows an opening quote: octets that stand for themselves, others behind a backslash, and
the closing quote. -/
inductive ClosesQuote : Octets → Prop
  | quote : ClosesQuote [0x22]
  | escaped (b : UInt8) {w : Octets} : ClosesQuote w → ClosesQuote (0x5C :: b :: w)
  | plain {b : UInt8} {w : Octets} : isPlain b = true → ClosesQuote w → ClosesQuote (b :: w)

namespace ClosesQuote

theorem getLast? (h : ClosesQuote w) : w.getLast? = some 0x22 := by
  induction h with
  | quote => rfl
  | escaped b _ ih =>
    rw [List.getLast?_cons, List.getLast?_cons, ih]
    rfl
  | plain _ _ ih =>
    rw [List.getLast?_cons, ih]
    rfl

theorem rawToQuote (h : ClosesQuote w) (rest : Octets) :
    Lexeme.rawToQuote (w ++ rest) = some (w, rest) := by
  induction h with
  | quote => rfl
  | escaped b _ ih =>
    show (Lexeme.rawToQuote (_ ++ rest)).map _ = _
    rw [ih]
    rfl
  | plain hb _ ih =>
    obtain ⟨hquote, hescape⟩ := isPlain_iff.1 hb
    rw [List.cons_append, Lexeme.rawToQuote, ih]
    · rfl
    · exact hquote
    · intro _ _ hb
      exact absurd hb hescape
    · intro hb
      exact absurd hb hescape

end ClosesQuote

theorem rawToQuote_eq_some :
    rawToQuote s = some (w, rest) ↔ s = w ++ rest ∧ ClosesQuote w := by
  constructor
  · intro h
    fun_induction rawToQuote s generalizing w with
    | case1 s =>
      cases h
      exact ⟨rfl, .quote⟩
    | case2 b s ih =>
      obtain ⟨r, hr, heq⟩ := Option.map_eq_some_iff.1 h
      cases heq
      obtain ⟨rfl, hcloses⟩ := ih hr
      exact ⟨rfl, .escaped b hcloses⟩
    | case3 => cases h
    | case4 b s hquote hescape hlone ih =>
      obtain ⟨r, hr, heq⟩ := Option.map_eq_some_iff.1 h
      cases heq
      obtain ⟨rfl, hcloses⟩ := ih hr
      have hplain : b ≠ 0x5C := by
        rintro rfl
        cases hc : r.1 ++ r.2 with
        | nil => exact hlone rfl hc
        | cons c cs => exact hescape c cs rfl hc
      exact ⟨rfl, .plain (isPlain_iff.2 ⟨hquote, hplain⟩) hcloses⟩
    | case5 => cases h
  · rintro ⟨rfl, h⟩
    exact h.rawToQuote rest

/-- A quoted string as it is written. -/
def IsQuoted (w : Octets) : Prop := ∃ behind, w = 0x22 :: behind ∧ ClosesQuote behind

theorem IsQuoted.getLast? (h : IsQuoted w) : w.getLast? = some 0x22 := by
  obtain ⟨behind, rfl, hcloses⟩ := h
  rw [List.getLast?_cons, hcloses.getLast?]
  rfl

/-- Exactly the quoted strings are taken off, whatever follows. -/
theorem quotedRaw_eq_some :
    quotedRaw s = some (w, rest) ↔ s = w ++ rest ∧ IsQuoted w := by
  constructor
  · intro h
    unfold quotedRaw at h
    split at h
    · obtain ⟨r, hr, heq⟩ := Option.map_eq_some_iff.1 h
      cases heq
      obtain ⟨rfl, hcloses⟩ := rawToQuote_eq_some.1 hr
      exact ⟨rfl, r.1, rfl, hcloses⟩
    · cases h
  · rintro ⟨rfl, behind, rfl, hcloses⟩
    show (rawToQuote (behind ++ rest)).map _ = _
    rw [hcloses.rawToQuote]
    rfl

instance (w : Octets) : Decidable (IsQuoted w) :=
  decidable_of_iff (quotedRaw w = some (w, [])) <| by
    rw [quotedRaw_eq_some, List.append_nil]
    exact and_iff_right rfl

/-! ## Stray octets -/

theorem isPlain_of_above (hb : 0x80 ≤ b.toNat) : isPlain b = true := by
  rw [isPlain_iff]
  constructor <;>
    · rintro rfl
      exact absurd hb (by decide)

theorem closesQuote_cons_iff (hb : isPlain b = true) : ClosesQuote (b :: w) ↔ ClosesQuote w := by
  constructor
  · intro h
    cases h with
    | quote => cases hb
    | escaped _ _ => cases hb
    | plain _ h => exact h
  · exact .plain hb

/-- Octets above ASCII do not open or close anything. -/
theorem closesQuote_append_iff (htail : ∀ b ∈ tail, 0x80 ≤ b.toNat) :
    ClosesQuote (tail ++ w) ↔ ClosesQuote w := by
  induction tail with
  | nil => rfl
  | cons b tail ih =>
    rw [List.cons_append, closesQuote_cons_iff (isPlain_of_above (htail b List.mem_cons_self))]
    exact ih fun x hx => htail x (List.mem_cons_of_mem b hx)

theorem ClosesQuote.encode_decode (h : ClosesQuote w) : ClosesQuote (encode (decode w)) := by
  -- a character takes one octet or more, so the induction is on the length
  induction hn : w.length using Nat.strongRecOn generalizing w with
  | ind n ih =>
    -- an octet in front becomes one in front, and a plain one a plain one
    have hfront : ∀ {b : UInt8} {w : Octets}, ClosesQuote w → w.length < n →
        ∃ c written, encode (decode (b :: w)) = c :: written ∧
          (isPlain b = true → isPlain c = true) ∧ ClosesQuote written := by
      intro b w hw hlen
      by_cases hb : b.toNat < 0x80
      · exact ⟨b, _, encode_decode_ascii hb w, id, ih w.length hlen hw rfl⟩
      · obtain ⟨tail, rest, c, written, rfl, hwritten, htail, hc⟩ :=
          exists_encode_decode_above (Nat.le_of_not_lt hb) w
        have hrest := (closesQuote_append_iff htail).1 hw
        rw [List.length_append] at hlen
        refine ⟨c, _, hwritten, fun _ => isPlain_of_above (hc c List.mem_cons_self), ?_⟩
        exact (closesQuote_append_iff fun x hx => hc x (List.mem_cons_of_mem c hx)).2
          (ih rest.length (by omega) hrest rfl)
    cases h with
    | quote =>
      rw [encode_decode_ascii (by decide), decode, chars_nil]
      exact .quote
    | escaped b hw =>
      rw [List.length_cons, List.length_cons] at hn
      obtain ⟨c, written, hwritten, -, hcloses⟩ := hfront (b := b) hw (by omega)
      rw [encode_decode_ascii (by decide), hwritten]
      exact .escaped c hcloses
    | plain hb hw =>
      rw [List.length_cons] at hn
      obtain ⟨c, written, hwritten, hc, hcloses⟩ := hfront hw (by omega)
      rw [hwritten]
      exact .plain (hc hb) hcloses

/-- A quoted string is one after its stray octets are replaced. -/
theorem IsQuoted.encode_decode (h : IsQuoted w) : IsQuoted (encode (decode w)) := by
  obtain ⟨behind, rfl, hcloses⟩ := h
  exact ⟨_, encode_decode_ascii (by decide) behind, hcloses.encode_decode⟩

end SipProxy.Lexeme
