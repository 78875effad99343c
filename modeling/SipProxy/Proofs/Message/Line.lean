import SipProxy.Proofs.Framing.Extension
import SipProxy.Proofs.Text.Blank
import SipProxy.Proofs.Text.Decimal
import SipProxy.Proofs.Text.Utf8

/-!
# Lines that are written and read again

Text in which no line ends is read back from the line it makes (`Text.IsLine.read_encode`). So is a
header whose name and value fit on one (`Header.IsLegible`), with its value trimmed
(`Header.received`), and with the headers the block they make (`HeaderBlock.read_block`). Every
header that was read from a line has its value trimmed already (`Header.IsWritable`).
-/

namespace SipProxy

/-! ## Lines of text -/

/-- No line ends inside the text. -/
def Text.IsLine (s : String) : Prop := '\r' ∉ s.toList ∧ '\n' ∉ s.toList

instance (s : String) : Decidable (Text.IsLine s) :=
  inferInstanceAs (Decidable ('\r' ∉ s.toList ∧ '\n' ∉ s.toList))

namespace Text.IsLine

theorem of_subset {s t : String} (h : IsLine t) (hs : ∀ c ∈ s.toList, c ∈ t.toList) : IsLine s :=
  ⟨fun hc => h.1 (hs _ hc), fun hc => h.2 (hs _ hc)⟩

theorem append {s t : String} (hs : IsLine s) (ht : IsLine t) : IsLine (s ++ t) := by
  unfold IsLine at *
  simp [hs, ht]

theorem of_hasBlank {s : String} (h : hasBlank s = false) : IsLine s := by
  rw [hasBlank_eq_false] at h
  constructor
  · intro hc
    exact absurd (h _ hc) (by decide)
  · intro hc
    exact absurd (h _ hc) (by decide)

theorem space : IsLine " " := by decide

theorem of_digits {n : Nat} : IsLine (toString n) := by
  constructor
  · intro hc
    exact absurd (Decimal.isDigit_of_mem_toString hc) (by decide)
  · intro hc
    exact absurd (Decimal.isDigit_of_mem_toString hc) (by decide)

theorem decode {line : Octets} (h : ∀ b ∈ line, Line.isInside b = true) :
    IsLine (Utf8.decode line) := by
  have hout : ∀ c : Char, c.toNat = 0x0D ∨ c.toNat = 0x0A → c ∉ (Utf8.decode line).toList := by
    intro c hc hmem
    obtain ⟨b, hb, hbc⟩ := Utf8.exists_mem_of_mem_decode (by omega) hmem
    have hin := h b hb
    simp only [Line.isInside, Bool.and_eq_true, bne_iff_ne, ne_eq, ← UInt8.toNat_inj,
      UInt8.reduceToNat] at hin
    omega
  exact ⟨hout _ (.inl rfl), hout _ (.inr rfl)⟩

theorem isInside_of_mem_encode {s : String} {b : UInt8} (h : IsLine s) (hb : b ∈ Utf8.encode s) :
    Line.isInside b = true := by
  simp only [Line.isInside, Bool.and_eq_true, bne_iff_ne, ne_eq]
  constructor
  · rintro rfl
    exact h.1 (Utf8.mem_of_mem_encode (c := '\r') rfl (by decide) hb)
  · rintro rfl
    exact h.2 (Utf8.mem_of_mem_encode (c := '\n') rfl (by decide) hb)

/-- A line that is written is read, whatever follows. -/
theorem read_encode {s : String} (h : IsLine s) (rest : Octets) :
    Line.read (Utf8.encode (s ++ "\r\n") ++ rest) = some (Utf8.encode s, rest) := by
  refine Line.read_eq_some.2 ⟨fun b hb => h.isInside_of_mem_encode hb, .inr ?_⟩
  have hend : Utf8.encode "\r\n" = [0x0D, 0x0A] := by decide
  rw [Utf8.encode_append, hend, List.append_assoc]
  rfl

end Text.IsLine

/-! ## Header lines -/

/-- A header that is read from the line it writes, but for white space around its value: its name is
one word without a colon, and no line ends inside its value. -/
structure Header.IsLegible (h : Header) : Prop where
  name_ne : h.name ≠ ""
  name_blank : Text.hasBlank h.name = false
  name_colon : ':' ∉ h.name.toList
  value_line : Text.IsLine h.valueText

/-- A header that is read from the line it writes: its name is one word without a colon, and its
value is what is left of a line after trimming. -/
structure Header.IsWritable (h : Header) : Prop where
  name_ne : h.name ≠ ""
  name_blank : Text.hasBlank h.name = false
  name_colon : ':' ∉ h.name.toList
  value_trim : Text.trim h.valueText = h.valueText
  value_line : Text.IsLine h.valueText

namespace Header

variable {h : Header}

/-- The header that is read from the line of a legible one. -/
def received (h : Header) : Header := .ofText h.name (Text.trim h.valueText)

theorem IsWritable.isLegible (hw : h.IsWritable) : h.IsLegible :=
  ⟨hw.name_ne, hw.name_blank, hw.name_colon, hw.value_line⟩

theorem IsWritable.received (hw : h.IsWritable) : h.received = .ofText h.name h.valueText := by
  rw [Header.received, hw.value_trim]

theorem IsLegible.isLine (hw : h.IsLegible) : Text.IsLine h.text := by
  refine Text.IsLine.append (.append (.of_hasBlank hw.name_blank) ?_) hw.value_line
  decide

/-- A header line is read back, with its value as text. -/
theorem parse_text (hw : h.IsLegible) : Header.parse (Utf8.encode h.text) = .ok h.received := by
  have hcolon : ∀ b ∈ Utf8.encode h.name, (b != 0x3A) = true := by
    intro b hb
    rw [bne_iff_ne]
    rintro rfl
    exact hw.name_colon (Utf8.mem_of_mem_encode (c := ':') rfl (by decide) hb)
  -- the first colon of the line is the one behind the name
  have hsep : Utf8.encode ": " = 0x3A :: Utf8.encode " " := by decide
  have htext : Utf8.encode h.text =
      Utf8.encode h.name ++ 0x3A :: Utf8.encode (" " ++ h.valueText) := by
    rw [text, Utf8.encode_append, Utf8.encode_append, Utf8.encode_append, hsep]
    simp
  have htake : (Utf8.encode h.text).takeWhile (· != 0x3A) = Utf8.encode h.name := by
    rw [htext, List.takeWhile_append_of_pos hcolon]
    simp
  have hdrop : (Utf8.encode h.text).dropWhile (· != 0x3A) =
      0x3A :: Utf8.encode (" " ++ h.valueText) := by
    rw [htext, List.dropWhile_append_of_pos hcolon]
    simp
  have hne : (Utf8.encode h.name).isEmpty = false := by
    rw [List.isEmpty_eq_false_iff]
    intro hnil
    have hdec := Utf8.decode_encode h.name
    rw [hnil] at hdec
    exact hw.name_ne (hdec.symm.trans (Utf8.decode_encode ""))
  have hempty : h.name.isEmpty = false := by
    rw [← Bool.not_eq_true, String.isEmpty_iff]
    exact hw.name_ne
  have hvalue : Text.trim (" " ++ h.valueText) = Text.trim h.valueText := by
    have hcons : " " ++ h.valueText = String.ofList (' ' :: h.valueText.toList) := by
      rw [String.ofList_cons, String.ofList_toList]
      rfl
    rw [hcons, Text.trim_cons rfl, String.ofList_toList]
  unfold Header.parse
  simp only [htake, hdrop, hne, Utf8.decode_encode, Text.trim_of_hasBlank hw.name_blank, hempty,
    hw.name_blank, hvalue, Bool.false_or, Bool.false_eq_true, if_false]
  rfl

/-- What a line is read into can be written, and is text as yet. -/
theorem of_parse {line : Octets} (hl : ∀ b ∈ line, Line.isInside b = true)
    (hp : Header.parse line = .ok h) : h.IsWritable ∧ h = .ofText h.name h.valueText := by
  unfold Header.parse at hp
  simp only at hp
  split at hp
  · rename_i b value hd
    split at hp
    · cases hp
    · split at hp
      · cases hp
      · rename_i hname
        cases hp
        have hsplit := List.takeWhile_append_dropWhile (p := (· != 0x3A)) (l := line)
        rw [hd] at hsplit
        rw [Bool.or_eq_true, not_or, Bool.not_eq_true, Bool.not_eq_true] at hname
        -- the name has no colon because it stands before the first, and the value no line ending
        -- because the line has none
        refine ⟨⟨?_, hname.2, ?_, Text.trim_trim _, ?_⟩, rfl⟩
        · intro hnil
          rw [show Text.trim (Utf8.decode (line.takeWhile (· != 0x3A))) = "" from hnil] at hname
          exact absurd hname.1 (by decide)
        · intro hc
          obtain ⟨b, hb, hbc⟩ :=
            Utf8.exists_mem_of_mem_decode (c := ':') (by decide) (Text.mem_of_mem_trim hc)
          have hne := List.all_eq_true.1 List.all_takeWhile b hb
          rw [bne_iff_ne] at hne
          exact hne (UInt8.toNat_inj.1 hbc)
        · refine .of_subset (.decode fun b hb => hl b ?_) fun c hc => Text.mem_of_mem_trim hc
          rw [← hsplit, List.mem_append]
          exact .inr (List.mem_cons_of_mem _ hb)
  · cases hp

end Header

/-! ## Header blocks -/

/-- Header lines as they are written, up to the empty line. -/
def Headers.block (hs : Headers) : String :=
  String.join (hs.map fun h => h.text ++ "\r\n") ++ "\r\n"

theorem Headers.block_cons (h : Header) (hs : Headers) :
    Headers.block (h :: hs) = h.text ++ "\r\n" ++ Headers.block hs := by
  simp [block, String.append_assoc]

namespace HeaderBlock

/-- A header block is read back, each line with its value as text. -/
theorem read_block {hs : Headers} (hw : ∀ h ∈ hs, h.IsLegible) (body : Octets) :
    read (Utf8.encode hs.block ++ body) = ended (hs.map Header.received) body := by
  induction hs with
  | nil =>
    have hnil : Text.IsLine "" := by decide
    exact read_of_blank (hnil.read_encode body)
  | cons h hs ih =>
    have hh := hw h List.mem_cons_self
    -- an empty line would end the block, but no header is read from one
    have hne : Utf8.encode h.text ≠ [] := by
      intro hnil
      have := Header.parse_text hh
      rw [hnil] at this
      cases this
    rw [Headers.block_cons, Utf8.encode_append, List.append_assoc,
      read_of_line (hh.isLine.read_encode _) hne, Header.parse_text hh,
      ih fun x hx => hw x (List.mem_cons_of_mem h hx)]
    rfl

/-- The lines of a block that was read can be written, and are text as yet. -/
theorem of_mem_read {s body : Octets} {headers : Headers} {h : Header}
    (hr : read s = ended headers body) (hm : h ∈ headers) :
    h.IsWritable ∧ h = .ofText h.name h.valueText := by
  fun_induction read s generalizing headers with
  | case1 => cases hr
  | case2 =>
    cases hr
    cases hm
  | case3 s line rest hne hl header hp ih =>
    obtain ⟨hs, hb, rfl⟩ := cons_eq_ended.1 hr
    rcases List.mem_cons.1 hm with rfl | hm
    · exact Header.of_parse (Line.read_eq_some.1 hl).1 hp
    · exact ih hb hm
  | case4 => cases hr

end HeaderBlock

end SipProxy
