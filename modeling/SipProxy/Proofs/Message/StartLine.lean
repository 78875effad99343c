import SipProxy.Message.Parse
import SipProxy.Proofs.Message.Line

/-!
# Start lines that are written and read again

The writer and the reader of a start line do not agree everywhere. The writer gives a status code in
the fewest digits where the reader wants three characters, and the reader goes by the first
characters of the line where the writer goes by the kind of the message. What they agree on is
`StartLine.IsStable`, and nothing else comes back (`StartLine.parse_text_iff`).
-/

namespace SipProxy

/-! ## Beginnings -/

theorem isStatusText_iff {line : String} :
    isStatusText line = true ↔ ∃ rest, line.toList = ['S', 'I', 'P', '/'] ++ rest := by
  unfold isStatusText
  rw [Option.isSome_iff_exists]
  simp only [Text.dropFront?_eq_some]

/-- What stands behind a space does not make a status line. -/
theorem isStatusText_append (first rest : String) :
    isStatusText (first ++ " " ++ rest) = isStatusText first := by
  have hlist : (first ++ " " ++ rest).toList = first.toList ++ ' ' :: rest.toList := by simp
  rw [Bool.eq_iff_iff, isStatusText_iff, isStatusText_iff, hlist]
  constructor
  · rintro ⟨tail, h⟩
    rcases List.append_eq_append_iff.1 h with ⟨as, hp, hs⟩ | ⟨bs, hp, -⟩
    · cases as with
      | nil => exact ⟨[], by rw [hp, List.append_nil, List.append_nil]⟩
      | cons a as =>
        -- the prefix would hold the space
        rw [List.cons_append, List.cons.injEq] at hs
        obtain ⟨rfl, -⟩ := hs
        have hmem : ' ' ∈ ['S', 'I', 'P', '/'] := by
          rw [hp]
          exact List.mem_append.2 (.inr List.mem_cons_self)
        exact absurd hmem (by decide)
    · exact ⟨bs, hp⟩
  · rintro ⟨tail, h⟩
    exact ⟨tail ++ ' ' :: rest.toList, by rw [h, List.append_assoc]⟩

/-- What a request line begins with is up to its method. -/
theorem isStatusText_request (line : RequestLine) :
    isStatusText (StartLine.request line).text = isStatusText line.method := by
  show isStatusText (line.method ++ " " ++ line.uri ++ " " ++ line.version) = _
  rw [isStatusText_append, isStatusText_append]

/-- What a status line begins with is up to its version. -/
theorem isStatusText_response (line : StatusLine) :
    isStatusText (StartLine.response line).text = isStatusText line.version := by
  show isStatusText (line.version ++ " " ++ _ ++ " " ++ line.reason) = _
  rw [isStatusText_append, isStatusText_append]

/-! ## Request lines -/

namespace RequestLine

variable {text : String} {line : RequestLine}

theorem parse_eq_ok :
    RequestLine.parse text = .ok line ↔
      Text.words text = [line.method, line.uri, line.version] := by
  unfold RequestLine.parse
  constructor
  · intro h
    split at h
    · rename_i hw
      cases h
      exact hw
    · cases h
  · intro h
    simp only [h]

/-- Each field is one word. -/
structure OfWords (line : RequestLine) : Prop where
  method : line.method ≠ "" ∧ Text.hasBlank line.method = false
  uri : line.uri ≠ "" ∧ Text.hasBlank line.uri = false
  version : line.version ≠ "" ∧ Text.hasBlank line.version = false

theorem OfWords.of_parse (h : RequestLine.parse text = .ok line) : line.OfWords := by
  have hword : ∀ word ∈ [line.method, line.uri, line.version],
      word ≠ "" ∧ Text.hasBlank word = false := by
    intro word hmem
    rw [← parse_eq_ok.1 h] at hmem
    exact ⟨(Text.of_mem_words hmem).1, (Text.of_mem_words hmem).2.1⟩
  exact ⟨hword _ (by simp), hword _ (by simp), hword _ (by simp)⟩

/-- A request line is read back by the reader of request lines. -/
theorem OfWords.parse_text (hw : line.OfWords) :
    RequestLine.parse (StartLine.request line).text = .ok line :=
  parse_eq_ok.2 (Text.words_of_three hw.method hw.uri hw.version)

theorem OfWords.isLine_text (hw : line.OfWords) : Text.IsLine (StartLine.request line).text := by
  have hmethod := Text.IsLine.of_hasBlank hw.method.2
  have huri := Text.IsLine.of_hasBlank hw.uri.2
  have hversion := Text.IsLine.of_hasBlank hw.version.2
  exact (((hmethod.append .space).append huri).append .space).append hversion

end RequestLine

/-! ## Status lines -/

namespace StatusLine

variable {text : String} {line : StatusLine}

theorem parse_eq_ok :
    StatusLine.parse text = .ok line ↔
      ∃ code reason : List Char,
        text.toList = line.version.toList ++ ' ' :: (code ++ ' ' :: reason) ∧
          ' ' ∉ line.version.toList ∧ ' ' ∉ code ∧ code? (String.ofList code) = some line.code ∧
            line.reason = Text.trim (String.ofList reason) := by
  unfold StatusLine.parse
  constructor
  · intro h
    split at h
    · rename_i version rest hversion
      split at h
      · rename_i code reason hcode
        split at h
        · rename_i hc
          cases h
          obtain ⟨htext, hv⟩ := Text.cutFirst_eq_some.1 hversion
          obtain ⟨rfl, hn⟩ := Text.cutFirst_eq_some.1 hcode
          exact ⟨code, reason, by rw [htext, String.toList_ofList],
            by rwa [String.toList_ofList], hn, hc, rfl⟩
        · cases h
      · cases h
    · cases h
  · rintro ⟨code, reason, htext, hv, hn, hc, hr⟩
    simp only [Text.cutFirst_eq_some.2 ⟨htext, hv⟩, Text.cutFirst_eq_some.2 ⟨rfl, hn⟩, hc, ← hr,
      String.ofList_toList]

/-- A code of three characters is less than a thousand. -/
theorem code?_lt {s : String} {code : UInt16} (h : code? s = some code) : code.toNat < 1000 := by
  unfold code? at h
  split at h
  · rename_i hlen
    have := Decimal.word16?_lt h
    rw [hlen] at this
    exact this
  · cases h

/-- A code is written in three digits unless it begins with a zero. -/
theorem code?_toString {code : UInt16} (h : code.toNat < 1000) :
    code? (toString code.toNat) = if 100 ≤ code.toNat then some code else none := by
  unfold code?
  rw [Decimal.word16?_toString]
  by_cases hle : 100 ≤ code.toNat
  · have hthree : (toString code.toNat).length = 3 :=
      Decimal.length_toString_eq_three.2 ⟨hle, h⟩
    rw [if_pos hthree, if_pos hle]
  · have hless : ¬ (toString code.toNat).length = 3 := by
      intro hthree
      exact hle (Decimal.length_toString_eq_three.1 hthree).1
    rw [if_neg hless, if_neg hle]

theorem toList_text (line : StatusLine) :
    (StartLine.response line).text.toList =
      line.version.toList ++
        ' ' :: ((toString line.code.toNat).toList ++ ' ' :: line.reason.toList) := by
  simp [StartLine.text]

theorem space_notMem_toString (n : Nat) : ' ' ∉ (toString n).toList := by
  intro hmem
  exact absurd (Decimal.isDigit_of_mem_toString hmem) (by decide)

/-- A status line is read back whose code takes three digits and whose fields are found again. -/
theorem parse_text_of_code (hv : ' ' ∉ line.version.toList)
    (hcode : 100 ≤ line.code.toNat ∧ line.code.toNat < 1000)
    (hr : Text.trim line.reason = line.reason) :
    StatusLine.parse (StartLine.response line).text = .ok line := by
  refine parse_eq_ok.2 ⟨_, _, toList_text line, hv, space_notMem_toString _, ?_, ?_⟩
  · rw [String.ofList_toList, code?_toString hcode.2, if_pos hcode.1]
  · rw [String.ofList_toList, hr]

/-- A status line is read back by the reader of status lines if its code has three digits. -/
theorem parse_text_iff (h : StatusLine.parse text = .ok line) :
    StatusLine.parse (StartLine.response line).text = .ok line ↔ 100 ≤ line.code.toNat := by
  obtain ⟨code, reason, -, hv, -, hc, hr⟩ := parse_eq_ok.1 h
  have hlt := code?_lt hc
  constructor
  · intro hback
    obtain ⟨code', reason', htext, -, hn, hc', -⟩ := parse_eq_ok.1 hback
    -- both ways to cut the written text are the same
    have hcut := Text.cutFirst_eq_some.2 ⟨htext, hv⟩
    rw [Text.cutFirst_eq_some.2 ⟨toList_text line, hv⟩, Option.some.injEq, Prod.mk.injEq] at hcut
    have hcut' := Text.cutFirst_eq_some.2 ⟨hcut.2.symm, space_notMem_toString _⟩
    rw [Text.cutFirst_eq_some.2 ⟨rfl, hn⟩, Option.some.injEq, Prod.mk.injEq] at hcut'
    rw [hcut'.1, String.ofList_toList, code?_toString hlt] at hc'
    split at hc'
    · assumption
    · cases hc'
  · intro hle
    exact parse_text_of_code hv ⟨hle, hlt⟩ (by rw [hr, Text.trim_trim])

theorem isLine_text_of_fields (hversion : Text.IsLine line.version)
    (hreason : Text.IsLine line.reason) : Text.IsLine (StartLine.response line).text :=
  (((hversion.append .space).append .of_digits).append .space).append hreason

theorem isLine_text (hl : Text.IsLine text) (h : StatusLine.parse text = .ok line) :
    Text.IsLine (StartLine.response line).text := by
  obtain ⟨code, reason, htext, -, -, -, hr⟩ := parse_eq_ok.1 h
  have hversion : Text.IsLine line.version := by
    refine hl.of_subset fun c hc => ?_
    rw [htext]
    exact List.mem_append.2 (.inl hc)
  have hreason : Text.IsLine line.reason := by
    refine hl.of_subset fun c hc => ?_
    rw [hr] at hc
    have hc := Text.mem_of_mem_trim hc
    rw [String.toList_ofList] at hc
    rw [htext]
    simp [hc]
  exact isLine_text_of_fields hversion hreason

/-- A status line that was read from one is written as one. -/
theorem isStatusText_text (hs : isStatusText text = true) (h : StatusLine.parse text = .ok line) :
    isStatusText (StartLine.response line).text = true := by
  obtain ⟨code, reason, htext, -⟩ := parse_eq_ok.1 h
  have hback : text =
      line.version ++ " " ++ String.ofList (code ++ ' ' :: reason) := by
    apply String.toList_inj.1
    simp [htext]
  rw [hback, isStatusText_append] at hs
  rw [isStatusText_response]
  exact hs

end StatusLine

/-! ## Both kinds -/

namespace StartLine

/-- The start lines that are read back from what they write. The method of a request may begin like
a version, and then the request is read as a response; a code may have been read from less than
three digits, and then the status line is refused. -/
def IsStable : StartLine → Prop
  | .request line => isStatusText line.method = false
  | .response line => 100 ≤ line.code.toNat

instance : DecidablePred IsStable
  | .request line => inferInstanceAs (Decidable (isStatusText line.method = false))
  | .response line => inferInstanceAs (Decidable (100 ≤ line.code.toNat))

variable {text : String} {start : StartLine}

theorem parse_eq_ok :
    StartLine.parse text = .ok start ↔
      (isStatusText text = true ∧
          ∃ line, StatusLine.parse text = .ok line ∧ start = .response line) ∨
        (isStatusText text = false ∧
          ∃ line, RequestLine.parse text = .ok line ∧ start = .request line) := by
  unfold StartLine.parse
  -- the first characters decide which of the readers is asked
  cases isStatusText text with
  | true =>
    cases StatusLine.parse text <;> simp [Except.map, eq_comm]
  | false =>
    cases RequestLine.parse text <;> simp [Except.map, eq_comm]

/-- The kinds of start lines cannot be told apart by what they write, only by where it leads. -/
theorem parse_text_iff (h : StartLine.parse text = .ok start) :
    StartLine.parse start.text = .ok start ↔ start.IsStable := by
  rw [@parse_eq_ok start.text]
  rcases parse_eq_ok.1 h with ⟨hs, line, hl, rfl⟩ | ⟨-, line, hl, rfl⟩
  · have hstatus := StatusLine.isStatusText_text hs hl
    have hback := StatusLine.parse_text_iff hl
    show _ ↔ 100 ≤ line.code.toNat
    rw [← hback]
    constructor
    · rintro (⟨-, line', hl', heq⟩ | ⟨hno, -⟩)
      · cases heq
        exact hl'
      · rw [hstatus] at hno
        cases hno
    · intro hl'
      exact .inl ⟨hstatus, line, hl', rfl⟩
  · show _ ↔ isStatusText line.method = false
    rw [isStatusText_request]
    constructor
    · rintro (⟨-, line', -, heq⟩ | ⟨hno, -⟩)
      · cases heq
      · exact hno
    · intro hno
      exact .inr ⟨hno, line, (RequestLine.OfWords.of_parse hl).parse_text, rfl⟩

theorem isLine_text (hl : Text.IsLine text) (h : StartLine.parse text = .ok start) :
    Text.IsLine start.text := by
  rcases parse_eq_ok.1 h with ⟨-, line, hline, rfl⟩ | ⟨-, line, hline, rfl⟩
  · exact StatusLine.isLine_text hl hline
  · exact (RequestLine.OfWords.of_parse hline).isLine_text

end StartLine

end SipProxy
