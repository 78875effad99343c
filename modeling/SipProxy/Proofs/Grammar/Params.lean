import SipProxy.Params
import SipProxy.Proofs.Grammar.Spaced

/-!
# Parameters that are written and read again

A parameter may be spelled with spaces around its semicolon and its equals sign, and the spellings
of parameters are read as those parameters in front of the comma of the next entry or of nothing
(`Params.SpelledBy.params`). Nothing else is: what is read as parameters spells them
(`Lexeme.spelledBy_of_params`). The text a list is written as is one of its spellings, so what was
read is read again from it.

A value keeps its quotes. It is a run of octets or a quoted string (`Param.IsLegible`), and it can
be written into a header if it has no line break (`Param.IsWritable`). What is read of a header
value has none, and the last parameter ends as its spelling does.
-/

namespace SipProxy

open Lexeme Reader Utf8

variable {s w rest : Octets} {v : String} {p : Param} {ps : Params}

theorem Text.isLine_iff {t : String} :
    IsLine t ↔ ∀ b ∈ encode t, Line.isInside b = true := by
  constructor
  · intro h b hb
    exact h.isInside_of_mem_encode hb
  · intro h
    rw [← decode_encode t]
    exact .decode h

namespace Lexeme

theorem IsRun.isLine {q : UInt8 → Bool} {t : String} (h : IsRun q t)
    (hq : ∀ b, q b = true → Line.isInside b = true) : Text.IsLine t :=
  Text.isLine_iff.2 fun b hb => hq b (h.2 b hb)

theorem isInside_of_isTokenOctet : ∀ b, isTokenOctet b = true → Line.isInside b = true :=
  isInside_of (by decide)

theorem isInside_of_isParamOctet : ∀ b, isParamOctet b = true → Line.isInside b = true :=
  isInside_of (by decide)

/-- The next entry of a list follows, or nothing. -/
abbrev EndsEntry (rest : Octets) : Prop := Ends [','] rest

/-- The next parameter or entry follows, or nothing. -/
abbrev EndsParam (rest : Octets) : Prop := Ends [';', ','] rest

theorem Ends.endsParam (h : EndsEntry rest) : EndsParam rest := h.mono (by simp)

end Lexeme

/-! ## Values -/

/-- A parameter value: a run of unquoted octets or a quoted string. -/
def Param.IsLegibleValue (v : String) : Prop := IsRun isParamOctet v ∨ IsQuoted (encode v)

/-- A parameter value that is read as it is written: a run of unquoted octets or a quoted string. -/
def Param.IsValue (v : String) : Prop :=
  IsRun isParamOctet v ∨ Text.IsLine v ∧ quotedRaw (encode v) = some (encode v, [])

namespace Param

/-- A value that can be written is one without line breaks. -/
theorem isValue_iff : IsValue v ↔ IsLegibleValue v ∧ Text.IsLine v := by
  have hquoted : quotedRaw (encode v) = some (encode v, []) ↔ IsQuoted (encode v) := by
    rw [quotedRaw_eq_some, List.append_nil]
    exact and_iff_right rfl
  unfold IsValue IsLegibleValue
  rw [hquoted, or_and_right, and_comm (a := Text.IsLine v)]
  exact or_congr_left (iff_self_and.2 fun h => h.isLine isInside_of_isParamOctet)

namespace IsLegibleValue

theorem ne_empty (h : IsLegibleValue v) : v ≠ "" := by
  rcases h with h | ⟨behind, h, -⟩
  · exact h.1
  · rintro rfl
    cases h

/-- A value does not begin with white space. -/
theorem stops (h : IsLegibleValue v) (rest : Octets) : Stops isSpace (encode v ++ rest) := by
  rcases h with h | ⟨behind, h, -⟩
  · exact h.stops (isSpace_eq_false_of (by decide)) rest
  · rw [h]
    exact stops_cons.2 (by decide)

/-- A value is read up to what cannot go on with it. -/
theorem paramValue (h : IsLegibleValue v) (hr : Follows [';', ','] rest) :
    Lexeme.paramValue (encode v ++ rest) = some (encode v, rest) := by
  unfold Lexeme.paramValue
  rcases h with h | h
  · -- no unquoted value begins with a quote
    have hnone : quotedRaw (encode v ++ rest) = none := by
      obtain ⟨b, s, hs, hb⟩ := h.head rest
      rw [hs]
      unfold quotedRaw
      split
      · rename_i heq
        cases heq
        exact absurd hb (by decide)
      · rfl
    rw [hnone]
    exact h.run1 (hr.stops (by decide))
  · rw [quotedRaw_eq_some.2 ⟨rfl, h⟩]

end IsLegibleValue

end Param

/-- What is read as a value is one, whether its octets spell a text or not. -/
theorem Lexeme.isLegibleValue_decode (h : paramValue s = some (w, rest)) :
    Param.IsLegibleValue (decode w) := by
  unfold paramValue at h
  split at h
  · rename_i r hread
    cases h
    obtain ⟨-, hquoted⟩ := quotedRaw_eq_some.1 hread
    exact .inr hquoted.encode_decode
  · obtain ⟨-, hne, hw, -⟩ := run1_eq_some.1 h
    exact .inl (isRun_decode cutsText_isParamOctet hne hw)

/-- A value is cut off a text as a text. -/
theorem Lexeme.isLegibleValue_of_paramValue (hs : IsText s)
    (h : paramValue s = some (w, rest)) :
    s = w ++ rest ∧ IsText w ∧ Param.IsLegibleValue (decode w) ∧ IsText rest := by
  have hvalue := isLegibleValue_decode h
  unfold paramValue at h
  split at h
  · rename_i r hread
    cases h
    obtain ⟨rfl, hquoted⟩ := quotedRaw_eq_some.1 hread
    obtain ⟨hw, hrest⟩ := hs.cut_of_getLast hquoted.getLast? (by decide)
    exact ⟨rfl, hw, hvalue, hrest⟩
  · obtain ⟨rfl, hw, -, -, hrest⟩ := run1_spec hs cutsText_isParamOctet h
    exact ⟨rfl, hw, hvalue, hrest⟩

/-! ## Parameters -/

/-- A parameter whose name and value may stand in a header. -/
structure Param.IsLegible (p : Param) : Prop where
  name : IsRun isTokenOctet p.name
  value : ∀ v ∈ p.value, IsLegibleValue v

/-- A parameter that is read as it is written. -/
structure Param.IsWritable (p : Param) : Prop where
  name : IsRun isTokenOctet p.name
  value : ∀ v ∈ p.value, IsValue v

/-- The spellings of a parameter: its name, and its value behind an equals sign with any spaces
around it. -/
inductive Param.SpelledBy : Param → Octets → Prop
  | flag {name : String} (hname : IsRun isTokenOctet name) : SpelledBy ⟨name, none⟩ (encode name)
  | valued {name v : String} {equal : Octets} (hname : IsRun isTokenOctet name)
      (hequal : IsSpaced '=' equal) (hv : IsLegibleValue v) :
      SpelledBy ⟨name, some v⟩ (encode name ++ equal ++ encode v)

namespace Param

theorem IsWritable.isLegible (h : p.IsWritable) : p.IsLegible :=
  ⟨h.name, fun v hv => (isValue_iff.1 (h.value v hv)).1⟩

theorem IsWritable.isLine (hp : p.IsWritable) : Text.IsLine p.text := by
  have hname := hp.name.isLine isInside_of_isTokenOctet
  unfold text
  split
  · rename_i v hv
    have hequal : Text.IsLine "=" := by decide
    exact (hname.append hequal).append (isValue_iff.1 (hp.value v hv)).2
  · exact hname

theorem IsLegible.text_ne_empty (h : p.IsLegible) : p.text ≠ "" := by
  unfold text
  split
  · intro hempty
    exact h.name.1 (String.append_eq_empty_iff.1 (String.append_eq_empty_iff.1 hempty).1).1
  · exact h.name.1

/-- What a parameter is written as is a spelling of it. -/
theorem IsLegible.spelledBy_text (h : p.IsLegible) : p.SpelledBy (encode p.text) := by
  obtain ⟨name, value⟩ := p
  cases value with
  | none => exact .flag h.name
  | some v =>
    have htext : encode (Param.text ⟨name, some v⟩) = encode name ++ [ascii '='] ++ encode v := by
      show encode (name ++ "=" ++ v) = _
      rw [encode_append_mark (b := ascii '=') (by decide)]
      simp
    rw [htext]
    exact .valued h.name (isSpaced_bare '=') (h.value v rfl)

namespace SpelledBy

theorem isLegible (h : p.SpelledBy w) : p.IsLegible := by
  cases h with
  | flag hname => exact ⟨hname, fun v hv => nomatch hv⟩
  | valued hname _ hv =>
    refine ⟨hname, ?_⟩
    rintro _ ⟨⟩
    exact hv

theorem isText (h : p.SpelledBy w) : IsText w := by
  cases h with
  | flag _ => exact isText_encode _
  | valued _ hequal _ =>
    exact ((isText_encode _).append (hequal.isText (by decide))).append (isText_encode _)

/-- A parameter begins with its name. -/
theorem stops (h : p.SpelledBy w) (rest : Octets) : Stops isSpace (w ++ rest) := by
  cases h with
  | flag hname => exact hname.stops isSpace_eq_false_of_isTokenOctet rest
  | valued hname _ _ =>
    rw [List.append_assoc, List.append_assoc]
    exact hname.stops isSpace_eq_false_of_isTokenOctet _

/-- A value without line breaks can be written. -/
theorem isWritable (h : p.SpelledBy w) (hl : ∀ b ∈ w, Line.isInside b = true) :
    p.IsWritable := by
  refine ⟨h.isLegible.name, fun v hv => isValue_iff.2 ⟨h.isLegible.value v hv, ?_⟩⟩
  cases h with
  | flag _ => cases hv
  | valued _ _ _ =>
    cases hv
    exact Text.isLine_iff.2 fun b hb => hl b (List.mem_append_right _ hb)

/-- A parameter ends as its spelling does. -/
theorem trimEnd (h : p.SpelledBy w) (hends : Text.trimEnd (decode w) = decode w) :
    Text.trimEnd p.text = p.text := by
  cases h with
  | flag hname => exact hname.trimEnd isInk_of_isTokenOctet
  | @valued name v equal _ hequal hv =>
    have hfront : IsText (encode name ++ equal) :=
      (isText_encode name).append (hequal.isText (by decide))
    rw [decode_append hfront (isText_encode v), decode_encode,
      Text.trimEnd_append_iff _ hv.ne_empty] at hends
    exact (Text.trimEnd_append_iff _ hv.ne_empty).2 hends

end SpelledBy

end Param

namespace Lexeme

theorem param_eq_some :
    param s = some (p, rest) ↔
      ∃ name s' v, token s = some (name, s') ∧ optional (after equal paramValue) s' = (v, rest) ∧
        p = ⟨decode name, v.map decode⟩ := by
  unfold param
  cases token s with
  | none => simp
  | some r =>
    obtain ⟨name, s'⟩ := r
    simp only [Option.some.injEq, Prod.mk.injEq]
    constructor
    · rintro ⟨rfl, rfl⟩
      exact ⟨name, s', _, ⟨rfl, rfl⟩, rfl, rfl⟩
    · rintro ⟨name', s'', v, ⟨rfl, rfl⟩, hv, rfl⟩
      rw [hv]
      exact ⟨rfl, rfl⟩

theorem length_le_of_paramValue (h : paramValue s = some (w, rest)) :
    rest.length ≤ s.length := by
  unfold paramValue at h
  split at h
  · rename_i r hq
    cases h
    rw [(quotedRaw_eq_some.1 hq).1, List.length_append]
    omega
  · rw [(run1_eq_some.1 h).1, List.length_append]
    omega

theorem length_le_of_param (h : param s = some (p, rest)) : rest.length ≤ s.length := by
  obtain ⟨name, s', v, hname, hv, -⟩ := param_eq_some.1 h
  have hlt := consumes_run1 _ hname
  rcases optional_eq_iff.1 hv with ⟨v, -, hafter⟩ | ⟨-, -, rfl⟩
  · obtain ⟨s'', hequal, hread⟩ := after_eq_some.1 hafter
    have hlt' := length_lt_of_separator hequal
    have hle := length_le_of_paramValue hread
    omega
  · omega

theorem consumes_semi_param : (after semi param).Consumes :=
  consumes_after_separator ';' length_le_of_param

theorem length_le_of_params (h : params s = (ps, rest)) : rest.length ≤ s.length :=
  ((many_eq_iff consumes_semi_param).1 h).length_le consumes_semi_param

end Lexeme

/-- Every spelling of a parameter is read as it. -/
theorem Param.SpelledBy.param (h : p.SpelledBy w) (hr : Follows [';', ','] rest) :
    Lexeme.param (w ++ rest) = some (p, rest) := by
  cases h with
  | @flag name hname =>
    refine param_eq_some.2 ⟨encode name, rest, none, hname.run1 (hr.stops (by decide)), ?_, ?_⟩
    · apply optional_of_none
      show (separator '=' rest).bind Lexeme.paramValue = none
      rw [hr.separator_eq_none (by decide)]
      rfl
    · rw [decode_encode, Option.map_none]
  | @valued name v equal hname hequal hv =>
    have hends : Follows ['='] (equal ++ (encode v ++ rest)) :=
      hequal.follows (by decide) (by simp) _
    rw [List.append_assoc, List.append_assoc]
    refine param_eq_some.2 ⟨encode name, equal ++ (encode v ++ rest), some (encode v),
      hname.run1 (hends.stops (by decide)), ?_, ?_⟩
    · apply optional_of_some
      refine after_eq_some.2 ⟨encode v ++ rest, ?_, hv.paramValue hr⟩
      exact (separator_eq_some (by decide)).2 ⟨equal, hequal, rfl, hv.stops rest⟩
    · rw [decode_encode, Option.map_some, decode_encode]

/-- What is read as a parameter spells it. -/
theorem Lexeme.spelledBy_of_param (hs : IsText s) (h : param s = some (p, rest)) :
    ∃ w, s = w ++ rest ∧ p.SpelledBy w ∧ IsText rest := by
  obtain ⟨name, s', v, hname, hv, rfl⟩ := param_eq_some.1 h
  obtain ⟨rfl, htext, hrun, -, hs'⟩ := run1_spec hs cutsText_isTokenOctet hname
  rcases optional_eq_iff.1 hv with ⟨v, rfl, hafter⟩ | ⟨rfl, -, rfl⟩
  · obtain ⟨s'', hequal, hread⟩ := after_eq_some.1 hafter
    obtain ⟨equal, hspaced, rfl, -⟩ := (separator_eq_some (by decide)).1 hequal
    have hs'' := hspaced.isText_behind (by decide) hs'
    obtain ⟨rfl, hvtext, hvalue, hrest⟩ := isLegibleValue_of_paramValue hs'' hread
    have hspelled := Param.SpelledBy.valued hrun hspaced hvalue
    rw [htext, hvtext] at hspelled
    exact ⟨name ++ equal ++ v, by simp, hspelled, hrest⟩
  · have hspelled := Param.SpelledBy.flag hrun
    rw [htext] at hspelled
    exact ⟨name, rfl, hspelled, hs'⟩

/-! ## Lists of parameters -/

namespace Params

theorem text_cons (p : Param) (ps : Params) :
    Params.text (p :: ps) = ";" ++ p.text ++ Params.text ps := by
  simp [text]

theorem text_ne_empty (hne : ps ≠ []) : Params.text ps ≠ "" := by
  obtain ⟨p, ps, rfl⟩ := List.exists_cons_of_ne_nil hne
  rw [text_cons]
  intro hempty
  have hlist := congrArg String.toList hempty
  simp at hlist

theorem text_concat (ps : Params) (p : Param) :
    Params.text (ps ++ [p]) = Params.text ps ++ ";" ++ p.text := by
  simp [text, String.append_assoc]

/-- A text ends with its parameters, or as it would without them. -/
theorem trimEnd_append {front : String} (hfront : Text.trimEnd front = front)
    (hps : ps ≠ [] → Text.trimEnd ps.text = ps.text) :
    Text.trimEnd (front ++ ps.text) = front ++ ps.text := by
  by_cases hne : ps = []
  · have hnil : Params.text [] = "" := rfl
    rw [hne, hnil, String.append_empty]
    exact hfront
  · exact (Text.trimEnd_append_iff _ (text_ne_empty hne)).2 (hps hne)

theorem isLine_text (hps : ∀ p ∈ ps, p.IsWritable) : Text.IsLine (Params.text ps) := by
  induction ps with
  | nil => decide
  | cons p ps ih =>
    have hsemi : Text.IsLine ";" := by decide
    rw [text_cons]
    exact (hsemi.append (hps p List.mem_cons_self).isLine).append
      (ih fun q hq => hps q (List.mem_cons_of_mem p hq))

theorem encode_text (ps : Params) :
    encode ps.text = ps.flatMap fun p => ascii ';' :: encode p.text := by
  have hsemi : encode ";" = [ascii ';'] := by decide
  induction ps with
  | nil => rfl
  | cons p ps ih =>
    rw [text_cons, encode_append, encode_append, hsemi, ih]
    rfl

/-- Parameters begin with a semicolon, so the next one follows, or what follows all. -/
theorem endsParam_text (ps : Params) (hr : EndsEntry rest) :
    EndsParam (encode ps.text ++ rest) := by
  cases ps with
  | nil => exact hr.endsParam
  | cons p ps =>
    rw [encode_text]
    exact ends_cons (by simp) _

/-- Spaces may be passed over in front of parameters only if there are none. -/
theorem spaces_text (ps : Params) (rest : Octets) :
    ∃ rest', spaces (encode ps.text ++ rest) = encode ps.text ++ rest' ∧
      (rest' = rest ∨ rest' = spaces rest) := by
  cases ps with
  | nil => exact ⟨spaces rest, rfl, .inr rfl⟩
  | cons p ps =>
    refine ⟨rest, spaces_of_stops ?_, .inl rfl⟩
    rw [encode_text]
    exact stops_cons.2 (by decide)

/-- The spellings of parameters: each stands behind a semicolon with any spaces around it. -/
inductive SpelledBy : Params → Octets → Prop
  | nil : SpelledBy [] []
  | cons {p : Param} {ps : Params} {semi w ws : Octets} (hsemi : IsSpaced ';' semi)
      (hp : p.SpelledBy w) (hps : SpelledBy ps ws) : SpelledBy (p :: ps) (semi ++ w ++ ws)

/-- What parameters are written as is a spelling of them. -/
theorem spelledBy_text (hps : ∀ p ∈ ps, p.IsLegible) : SpelledBy ps (encode ps.text) := by
  induction ps with
  | nil => exact .nil
  | cons p ps ih =>
    have htext : encode (Params.text (p :: ps)) =
        [ascii ';'] ++ encode p.text ++ encode (Params.text ps) := by
      rw [encode_text, encode_text, List.flatMap_cons]
      rfl
    rw [htext]
    exact .cons (isSpaced_bare ';') (hps p List.mem_cons_self).spelledBy_text
      (ih fun q hq => hps q (List.mem_cons_of_mem p hq))

namespace SpelledBy

theorem isLegible (h : SpelledBy ps w) : ∀ p ∈ ps, p.IsLegible := by
  induction h with
  | nil => exact fun p hp => nomatch hp
  | cons _ hp _ ih =>
    intro q hq
    rcases List.mem_cons.1 hq with rfl | hq
    · exact hp.isLegible
    · exact ih q hq

theorem isText (h : SpelledBy ps w) : IsText w := by
  induction h with
  | nil => exact isText_nil
  | cons hsemi hp _ ih => exact ((hsemi.isText (by decide)).append hp.isText).append ih

theorem isWritable (h : SpelledBy ps w) (hl : ∀ b ∈ w, Line.isInside b = true) :
    ∀ p ∈ ps, p.IsWritable := by
  induction h with
  | nil => exact fun p hp => nomatch hp
  | @cons p ps semi w ws _ hp _ ih =>
    intro q hq
    rcases List.mem_cons.1 hq with rfl | hq
    · exact hp.isWritable fun b hb => hl b (by simp [hb])
    · exact ih (fun b hb => hl b (by simp [hb])) q hq

/-- Parameters begin with a semicolon, so they may follow a parameter. -/
theorem follows (h : SpelledBy ps w) (hr : Follows [','] rest) :
    Follows [';', ','] (w ++ rest) := by
  cases h with
  | nil => exact hr.mono (by simp)
  | cons hsemi _ _ =>
    rw [List.append_assoc, List.append_assoc]
    exact hsemi.follows (by decide) (by simp) _

/-- Parameters end as their spelling does. -/
theorem trimEnd (h : SpelledBy ps w) (hne : ps ≠ [])
    (hends : Text.trimEnd (decode w) = decode w) : Text.trimEnd ps.text = ps.text := by
  induction h with
  | nil => exact absurd rfl hne
  | @cons p ps semi w ws hsemi hp hps ih =>
    have hsemi' := hsemi.isText (by decide)
    rw [text_cons]
    by_cases hps' : ps = []
    · -- nothing stands behind the last parameter
      subst hps'
      cases hps
      rw [List.append_nil] at hends
      have hp' := hp.trimEnd (trimEnd_decode_of_append hsemi' hp.isText hends)
      have hnil : Params.text [] = "" := rfl
      rw [hnil, String.append_empty]
      exact (Text.trimEnd_append_iff _ hp.isLegible.text_ne_empty).2 hp'
    · have hps'' := trimEnd_decode_of_append (hsemi'.append hp.isText) hps.isText hends
      exact (Text.trimEnd_append_iff _ (text_ne_empty hps')).2 (ih hps' hps'')

/-- Every spelling of parameters is read as them, up to the end of the entry. -/
theorem params (h : SpelledBy ps w) (hr : Follows [','] rest) :
    Lexeme.params (w ++ rest) = (ps, rest) := by
  refine (many_eq_iff consumes_semi_param).2 ?_
  induction h with
  | nil =>
    refine .done ?_
    show (separator ';' rest).bind param = none
    rw [hr.separator_eq_none (by decide)]
    rfl
  | @cons p ps semi w ws hsemi hp hps ih =>
    refine .next ?_ ih
    rw [List.append_assoc, List.append_assoc]
    refine after_eq_some.2 ⟨w ++ (ws ++ rest), ?_, hp.param (hps.follows hr)⟩
    exact (separator_eq_some (by decide)).2 ⟨semi, hsemi, rfl, hp.stops _⟩

end SpelledBy

end Params

/-- What is read as parameters spells them. -/
theorem Lexeme.spelledBy_of_params (hs : IsText s) (h : params s = (ps, rest)) :
    ∃ w, s = w ++ rest ∧ Params.SpelledBy ps w ∧ IsText rest := by
  have hreads := (many_eq_iff consumes_semi_param).1 h
  clear h
  induction hreads with
  | done _ => exact ⟨[], rfl, .nil, hs⟩
  | @next s s' rest p ps hread _ ih =>
    obtain ⟨s'', hsemi, hp⟩ := after_eq_some.1 hread
    obtain ⟨semi, hspaced, rfl, -⟩ := (separator_eq_some (by decide)).1 hsemi
    have hs'' := hspaced.isText_behind (by decide) hs
    obtain ⟨w, rfl, hspelled, hs'⟩ := spelledBy_of_param hs'' hp
    obtain ⟨ws, rfl, hps, hrest⟩ := ih hs'
    exact ⟨semi ++ w ++ ws, by simp, .cons hspaced hspelled hps, hrest⟩

end SipProxy
