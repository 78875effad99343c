import SipProxy.Proofs.Grammar.Params
import SipProxy.Proofs.Outcome

/-!
# Lists of entries that are written and read again

Via, Route and Record-Route list their entries with commas between them, spaces around a comma being
allowed (`Entries.SpelledBy`). If every spelling of an entry is read as that entry, then so is every
spelling of a list (`Entries.SpelledBy.sepBy1`); and if what is read as an entry was spelled there,
then so was what is read as a list (`Lexeme.Makes.spelledBy`). The last entry ends as the header
value does, so a list that was read can be written again (`Entries.SpelledBy.isWritable`).
-/

namespace SipProxy

open Lexeme Reader Utf8

variable {α β : Type} {spell : β → String} {W : β → Prop} {e : β} {es : List β} {s rest : Octets}

namespace Entries

/-- Entries as a header value lists them. -/
def text (spell : β → String) (es : List β) : String := ", ".intercalate (es.map spell)

theorem text_cons (hne : es ≠ []) : text spell (e :: es) = spell e ++ ", " ++ text spell es := by
  have hmap : es.map spell ≠ [] := by
    intro h
    exact hne (List.map_eq_nil_iff.1 h)
  rw [text, List.map_cons, String.intercalate_cons_of_ne_nil hmap]
  rfl

theorem text_singleton : text spell [e] = spell e := String.intercalate_singleton

/-- Every entry but the first stands behind a comma and a space. -/
theorem encode_text :
    encode (text spell (e :: es)) =
      encode (spell e) ++ es.flatMap fun e => ascii ',' :: 0x20 :: encode (spell e) := by
  have hcomma : encode ", " = [ascii ',', 0x20] := by decide
  induction es generalizing e with
  | nil => rw [text_singleton, List.flatMap_nil, List.append_nil]
  | cons e' es ih =>
    rw [text_cons (List.cons_ne_nil e' es), encode_append, encode_append, ih, hcomma]
    simp

theorem text_ne_empty (hne : es ≠ []) (hall : ∀ e ∈ es, spell e ≠ "") : text spell es ≠ "" := by
  obtain ⟨e, es, rfl⟩ := List.exists_cons_of_ne_nil hne
  intro hempty
  have hnil : encode (text spell (e :: es)) = [] := by
    rw [hempty]
    rfl
  rw [encode_text] at hnil
  exact encode_ne_nil (hall e List.mem_cons_self) (List.append_eq_nil_iff.1 hnil).1

theorem isLine_text (hall : ∀ e ∈ es, Text.IsLine (spell e)) : Text.IsLine (text spell es) := by
  have hcomma : Text.IsLine ", " := by decide
  induction es with
  | nil => exact (by decide : Text.IsLine "")
  | cons e es ih =>
    have he := hall e List.mem_cons_self
    by_cases hne : es = []
    · rw [hne, text_singleton]
      exact he
    · rw [text_cons hne]
      exact (he.append hcomma).append (ih fun x hx => hall x (List.mem_cons_of_mem e hx))

theorem isIndented_text (hne : es ≠ []) (hall : ∀ e ∈ es, IsIndented (spell e)) :
    IsIndented (text spell es) := by
  obtain ⟨e, es, rfl⟩ := List.exists_cons_of_ne_nil hne
  have he := hall e List.mem_cons_self
  by_cases hes : es = []
  · rw [hes, text_singleton]
    exact he
  · rw [text_cons hes]
    exact (he.append _).append _

/-- A list ends as its last entry does. -/
theorem trimEnd_text (hlast : ∀ e ∈ es.getLast?, Text.trimEnd (spell e) = spell e)
    (hall : ∀ e ∈ es, spell e ≠ "") : Text.trimEnd (text spell es) = text spell es := by
  induction es with
  | nil => rfl
  | cons e es ih =>
    have htail : ∀ x ∈ es, spell x ≠ "" := fun x hx => hall x (List.mem_cons_of_mem e hx)
    cases es with
    | nil =>
      rw [text_singleton]
      exact hlast e rfl
    | cons e' es =>
      rw [List.getLast?_cons_cons] at hlast
      have hne := List.cons_ne_nil e' es
      rw [text_cons hne]
      exact (Text.trimEnd_append_iff _ (text_ne_empty hne htail)).2 (ih hlast htail)

/-- Entries that a header value can list: there is one, each can be written, and nothing is trimmed
off behind the last. -/
structure IsWritable (spell : β → String) (W : β → Prop) (es : List β) : Prop where
  ne : es ≠ []
  all : ∀ e ∈ es, W e
  ends : Text.trimEnd (text spell es) = text spell es

/-- The entries behind the first can be listed without it. -/
theorem IsWritable.tail (h : IsWritable spell W (e :: es)) (hne : es ≠ [])
    (hspell : ∀ e, W e → spell e ≠ "") : IsWritable spell W es := by
  have hall : ∀ x ∈ es, W x := fun x hx => h.all x (List.mem_cons_of_mem e hx)
  refine ⟨hne, hall, ?_⟩
  have hends := h.ends
  rw [text_cons hne] at hends
  exact (Text.trimEnd_append_iff _ (text_ne_empty hne fun x hx => hspell x (hall x hx))).1 hends

theorem IsWritable.mono {V : β → Prop} (h : IsWritable spell W es) (hW : ∀ e, W e → V e) :
    IsWritable spell V es :=
  ⟨h.ne, fun e he => hW e (h.all e he), h.ends⟩

theorem isWritable_singleton (he : W e) (hends : Text.trimEnd (spell e) = spell e) :
    IsWritable spell W [e] := by
  refine ⟨List.cons_ne_nil e [], ?_, ?_⟩
  · intro x hx
    rw [List.mem_singleton.1 hx]
    exact he
  · rw [text_singleton]
    exact hends

/-! ## Lists with spaces around their commas -/

/-- The spellings of a list of entries: commas with any spaces around them between spellings of the
entries. -/
inductive SpelledBy (S : β → Octets → Prop) : List β → Octets → Prop
  | one {e : β} {w : Octets} (he : S e w) : SpelledBy S [e] w
  | more {e : β} {es : List β} {w comma ws : Octets} (he : S e w) (hcomma : IsSpaced ',' comma)
      (hes : SpelledBy S es ws) : SpelledBy S (e :: es) (w ++ comma ++ ws)

/-- What a list is written as is a spelling of it if that is so of its entries. -/
theorem spelledBy_text {S : β → Octets → Prop} (hne : es ≠ [])
    (hall : ∀ e ∈ es, S e (encode (spell e))) : SpelledBy S es (encode (text spell es)) := by
  have hcomma : IsSpaced ',' [ascii ',', 0x20] :=
    ⟨[], [0x20], isSpaces_nil, List.all_eq_true.1 rfl, rfl⟩
  induction es with
  | nil => exact absurd rfl hne
  | cons e es ih =>
    have he := hall e List.mem_cons_self
    by_cases hes : es = []
    · subst hes
      rw [text_singleton]
      exact .one he
    · have htext : encode (text spell (e :: es)) =
          encode (spell e) ++ [ascii ',', 0x20] ++ encode (text spell es) := by
        rw [text_cons hes, encode_append, encode_append]
        rfl
      rw [htext]
      exact .more he hcomma (ih hes fun x hx => hall x (List.mem_cons_of_mem e hx))

namespace SpelledBy

variable {S : β → Octets → Prop} {w : Octets}

theorem ne_nil (h : SpelledBy S es w) : es ≠ [] := by
  cases h with
  | one _ => exact List.cons_ne_nil _ _
  | more _ _ _ => exact List.cons_ne_nil _ _

/-- Every entry has a spelling among the octets of the whole. -/
theorem exists_spelling (h : SpelledBy S es w) :
    ∀ e ∈ es, ∃ w', S e w' ∧ ∀ b ∈ w', b ∈ w := by
  induction h with
  | one he =>
    intro e hmem
    rw [List.mem_singleton.1 hmem]
    exact ⟨_, he, fun b hb => hb⟩
  | more he _ _ ih =>
    intro e hmem
    rcases List.mem_cons.1 hmem with rfl | hmem
    · exact ⟨_, he, fun b hb => by simp [hb]⟩
    · obtain ⟨w', hw', hsub⟩ := ih e hmem
      exact ⟨w', hw', fun b hb => List.mem_append_right _ (hsub b hb)⟩

theorem isText (h : SpelledBy S es w) (hS : ∀ {e w}, S e w → IsText w) : IsText w := by
  induction h with
  | one he => exact hS he
  | more he hcomma _ ih => exact ((hS he).append (hcomma.isText (by decide))).append ih

/-- The last entry ends as the whole. -/
theorem exists_last (h : SpelledBy S es w) (hS : ∀ {e w}, S e w → IsText w)
    (hends : Text.trimEnd (decode w) = decode w) :
    ∀ e ∈ es.getLast?, ∃ w', S e w' ∧ Text.trimEnd (decode w') = decode w' := by
  induction h with
  | one he =>
    rintro _ ⟨⟩
    exact ⟨_, he, hends⟩
  | @more e es w comma ws he hcomma hes ih =>
    have hfront := (hS he).append (hcomma.isText (by decide))
    obtain ⟨x, xs, rfl⟩ := List.exists_cons_of_ne_nil hes.ne_nil
    rw [List.getLast?_cons_cons]
    exact ih (trimEnd_decode_of_append hfront (hes.isText hS) hends)

/-- A list that a header value spells ends as its last entry, which ends as the value. -/
theorem trimEnd_text {t : String} (h : SpelledBy S es (encode (Text.trim t)))
    (hS : ∀ {e w}, S e w → IsText w)
    (hends : ∀ {e w}, S e w → Text.trimEnd (decode w) = decode w →
      Text.trimEnd (spell e) = spell e)
    (hne : ∀ e ∈ es, spell e ≠ "") : Text.trimEnd (text spell es) = text spell es := by
  refine Entries.trimEnd_text ?_ hne
  intro e he
  have htrim : Text.trimEnd (decode (encode (Text.trim t))) = decode (encode (Text.trim t)) := by
    rw [decode_encode, Text.trimEnd_trim]
  obtain ⟨w, hw, hlast⟩ := h.exists_last hS htrim e he
  exact hends hw hlast

/-- What is spelled by a header value can be listed if its entries can be written and end as their
spellings do. -/
theorem isWritable {t : String} (h : SpelledBy S es (encode (Text.trim t))) (hl : Text.IsLine t)
    (hS : ∀ {e w}, S e w → IsText w)
    (hW : ∀ {e w}, S e w → (∀ b ∈ w, Line.isInside b = true) → W e)
    (hends : ∀ {e w}, S e w → Text.trimEnd (decode w) = decode w →
      Text.trimEnd (spell e) = spell e)
    (hne : ∀ e, W e → spell e ≠ "") : IsWritable spell W es := by
  have hline : Text.IsLine (Text.trim t) := hl.of_subset fun _ hc => Text.mem_of_mem_trim hc
  have hall : ∀ e ∈ es, W e := by
    intro e he
    obtain ⟨w, hw, hsub⟩ := h.exists_spelling e he
    exact hW hw fun b hb => hline.isInside_of_mem_encode (hsub b hb)
  exact ⟨h.ne_nil, hall, h.trimEnd_text hS hends fun e he => hne e (hall e he)⟩

/-- If every spelling of an entry is read in front of a comma, or of nothing, as something that the
entry is made of, then so is every spelling of a list. The spaces in front of the comma may be taken
with the entry or left to the comma. -/
theorem sepBy1 {q : Reader α} {f : α → Except SipError β} {view : β → β}
    (hconsumes : (after comma q).Consumes) (h : SpelledBy S es w)
    (hq : ∀ {e w rest}, S e w → Follows [','] rest →
      ∃ a rest', q (spaces (w ++ rest)) = some (a, rest') ∧
        (rest' = rest ∨ rest' = spaces rest) ∧ f a = .ok (view e)) :
    ∃ as, Reader.sepBy1 comma q (spaces w) = some (as, []) ∧ as.mapM f = .ok (es.map view) := by
  -- the first entry is read off the front, and each of the others behind a comma
  suffices hreads : ∃ a s as, q (spaces w) = some (a, s) ∧ Reads (after comma q) s as [] ∧
      (a :: as).mapM f = .ok (es.map view) by
    obtain ⟨a, s, as, ha, has, hmap⟩ := hreads
    exact ⟨a :: as, (sepBy1_eq_some hconsumes).2 ⟨a, s, as, ha, has, rfl⟩, hmap⟩
  induction h with
  | @one e w he =>
    obtain ⟨a, rest, ha, hrest, hmake⟩ := hq he (follows_nil _)
    have hnil : rest = [] := hrest.elim id id
    rw [List.append_nil, hnil] at ha
    exact ⟨a, [], [], ha, .done rfl, Outcome.mapM_cons_eq_ok.2 ⟨view e, [], hmake, rfl, rfl⟩⟩
  | @more e es w comma ws he hcomma _ ih =>
    obtain ⟨a, rest, ha, hrest, hmake⟩ := hq he (hcomma.follows (by decide) (by simp) ws)
    obtain ⟨a', s, as, ha', has, hmap⟩ := ih
    have hsep : separator ',' rest = some (spaces ws) := by
      rcases hrest with rfl | rfl
      · exact hcomma.separator (by decide) ws
      · rw [separator_spaces]
        exact hcomma.separator (by decide) ws
    rw [← List.append_assoc] at ha
    exact ⟨a, rest, a' :: as, ha, .next (after_eq_some.2 ⟨_, hsep, ha'⟩) has,
      Outcome.mapM_cons_eq_ok.2 ⟨view e, es.map view, hmake, hmap, rfl⟩⟩

end SpelledBy

end Entries

/-- What is read as a list spells it if that is so of its entries. -/
theorem Lexeme.Makes.spelledBy {q : Reader α} {f : α → Except SipError β} {as : List α}
    {S : β → Octets → Prop} (hq : Makes q f S) (hconsumes : (after comma q).Consumes)
    (hs : IsText s) (has : Reader.sepBy1 comma q s = some (as, rest)) (hmap : as.mapM f = .ok es) :
    ∃ w, s = w ++ rest ∧ Entries.SpelledBy S es w := by
  obtain ⟨a, s', as', hfirst, hreads, rfl⟩ := (sepBy1_eq_some hconsumes).1 has
  obtain ⟨w, rfl, hs', hspelled⟩ := hq hs hfirst
  obtain ⟨e, es', hmake, hes', rfl⟩ := Outcome.mapM_cons_eq_ok.1 hmap
  have he := hspelled e hmake
  -- the induction carries the entry in front, since a list ends with an entry and not with a comma
  suffices hlist : ∃ ws, s' = ws ++ rest ∧ Entries.SpelledBy S (e :: es') (w ++ ws) by
    obtain ⟨ws, rfl, hspelled⟩ := hlist
    exact ⟨w ++ ws, (List.append_assoc ..).symm, hspelled⟩
  clear hs has hfirst hmap hmake hspelled
  induction hreads generalizing e es' w with
  | done _ =>
    cases hes'
    refine ⟨[], rfl, ?_⟩
    rw [List.append_nil]
    exact .one he
  | next hread _ ih =>
    obtain ⟨s₁, hsep, hentry⟩ := after_eq_some.1 hread
    obtain ⟨comma, hcomma, rfl, -⟩ := (separator_eq_some (by decide)).1 hsep
    obtain ⟨w', rfl, hs'', hspelled⟩ := hq (hcomma.isText_behind (by decide) hs') hentry
    obtain ⟨e', es'', hmake, hes'', rfl⟩ := Outcome.mapM_cons_eq_ok.1 hes'
    obtain ⟨ws, rfl, hlist⟩ := ih _ hs'' _ _ hes'' (hspelled e' hmake)
    refine ⟨comma ++ (w' ++ ws), by simp, ?_⟩
    rw [← List.append_assoc]
    exact .more he hcomma hlist

end SipProxy
