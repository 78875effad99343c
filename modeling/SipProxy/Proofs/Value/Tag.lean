import SipProxy.Proofs.Value.Via
import SipProxy.Value.Party

/-!
# Tags

A party is given a tag in the place of its first parameter of that name, or in front of all
parameters if it has none (`Params.setInFront_of_first`, `Params.setInFront_of_absent`). Every other
parameter stays, and so does its place among the others.

The parameter is replaced as a whole, its name included. So a party that is given the tag it already
has is the same only if the name of the tag was written in lower case: a `Tag` becomes a `tag`, and
the header is sent in other words than it came in (`Party.setTag_exact`).
-/

namespace SipProxy

/-- Names are compared character by character. -/
theorem Param.isNamed_eq (p : Param) (name : String) :
    p.isNamed name = (p.name.toList.map Char.toLower == name.toList.map Char.toLower) := by
  rw [Bool.eq_iff_iff, isNamed_iff, beq_iff_eq, ← String.toList_inj]
  show (p.name.map Char.toLower).toList = (name.map Char.toLower).toList ↔ _
  rw [String.toList_map, String.toList_map]

namespace Params

variable {p old : Param} {ps before after : Params} {name : String}

/-! ## The first parameter of a name -/

theorem named?_eq_some_iff : ps.named? name = some old ↔ old.isNamed name = true ∧
    ∃ before after, ps = before ++ old :: after ∧ ∀ q ∈ before, q.isNamed name = false := by
  unfold named?
  simp only [List.find?_eq_some_iff_append, Bool.not_eq_true']

theorem named?_eq_none_iff : ps.named? name = none ↔ ps.has name = false := by
  simp [named?, has]

theorem has_of_named? (h : ps.named? name = some old) : ps.has name = true := by
  rw [← Bool.not_eq_false, ← named?_eq_none_iff, h]
  simp

theorem replace?_of_first (hbefore : ∀ q ∈ before, q.isNamed p.name = false)
    (hold : old.isNamed p.name = true) :
    replace? p (before ++ old :: after) = some (before ++ p :: after) := by
  induction before with
  | nil => simp [replace?, hold]
  | cons q before ih =>
    rw [List.forall_mem_cons] at hbefore
    simp [replace?, hbefore.1, ih hbefore.2]

theorem replace?_of_absent (h : ps.has p.name = false) : replace? p ps = none := by
  induction ps with
  | nil => rfl
  | cons q ps ih =>
    simp only [has, List.any_cons, Bool.or_eq_false_iff] at h
    simp only [replace?, h.1, ih h.2, Bool.false_eq_true, if_false, Option.map_none]

/-! ## Setting a parameter in front -/

theorem setInFront_of_first (hbefore : ∀ q ∈ before, q.isNamed p.name = false)
    (hold : old.isNamed p.name = true) :
    setInFront (before ++ old :: after) p = before ++ p :: after := by
  rw [setInFront, replace?_of_first hbefore hold, Option.getD_some]

theorem setInFront_of_absent (h : ps.has p.name = false) : ps.setInFront p = p :: ps := by
  rw [setInFront, replace?_of_absent h, Option.getD_none]

theorem named?_setInFront (p : Param) (ps : Params) :
    (ps.setInFront p).named? p.name = some p := by
  have hself : p.isNamed p.name = true := Param.isNamed_iff.2 rfl
  cases h : ps.named? p.name with
  | none =>
    rw [setInFront_of_absent (named?_eq_none_iff.1 h), named?_cons, if_pos hself]
  | some old =>
    obtain ⟨hold, before, after, rfl, hbefore⟩ := named?_eq_some_iff.1 h
    rw [setInFront_of_first hbefore hold]
    exact named?_eq_some_iff.2 ⟨hself, before, after, rfl, hbefore⟩

/-- Parameters of other names stay, in their order. -/
theorem filter_setInFront (p : Param) (ps : Params) :
    (ps.setInFront p).filter (!·.isNamed p.name) = ps.filter (!·.isNamed p.name) := by
  have hself : p.isNamed p.name = true := Param.isNamed_iff.2 rfl
  cases h : ps.named? p.name with
  | none =>
    rw [setInFront_of_absent (named?_eq_none_iff.1 h), List.filter_cons_of_neg (by simp [hself])]
  | some old =>
    obtain ⟨hold, before, after, rfl, hbefore⟩ := named?_eq_some_iff.1 h
    rw [setInFront_of_first hbefore hold, List.filter_append, List.filter_append,
      List.filter_cons_of_neg (by simp [hself]), List.filter_cons_of_neg (by simp [hold])]

theorem length_setInFront (p : Param) (ps : Params) :
    (ps.setInFront p).length = ps.length + if ps.has p.name then 0 else 1 := by
  cases h : ps.named? p.name with
  | none =>
    have habsent := named?_eq_none_iff.1 h
    rw [setInFront_of_absent habsent, habsent]
    rfl
  | some old =>
    rw [has_of_named? h]
    obtain ⟨hold, before, after, rfl, hbefore⟩ := named?_eq_some_iff.1 h
    simp [setInFront_of_first hbefore hold]

theorem setInFront_setInFront (p : Param) (ps : Params) :
    (ps.setInFront p).setInFront p = ps.setInFront p := by
  obtain ⟨hself, before, after, heq, hbefore⟩ := named?_eq_some_iff.1 (named?_setInFront p ps)
  rw [heq, setInFront_of_first hbefore hself]

theorem text_append (before after : Params) (q : Param) :
    text (before ++ q :: after) = text before ++ (";" ++ q.text) ++ text after := by
  simp only [text, List.map_append, List.map_cons, String.join_append, String.join_cons,
    String.append_assoc]

end Params

namespace Party

variable {p : Party} {t : String}

/-- What becomes of a party that is given a tag. -/
structure Tagged (p : Party) (tag : String) (p' : Party) : Prop where
  given : p'.tag? = some tag
  address : p'.address = p.address
  /-- Parameters of other names keep their values and their order. -/
  others : p'.params.filter (!·.isNamed "tag") = p.params.filter (!·.isNamed "tag")
  /-- Without a tag before, in any letter case, the new one stands in front. -/
  absent : p.params.has "tag" = false → p'.params = .of "tag" tag :: p.params
  /-- With one before, the new one stands in its place. -/
  first : ∀ before old after, p.params = before ++ old :: after → old.isNamed "tag" = true →
    (∀ q ∈ before, q.isNamed "tag" = false) → p'.params = before ++ .of "tag" tag :: after
  length : p'.params.length = p.params.length + if p.params.has "tag" then 0 else 1
  again : p'.setTag tag = p'

/-- Is the tag of the party named in lower case? -/
def SpellsTag (p : Party) : Prop := ∃ old, p.params.named? "tag" = some old ∧ old.name = "tag"

theorem tagged_setTag (p : Party) (tag : String) : p.Tagged tag (p.setTag tag) where
  given := by
    have hnamed := Params.named?_setInFront (.of "tag" tag) p.params
    rw [tag?, Params.value?]
    exact congrArg (Option.bind · Param.value) hnamed
  address := rfl
  others := Params.filter_setInFront (.of "tag" tag) p.params
  absent h := Params.setInFront_of_absent (p := .of "tag" tag) h
  first before old after heq hold hbefore := by
    show p.params.setInFront (.of "tag" tag) = before ++ .of "tag" tag :: after
    rw [heq]
    exact Params.setInFront_of_first hbefore hold
  length := Params.length_setInFront (.of "tag" tag) p.params
  again := by
    unfold setTag
    rw [Params.setInFront_setInFront]

/-- The first tag of a party in its place among the parameters. -/
theorem exists_first_of_tag? (h : p.tag? = some t) :
    ∃ name before after, p.params = before ++ ⟨name, some t⟩ :: after ∧
      p.params.named? "tag" = some ⟨name, some t⟩ ∧
      (p.setTag t).params = before ++ .of "tag" t :: after := by
  obtain ⟨⟨name, value⟩, hnamed, hvalue⟩ := Option.bind_eq_some_iff.1 h
  cases hvalue
  obtain ⟨hold, before, after, heq, hbefore⟩ := Params.named?_eq_some_iff.1 hnamed
  have hfirst := (tagged_setTag p t).first before _ after heq hold hbefore
  exact ⟨name, before, after, heq, hnamed, hfirst⟩

theorem spellsTag_iff {name : String} {value : Option String}
    (h : p.params.named? "tag" = some ⟨name, value⟩) : p.SpellsTag ↔ name = "tag" := by
  simp [SpellsTag, h]

theorem params_setTag_eq_iff (h : p.tag? = some t) :
    (p.setTag t).params = p.params ↔ p.SpellsTag := by
  obtain ⟨name, before, after, heq, hnamed, hset⟩ := exists_first_of_tag? h
  rw [spellsTag_iff hnamed, hset, heq]
  simp [Param.of, eq_comm]

theorem text_setTag_eq_iff (h : p.tag? = some t) : (p.setTag t).text = p.text ↔ p.SpellsTag := by
  obtain ⟨name, before, after, heq, hnamed, hset⟩ := exists_first_of_tag? h
  have haddress : (p.setTag t).address = p.address := rfl
  rw [spellsTag_iff hnamed, text, text, haddress, hset, heq, Params.text_append,
    Params.text_append, String.append_right_inj, String.append_left_inj, String.append_right_inj,
    String.append_right_inj]
  show "tag" ++ "=" ++ t = name ++ "=" ++ t ↔ name = "tag"
  rw [String.append_left_inj, String.append_left_inj]
  exact eq_comm

/-- Of a party that is given a tag, only the tag changes. A party that is given the tag it has is
the same, and is written in the same words, exactly if its tag is named in lower case. -/
theorem setTag_exact (p : Party) (tag : String) :
    p.Tagged tag (p.setTag tag) ∧
      ∀ t, p.tag? = some t →
        ((p.setTag t).params = p.params ↔ p.SpellsTag) ∧
          ((p.setTag t).text = p.text ↔ p.SpellsTag) :=
  ⟨tagged_setTag p tag, fun _ h => ⟨params_setTag_eq_iff h, text_setTag_eq_iff h⟩⟩

/-- A bare party with two tags, the first of them in capitals: the first is replaced where it
stands, name and all. -/
theorem setTag_exact_of_two_tags : ∃ p, Party.parse "From" "sip:a@b;x;TAG=1;tag=2" = .ok p ∧
    p.Tagged "7" (p.setTag "7") ∧
    (p.setTag "7").params = [.flag "x", .of "tag" "7", .of "tag" "2"] := by
  have hother : Param.isNamed (.flag "x") "tag" = false := by
    rw [Param.isNamed_eq]
    decide +kernel
  have htag : Param.isNamed (.of "TAG" "1") "tag" = true := by
    rw [Param.isNamed_eq]
    decide +kernel
  have htagged := (setTag_exact ⟨.bare (.sip ⟨.sip, some "a", none, "b", 0, [], []⟩),
    [.flag "x", .of "TAG" "1", .of "tag" "2"]⟩ "7").1
  exact ⟨_, by decide +kernel, htagged,
    htagged.first [.flag "x"] _ _ rfl htag (List.forall_mem_singleton.2 hother)⟩

/-- A tag that came with a capital letter changes with the tag that it says already. -/
theorem exists_setTag_ne : ∃ p t, Party.parse "To" "<sip:bob@b>;x=1;Tag=abc;y" = .ok p ∧
    p.tag? = some t ∧ (p.setTag t).params ≠ p.params ∧ (p.setTag t).text ≠ p.text := by
  have hother : Param.isNamed (.of "x" "1") "tag" = false := by
    rw [Param.isNamed_eq]
    decide +kernel
  have htag : Param.isNamed (.of "Tag" "abc") "tag" = true := by
    rw [Param.isNamed_eq]
    decide +kernel
  have hnamed : Params.named? [.of "x" "1", .of "Tag" "abc", .flag "y"] "tag" =
      some ⟨"Tag", some "abc"⟩ :=
    Params.named?_eq_some_iff.2 ⟨htag, [.of "x" "1"], _, rfl, List.forall_mem_singleton.2 hother⟩
  let p : Party := ⟨.nameAddress (.ofUri (.sip ⟨.sip, some "bob", none, "b", 0, [], []⟩)),
    [.of "x" "1", .of "Tag" "abc", .flag "y"]⟩
  have hspelled : ¬ p.SpellsTag := by
    rw [spellsTag_iff hnamed]
    decide
  have hgiven : p.tag? = some "abc" := congrArg (Option.bind · Param.value) hnamed
  exact ⟨p, "abc", by decide +kernel, hgiven,
    fun h => hspelled ((params_setTag_eq_iff hgiven).1 h),
    fun h => hspelled ((text_setTag_eq_iff hgiven).1 h)⟩

end Party

end SipProxy
