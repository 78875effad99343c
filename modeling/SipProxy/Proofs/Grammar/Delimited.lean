import SipProxy.Proofs.Grammar.Params

/-!
# Parameters that delimit themselves

One line may hold several entries, each with parameters behind it, so the parameters of an entry
have to end where the next entry begins. They do (`Lexeme.params_delimited`): legible parameters are
read back from their text up to a comma or the end, because a name and an unquoted value have no
octet that separates anything, and a quoted value ends at its own closing quote, whatever stands in
front of it.

No other parameters are ever read, not even of octets that spell no text
(`Lexeme.isLegible_of_params`): those are replaced in what is kept of them, but what replaces them
is not ASCII, so it separates nothing either.
-/

namespace SipProxy

open Lexeme Reader Utf8

variable {s rest : Octets} {p : Param} {ps : Params}

instance (v : String) : Decidable (Param.IsLegibleValue v) :=
  inferInstanceAs (Decidable (IsRun isParamOctet v ∨ IsQuoted (encode v)))

instance (p : Param) : Decidable p.IsLegible :=
  decidable_of_iff (IsRun isTokenOctet p.name ∧ ∀ v ∈ p.value, Param.IsLegibleValue v)
    ⟨fun h => ⟨h.1, h.2⟩, fun h => ⟨h.name, h.value⟩⟩

namespace Lexeme

/-- What is read as a parameter of any octets is legible. -/
theorem isLegible_of_param (h : param s = some (p, rest)) : p.IsLegible := by
  obtain ⟨name, s', v, hname, hv, rfl⟩ := param_eq_some.1 h
  obtain ⟨-, hne, hclass, -⟩ := run1_eq_some.1 hname
  refine ⟨isRun_decode cutsText_isTokenOctet hne hclass, ?_⟩
  rcases optional_eq_iff.1 hv with ⟨value, rfl, hafter⟩ | ⟨rfl, -, -⟩
  · obtain ⟨s'', -, hread⟩ := after_eq_some.1 hafter
    rintro _ ⟨⟩
    exact isLegibleValue_decode hread
  · intro value hvalue
    cases hvalue

/-- What is read as parameters of any octets is legible. -/
theorem isLegible_of_params (h : params s = (ps, rest)) : ∀ p ∈ ps, p.IsLegible := by
  refine ((many_eq_iff consumes_semi_param).1 h).forall_mem fun hread => ?_
  obtain ⟨s', -, hparam⟩ := after_eq_some.1 hread
  exact isLegible_of_param hparam

/-- Parameters are read back from their text, up to the end of the entry. -/
theorem params_text (hps : ∀ p ∈ ps, p.IsLegible) (hr : EndsEntry rest) :
    params (encode ps.text ++ rest) = (ps, rest) :=
  (Params.spelledBy_text hps).params (hr.follows (by decide))

/-- Legible parameters are the ones that are read of some octets, and they are read back from their
text in front of the next entry and at the end, which is left. -/
theorem params_delimited (ps : Params) :
    ((∀ p ∈ ps, p.IsLegible) ↔ ∃ s rest, params s = (ps, rest)) ∧
      ((∀ p ∈ ps, p.IsLegible) →
        ∀ rest, EndsEntry rest → params (encode ps.text ++ rest) = (ps, rest)) := by
  refine ⟨⟨fun hps => ?_, ?_⟩, fun hps rest hr => params_text hps hr⟩
  · have hread := params_text hps (ends_nil [','])
    exact ⟨_, [], hread⟩
  · rintro ⟨s, rest, hread⟩
    exact isLegible_of_params hread

/-- A quoted value may hold the separators and quotes behind backslashes, and another entry with
parameters of its own may follow. -/
theorem params_delimited_of_marks :
    let ps : Params := [.of "a" "\";x=1,\\\"<\\\\\"", .flag "lr", .of "b" "é:1", .of "a" "\"\""]
    let rest := ascii ',' :: encode "<sip:c>;lr"
    (∀ p ∈ ps, p.IsLegible) ∧ params (encode ps.text ++ rest) = (ps, rest) := by
  intro ps rest
  have hlegible : ∀ p ∈ ps, p.IsLegible := by decide +kernel
  have hends : EndsEntry rest := ends_cons List.mem_cons_self _
  exact ⟨hlegible, (params_delimited ps).2 hlegible rest hends⟩

end Lexeme

end SipProxy
