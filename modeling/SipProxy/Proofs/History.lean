/-!
# Histories

What a run of events has left behind is often told by the last event of some kind, and proved event
by event from the right. `exists_last_concat` says what one more event does to the last of a kind.
-/

namespace SipProxy.History

variable {α : Type} {P Q : α → Prop} {xs : List α} {x : α}

/-- The last of several with a property is the one that comes last, if that has it. -/
theorem exists_last_concat :
    (∃ before y after, xs ++ [x] = before ++ y :: after ∧ P y ∧ Q y ∧ ∀ z ∈ after, ¬ P z) ↔
      P x ∧ Q x ∨
        ¬ P x ∧ ∃ before y after, xs = before ++ y :: after ∧ P y ∧ Q y ∧ ∀ z ∈ after, ¬ P z := by
  constructor
  · rintro ⟨before, y, after, heq, hP, hQ, hafter⟩
    rcases List.eq_nil_or_concat after with rfl | ⟨after, z, rfl⟩
    · obtain ⟨-, hx⟩ := List.append_inj' heq rfl
      rw [List.singleton_inj.1 hx]
      exact .inl ⟨hP, hQ⟩
    · rw [List.concat_eq_append] at heq hafter
      have hsplit : xs ++ [x] = (before ++ y :: after) ++ [z] := by simpa using heq
      obtain ⟨hxs, hx⟩ := List.append_inj' hsplit rfl
      rw [List.singleton_inj.1 hx]
      exact .inr ⟨hafter z (by simp), before, y, after, hxs, hP, hQ,
        fun w hw => hafter w (List.mem_append_left _ hw)⟩
  · rintro (⟨hP, hQ⟩ | ⟨hP, before, y, after, rfl, hPy, hQ, hafter⟩)
    · exact ⟨xs, x, [], rfl, hP, hQ, by simp⟩
    · refine ⟨before, y, after ++ [x], by simp, hPy, hQ, ?_⟩
      intro z hz
      rcases List.mem_append.1 hz with hz | hz
      · exact hafter z hz
      · rwa [List.mem_singleton.1 hz]

end SipProxy.History
