/-!
# Cutting text at a separator

`cutFirst` and `cutLast` cut at the first and at the last occurrence; both drop the separator and
say by `none` that it does not occur. Their laws (`cutFirst_eq_some`, `cutLast_eq_some`) put the
text back together.
-/

namespace SipProxy.Text

/-- What stands before and after the first `c`. -/
def cutFirst (c : Char) : List Char → Option (List Char × List Char)
  | [] => none
  | d :: s => if d = c then some ([], s) else (cutFirst c s).map fun p => (d :: p.1, p.2)

/-- What stands before and after the last `c`. -/
def cutLast (c : Char) : List Char → Option (List Char × List Char)
  | [] => none
  | d :: s =>
    match cutLast c s with
    | some p => some (d :: p.1, p.2)
    | none => if d = c then some ([], s) else none

/-- What follows `sep` in front of the text. -/
def dropFront? : (sep : List Char) → List Char → Option (List Char)
  | [], s => some s
  | c :: sep, d :: s => if d = c then dropFront? sep s else none
  | _ :: _, [] => none

/-- What stands before and after the first occurrence of the text `sep`. -/
def cutFirstText (sep : List Char) : List Char → Option (List Char × List Char)
  | [] => (dropFront? sep []).map fun rest => ([], rest)
  | d :: s =>
    match dropFront? sep (d :: s) with
    | some rest => some ([], rest)
    | none => (cutFirstText sep s).map fun p => (d :: p.1, p.2)

theorem dropFront?_eq_some {sep s rest : List Char} :
    dropFront? sep s = some rest ↔ s = sep ++ rest := by
  induction sep generalizing s with
  | nil => simp [dropFront?, eq_comm]
  | cons c sep ih =>
    cases s with
    | nil => simp [dropFront?]
    | cons d s => by_cases h : d = c <;> simp [dropFront?, h, ih]

theorem cutFirst_eq_none {c : Char} {s : List Char} : cutFirst c s = none ↔ c ∉ s := by
  induction s with
  | nil => simp [cutFirst]
  | cons d s ih =>
    by_cases h : d = c
    · simp [cutFirst, h]
    · simp [cutFirst, h, ih, Ne.symm h]

theorem cutFirst_eq_some {c : Char} {s a b : List Char} :
    cutFirst c s = some (a, b) ↔ s = a ++ c :: b ∧ c ∉ a := by
  induction s generalizing a with
  | nil => simp [cutFirst]
  | cons d s ih =>
    cases a with
    | nil =>
      by_cases h : d = c <;> simp [cutFirst, h]
    | cons x a =>
      by_cases h : d = c
      · subst h
        simp only [cutFirst, if_true, Option.some.injEq, Prod.mk.injEq, List.cons_append,
          List.cons.injEq, List.mem_cons, not_or, reduceCtorEq, false_and, false_iff]
        rintro ⟨⟨rfl, _⟩, hd, _⟩
        exact hd rfl
      · have := @ih a
        simp only [cutFirst, h, if_false, Option.map_eq_some_iff, Prod.mk.injEq, Prod.exists,
          List.cons_append, List.cons.injEq, List.mem_cons, not_or]
        constructor
        · rintro ⟨p, q, hp, ⟨rfl, rfl⟩, rfl⟩
          obtain ⟨rfl, hn⟩ := this.1 hp
          exact ⟨⟨rfl, rfl⟩, fun hc => h hc.symm, hn⟩
        · rintro ⟨⟨rfl, hs⟩, _, hn⟩
          exact ⟨a, b, this.2 ⟨hs, hn⟩, ⟨rfl, rfl⟩, rfl⟩

theorem cutLast_eq_none {c : Char} {s : List Char} : cutLast c s = none ↔ c ∉ s := by
  induction s with
  | nil => simp [cutLast]
  | cons d s ih =>
    cases hs : cutLast c s with
    | none =>
      have := ih.1 hs
      by_cases h : d = c
      · simp [cutLast, hs, h]
      · simp [cutLast, hs, h, this, Ne.symm h]
    | some p =>
      have : c ∈ s := Decidable.not_not.1 fun hc => by simp [ih.2 hc] at hs
      simp [cutLast, hs, this]

theorem cutLast_eq_some {c : Char} {s a b : List Char} :
    cutLast c s = some (a, b) ↔ s = a ++ c :: b ∧ c ∉ b := by
  induction s generalizing a with
  | nil => simp [cutLast]
  | cons d s ih =>
    cases hs : cutLast c s with
    | none =>
      have hn := cutLast_eq_none.1 hs
      cases a with
      | nil =>
        by_cases h : d = c
        · simp only [cutLast, hs, h, if_true, Option.some.injEq, Prod.mk.injEq, true_and,
            List.nil_append, List.cons.injEq]
          constructor
          · rintro rfl
            exact ⟨rfl, hn⟩
          · exact And.left
        · simp [cutLast, hs, h]
      | cons x a =>
        have : cutLast c (d :: s) ≠ some (x :: a, b) := by
          by_cases h : d = c <;> simp [cutLast, hs, h]
        simp only [this, List.cons_append, List.cons.injEq, false_iff]
        rintro ⟨⟨_, rfl⟩, _⟩
        simp at hn
    | some p =>
      cases a with
      | nil =>
        simp only [cutLast, hs, Option.some.injEq, Prod.mk.injEq, reduceCtorEq, false_and,
          List.nil_append, List.cons.injEq, false_iff]
        rintro ⟨⟨_, rfl⟩, hb⟩
        simp [cutLast_eq_none.2 hb] at hs
      | cons x a =>
        have := @ih a
        rw [hs, Option.some.injEq, Prod.ext_iff] at this
        simp only [cutLast, hs, Option.some.injEq, Prod.mk.injEq, List.cons.injEq,
          List.cons_append, and_assoc, this]

end SipProxy.Text
