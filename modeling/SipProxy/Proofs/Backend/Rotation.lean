import Mathlib.Data.List.Rotate
import SipProxy.Backend.Pool

/-!
# The rotation of a pool

A pool is a list and a position in it, and every change of the list shifts one against the other.
What the two mean together is the order in which the backends are selected from now on, the
`rotation`: the list turned so that it begins at the position. On it the operations are plain.
Selecting takes the first backend and puts it last, adding puts a backend somewhere in between, and
removing takes one out; none of them changes the order of the others. With the list of the backends
the rotation tells the position (`eq_of_rotation`), so that nothing is lost by looking at it alone.

All of this holds of pools whose position is one of the list, or the first of an empty list
(`IsPlaced`), and every operation leaves such a pool behind.
-/

namespace SipProxy.Pool

variable {β : Type} {p q : Pool β}

/-- The position is one of the list, or the first if the list is empty. -/
def IsPlaced (p : Pool β) : Prop := p.index < p.backends.length ∨ p.backends = [] ∧ p.index = 0

/-- The backends in the order in which they are selected, the next one first. -/
def rotation (p : Pool β) : List β := p.backends.rotate p.index

theorem rotation_perm (p : Pool β) : p.rotation.Perm p.backends :=
  List.rotate_perm p.backends p.index

@[simp] theorem mem_rotation {b : β} : b ∈ p.rotation ↔ b ∈ p.backends := List.mem_rotate

theorem isPlaced_empty : (empty : Pool β).IsPlaced := .inr ⟨rfl, rfl⟩

theorem IsPlaced.index_le (hp : p.IsPlaced) : p.index ≤ p.backends.length := by
  rcases hp with h | ⟨-, h⟩
  · exact Nat.le_of_lt h
  · rw [h]
    exact Nat.zero_le _

/-- The position is told by the list and the rotation if no backend stands in the list twice. -/
theorem eq_of_rotation (hp : p.IsPlaced) (hq : q.IsPlaced) (hn : p.backends.Nodup)
    (hb : p.backends = q.backends) (hr : p.rotation = q.rotation) : p = q := by
  obtain ⟨bs, i⟩ := p
  obtain ⟨_, j⟩ := q
  subst hb
  rcases hp with hi | ⟨rfl, rfl⟩
  · have hne : bs ≠ [] := List.ne_nil_of_length_pos (Nat.zero_lt_of_lt hi)
    have hj : j < bs.length := hq.resolve_right fun h => hne h.1
    have hij := hn.rotate_congr hne i j hr
    rw [Nat.mod_eq_of_lt hi, Nat.mod_eq_of_lt hj] at hij
    exact congrArg (Pool.mk bs) hij
  · rcases hq with hj | ⟨-, rfl⟩
    · exact absurd hj (Nat.not_lt_zero j)
    · rfl

/-! ## Selecting -/

theorem next_eq_ok {b : β} :
    p.next = .ok (b, q) ↔
      p.backends[p.index]? = some b ∧ q = ⟨p.backends, (p.index + 1) % p.backends.length⟩ := by
  unfold next
  cases p.backends[p.index]? with
  | none => simp
  | some x => simp [eq_comm]

/-- A pool refuses only for lack of backends, never because its position is outside the list. -/
theorem IsPlaced.next (hp : p.IsPlaced) :
    (p.backends = [] ∧ p.next = .error .noBackend) ∨
      ∃ h : p.index < p.backends.length,
        p.next = .ok (p.backends[p.index], ⟨p.backends, (p.index + 1) % p.backends.length⟩) := by
  rcases hp with h | ⟨hb, -⟩
  · exact .inr ⟨h, next_eq_ok.2 ⟨List.getElem?_eq_getElem h, rfl⟩⟩
  · refine .inl ⟨hb, ?_⟩
    unfold Pool.next
    rw [hb]
    rfl

theorem backends_of_next {b : β} (h : p.next = .ok (b, q)) : q.backends = p.backends := by
  rw [(next_eq_ok.1 h).2]

theorem isPlaced_of_next {b : β} (h : p.next = .ok (b, q)) : q.IsPlaced := by
  obtain ⟨hb, rfl⟩ := next_eq_ok.1 h
  obtain ⟨hlt, -⟩ := List.getElem?_eq_some_iff.1 hb
  exact .inl (Nat.mod_lt _ (Nat.zero_lt_of_lt hlt))

/-- The first backend of the rotation is selected and becomes the last. -/
theorem rotation_of_next {b : β} (h : p.next = .ok (b, q)) :
    ∃ rest, p.rotation = b :: rest ∧ q.rotation = rest ++ [b] := by
  obtain ⟨hb, rfl⟩ := next_eq_ok.1 h
  obtain ⟨hlt, -⟩ := List.getElem?_eq_some_iff.1 hb
  have hhead : p.rotation.head? = some b := (List.head?_rotate hlt).trans hb
  obtain ⟨rest, hrest⟩ := List.head?_eq_some_iff.1 hhead
  refine ⟨rest, hrest, ?_⟩
  -- turning the list by one more is turning the rotation by one
  show p.backends.rotate ((p.index + 1) % p.backends.length) = rest ++ [b]
  rw [List.rotate_mod, ← List.rotate_rotate]
  show p.rotation.rotate 1 = rest ++ [b]
  rw [hrest, List.rotate_cons_succ, List.rotate_zero]

/-! ## Adding -/

theorem IsPlaced.add (hp : p.IsPlaced) (b : β) : (p.add b).IsPlaced := by
  have hle := hp.index_le
  refine .inl ?_
  show p.index < (p.backends ++ [b]).length
  rw [List.length_append, List.length_singleton]
  omega

private theorem exists_append_of_le {α : Type} {l : List α} {n : Nat} (h : n ≤ l.length) :
    ∃ front back, l = front ++ back ∧ front.length = n :=
  ⟨l.take n, l.drop n, (List.take_append_drop n l).symm, List.length_take_of_le h⟩

/-- A backend is added somewhere in the rotation. -/
theorem rotation_add (hp : p.IsPlaced) (b : β) :
    ∃ front back, p.rotation = front ++ back ∧ (p.add b).rotation = front ++ b :: back := by
  obtain ⟨front, back, hb, hi⟩ := exists_append_of_le hp.index_le
  refine ⟨back, front, ?_, ?_⟩
  · rw [rotation, hb, ← hi, List.rotate_append_length_eq]
  · show (p.backends ++ [b]).rotate p.index = _
    rw [hb, ← hi, List.append_assoc, List.rotate_append_length_eq]
    simp

theorem foldl_add (bs : List β) (p : Pool β) :
    bs.foldl (fun p b => p.add b) p = ⟨p.backends ++ bs, p.index⟩ := by
  induction bs generalizing p with
  | nil => rw [List.foldl_nil, List.append_nil]
  | cons b bs ih =>
    rw [List.foldl_cons, ih]
    show Pool.mk (p.backends ++ [b] ++ bs) p.index = _
    rw [List.append_assoc, List.singleton_append]

theorem IsPlaced.foldl_add (hp : p.IsPlaced) (bs : List β) :
    (bs.foldl (fun p b => p.add b) p).IsPlaced := by
  induction bs generalizing p with
  | nil => exact hp
  | cons b bs ih => exact ih (hp.add b)

/-! ## Removing -/

theorem indexAfterRemoval_zero (position index : Nat) : indexAfterRemoval position index 0 = 0 := by
  unfold indexAfterRemoval
  extract_lets i
  exact if_neg (Nat.not_lt_zero i)

theorem indexAfterRemoval_lt {position index size : Nat} (h : 0 < size) :
    indexAfterRemoval position index size < size := by
  unfold indexAfterRemoval
  extract_lets i
  split
  · assumption
  · exact h

theorem isPlaced_removeAt (p : Pool β) (position : Nat) : (p.removeAt position).IsPlaced := by
  show indexAfterRemoval position p.index (p.backends.eraseIdx position).length <
      (p.backends.eraseIdx position).length ∨
    p.backends.eraseIdx position = [] ∧
      indexAfterRemoval position p.index (p.backends.eraseIdx position).length = 0
  cases p.backends.eraseIdx position with
  | nil => exact .inr ⟨rfl, indexAfterRemoval_zero position p.index⟩
  | cons b bs => exact .inl (indexAfterRemoval_lt (Nat.zero_lt_succ _))

theorem backends_removeAt {before after : List β} {b : β}
    (h : p.backends = before ++ b :: after) :
    (p.removeAt before.length).backends = before ++ after := by
  show p.backends.eraseIdx before.length = before ++ after
  rw [h, List.eraseIdx_append_of_length_le (Nat.le_refl _), Nat.sub_self]
  rfl

/-- A backend is taken out of the rotation, and the others keep their order. -/
theorem rotation_removeAt {before after : List β} {b : β} (hp : p.IsPlaced)
    (h : p.backends = before ++ b :: after) :
    ∃ front back, p.rotation = front ++ b :: back ∧
      (p.removeAt before.length).rotation = front ++ back := by
  have hle := hp.index_le
  have hrot : (p.removeAt before.length).rotation =
      (before ++ after).rotate
        (indexAfterRemoval before.length p.index (before ++ after).length) := by
    rw [← backends_removeAt h]
    rfl
  rw [hrot, rotation, h]
  rw [h, List.length_append, List.length_cons] at hle
  by_cases hlt : before.length < p.index
  · -- the position is behind the backend, and its own backend moves to the front with it
    obtain ⟨back, front, rfl, hk⟩ :=
      exists_append_of_le (l := after) (n := p.index - 1 - before.length) (by omega)
    refine ⟨front ++ before, back, ?_, ?_⟩
    · have hi : p.index = (before ++ b :: back).length := by
        rw [List.length_append, List.length_cons]
        omega
      have hcut : before ++ b :: (back ++ front) = (before ++ b :: back) ++ front := by simp
      rw [hi, hcut, List.rotate_append_length_eq, List.append_assoc]
    · have hi : p.index - 1 = (before ++ back).length := by
        rw [List.length_append]
        omega
      unfold indexAfterRemoval
      simp only [if_pos hlt]
      rw [hi, ← List.append_assoc]
      split
      · rw [List.rotate_append_length_eq, List.append_assoc]
      · rename_i hge
        rw [@List.length_append β (before ++ back) front] at hge
        obtain rfl : front = [] := List.length_eq_zero_iff.1 (by omega)
        simp
  · -- the position is not behind the backend, and stays unless nothing is left there
    obtain ⟨front, back, rfl, hk⟩ :=
      exists_append_of_le (l := before) (n := p.index) (by omega)
    refine ⟨back, after ++ front, ?_, ?_⟩
    · rw [← hk, List.append_assoc, List.rotate_append_length_eq, List.append_assoc]
      rfl
    · unfold indexAfterRemoval
      simp only [if_neg hlt]
      rw [← hk, List.append_assoc]
      split
      · rw [List.rotate_append_length_eq, List.append_assoc]
      · rename_i hge
        rw [List.length_append, List.length_append] at hge
        obtain rfl : back = [] := List.length_eq_zero_iff.1 (by omega)
        obtain rfl : after = [] := List.length_eq_zero_iff.1 (by omega)
        simp

section Addresses

variable [Addressed β]

/-- What a removal can do: nothing, because no backend has the address, or take out the first that
has it. -/
theorem remove_cases (a : Endpoint) (p : Pool β) :
    ((∀ b ∈ p.backends, Addressed.address b ≠ a) ∧ p.remove a = (none, p)) ∨
      ∃ before b after, p.backends = before ++ b :: after ∧ Addressed.address b = a ∧
        (∀ x ∈ before, Addressed.address x ≠ a) ∧
          p.remove a = (some b, p.removeAt before.length) := by
  cases hf : p.backends.findIdx? fun b => Addressed.address b = a with
  | none =>
    left
    refine ⟨?_, by simp [remove, hf]⟩
    simpa using List.findIdx?_eq_none_iff.1 hf
  | some n =>
    right
    obtain ⟨hlt, ha, hbefore⟩ := List.findIdx?_eq_some_iff_getElem.1 hf
    have hlen : (p.backends.take n).length = n := List.length_take_of_le (Nat.le_of_lt hlt)
    refine ⟨p.backends.take n, p.backends[n], p.backends.drop (n + 1), ?_, ?_, ?_, ?_⟩
    · rw [List.getElem_cons_drop, List.take_append_drop]
    · simpa using ha
    · intro x hx
      obtain ⟨i, hi, rfl⟩ := List.getElem_of_mem hx
      rw [hlen] at hi
      rw [List.getElem_take]
      simpa using hbefore i hi
    · simp only [remove, hf, hlen, List.getElem?_eq_getElem hlt]

/-- What is left of a list in which one element alone has a key that is to go. -/
private theorem filter_middle {α κ : Type} [DecidableEq κ] {key : α → κ} {front back : List α}
    {x : α} (hn : ((front ++ x :: back).map key).Nodup) :
    (front ++ x :: back).filter (fun y => key y ≠ key x) = front ++ back := by
  rw [List.map_append, List.map_cons, List.nodup_middle, List.nodup_cons, List.mem_append] at hn
  have hkeep : ∀ {l : List α}, key x ∉ l.map key → l.filter (fun y => key y ≠ key x) = l := by
    intro l hl
    refine List.filter_eq_self.2 fun y hy => decide_eq_true ?_
    intro he
    exact hl (he ▸ List.mem_map_of_mem hy)
  rw [List.filter_append, List.filter_cons_of_neg (by simp), hkeep fun h => hn.1 (.inl h),
    hkeep fun h => hn.1 (.inr h)]

/-- Removing an address leaves the backends of the others. -/
theorem backends_remove (hn : p.addresses.Nodup) (a : Endpoint) :
    (p.remove a).2.backends = p.backends.filter fun b => Addressed.address b ≠ a := by
  rcases remove_cases a p with ⟨hall, h⟩ | ⟨before, b, after, hb, rfl, -, h⟩
  · rw [h]
    exact (List.filter_eq_self.2 fun b hb => decide_eq_true (hall b hb)).symm
  · rw [addresses, hb] at hn
    rw [h, hb, filter_middle hn]
    exact backends_removeAt hb

/-- Removing an address leaves the others in the order in which they are selected. -/
theorem rotation_remove (hp : p.IsPlaced) (hn : p.addresses.Nodup) (a : Endpoint) :
    (p.remove a).2.rotation = p.rotation.filter fun b => Addressed.address b ≠ a := by
  rcases remove_cases a p with ⟨hall, h⟩ | ⟨before, b, after, hb, rfl, -, h⟩
  · rw [h]
    refine (List.filter_eq_self.2 fun b hb => decide_eq_true (hall b ?_)).symm
    exact mem_rotation.1 hb
  · obtain ⟨front, back, hr, hr'⟩ := rotation_removeAt hp hb
    have hn' := (p.rotation_perm.map Addressed.address).nodup_iff.2 hn
    rw [hr] at hn'
    rw [h, hr, filter_middle hn']
    exact hr'

theorem IsPlaced.remove (hp : p.IsPlaced) (a : Endpoint) : (p.remove a).2.IsPlaced := by
  rcases remove_cases a p with ⟨-, h⟩ | ⟨before, b, after, -, -, -, h⟩
  · rw [h]
    exact hp
  · rw [h]
    exact isPlaced_removeAt p before.length

end Addresses

end SipProxy.Pool
