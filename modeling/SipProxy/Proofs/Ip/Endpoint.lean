import SipProxy.Ip.Endpoint

/-!
# The order of endpoints

The order compares entry by entry what an endpoint is made of, and leaves nothing out: two endpoints
that come before one another are one endpoint (`Endpoint.le_antisymm`). So the order in which new
backends are opened is fixed by the set of their addresses alone.
-/

namespace SipProxy.Endpoint

theorem leEntries_antisymm {as bs : List Nat} (h : leEntries as bs = true)
    (h' : leEntries bs as = true) : as = bs := by
  induction as generalizing bs with
  | nil =>
    cases bs with
    | nil => rfl
    | cons b bs => cases h'
  | cons a as ih =>
    cases bs with
    | nil => cases h
    | cons b bs =>
      simp only [leEntries, Bool.or_eq_true, Bool.and_eq_true, Nat.blt_eq, Nat.beq_eq] at h h'
      rcases h with h | ⟨rfl, h⟩ <;> rcases h' with h' | ⟨hab, h'⟩
      · exact absurd h' (Nat.lt_asymm h)
      · exact absurd hab.symm (Nat.ne_of_lt h)
      · exact absurd h' (Nat.lt_irrefl a)
      · rw [ih h h']

theorem key_injective {a b : Endpoint} (h : a.key = b.key) : a = b := by
  cases a with
  | v4 ip port =>
    cases b with
    | v4 ip' port' =>
      obtain ⟨a, b, c, d⟩ := ip
      obtain ⟨a', b', c', d'⟩ := ip'
      simp only [key, List.cons.injEq, UInt8.toNat_inj, UInt16.toNat_inj, true_and,
        and_true] at h
      obtain ⟨rfl, rfl, rfl, rfl, rfl⟩ := h
      rfl
    | v6 ip' port' zone' => cases h
  | v6 ip port zone =>
    cases b with
    | v4 ip' port' => cases h
    | v6 ip' port' zone' =>
      obtain ⟨groups, hlen⟩ := ip
      obtain ⟨groups', hlen'⟩ := ip'
      simp only [key, List.cons_append, List.cons.injEq, true_and] at h
      have hcut := List.append_inj h (by rw [List.length_map, List.length_map, hlen, hlen'])
      have hgroups : groups = groups' :=
        List.map_inj_right (fun _ _ => UInt16.toNat_inj.1) |>.1 hcut.1
      simp only [List.cons.injEq, UInt16.toNat_inj, UInt32.toNat_inj, and_true] at hcut
      obtain ⟨-, rfl, rfl⟩ := hcut
      subst hgroups
      rfl

theorem le_antisymm {a b : Endpoint} (h : a.le b = true) (h' : b.le a = true) : a = b :=
  key_injective (leEntries_antisymm h h')

end SipProxy.Endpoint
