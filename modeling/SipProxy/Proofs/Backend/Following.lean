import SipProxy.Backend.Membership
import SipProxy.Proofs.Backend.Rotation
import SipProxy.Proofs.Ip.Endpoint

/-!
# Following a resolution

What `Membership.follow` does to a pool, in two parts. Of a removal it is said for every pool what
it takes out, since a pool may hold several backends of one address (`removeAll_perm`,
`removeAll_fst`). If a pool has one backend for every known address and no others (`Tracks`), then
this is so again afterwards, and what became of the pool is a `Renewal`: who is still resolved stays
in its place, and who is new comes last. The order in which the known addresses are listed leaves no
trace in the pool, not even in its position (`follow_congr`).
-/

namespace SipProxy

variable {β : Type} [Addressed β] {p : Pool β} {a : Endpoint} {as bs : List Endpoint}

/-! ## Removing one address -/

namespace Pool

/-- What leaves a pool and what stays is what was there. -/
theorem remove_perm (a : Endpoint) (p : Pool β) :
    ((p.remove a).1.toList ++ (p.remove a).2.backends).Perm p.backends := by
  rcases remove_cases a p with ⟨-, h⟩ | ⟨before, b, after, hb, -, -, h⟩
  · rw [h]
    exact List.Perm.refl _
  · rw [h]
    show (b :: (p.removeAt before.length).backends).Perm p.backends
    rw [backends_removeAt hb, hb]
    exact List.perm_middle.symm

/-- The backends of an address, in the order in which they are found. -/
def backendsAt (a : Endpoint) (p : Pool β) : List β :=
  p.backends.filter fun b => Addressed.address b = a

/-- The first backend of the address is the one that leaves. -/
theorem remove_fst (a : Endpoint) (p : Pool β) : (p.remove a).1 = (p.backendsAt a).head? := by
  rcases remove_cases a p with ⟨hall, h⟩ | ⟨before, b, after, hb, ha, hbefore, h⟩
  · rw [h, backendsAt, List.filter_eq_nil_iff.2 (by simpa using hall)]
    rfl
  · rw [h, backendsAt, hb, List.filter_append, List.filter_eq_nil_iff.2 (by simpa using hbefore),
      List.nil_append, List.filter_cons_of_pos (by simpa using ha)]
    rfl

/-- The backends of another address stay. -/
theorem backendsAt_remove (a a' : Endpoint) (p : Pool β) :
    (p.remove a).2.backendsAt a' = if a' = a then (p.backendsAt a).tail else p.backendsAt a' := by
  rcases remove_cases a p with ⟨hall, h⟩ | ⟨before, b, after, hb, hba, hbefore, h⟩
  · rw [h]
    split
    · rename_i ha
      rw [ha, backendsAt, List.filter_eq_nil_iff.2 (by simpa using hall)]
      rfl
    · rfl
  · have hleft : (p.removeAt before.length).backends = before ++ after := backends_removeAt hb
    simp only [h, backendsAt, hleft, hb, List.filter_append]
    split
    · rename_i ha
      rw [ha, List.filter_eq_nil_iff.2 (by simpa using hbefore), List.nil_append, List.nil_append,
        List.filter_cons_of_pos (by simpa using hba), List.tail_cons]
    · rename_i ha
      rw [List.filter_cons_of_neg (by simpa [hba] using Ne.symm ha)]

theorem addresses_remove_nodup (hn : p.addresses.Nodup) (a : Endpoint) :
    (p.remove a).2.addresses.Nodup := by
  rw [addresses, backends_remove hn]
  exact hn.sublist (List.filter_sublist.map _)

end Pool

namespace Membership

/-! ## Removing several addresses -/

theorem removeAll_perm (as : List Endpoint) (p : Pool β) :
    ((removeAll as p).1 ++ (removeAll as p).2.backends).Perm p.backends := by
  induction as generalizing p with
  | nil => exact List.Perm.refl _
  | cons a as ih =>
    show ((p.remove a).1.toList ++ (removeAll as (p.remove a).2).1 ++
      (removeAll as (p.remove a).2).2.backends).Perm p.backends
    rw [List.append_assoc]
    exact ((ih (p.remove a).2).append_left _).trans (p.remove_perm a)

/-- Of every address the first backend leaves. -/
theorem removeAll_fst (hn : as.Nodup) (p : Pool β) :
    (removeAll as p).1 = as.filterMap fun a => (p.backendsAt a).head? := by
  induction as generalizing p with
  | nil => rfl
  | cons a as ih =>
    rw [List.nodup_cons] at hn
    show (p.remove a).1.toList ++ (removeAll as (p.remove a).2).1 = _
    have hsame : (as.filterMap fun a' => ((p.remove a).2.backendsAt a').head?) =
        as.filterMap fun a' => (p.backendsAt a').head? := by
      refine List.filterMap_congr fun a' ha' => ?_
      have hne : a' ≠ a := fun h => hn.1 (h ▸ ha')
      rw [Pool.backendsAt_remove, if_neg hne]
    rw [ih hn.2, hsame, p.remove_fst, List.filterMap_cons]
    cases (p.backendsAt a).head? <;> rfl

theorem backendsAt_removeAll (hn : as.Nodup) (a : Endpoint) (p : Pool β) :
    (removeAll as p).2.backendsAt a =
      if a ∈ as then (p.backendsAt a).tail else p.backendsAt a := by
  induction as generalizing p with
  | nil => rfl
  | cons a' as ih =>
    rw [List.nodup_cons] at hn
    show (removeAll as (p.remove a').2).2.backendsAt a = _
    rw [ih hn.2, Pool.backendsAt_remove]
    by_cases ha : a = a'
    · rw [ha, if_neg hn.1, if_pos rfl, if_pos List.mem_cons_self]
    · simp only [List.mem_cons, ha, false_or, if_false]

theorem isPlaced_removeAll (hp : p.IsPlaced) (as : List Endpoint) :
    (removeAll as p).2.IsPlaced := by
  induction as generalizing p with
  | nil => exact hp
  | cons a as ih => exact ih (hp.remove a)

private theorem filter_ne_filter_notMem {l : List β} :
    (l.filter fun b => Addressed.address b ≠ a).filter (fun b => Addressed.address b ∉ as) =
      l.filter fun b => Addressed.address b ∉ a :: as := by
  rw [List.filter_filter]
  refine List.filter_congr fun b _ => ?_
  rw [Bool.eq_iff_iff, Bool.and_eq_true, decide_eq_true_eq, decide_eq_true_eq, decide_eq_true_eq,
    List.mem_cons, not_or, and_comm]

/-- Where no two backends have one address, those of other addresses are left. -/
theorem backends_removeAll (hn : p.addresses.Nodup) (as : List Endpoint) :
    (removeAll as p).2.backends = p.backends.filter fun b => Addressed.address b ∉ as := by
  induction as generalizing p with
  | nil => exact (List.filter_eq_self.2 fun b _ => by simp).symm
  | cons a as ih =>
    show (removeAll as (p.remove a).2).2.backends = _
    rw [ih (Pool.addresses_remove_nodup hn a), Pool.backends_remove hn, filter_ne_filter_notMem]

theorem rotation_removeAll (hp : p.IsPlaced) (hn : p.addresses.Nodup) (as : List Endpoint) :
    (removeAll as p).2.rotation = p.rotation.filter fun b => Addressed.address b ∉ as := by
  induction as generalizing p with
  | nil => exact (List.filter_eq_self.2 fun b _ => by simp).symm
  | cons a as ih =>
    show (removeAll as (p.remove a).2).2.rotation = _
    rw [ih (hp.remove a) (Pool.addresses_remove_nodup hn a), Pool.rotation_remove hp hn,
      filter_ne_filter_notMem]

/-- The order of the removals leaves no trace. -/
theorem removeAll_congr (hp : p.IsPlaced) (hn : p.addresses.Nodup)
    (h : ∀ a, a ∈ as ↔ a ∈ bs) : (removeAll as p).2 = (removeAll bs p).2 := by
  have hfilter : ∀ l : List β, (l.filter fun b => Addressed.address b ∉ as) =
      l.filter fun b => Addressed.address b ∉ bs := by
    intro l
    refine List.filter_congr fun b _ => ?_
    rw [Bool.eq_iff_iff, decide_eq_true_eq, decide_eq_true_eq, h]
  refine Pool.eq_of_rotation (isPlaced_removeAll hp as) (isPlaced_removeAll hp bs) ?_ ?_ ?_
  · rw [backends_removeAll hn]
    exact (List.Nodup.of_map _ hn).filter _
  · rw [backends_removeAll hn, backends_removeAll hn, hfilter]
  · rw [rotation_removeAll hp hn, rotation_removeAll hp hn, hfilter]

/-! ## Opening in order -/

private theorem nodup_eraseDups {α : Type} [BEq α] [LawfulBEq α] (l : List α) :
    l.eraseDups.Nodup := by
  match l with
  | [] => simp
  | x :: l =>
    rw [List.eraseDups_cons, List.nodup_cons, List.mem_eraseDups]
    exact ⟨by simp, nodup_eraseDups _⟩
termination_by l.length
decreasing_by exact Nat.lt_succ_of_le (List.length_filter_le _ l)

@[simp] theorem mem_ascending : a ∈ ascending as ↔ a ∈ as := by
  rw [ascending, List.mem_mergeSort, List.mem_eraseDups]

theorem nodup_ascending (as : List Endpoint) : (ascending as).Nodup :=
  (List.mergeSort_perm _ _).nodup_iff.2 (nodup_eraseDups as)

theorem pairwise_ascending (as : List Endpoint) :
    (ascending as).Pairwise fun a b => a.le b = true ∧ a ≠ b := by
  have hsorted : (ascending as).Pairwise fun a b => a.le b = true :=
    @List.pairwise_mergeSort Endpoint Endpoint.le (fun _ _ _ => Endpoint.le_trans)
      Endpoint.le_total as.eraseDups
  exact hsorted.and (nodup_ascending as)

/-- Of a list of addresses only the set of them matters. -/
theorem ascending_congr (h : ∀ a, a ∈ as ↔ a ∈ bs) : ascending as = ascending bs := by
  refine List.Perm.eq_of_pairwise (fun a b _ _ => ?_) (pairwise_ascending as)
    (pairwise_ascending bs) ?_
  · rintro ⟨hab, -⟩ ⟨hba, -⟩
    exact Endpoint.le_antisymm hab hba
  · rw [List.perm_ext_iff_of_nodup (nodup_ascending as) (nodup_ascending bs)]
    intro a
    rw [mem_ascending, mem_ascending, h]

/-! ## Following -/

variable {known : List Endpoint} {openAt : Endpoint → Option β}

/-- The addresses that are no longer resolved leave. -/
def vanished (addresses known : List Endpoint) : List Endpoint :=
  known.filter fun a => !addresses.contains a

/-- The addresses that are resolved and not known are tried. -/
def new (addresses known : List Endpoint) : List Endpoint :=
  (ascending addresses).filter fun a => !known.contains a

theorem mem_vanished : a ∈ vanished as known ↔ a ∈ known ∧ a ∉ as := by
  simp [vanished]

theorem mem_new : a ∈ new as known ↔ a ∈ as ∧ a ∉ known := by
  simp [new]

theorem nodup_vanished (hn : known.Nodup) : (vanished as known).Nodup := hn.filter _

theorem nodup_new : (new as known).Nodup := (nodup_ascending as).filter _

theorem backends_follow (openAt : Endpoint → Option β) (as known : List Endpoint) (p : Pool β) :
    (follow openAt as known p).pool.backends =
      (removeAll (vanished as known) p).2.backends ++ (new as known).filterMap openAt := by
  show (List.foldl (fun p b => p.add b) (removeAll (vanished as known) p).2
    ((new as known).filterMap openAt)).backends = _
  rw [Pool.foldl_add]

theorem mem_known_follow (p : Pool β) :
    a ∈ (follow openAt as known p).known ↔ a ∈ as ∧ (a ∈ known ∨ (openAt a).isSome) := by
  show (a ∈ (known.filter fun a => as.contains a) ++
    (new as known).filter fun a => (openAt a).isSome) ↔ _
  rw [List.mem_append, List.mem_filter, List.mem_filter, mem_new, List.contains_iff_mem]
  tauto

theorem nodup_known_follow (hn : known.Nodup) (p : Pool β) :
    (follow openAt as known p).known.Nodup := by
  refine List.nodup_append.2 ⟨hn.filter _, nodup_new.filter _, ?_⟩
  rintro a ha _ hb rfl
  exact (mem_new.1 (List.mem_filter.1 hb).1).2 (List.mem_filter.1 ha).1

private theorem filter_filterMap_openAt (ho : ∀ a b, openAt a = some b → Addressed.address b = a)
    (hn : as.Nodup) (a : Endpoint) :
    ((as.filterMap openAt).filter fun b => Addressed.address b = a) =
      if a ∈ as then (openAt a).toList else [] := by
  induction as with
  | nil => rfl
  | cons a' as ih =>
    rw [List.nodup_cons] at hn
    cases hb : openAt a' with
    | none =>
      rw [List.filterMap_cons_none hb, ih hn.2]
      by_cases ha : a = a'
      · rw [ha, if_neg hn.1, if_pos List.mem_cons_self, hb]
        rfl
      · simp only [List.mem_cons, ha, false_or]
    | some b =>
      rw [List.filterMap_cons_some hb, List.filter_cons, ih hn.2, ho a' b hb]
      by_cases ha : a = a'
      · rw [ha, if_neg hn.1, if_pos List.mem_cons_self, hb, decide_eq_true rfl]
        rfl
      · simp [ha, Ne.symm ha]

/-- An address that vanishes loses its first backend, and a new one gets its backend last. -/
theorem backendsAt_follow (ho : ∀ a b, openAt a = some b → Addressed.address b = a)
    (hn : known.Nodup) (a : Endpoint) :
    (follow openAt as known p).pool.backendsAt a =
      (if a ∈ vanished as known then (p.backendsAt a).tail else p.backendsAt a) ++
        if a ∈ new as known then (openAt a).toList else [] := by
  rw [Pool.backendsAt, backends_follow, List.filter_append,
    filter_filterMap_openAt ho nodup_new, ← backendsAt_removeAll (nodup_vanished hn)]
  rfl

/-- A pool with one backend for every known address, and no others. -/
structure Tracks (known : List Endpoint) (p : Pool β) : Prop where
  placed : p.IsPlaced
  distinct : p.addresses.Nodup
  known_perm : known.Perm p.addresses

theorem Tracks.mem_known (h : Tracks known p) : a ∈ known ↔ a ∈ p.addresses :=
  h.known_perm.mem_iff

/-- What a successful resolution makes of a pool that has one backend for every known address. -/
structure Renewal (openAt : Endpoint → Option β) (addresses : List Endpoint) (p p' : Pool β)
    (closed opened : List β) : Prop where
  /-- Who is still resolved keeps its place, and who was opened stands behind. -/
  backends : p'.backends =
    (p.backends.filter fun b => Addressed.address b ∈ addresses) ++ opened
  /-- Who is no longer resolved is closed, and nobody else. -/
  closed : closed.Perm (p.backends.filter fun b => Addressed.address b ∉ addresses)
  /-- Every resolved address without a backend is tried once, in ascending order. -/
  opened : ∃ tried : List Endpoint, tried.Pairwise (fun a b => a.le b = true ∧ a ≠ b) ∧
    (∀ a, a ∈ tried ↔ a ∈ addresses ∧ a ∉ p.addresses) ∧ opened = tried.filterMap openAt

/-- The backends that are opened at addresses are those of the addresses where one can be. -/
theorem map_address_filterMap (ho : ∀ a b, openAt a = some b → Addressed.address b = a)
    (as : List Endpoint) :
    (as.filterMap openAt).map Addressed.address = as.filter fun a => (openAt a).isSome := by
  induction as with
  | nil => rfl
  | cons a as ih =>
    cases h : openAt a with
    | none => simp [h, ih]
    | some b => simp [h, ih, ho a b h]

theorem Tracks.renewal_follow (h : Tracks known p) (openAt : Endpoint → Option β)
    (as : List Endpoint) :
    Renewal openAt as p (follow openAt as known p).pool (follow openAt as known p).closed
      (follow openAt as known p).opened := by
  have hstay : (p.backends.filter fun b => Addressed.address b ∉ vanished as known) =
      p.backends.filter fun b => Addressed.address b ∈ as := by
    refine List.filter_congr fun b hb => ?_
    have hknown : Addressed.address b ∈ known := h.mem_known.2 (List.mem_map_of_mem hb)
    rw [Bool.eq_iff_iff, decide_eq_true_eq, decide_eq_true_eq, mem_vanished]
    tauto
  have hleft := backends_removeAll h.distinct (vanished as known)
  rw [hstay] at hleft
  refine ⟨?_, ?_, ⟨new as known, ?_, ?_, rfl⟩⟩
  · rw [backends_follow, hleft]
    rfl
  · -- what left and what stays are all there was, as are those resolved and those not
    have hall := removeAll_perm (vanished as known) p
    rw [hleft] at hall
    have hsplit := List.filter_append_perm (fun b => decide (Addressed.address b ∈ as)) p.backends
    have hneg : (p.backends.filter fun b => !decide (Addressed.address b ∈ as)) =
        p.backends.filter fun b => Addressed.address b ∉ as :=
      List.filter_congr fun b _ => by rw [decide_not]
    rw [hneg] at hsplit
    exact (List.perm_append_right_iff _).1 ((hall.trans hsplit.symm).trans List.perm_append_comm)
  · exact (pairwise_ascending as).filter _
  · intro a
    rw [mem_new, h.mem_known]

theorem Tracks.addresses_follow (h : Tracks known p)
    (ho : ∀ a b, openAt a = some b → Addressed.address b = a) (as : List Endpoint) :
    (Membership.follow openAt as known p).pool.addresses =
      (p.addresses.filter fun a => a ∈ as) ++
        (new as known).filter fun a => (openAt a).isSome := by
  rw [Pool.addresses, (h.renewal_follow openAt as).backends, List.map_append, Pool.addresses,
    List.filter_map]
  congr 1
  exact map_address_filterMap ho _

theorem Tracks.follow (h : Tracks known p)
    (ho : ∀ a b, openAt a = some b → Addressed.address b = a) (as : List Endpoint) :
    Tracks (Membership.follow openAt as known p).known
      (Membership.follow openAt as known p).pool := by
  have hstayed :
      (known.filter fun a => as.contains a).Perm (p.addresses.filter fun a => a ∈ as) := by
    have hsame : (p.addresses.filter fun a => as.contains a) = p.addresses.filter fun a => a ∈ as :=
      List.filter_congr fun a _ => by rw [Bool.eq_iff_iff]; simp
    exact hsame ▸ h.known_perm.filter _
  refine ⟨?_, ?_, ?_⟩
  · exact (isPlaced_removeAll h.placed (vanished as known)).foldl_add _
  · rw [h.addresses_follow ho, List.nodup_append]
    refine ⟨h.distinct.filter _, nodup_new.filter _, ?_⟩
    rintro a ha _ hb rfl
    exact (mem_new.1 (List.mem_filter.1 hb).1).2 (h.mem_known.2 (List.mem_filter.1 ha).1)
  · rw [h.addresses_follow ho]
    exact hstayed.append_right _

/-- A resolved address has a backend then if it had one before or one could be opened. -/
theorem Tracks.mem_addresses_follow (h : Tracks known p)
    (ho : ∀ a b, openAt a = some b → Addressed.address b = a) (as : List Endpoint) :
    a ∈ (Membership.follow openAt as known p).pool.addresses ↔
      a ∈ as ∧ (a ∈ p.addresses ∨ (openAt a).isSome) := by
  rw [← (h.follow ho as).mem_known, mem_known_follow, h.mem_known]

/-- Neither the order of the known addresses nor that of the resolved ones leaves a trace in the
pool, nor does it matter how often an address was resolved. -/
theorem Tracks.follow_congr (h : Tracks known p) {known' : List Endpoint}
    (hknown : known'.Perm known) (has : ∀ a, a ∈ as ↔ a ∈ bs) :
    (Membership.follow openAt as known p).pool = (Membership.follow openAt bs known' p).pool ∧
      (Membership.follow openAt bs known' p).known.Perm
        (Membership.follow openAt as known p).known := by
  have hnew : new as known = new bs known' := by
    unfold new
    rw [ascending_congr has]
    refine List.filter_congr fun a _ => ?_
    rw [Bool.eq_iff_iff]
    simp [hknown.mem_iff]
  have hvanished : ∀ a, a ∈ vanished as known ↔ a ∈ vanished bs known' := by
    intro a
    rw [mem_vanished, mem_vanished, has, hknown.mem_iff]
  constructor
  · show List.foldl (fun p b => p.add b) (removeAll (vanished as known) p).2
        ((new as known).filterMap openAt) =
      List.foldl (fun p b => p.add b) (removeAll (vanished bs known') p).2
        ((new bs known').filterMap openAt)
    rw [hnew, removeAll_congr h.placed h.distinct hvanished]
  · show ((known'.filter fun a => bs.contains a) ++
        (new bs known').filter fun a => (openAt a).isSome).Perm
      ((known.filter fun a => as.contains a) ++ (new as known).filter fun a => (openAt a).isSome)
    rw [hnew]
    refine List.Perm.append_right _ ?_
    have hsame : (known.filter fun a => as.contains a) = known.filter fun a => bs.contains a :=
      List.filter_congr fun a _ => by rw [Bool.eq_iff_iff]; simp [has]
    rw [hsame]
    exact hknown.filter _

end Membership

end SipProxy
