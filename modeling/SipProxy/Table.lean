/-!
# Tables

Finite maps with decidable keys: a list of entries in which no key occurs twice. Routing tables,
host tables and the cache of connections are small, and each of them is read as a whole at some
point, so the entries are kept in plain sight instead of in a hash table.

What a table answers is fixed by `find?_put` and `find?_erase`; the order of entries is that of
their last `put` and means nothing unless the reader of the entries says so.
-/

namespace SipProxy

structure Table (κ ν : Type) where
  entries : List (κ × ν)
  nodup : (entries.map Prod.fst).Nodup

namespace Table

variable {κ ν : Type}

def empty : Table κ ν := ⟨[], List.nodup_nil⟩

instance : EmptyCollection (Table κ ν) := ⟨empty⟩

def size (t : Table κ ν) : Nat := t.entries.length

def isEmpty (t : Table κ ν) : Bool := t.entries.isEmpty

def values (t : Table κ ν) : List ν := t.entries.map Prod.snd

/-- The entries that satisfy a condition. -/
def filter (keep : κ → ν → Bool) (t : Table κ ν) : Table κ ν where
  entries := t.entries.filter fun e => keep e.1 e.2
  nodup := t.nodup.sublist (List.filter_sublist.map Prod.fst)

theorem mem_values {v : ν} {t : Table κ ν} : v ∈ t.values ↔ ∃ k, (k, v) ∈ t.entries := by
  simp [values]

theorem mem_entries_filter {keep : κ → ν → Bool} {k : κ} {v : ν} {t : Table κ ν} :
    (k, v) ∈ (t.filter keep).entries ↔ (k, v) ∈ t.entries ∧ keep k v = true :=
  List.mem_filter

variable [DecidableEq κ]

/-- The value at a key. -/
def find? (k : κ) (t : Table κ ν) : Option ν := (t.entries.find? fun e => e.1 = k).map Prod.snd

/-- Drops the entry of a key. -/
def erase (k : κ) (t : Table κ ν) : Table κ ν := t.filter fun k' _ => k' ≠ k

/-- Sets the value at a key, as the last entry. -/
def put (k : κ) (v : ν) (t : Table κ ν) : Table κ ν where
  entries := (t.erase k).entries ++ [(k, v)]
  nodup := by
    rw [List.map_append, List.nodup_append]
    refine ⟨(t.erase k).nodup, by simp, ?_⟩
    intro a ha b hb
    simp only [erase, filter, List.mem_map, List.mem_filter, decide_eq_true_eq] at ha
    obtain ⟨e, ⟨_, he⟩, rfl⟩ := ha
    simp only [List.map_cons, List.map_nil, List.mem_singleton] at hb
    exact hb ▸ he

/-- Puts every pair into the table; of equal keys the last wins. -/
def ofList (pairs : List (κ × ν)) : Table κ ν := pairs.foldl (fun t p => t.put p.1 p.2) empty

@[simp] theorem find?_empty (k : κ) : (empty : Table κ ν).find? k = none := rfl

theorem find?_eq_some {k : κ} {v : ν} {t : Table κ ν} :
    t.find? k = some v ↔ (k, v) ∈ t.entries := by
  obtain ⟨es, hes⟩ := t
  simp only [find?, Option.map_eq_some_iff]
  constructor
  · rintro ⟨e, he, rfl⟩
    have hk : e.1 = k := by simpa using List.find?_some he
    exact hk ▸ List.mem_of_find?_eq_some he
  · intro h
    induction es with
    | nil => simp at h
    | cons e es ih =>
      rw [List.map_cons, List.nodup_cons] at hes
      by_cases he : e.1 = k
      · refine ⟨e, by simp [he], ?_⟩
        rcases List.mem_cons.1 h with rfl | h
        · rfl
        · exact absurd (he ▸ List.mem_map_of_mem h) hes.1
      · rcases List.mem_cons.1 h with rfl | h
        · simp at he
        · simpa [he] using ih hes.2 h

theorem find?_eq_none {k : κ} {t : Table κ ν} : t.find? k = none ↔ ∀ v, (k, v) ∉ t.entries := by
  rw [Option.eq_none_iff_forall_ne_some]
  exact forall_congr' fun v => not_congr find?_eq_some

theorem mem_entries_erase {k k' : κ} {v : ν} {t : Table κ ν} :
    (k', v) ∈ (t.erase k).entries ↔ (k', v) ∈ t.entries ∧ k' ≠ k := by
  simp [erase, filter]

/-- Dropping the entry of a key that has none changes nothing. -/
theorem erase_of_find?_eq_none {k : κ} {t : Table κ ν} (h : t.find? k = none) : t.erase k = t := by
  obtain ⟨es, hes⟩ := t
  have hall : es.filter (fun e => decide (e.1 ≠ k)) = es := by
    rw [List.filter_eq_self]
    intro e he
    rw [decide_eq_true_eq]
    rintro rfl
    exact find?_eq_none.1 h e.2 he
  simp only [erase, filter, hall]

theorem find?_erase (k k' : κ) (t : Table κ ν) :
    (t.erase k).find? k' = if k' = k then none else t.find? k' := by
  split
  · rename_i h
    rw [find?_eq_none]
    intro v hv
    exact (mem_entries_erase.1 hv).2 h
  · rename_i h
    apply Option.ext
    intro v
    rw [find?_eq_some, find?_eq_some, mem_entries_erase, and_iff_left h]

theorem mem_entries_put {k k' : κ} {v w : ν} {t : Table κ ν} :
    (k', w) ∈ (t.put k v).entries ↔ ((k', w) ∈ t.entries ∧ k' ≠ k) ∨ (k' = k ∧ w = v) := by
  simp [put, mem_entries_erase]

theorem find?_put (k k' : κ) (v : ν) (t : Table κ ν) :
    (t.put k v).find? k' = if k' = k then some v else t.find? k' := by
  apply Option.ext
  intro w
  rw [find?_eq_some, mem_entries_put]
  split
  · rename_i h
    simp [h, eq_comm]
  · rename_i h
    simp [h, find?_eq_some]

theorem size_put (k : κ) (v : ν) (t : Table κ ν) : (t.put k v).size = (t.erase k).size + 1 := by
  simp [put, size]

end Table

end SipProxy
