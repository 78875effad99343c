import SipProxy.Header.Value

/-!
# Header lines

A header line is a name and a slot. A slot holds the text as it was received until somebody asks
for its value, and the value from then on. Both are needed: text that nobody reads is sent on octet
for octet, faults included, and a value that was changed has to be written anew.

Reading a slot (`memoise`) gives the header back along with the outcome, since a header that could
not be read stays what it was and one that could be read has changed.
-/

namespace SipProxy

inductive Slot where
  | raw (text : String)
  | typed (value : HeaderValue)
deriving DecidableEq, Repr

def Slot.text : Slot → String
  | raw text => text
  | typed value => value.text

structure Header where
  /-- As written, in full or in compact form. -/
  name : String
  slot : Slot
deriving DecidableEq, Repr

namespace Header

/-- A header with a value nobody has read yet. -/
def ofText (name value : String) : Header := ⟨name, .raw value⟩

/-- A header with the full name of its kind. -/
def ofValue (k : HeaderKind) (v : k.Value) : Header := ⟨k.name.text, .typed (k.wrap v)⟩

def is (h : Header) (name : HeaderName) : Bool := name.isWrittenAs h.name

def valueText (h : Header) : String := h.slot.text

/-- The line without its ending. -/
def text (h : Header) : String := h.name ++ ": " ++ h.valueText

/-- Puts a value into the slot. -/
def put (h : Header) (k : HeaderKind) (v : k.Value) : Header := { h with slot := .typed (k.wrap v) }

/-- What is wrong with a slot that holds a value of another kind. -/
def otherKind (h : Header) (k : HeaderKind) : SipError :=
  .malformedHeader s!"{h.name} does not hold a {k.name.text} value"

/-- The value of the header, read as the kind. -/
def read (h : Header) (k : HeaderKind) : Except SipError k.Value :=
  match h.slot with
  | .raw text => k.parse text
  | .typed value =>
    match k.unwrap? value with
    | some v => .ok v
    | none => .error (h.otherKind k)

/-- Reads the header as the kind and keeps the value in the slot. -/
def memoise (h : Header) (k : HeaderKind) : Except SipError k.Value × Header :=
  match h.read k with
  | .ok v => (.ok v, h.put k v)
  | .error e => (.error e, h)

/-- A value that was in the slot already is put back as it was. -/
theorem memoise_of_typed {h : Header} {k : HeaderKind} {value : HeaderValue}
    (hs : h.slot = .typed value) : (h.memoise k).2 = h := by
  obtain ⟨name, slot⟩ := h
  subst hs
  cases hv : k.unwrap? value with
  | none => simp [memoise, read, hv]
  | some v => simp [memoise, read, hv, put, HeaderKind.wrap_of_unwrap? hv]

end Header

/-- Header lines in the order of the message. -/
abbrev Headers := List Header

namespace Headers

/-- The first header of the name, with what stands before it and after it. -/
def cut (name : HeaderName) : Headers → Option (Headers × Header × Headers)
  | [] => none
  | h :: hs =>
    if h.is name then some ([], h, hs)
    else (cut name hs).map fun r => (h :: r.1, r.2.1, r.2.2)

/-- The first header of the name. -/
def named? (name : HeaderName) (hs : Headers) : Option Header := hs.find? (·.is name)

/-- Where a new Via line goes: before the first, or before everything. -/
def viaPosition (hs : Headers) : Nat := (hs.findIdx? (·.is .via)).getD 0

/-- Where a new Record-Route line goes: before the first; without one, before From or Max-Forwards,
whichever comes first; without those, behind everything. -/
def recordRoutePosition (hs : Headers) : Nat :=
  match hs.findIdx? (·.is .recordRoute) with
  | some n => n
  | none => (hs.findIdx? fun h => h.is .fromParty || h.is .maxForwards).getD hs.length

/-- Puts a line at a position. -/
def insertAt (n : Nat) (h : Header) (hs : Headers) : Headers := hs.take n ++ h :: hs.drop n

/-- The entries of all Via lines, each line read and kept, up to the first that cannot be read. -/
def viaEntries : Headers → Except SipError (List ViaEntry) × Headers
  | [] => (.ok [], [])
  | h :: hs =>
    if h.is .via then
      match h.memoise .via with
      | (.ok entries, h) => ((viaEntries hs).1.map (entries ++ ·), h :: (viaEntries hs).2)
      | (.error e, h) => (.error e, h :: hs)
    else ((viaEntries hs).1, h :: (viaEntries hs).2)

theorem cut_eq_some {name : HeaderName} {hs before after : Headers} {h : Header} :
    cut name hs = some (before, h, after) ↔
      hs = before ++ h :: after ∧ h.is name = true ∧ ∀ x ∈ before, x.is name = false := by
  induction hs generalizing before with
  | nil => simp [cut]
  | cons x hs ih =>
    by_cases hx : x.is name = true
    · cases before with
      | nil =>
        simp only [cut, hx, if_true, Option.some.injEq, Prod.mk.injEq, true_and, List.nil_append,
          List.cons.injEq, List.not_mem_nil, false_implies, implies_true, and_true]
        constructor
        · rintro ⟨rfl, rfl⟩
          exact ⟨⟨rfl, rfl⟩, hx⟩
        · rintro ⟨⟨rfl, rfl⟩, _⟩
          exact ⟨rfl, rfl⟩
      | cons y before =>
        simp only [cut, hx, if_true, Option.some.injEq, Prod.mk.injEq, reduceCtorEq, false_and,
          List.cons_append, List.cons.injEq, List.mem_cons, forall_eq_or_imp, false_iff, not_and]
        rintro ⟨rfl, _⟩ _ hy
        simp [hx] at hy
    · have hx' : x.is name = false := by simpa using hx
      cases before with
      | nil =>
        simp only [cut, hx', Bool.false_eq_true, if_false, Option.map_eq_some_iff, Prod.mk.injEq,
          reduceCtorEq, false_and, and_false, exists_false, List.nil_append, List.cons.injEq,
          false_iff, not_and]
        rintro ⟨rfl, _⟩ hh
        simp [hx'] at hh
      | cons y before =>
        simp only [cut, hx', Bool.false_eq_true, if_false, Option.map_eq_some_iff, Prod.mk.injEq,
          List.cons.injEq, List.cons_append, List.mem_cons, forall_eq_or_imp, Prod.exists]
        constructor
        · rintro ⟨b, g, a, hc, ⟨rfl, rfl⟩, rfl, rfl⟩
          obtain ⟨rfl, hg, hb⟩ := ih.1 hc
          exact ⟨⟨rfl, rfl⟩, hg, hx', hb⟩
        · rintro ⟨⟨rfl, hs'⟩, hg, _, hb⟩
          exact ⟨before, h, after, ih.2 ⟨hs', hg, hb⟩, ⟨rfl, rfl⟩, rfl, rfl⟩

theorem cut_eq_none {name : HeaderName} {hs : Headers} :
    cut name hs = none ↔ ∀ x ∈ hs, x.is name = false := by
  induction hs with
  | nil => simp [cut]
  | cons x hs ih =>
    by_cases hx : x.is name = true
    · simp [cut, hx]
    · have hx' : x.is name = false := by simpa using hx
      simp [cut, hx', ih]

end Headers

end SipProxy
