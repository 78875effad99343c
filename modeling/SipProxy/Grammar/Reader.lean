import SipProxy.Text.Utf8

/-!
# Readers

The grammar of a header value is a set of readers over octets. A reader takes what it recognises
off the front and hands back the rest, or does not match; it never looks behind what it took. There
is no error value: which text goes with a value that does not match is the caller's business, since
the same rule is an error in one header and the end of a list in another.

Repetition (`many`, `sepBy1`) is greedy and keeps what it has read when the next item does not
match. There are at most as many items as octets, which makes `many` total for every reader. For a
reader whose items take at least an octet, as all repeated items of the grammar do, the bound is
never met (`many_eq`). The octets themselves serve as the bound, so that nothing is counted.
-/

namespace SipProxy

/-- Takes a value off the front of the octets, or does not match. -/
abbrev Reader (α : Type) := Octets → Option (α × Octets)

/-- Passes over octets whose value is of no interest. -/
abbrev Skipper := Octets → Option Octets

namespace Reader

variable {α β : Type}

/-- The longest run of octets in a class, which may be empty. -/
def run (p : UInt8 → Bool) (s : Octets) : Octets × Octets := (s.takeWhile p, s.dropWhile p)

/-- A non-empty run of octets in a class, as long as possible. -/
def run1 (p : UInt8 → Bool) : Reader Octets := fun s =>
  match s with
  | b :: _ => if p b then some (run p s) else none
  | [] => none

/-- Exactly this octet. -/
def octet (b : UInt8) : Skipper
  | c :: s => if c = b then some s else none
  | [] => none

/-- The value if the reader matches, and nothing taken otherwise. -/
def optional (p : Reader α) (s : Octets) : Option α × Octets :=
  match p s with
  | some (a, s) => (some a, s)
  | none => (none, s)

/-- A reader behind something of no interest. -/
def after (skip : Skipper) (p : Reader α) : Reader α := fun s => (skip s).bind p

/-- As many values in a row as match, at most one for every octet of `room`. -/
def upTo (p : Reader α) : (room : Octets) → Octets → List α × Octets
  | [], s => ([], s)
  | _ :: room, s =>
    match p s with
    | some (a, s) =>
      let more := upTo p room s
      (a :: more.1, more.2)
    | none => ([], s)

/-- As many values in a row as match. -/
def many (p : Reader α) (s : Octets) : List α × Octets := upTo p s s

/-- One value or more with a separator between them. A separator that no value follows is not
taken. -/
def sepBy1 (sep : Skipper) (p : Reader α) : Reader (List α) := fun s =>
  match p s with
  | some (a, s) =>
    let more := many (after sep p) s
    some (a :: more.1, more.2)
  | none => none

/-- Does every value that the reader matches take at least an octet? -/
def Consumes (p : Reader α) : Prop := ∀ ⦃s a rest⦄, p s = some (a, rest) → rest.length < s.length

theorem upTo_eq_of_length_le {p : Reader α} (hp : p.Consumes) {room room' s : Octets}
    (h : s.length ≤ room.length) (h' : s.length ≤ room'.length) :
    upTo p room s = upTo p room' s := by
  induction room generalizing room' s with
  | nil =>
    cases room' with
    | nil => rfl
    | cons b room' =>
      cases hs : p s with
      | none => simp [upTo, hs]
      | some r =>
        have := hp hs
        simp only [List.length_nil] at h
        omega
  | cons b room ih =>
    cases hs : p s with
    | none => cases room' <;> simp [upTo, hs]
    | some r =>
      have := hp hs
      cases room' with
      | nil =>
        simp only [List.length_nil] at h'
        omega
      | cons b' room' =>
        simp only [List.length_cons] at h h'
        have hr : r.2.length ≤ room'.length := by omega
        simp only [upTo, hs, ih (s := r.2) (by omega) hr]

/-- What `many` reads, one item after another. -/
theorem many_eq {p : Reader α} (hp : p.Consumes) (s : Octets) :
    many p s = match p s with
      | some (a, rest) => (a :: (many p rest).1, (many p rest).2)
      | none => ([], s) := by
  cases s with
  | nil =>
    cases h : p [] with
    | none => simp [many, upTo]
    | some r =>
      have := hp h
      simp only [List.length_nil] at this
      omega
  | cons b s =>
    cases h : p (b :: s) with
    | none => simp [many, upTo, h]
    | some r =>
      have := hp h
      simp only [List.length_cons] at this
      simp only [many, upTo, h]
      rw [upTo_eq_of_length_le hp (s := r.2) (by omega) (Nat.le_refl _)]

end Reader

end SipProxy
