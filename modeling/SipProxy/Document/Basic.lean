/-!
# Documents

Configurations are written in JSON (RFC 8259), and so are messages and decisions wherever a program
other than a SIP peer is to read them. A document is the value that such a text spells.

A number with a fraction or an exponent stays as it was written and is no integer even if it has an
integral value, and so is `-0`; nothing that is read from a document here is such a number. The
fields of a record stay in order, and of two fields with one name the last counts.

`ToDocument` and `OfDocument` connect a type with its document form. A structure is written as a
record of its fields and read from that or from the list of its fields' values in their order. A
choice is written as a record of one field, named for the case; a case that holds nothing is its
name, and is read from a record too, in which it holds null.
-/

namespace SipProxy

inductive Document where
  | null
  | bool (b : Bool)
  | integer (n : Int)
  /-- A number that is not written as an integer. -/
  | real (digits : String)
  | text (s : String)
  | list (items : List Document)
  | record (fields : List (String × Document))
deriving Repr

/-- A type with a document form. -/
class ToDocument (α : Type) where
  document : α → Document

export ToDocument (document)

/-- A type that is read from documents; `none` says that a document has another shape. -/
class OfDocument (α : Type) where
  ofDocument? : Document → Option α

export OfDocument (ofDocument?)

/-! ## Plain values -/

instance : ToDocument Document := ⟨id⟩
instance : ToDocument String := ⟨.text⟩
instance : ToDocument Bool := ⟨.bool⟩
instance : ToDocument Nat := ⟨fun n => .integer n⟩
instance : ToDocument UInt8 := ⟨fun n => .integer n.toNat⟩
instance : ToDocument UInt16 := ⟨fun n => .integer n.toNat⟩
instance : ToDocument UInt32 := ⟨fun n => .integer n.toNat⟩

/-- A list is a list of documents. -/
instance {α : Type} [ToDocument α] : ToDocument (List α) := ⟨fun xs => .list (xs.map document)⟩

/-- An absent value is null. -/
instance {α : Type} [ToDocument α] : ToDocument (Option α) where
  document
    | some a => document a
    | none => .null

namespace Document

/-- A number from 0 to below the bound. -/
def below? (bound : Nat) : Document → Option Nat
  | integer (.ofNat n) => if n < bound then some n else none
  | _ => none

end Document

instance : OfDocument Document := ⟨some⟩

instance : OfDocument String where
  ofDocument?
    | .text s => some s
    | _ => none

instance : OfDocument Bool where
  ofDocument?
    | .bool b => some b
    | _ => none

instance : OfDocument UInt8 := ⟨fun d => (d.below? UInt8.size).map UInt8.ofNat⟩
instance : OfDocument UInt16 := ⟨fun d => (d.below? UInt16.size).map UInt16.ofNat⟩
instance : OfDocument UInt32 := ⟨fun d => (d.below? UInt32.size).map UInt32.ofNat⟩

instance {α : Type} [OfDocument α] : OfDocument (List α) where
  ofDocument?
    | .list items => items.mapM ofDocument?
    | _ => none

instance {α : Type} [OfDocument α] : OfDocument (Option α) where
  ofDocument?
    | .null => some none
    | d => (ofDocument? d).map some

/-! ## Structures -/

/-- The fields of a structure in a document, by name. -/
abbrev Fields := String → Option Document

namespace Document

/-- The last field of the name. -/
def field? (name : String) : Document → Option Document
  | record fields => (fields.reverse.find? fun f => f.1 == name).map Prod.snd
  | _ => none

/-- The fields of a structure whose fields have these names in this order. A list may end early. -/
def someFields? (names : List String) : Document → Option Fields
  | record fields => some fun name => (record fields).field? name
  | list items =>
    if items.length ≤ names.length then some fun name => items[names.idxOf name]? else none
  | _ => none

/-- The fields of a structure whose fields have these names in this order. A list has to hold them
all, even those that may be missing from a record. -/
def fields? (names : List String) (d : Document) : Option Fields :=
  match d with
  | list items => if items.length = names.length then d.someFields? names else none
  | d => d.someFields? names

/-! ## Choices -/

/-- A choice that holds a value. -/
def choice {α : Type} [ToDocument α] (name : String) (a : α) : Document :=
  record [(name, document a)]

/-- What the record of a choice holds, if it is the choice of this name. -/
def held? (name : String) : Document → Option Document
  | record fields => if fields.all (·.1 == name) then (record fields).field? name else none
  | _ => none

/-- The value of a choice. -/
def chosen? {α : Type} [OfDocument α] (name : String) (d : Document) : Option α :=
  (d.held? name).bind ofDocument?

/-- Is the document the choice of this name, which holds nothing? -/
def isBare (name : String) : Document → Bool
  | text s => s == name
  | d => (d.held? name) matches some null

end Document

namespace Fields

variable {α : Type} [OfDocument α]

/-- A field that has to be there. -/
def get? (fs : Fields) (name : String) : Option α := (fs name).bind ofDocument?

/-- A field with a default. -/
def getOr? (fs : Fields) (name : String) (default : α) : Option α :=
  match fs name with
  | some d => ofDocument? d
  | none => some default

end Fields

end SipProxy
