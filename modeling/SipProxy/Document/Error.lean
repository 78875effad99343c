import SipProxy.Document.Basic
import SipProxy.ProxyError

/-!
# Faults as documents

A fault is written as the name of its cause and its message. The outcome of an operation that can
fail is written as its value or as the fault in its place.
-/

namespace SipProxy

/-- The document form of a fault. -/
def Document.fault (name message : String) : Document :=
  record [("error", text name), ("message", text message)]

instance : ToDocument SipError := ⟨fun e => .fault e.name e.message⟩
instance : ToDocument TransportError := ⟨fun e => .fault e.name e.message⟩
instance : ToDocument ProxyError := ⟨fun e => .fault e.name e.message⟩

instance {ε α : Type} [ToDocument ε] [ToDocument α] : ToDocument (Except ε α) where
  document
    | .ok a => document a
    | .error e => document e

end SipProxy
