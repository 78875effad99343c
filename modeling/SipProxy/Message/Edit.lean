import SipProxy.Message.Basic

/-!
# Changing messages

What a proxy reads and changes in a message. Reading a header keeps its value in the slot, so a
question about a message can change the message, and a change can fail half-way. Every operation
here therefore gives back its outcome together with the message as it then stands, on failure too.

The Via lines of a message are one stack of entries written on several lines, and so are its Route
lines; an operation on the top touches the first line only and removes the line with its last entry.
-/

namespace SipProxy.Message

/-- The first header of the kind read into its value, `none` if there is no such header. -/
def typed (k : HeaderKind) (m : Message) : Except SipError (Option k.Value) × Message :=
  match Headers.cut k.name m.headers with
  | some (before, h, after) =>
    let r := h.memoise k
    (r.1.map some, { m with headers := before ++ r.2 :: after })
  | none => (.ok none, m)

/-- Changes the value of the first header of the kind; gives the new value. -/
def modify (k : HeaderKind) (f : k.Value → k.Value) (m : Message) :
    Except SipError (Option k.Value) × Message :=
  match Headers.cut k.name m.headers with
  | some (before, h, after) =>
    match h.memoise k with
    | (.ok v, h) => (.ok (some (f v)), { m with headers := before ++ h.put k (f v) :: after })
    | (.error e, h) => (.error e, { m with headers := before ++ h :: after })
  | none => (.ok none, m)

/-- Takes the first entry off the first header of a kind whose value is a list. -/
def pop {α : Type} (k : HeaderKind) (view : k.Value → List α) (make : List α → k.Value)
    (m : Message) : Except SipError α × Message :=
  match Headers.cut k.name m.headers with
  | some (before, h, after) =>
    match h.memoise k with
    | (.ok v, h) =>
      match view v with
      | [] => (.error (.noEntry k.name.text), { m with headers := before ++ h :: after })
      | [entry] => (.ok entry, { m with headers := before ++ after })
      | entry :: entries =>
        (.ok entry, { m with headers := before ++ h.put k (make entries) :: after })
    | (.error e, h) => (.error e, { m with headers := before ++ h :: after })
  | none => (.error (.noEntry k.name.text), m)

/-! ## Via -/

/-- The topmost Via entry. -/
def topVia (m : Message) : Except SipError (Option ViaEntry) × Message :=
  let r := m.typed .via
  (r.1.map fun v => v.bind List.head?, r.2)

def popVia (m : Message) : Except SipError ViaEntry × Message := m.pop .via id id

/-- Puts an entry on top, on a line of its own. -/
def pushVia (entry : ViaEntry) (m : Message) : Message :=
  { m with headers := m.headers.insertAt m.headers.viaPosition (.ofValue .via [entry]) }

/-- All Via entries, the topmost first. -/
def viaEntries (m : Message) : Except SipError (List ViaEntry) × Message :=
  let r := m.headers.viaEntries
  (r.1, { m with headers := r.2 })

/-- Changes the topmost Via entry. -/
def modifyTopVia (f : ViaEntry → ViaEntry) (m : Message) :
    Except SipError (Option ViaEntry) × Message :=
  let r := m.modify .via fun entries =>
    match entries with
    | entry :: entries => f entry :: entries
    | [] => []
  (r.1.map fun v => v.bind List.head?, r.2)

/-- Notes in the topmost Via entry of a request where the request came from. -/
def noteSource (source : Endpoint) (m : Message) : Except SipError Unit × Message :=
  if m.isRequest then
    let r := m.modifyTopVia (·.noteSource source)
    (r.1.map fun _ => (), r.2)
  else (.ok (), m)

/-! ## Route and Record-Route -/

def topRoute (m : Message) : Except SipError (Option RouteEntry) × Message :=
  let r := m.typed .route
  (r.1.map fun v => v.bind List.head?, r.2)

def popRoute (m : Message) : Except SipError RouteEntry × Message := m.pop .route id id

/-- Puts an entry in front of all Record-Route entries, on a line of its own. -/
def pushRecordRoute (entry : RouteEntry) (m : Message) : Message :=
  { m with headers :=
      m.headers.insertAt m.headers.recordRoutePosition (.ofValue .recordRoute [entry]) }

end SipProxy.Message
