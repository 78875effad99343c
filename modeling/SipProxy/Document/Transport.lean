import SipProxy.Document.Basic
import SipProxy.Transport.Hop

/-!
# Hops and listening points as documents
-/

namespace SipProxy

open Document (record)

instance : ToDocument Protocol where
  document
    | .udp => .text "Udp"
    | .tcp => .text "Tcp"
    | .tls => .text "Tls"

instance : ToDocument Hop where
  document h := record [("protocol", document h.protocol), ("host", document h.host),
    ("port", document h.port)]

instance : ToDocument ListeningPoint where
  document l := record [("protocol", document l.protocol),
    ("local_addr", document l.address.text)]

end SipProxy
