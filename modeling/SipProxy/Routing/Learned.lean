import SipProxy.Table
import SipProxy.Transport.Protocol

/-!
# Learned routes

Where a host was seen last: the listening point that received the last message from it or through
it. Hosts are compared without regard to letter case, and nothing is ever forgotten.
-/

namespace SipProxy

/-- Listening points by host in lower case. -/
abbrev LearnedRoutes := Table String ListeningPoint

namespace LearnedRoutes

/-- Notes that a host was seen at a listening point. -/
def learn (host : String) (point : ListeningPoint) (routes : LearnedRoutes) : LearnedRoutes :=
  routes.put host.toLower point

/-- Where a host was seen last. -/
def seenAt? (routes : LearnedRoutes) (host : String) : Option ListeningPoint :=
  routes.find? host.toLower

theorem seenAt?_learn (host other : String) (point : ListeningPoint) (routes : LearnedRoutes) :
    (learn host point routes).seenAt? other =
      if other.toLower = host.toLower then some point else routes.seenAt? other :=
  Table.find?_put ..

end LearnedRoutes

end SipProxy
