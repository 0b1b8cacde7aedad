import Balancer.Number.Text

/-!
# Endpoints

An endpoint is one addressable instance of a service, a host and a port.

* `Balancer.Endpoint.key` – **the target that an endpoint stands for**, `host:port`.
* `Balancer.Endpoint.sameList` – whether two endpoint lists agree place by place; a
  reordered list is another list.
-/

namespace Balancer

/-- **An endpoint of a service.** -/
structure Endpoint where
  /-- The name or address of the host. -/
  host : String
  /-- The port, any number. -/
  port : Binary64
  deriving DecidableEq

namespace Endpoint

/-- **The target of an endpoint.** -/
def key (e : Endpoint) : String := e.host ++ ":" ++ e.port.text

/-- Whether two endpoints agree in host and port; ports agree as numbers do. -/
def same (a b : Endpoint) : Bool := a.host == b.host && a.port.same b.port

/-- **Whether two endpoint lists agree** in length and place by place. -/
def sameList : List Endpoint → List Endpoint → Bool
  | [], [] => true
  | a :: as, b :: bs => a.same b && sameList as bs
  | _, _ => false

/-- An endpoint list as a log line shows it. -/
def listText (es : List Endpoint) : String :=
  "[" ++ String.intercalate ", " (es.map key) ++ "]"

end Endpoint

end Balancer
