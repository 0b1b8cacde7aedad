import Balancer.Endpoint
import Balancer.Table

/-!
# The registry

A registry knows the endpoints of services and answers lookups from memory.

* `Balancer.Listing` – what a lookup returns: endpoint lists of services.
* `Balancer.Registry.list` – **the lists of the services asked for**, in the order of the
  question; a service that the registry does not know is left out.
-/

namespace Balancer

/-- **What a lookup returns**: the endpoints of services. -/
abbrev Listing := Table (List Endpoint)

/-- The endpoints that a registry holds, by service. -/
abbrev Registry := Table (List Endpoint)

/-- **The lists of the services asked for.** -/
def Registry.list (registry : Registry) (services : List String) : Listing :=
  Table.ofList (services.filterMap fun service =>
    (registry.get? service).map fun endpoints => (service, endpoints))

end Balancer
