import Balancer.Main
import Balancer.Proofs.Bits
import Balancer.Proofs.Identity
import Balancer.Proofs.Session.Closing
import Balancer.Proofs.Session.Electing
import Balancer.Proofs.Session.Listening
import Balancer.Proofs.Session.Notices
import Balancer.Proofs.Session.Overlap
import Balancer.Proofs.Session.Schedule
import Balancer.Proofs.Session.Errands
import Balancer.Proofs.Session.Deeds
import Balancer.Proofs.Session.Changes
import Balancer.Proofs.Session.Rounds
import Balancer.Proofs.Session.Rebinding
import Balancer.Proofs.Session.Backlog
import Balancer.Proofs.Session.Starting
import Balancer.Proofs.Session.Uneventful
import Balancer.Proofs.Session.Founding
import Balancer.Proofs.Ratio
import Balancer.Proofs.Session.Renewal
import Balancer.Proofs.Session.Configuration
import Balancer.Proofs.Divisors
import Balancer.Proofs.Stamp
import Balancer.Proofs.Session.Padding
import Balancer.Proofs.Demonstration
