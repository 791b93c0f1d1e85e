import Callwire.Directory
import Callwire.Discovery
import Callwire.Fleet
import Callwire.Proofs.Network.Failures
import Callwire.Service.Sample
import Callwire.Proofs.Streams
import Callwire.Proofs.Client.Shutdown
import Callwire.Proofs.Client.History
import Callwire.Proofs.Client.Settlement
import Callwire.Proofs.Connection.Isolation
import Callwire.Proofs.Parcels
import Callwire.Proofs.Writer
import Callwire.Proofs.Client.Queueing
import Callwire.Proofs.Client.Ownership
import Callwire.Proofs.Handshake
import Callwire.Proofs.Server.Chronicle
import Callwire.Proofs.Connection.Handlers
import Callwire.Proofs.Server.Permits
import Callwire.Proofs.Server.Totals
import Callwire.Proofs.Network.Crowd
import Callwire.Proofs.Dispatch
import Callwire.Proofs.Discovery
import Callwire.Proofs.Fleet.Broadcasts
import Callwire.Proofs.Budgets
import Callwire.Proofs.Server.Deadlines
import Callwire.Proofs.Network.Tunnels
import Callwire.Proofs.Turns
import Callwire.Proofs.Server.Counters
import Callwire.Proofs.Client.Unsendable
import Callwire.Proofs.Headers
import Callwire.Proofs.Lines
import Callwire.Proofs.Addresses
import Callwire.Proofs.Listings
