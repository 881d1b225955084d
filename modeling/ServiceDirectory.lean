import ServiceDirectory.Archive.Channel
import ServiceDirectory.Backend.Client
import ServiceDirectory.Main
import ServiceDirectory.Push.Line
import ServiceDirectory.Push.Listen
import ServiceDirectory.Simulation.Disk
import ServiceDirectory.Simulation.Timeline
import ServiceDirectory.Proofs.Acknowledgements
import ServiceDirectory.Proofs.Alike
import ServiceDirectory.Proofs.BatchLookups
import ServiceDirectory.Proofs.ByteOrder
import ServiceDirectory.Proofs.CanonicalClusters
import ServiceDirectory.Proofs.Coherence
import ServiceDirectory.Proofs.DamagedRows
import ServiceDirectory.Proofs.Documents
import ServiceDirectory.Proofs.DueEntries
import ServiceDirectory.Proofs.Forms
import ServiceDirectory.Proofs.HostChanges
import ServiceDirectory.Proofs.HostPermutations
import ServiceDirectory.Proofs.Independence
import ServiceDirectory.Proofs.Interface
import ServiceDirectory.Proofs.KeptHosts
import ServiceDirectory.Proofs.LastWrites
import ServiceDirectory.Proofs.LinearOrder
import ServiceDirectory.Proofs.Lookups
import ServiceDirectory.Proofs.Notifications
import ServiceDirectory.Proofs.Outage
import ServiceDirectory.Proofs.Overdue
import ServiceDirectory.Proofs.Permits
import ServiceDirectory.Proofs.PublishedView
import ServiceDirectory.Proofs.Redelivery
import ServiceDirectory.Proofs.RenderedKeys
import ServiceDirectory.Proofs.Replies
import ServiceDirectory.Proofs.Requests
import ServiceDirectory.Proofs.Restart
import ServiceDirectory.Proofs.Routes
import ServiceDirectory.Proofs.Stamps
import ServiceDirectory.Proofs.Trials
import ServiceDirectory.Proofs.Turns
import ServiceDirectory.Proofs.Verdicts
