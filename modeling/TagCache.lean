import TagCache.Host.Station
import TagCache.Main
import TagCache.Proofs.Recount
import TagCache.Proofs.Session.Recovery
import TagCache.Proofs.Session.Verify
import TagCache.Proofs.Session.Soundness
import TagCache.Proofs.Entry.Update
import TagCache.Proofs.Store.Ledger
import TagCache.Proofs.Store.Refinement
import TagCache.Proofs.Session.Implicit
import TagCache.Proofs.Session.Completeness
import TagCache.Proofs.Session.Disjointness
import TagCache.Proofs.Session.Script
import TagCache.Proofs.Text.Lines
import TagCache.Proofs.Session.Limit
import TagCache.Proofs.Session.Trace
import TagCache.Proofs.Session.Correction
import TagCache.Proofs.Session.Course
import TagCache.Proofs.Session.Conservation
import TagCache.Proofs.Json.Parsed
import TagCache.Proofs.Session.Order
import TagCache.Proofs.Session.Erasure
import TagCache.Proofs.Entry.Tabulated
import TagCache.Proofs.Number.Rounding
import TagCache.Proofs.Number.Shortest
import TagCache.Proofs.Json.Float
import TagCache.Proofs.Json.Writable
import TagCache.Proofs.Entry.Reread
import TagCache.Proofs.Store.Partition
import TagCache.Proofs.Session.Overlay
import TagCache.Proofs.Session.Increment
import TagCache.Proofs.Session.Growth
import TagCache.Proofs.Session.Blocked
import TagCache.Proofs.Session.Index
import TagCache.Proofs.Snapshot.Ownership
import TagCache.Proofs.References
import TagCache.Proofs.Store.Atomic
import TagCache.Proofs.Session.Extras
import TagCache.Proofs.Snapshot.Format
import TagCache.Proofs.Session.Report
import TagCache.Proofs.Entry.Spelling
import TagCache.Proofs.Store.Schema
import TagCache.Proofs.Store.Overflow
import TagCache.Proofs.Segment
import TagCache.Proofs.Address
import TagCache.Proofs.Entry.Decoding
import TagCache.Proofs.Path
import TagCache.Proofs.Json.Pretty
import TagCache.Proofs.Host.Disk
import TagCache.Proofs.Host.Station
import TagCache.Proofs.Project.Layout
import TagCache.Proofs.Project.Load
import TagCache.Proofs.Project.Operate
import TagCache.Proofs.Project.History
