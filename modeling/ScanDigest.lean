import ScanDigest.Event.Step
import ScanDigest.Main
import ScanDigest.Proofs.KeyByKey
import ScanDigest.Proofs.PolicyRun
import ScanDigest.Proofs.NetChange
import ScanDigest.Proofs.Publication
import ScanDigest.Proofs.Keys
import ScanDigest.Proofs.Grouping
import ScanDigest.Proofs.Verdicts
import ScanDigest.Proofs.ClosedForm
import ScanDigest.Proofs.Reordering
import ScanDigest.Proofs.Guards
import ScanDigest.Proofs.Applied
import ScanDigest.Proofs.Chronology
import ScanDigest.Proofs.Nameless
import ScanDigest.Proofs.Categories
import ScanDigest.Proofs.Inquiries
import ScanDigest.Proofs.Conservation
import ScanDigest.Proofs.Provenance
import ScanDigest.Proofs.Scalars
import ScanDigest.Proofs.Documents
import ScanDigest.Proofs.Denotation
import ScanDigest.Proofs.Meaning
import ScanDigest.Proofs.Structures
import ScanDigest.Proofs.Records
import ScanDigest.Proofs.RecordFiles
import ScanDigest.Proofs.Lookahead
import ScanDigest.Proofs.Items
import ScanDigest.Proofs.Passing
import ScanDigest.Proofs.RecordTexts
import ScanDigest.Proofs.Formats
import ScanDigest.Proofs.Canonical
import ScanDigest.Proofs.Fingerprints
import ScanDigest.Proofs.ExitStatus
import ScanDigest.Proofs.Indented
import ScanDigest.Proofs.BatchSize
import ScanDigest.Proofs.SelfVerification
import ScanDigest.Proofs.IdStates
import ScanDigest.Proofs.Interchange
import ScanDigest.Proofs.CsvRows
import ScanDigest.Proofs.EventOrder
import ScanDigest.Proofs.RecordShapes
import ScanDigest.Proofs.Footprints
import ScanDigest.Proofs.Tables
import ScanDigest.Proofs.CodecTexts
import ScanDigest.Proofs.RoundTrips
import ScanDigest.Proofs.Redating
import ScanDigest.Proofs.AggregateSets
import ScanDigest.Proofs.NormalForm
import ScanDigest.Proofs.Transparency
import ScanDigest.Proofs.StoreHistory
