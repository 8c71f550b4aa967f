import Kdna.Data.Bytes
import Kdna.Data.Utf8
import Kdna.Data.Fallible
import Kdna.Data.Tiling
import Kdna.Data.Runs
import Kdna.Data.Upsert
import Kdna.Data.Delimited
import Kdna.Data.Loop
import Kdna.Data.Worklist
import Kdna.Data.Reorder
import Kdna.Data.Utf16
import Kdna.Data.Binary64
import Kdna.Data.Decimal
import Kdna.Data.ShortestDigits
import Kdna.Data.Utf8Order
import Kdna.StrictInput
import Kdna.Container.Parse
import Kdna.Container.Writer
import Kdna.Container.RoundTrip
import Kdna.Container.Unambiguous
import Kdna.Container.Listing
import Kdna.Container.Capture
import Kdna.Container.CaptureLoops
import Kdna.Container.CaptureExact
import Kdna.Json.Value
import Kdna.Json.Text
import Kdna.Json.StringLiteral
import Kdna.Json.NumberLiteral
import Kdna.Json.Marks
import Kdna.Json.Copy
import Kdna.Json.Grammar
import Kdna.Json.Parse
import Kdna.Json.ParseExact
import Kdna.Json.Printed
import Kdna.Json.Canonical
import Kdna.Json.CanonicalInjective
import Kdna.Json.Access
import Kdna.Json.Charge
import Kdna.Json.Quick
import Kdna.Json.Members
import Kdna.Cbor.Encoding
import Kdna.Cbor.Decode
import Kdna.Cbor.Walk
import Kdna.Cbor.Exact
import Kdna.Sections.Scan
import Kdna.Sections.ScanRefines
import Kdna.Ir.Registry
import Kdna.Ir.Closure
import Kdna.Ir.Link
import Kdna.Ir.Canonical
import Kdna.Ir.Owned
import Kdna.Ir.Nodes
import Kdna.Ir.Admission
import Kdna.Ir.Reconstruct
import Kdna.Ir.AssetValue
import Kdna.Ir.Collect
import Kdna.Ir.ReconstructExact
import Kdna.Read.Request
import Kdna.Read.HostGate
import Kdna.Ir.Identity
import Kdna.Ir.StableId
import Kdna.Ir.ClosureExact
import Kdna.Read.SelectedContext
import Kdna.Read.Project
import Kdna.Read.Pipeline
import Kdna.Read.Size
import Kdna.Read.Budget
import Kdna.Read.Transport
import Kdna.Read.Disclosure
import Kdna.Read.Lifecycle
import Kdna.Protection.Operation
import Kdna.Protection.Freshness
import Kdna.Protection.Revocation
import Kdna.Protection.HighWater
import Kdna.Protection.EnvelopeCodec
import Kdna.Protection.EnvelopeCanonical
import Kdna.Protection.EnvelopeExact
import Kdna.Protection.Binding
import Kdna.Retained.Plan
import Kdna.Retained.Graph
import Kdna.Retained.Issued
import Kdna.Retained.Alike
import Kdna.Retained.Rejection
import Kdna.Python.Values
import Kdna.Python.Canonical
import Kdna.Packages.Capture
import Kdna.Packages.Admission
import Kdna.Packages.OrderFree
import Kdna.Packages.Admitted
import Kdna.Packages.OwnHost
import Kdna.Packages.NativeRead
import Kdna.Packages.NamedFailures
import Kdna.Digest.Preimage
import Kdna.Digest.Injective
import Kdna.Execution.AtMostOnce
import Kdna.Data.EventLoop
import Kdna.ProtectedRead.Runs
import Kdna.Source.Successes
import Kdna.Container.Ranges
import Kdna.Container.Resolution
import Kdna.Plans.EmissionLists
import Kdna.Assay.Verdict
import Kdna.Contract.Reader
import Kdna.Catalog.ParentClosure
import Kdna.Catalog.ReplacementCycles
import Kdna.Shapes.Compatible
import Kdna.Shapes.Bindings
import Kdna.Input.Agreement
import Kdna.Digest.Streaming
import Kdna.Sections.MetadataCodec
import Kdna.Json.HeapExact
import Kdna.Sections.Converges
import Kdna.Assay.Replay
import Kdna.Assay.Merging
import Kdna.Assay.Promotion
import Kdna.Read.Omissions
import Kdna.Packages.Clock
import Kdna.Protection.Base64
import Kdna.Protection.WrapBuffers
import Kdna.Components.Taxonomy
import Kdna.Contract.RoundTrip
import Kdna.Json.Memo
import Kdna.Python.Agreement
import Kdna.Data.Chunks
import Kdna.Sections.Packs
import Kdna.Sections.Frames
import Kdna.Sections.WrittenFrames
import Kdna.Sections.WrittenLayout
import Kdna.Sections.WholeFrames
import Kdna.Data.OrderedTree
import Kdna.Data.Visit
import Kdna.Planning.Payload
import Kdna.Planning.Check
import Kdna.Planning.Tree
import Kdna.Planning.Placement
import Kdna.Planning.Edges
import Kdna.Planning.Schedule
import Kdna.Planning.Methods
import Kdna.Data.StatePass
import Kdna.Ir.Semantics
import Kdna.Ir.Supply
