import BuildMetrics.Api.Server
import BuildMetrics.Main
import BuildMetrics.Proofs.Trace.Edges
import BuildMetrics.Proofs.Trace.Worklist
import BuildMetrics.Sink.Memory
import BuildMetrics.Proofs.Trace.Walk
import BuildMetrics.Proofs.Trace.Growth
import BuildMetrics.Proofs.Trace.Region
import BuildMetrics.Proofs.Trace.Matching
import BuildMetrics.Proofs.Trace.Pairing
import BuildMetrics.Proofs.Trace.Nested
import BuildMetrics.Proofs.Trace.Parts
import BuildMetrics.Proofs.Trace.Cut
import BuildMetrics.Proofs.Config
import BuildMetrics.Proofs.Report.Template
import BuildMetrics.Proofs.Report.Scopes
import BuildMetrics.Proofs.Record.Line
import BuildMetrics.Proofs.Tags
import BuildMetrics.Proofs.Tags.Admission
import BuildMetrics.Proofs.Tags.History
import BuildMetrics.Proofs.Report.Tags
import BuildMetrics.Proofs.Report.Parameters
import BuildMetrics.Proofs.Sink.Calls
import BuildMetrics.Proofs.Report.Delivery
import BuildMetrics.Proofs.Sink.Ledger
import BuildMetrics.Proofs.Service.Lifecycle
import BuildMetrics.Proofs.Report.Rearranged
import BuildMetrics.Proofs.Report.Names
import BuildMetrics.Proofs.Report.Alike
import BuildMetrics.Proofs.Report.Keys
import BuildMetrics.Proofs.Text.FormEncoding
import BuildMetrics.Proofs.Name.Clean
import BuildMetrics.Proofs.Name.Fields
import BuildMetrics.Proofs.Api.Failure
import BuildMetrics.Proofs.Api.Encoded
import BuildMetrics.Proofs.Codecs
import BuildMetrics.Proofs.Record.Framed
import BuildMetrics.Proofs.Sink.Requests
import BuildMetrics.Proofs.Sink.Writer
import BuildMetrics.Proofs.Sink.Proxy
import BuildMetrics.Proofs.Report.Requested
import BuildMetrics.Proofs.Config.Stable
import BuildMetrics.Proofs.Api.InForce
import BuildMetrics.Proofs.Command.Send
