import TimedHttp.Server.Bind
import TimedHttp.Server.Connection
import TimedHttp.Server.Lifecycle
import TimedHttp.Proofs.Passes
import TimedHttp.Proofs.Quiet
import TimedHttp.Proofs.Samples
import TimedHttp.Proofs.MeasuredOnce
import TimedHttp.Proofs.OpenSamples
import TimedHttp.Proofs.Transparency
import TimedHttp.Proofs.EarlyResults
import TimedHttp.Proofs.FinalOutcome
import TimedHttp.Proofs.Calls
import TimedHttp.Proofs.ErrorEscape
import TimedHttp.Proofs.PassCount
import TimedHttp.Proofs.Reference
import TimedHttp.Proofs.ClientView
import TimedHttp.Proofs.CleanStop
import TimedHttp.Proofs.WorkOrder
import TimedHttp.Proofs.RaisedStatus
import TimedHttp.Proofs.Dealings
import TimedHttp.Proofs.Summaries
import TimedHttp.Proofs.Aggregates
import TimedHttp.Proofs.Overflow
import TimedHttp.Proofs.Stopping
import TimedHttp.Proofs.DeferredFailures
import TimedHttp.Proofs.Conservation
import TimedHttp.Proofs.AbsoluteForm
import TimedHttp.Proofs.Wrapping
import TimedHttp.Proofs.HostNames
import TimedHttp.Proofs.SharedMeasurement
import TimedHttp.Proofs.Cookies
import TimedHttp.Proofs.RouteNames
import TimedHttp.Proofs.RouteSearch
import TimedHttp.Proofs.PathParameters
import TimedHttp.Proofs.TagPrivacy
import TimedHttp.Proofs.TargetPaths
import TimedHttp.Proofs.HeaderFields
import TimedHttp.Proofs.Averages
import TimedHttp.Proofs.ErrorClasses
import TimedHttp.Proofs.Registrations
import TimedHttp.Proofs.Nesting
import TimedHttp.Proofs.ByteOrder
import TimedHttp.Proofs.TagSets
