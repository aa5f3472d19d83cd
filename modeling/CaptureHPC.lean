import CaptureHPC.Proof.Attribution
import CaptureHPC.Proof.Verdict
import CaptureHPC.Proof.Interleave
import CaptureHPC.Proof.Retry
import CaptureHPC.Proof.Ownership
import CaptureHPC.Proof.Framing
import CaptureHPC.Proof.Echo
import CaptureHPC.Spec.EventController
import CaptureHPC.Spec.ClientXml
import CaptureHPC.Proof.Escape
import CaptureHPC.Proof.Trip
import CaptureHPC.Proof.ElementTrip
import CaptureHPC.Proof.Revert
import CaptureHPC.Proof.PoolPasses
import CaptureHPC.Proof.EventStream
import CaptureHPC.Proof.Resolve
import CaptureHPC.Proof.Pinged
import CaptureHPC.Proof.Visitor
import CaptureHPC.Proof.ProcessChannel
import CaptureHPC.Proof.TakeCalls
import CaptureHPC.Proof.ClientLocks
import CaptureHPC.Proof.Connections
import CaptureHPC.Proof.QueueMonitor
import CaptureHPC.Proof.ElementText
import CaptureHPC.Proof.FileUploader
import CaptureHPC.Proof.EventProgress
import CaptureHPC.Proof.ZippaCut
import CaptureHPC.Proof.Disconnect
import CaptureHPC.Proof.Download
import CaptureHPC.Proof.Base64
import CaptureHPC.Proof.FileError
import CaptureHPC.Proof.ClientFileReceiver
import CaptureHPC.Proof.UrlFactory
import CaptureHPC.Proof.UrlQueue
import CaptureHPC.Proof.RetryRule
import CaptureHPC.Proof.ProcessFirst
import CaptureHPC.Proof.StateChangeCsv
import CaptureHPC.Proof.ErrorCause
import CaptureHPC.Proof.UrlIntake
import CaptureHPC.Proof.Exclusions
import CaptureHPC.Proof.EscapedPaths
import CaptureHPC.Proof.DevicePaths
import CaptureHPC.Proof.ProcessManager
import CaptureHPC.Proof.GroupErrorCode
import CaptureHPC.Proof.LogDirectory
import CaptureHPC.Proof.CreateDirectories
import CaptureHPC.Proof.AnalyzerOptions
import CaptureHPC.Proof.Plugins
import CaptureHPC.Proof.ClientConfig
import CaptureHPC.Proof.ExclusionLists
import CaptureHPC.Proof.Readline
import CaptureHPC.Proof.Lineage
import CaptureHPC.Proof.Turns
import CaptureHPC.Proof.Duplicates
import CaptureHPC.Proof.Evidence
import CaptureHPC.Proof.Ledger
import CaptureHPC.Proof.StatCalls
import CaptureHPC.Proof.Upload
import CaptureHPC.Proof.Reports
import CaptureHPC.Proof.Slots
