import Whyrun.Library.ByteText
import Whyrun.Library.JsonObject
import Whyrun.Library.LexicalPath
import Whyrun.Library.DirectoryTree
import Whyrun.Library.NameSearch
import Whyrun.Library.Relational
import Whyrun.Library.ShellWords
import Whyrun.Library.Spans
import Whyrun.Library.TableDiff
import Whyrun.Library.Traces
import Whyrun.Library.Transactions
import Whyrun.Library.Transducer
import Whyrun.Model.Event
import Whyrun.Model.Session
import Whyrun.Model.ExecutionState
import Whyrun.Model.SqliteStore
import Whyrun.Model.Syscalls
import Whyrun.Model.TraceeMemory
import Whyrun.Model.PtraceCollector
import Whyrun.Model.RecordCommand
import Whyrun.Model.Show
import Whyrun.Model.Diff
import Whyrun.Model.CapsuleFile
import Whyrun.Model.Main
import Whyrun.Execution.Effect
import Whyrun.Execution.Lifecycle
import Whyrun.Execution.Runs
import Whyrun.Execution.TaskTree
import Whyrun.Execution.Attribution
import Whyrun.Execution.Census
import Whyrun.Execution.Commutation
import Whyrun.Execution.DeliveryOrder
import Whyrun.Execution.StartTime
import Whyrun.Execution.Calls
import Whyrun.Execution.RenamedTids
import Whyrun.Execution.ReusedPids
import Whyrun.Execution.Isolation
import Whyrun.Execution.Lifetimes
import Whyrun.Execution.Relabelled
import Whyrun.Execution.SameExecution
import Whyrun.Naming.SocketNames
import Whyrun.Naming.ConnectEvents
import Whyrun.Naming.ResolvedPaths
import Whyrun.Naming.PathRoutes
import Whyrun.Naming.CanonicalPaths
import Whyrun.Kernel.ChannelAliases
import Whyrun.Kernel.MemoryReads
import Whyrun.Kernel.Descriptors
import Whyrun.Kernel.CloseOnExec
import Whyrun.Kernel.DescriptorTracking
import Whyrun.Kernel.ExecTracking
import Whyrun.Kernel.SyscallStops
import Whyrun.Kernel.Turns
import Whyrun.Kernel.Vanishing
import Whyrun.Kernel.Survival
import Whyrun.Kernel.SyscallPairing
import Whyrun.Kernel.ThreadedCalls
import Whyrun.Kernel.Creation
import Whyrun.Kernel.LiveTasks
import Whyrun.Kernel.Signals
import Whyrun.Kernel.Duplication
import Whyrun.Kernel.Files
import Whyrun.Kernel.FileTracking
import Whyrun.Storage.Writer
import Whyrun.Storage.Aggregation
import Whyrun.Storage.Commands
import Whyrun.Storage.Recording
import Whyrun.Storage.CommandText
import Whyrun.Storage.MetadataText
import Whyrun.Storage.CommandLife
import Whyrun.Storage.CommandMode
import Whyrun.Storage.CommandTimeline
import Whyrun.Storage.CommandViews
import Whyrun.Storage.ProcessTable
import Whyrun.Storage.ProcessCounts
import Whyrun.Storage.Publication
import Whyrun.Storage.DiffSections
import Whyrun.Storage.AllOrNothing
import Whyrun.Storage.FileTotals
import Whyrun.Storage.Replay
import Whyrun.Storage.ProcessTimeline
import Whyrun.Storage.RepeatedRuns
import Whyrun.Storage.QuietDiff
import Whyrun.Session.Decoder
import Whyrun.Session.Pipeline
import Whyrun.Session.Acceptance
import Whyrun.Session.Agreement
import Whyrun.Session.Format
import Whyrun.Session.Transcript
import Whyrun.Session.Collected
import Whyrun.Session.Recorded
import Whyrun.Session.References
import Whyrun.Session.CommandLine
import Whyrun.Session.MarkerOrder
