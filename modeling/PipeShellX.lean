import PipeShellX.Cli.CanaryCount
import PipeShellX.Cli.DiffCommand
import PipeShellX.Cli.HostsRuns
import PipeShellX.Cli.NodeCommand
import PipeShellX.Cli.PipeCommand
import PipeShellX.Cli.Revocations
import PipeShellX.Cli.RunNativeLines
import PipeShellX.Inventory.ClientManagerRuns
import PipeShellX.Inventory.ClientOrder
import PipeShellX.Inventory.ClientRoundTrip
import PipeShellX.Inventory.LegacyImport
import PipeShellX.Inventory.LegacySecrets
import PipeShellX.Inventory.Regroup
import PipeShellX.Os.AtomicRewrite
import PipeShellX.Os.ChildExits
import PipeShellX.Os.SpawnHandles
import PipeShellX.Pipeline.DagRunnerRuns
import PipeShellX.Pipeline.DistributedFlow
import PipeShellX.Pipeline.DistributedOutcome
import PipeShellX.Pipeline.FanInRuns
import PipeShellX.Pipeline.LocalRunnerRuns
import PipeShellX.Pipeline.ParserRoundTrip
import PipeShellX.Pipeline.PlanOrder
import PipeShellX.Pipeline.RealExits
import PipeShellX.Pipeline.SegmentedFences
import PipeShellX.Pipeline.YamlRoundTrip
import PipeShellX.Policy.Enforcement
import PipeShellX.Process.Retries
import PipeShellX.Process.StopReasons
import PipeShellX.Runtime.Backoff
import PipeShellX.Runtime.ReactorTimers
import PipeShellX.Sink.ConsensusSink
import PipeShellX.Sink.JsonRecords
import PipeShellX.Sink.OrderedSink
import PipeShellX.Ssh.Arguments
import PipeShellX.Ssh.Quoting
import PipeShellX.Stream.LineFramer
import PipeShellX.Stream.SpoolFailures
import PipeShellX.Stream.ZeroCopy
import PipeShellX.Transport.Backplane
import PipeShellX.Transport.CanaryController
import PipeShellX.Transport.FrameChunks
import PipeShellX.Transport.Lease
import PipeShellX.Transport.NativeResults
import PipeShellX.Transport.NativeRun
import PipeShellX.Transport.NodeServer
import PipeShellX.Transport.NodeStageRuns
import PipeShellX.Transport.SessionDrain
import PipeShellX.Transport.SessionOpen
import PipeShellX.Transport.SessionQueue
import PipeShellX.Transport.SessionWakeups
