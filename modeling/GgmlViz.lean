import GgmlViz.Foundation.LittleEndian
import GgmlViz.Foundation.RecordStream
import GgmlViz.Foundation.RingWindow
import GgmlViz.Foundation.Transition
import GgmlViz.Trace.Event
import GgmlViz.Trace.Format
import GgmlViz.Trace.Reader
import GgmlViz.Trace.RecordLoop
import GgmlViz.Trace.RoundTrip
import GgmlViz.Trace.PartialFiles
import GgmlViz.Config.Config
import GgmlViz.Hook.State
import GgmlViz.Hook.Recorder
import GgmlViz.Hook.Session
import GgmlViz.Hook.Intercept
import GgmlViz.Hook.AutoStart
import GgmlViz.Foundation.StdSort
import GgmlViz.Trace.OpTimings
import GgmlViz.Hook.EndToEnd
import GgmlViz.Concurrent.Machine
import GgmlViz.Concurrent.RecordingThread
import GgmlViz.Concurrent.FlushingThread
import GgmlViz.Concurrent.Consumer
import GgmlViz.Concurrent.SingleProducer
import GgmlViz.Concurrent.TwoDrains
import GgmlViz.Concurrent.ManyProducers
import GgmlViz.Concurrent.StartRace
import GgmlViz.Concurrent.Solo
import GgmlViz.Ipc.SharedRing
import GgmlViz.Ipc.RingMachine
import GgmlViz.Ipc.RingInvariant
import GgmlViz.Ipc.SingleReader
import GgmlViz.Ipc.ManyReaders
import GgmlViz.Ipc.RingCalls
import GgmlViz.Ipc.RingSizes
import GgmlViz.Foundation.Recent
import GgmlViz.Live.LiveData
import GgmlViz.Live.LiveSteps
import GgmlViz.Live.Following
import GgmlViz.Live.GrowingFile
import GgmlViz.Live.RecreatedFile
import GgmlViz.Live.LabelPool
import GgmlViz.Config.Json
import GgmlViz.Config.Fields
import GgmlViz.Config.Document
import GgmlViz.Config.JsonRoundTrip
import GgmlViz.Foundation.Layers
import GgmlViz.Config.Environment
import GgmlViz.Config.Manager
import GgmlViz.Config.Loading
import GgmlViz.Config.Precedence
import GgmlViz.Foundation.Grouping
import GgmlViz.Config.MergeMonoid
import GgmlViz.Hook.Override
import GgmlViz.Hook.Interpose
import GgmlViz.Hook.Progress
import GgmlViz.Hook.Offers
import GgmlViz.Hook.Platforms
import GgmlViz.Hook.DisableSwitch
import GgmlViz.Foundation.Keyed
import GgmlViz.Trace.Memory
import GgmlViz.Trace.MemoryUsage
import GgmlViz.Trace.OpMatching
import GgmlViz.Trace.OpIntervals
import GgmlViz.Trace.Header
import GgmlViz.Config.Integers
import GgmlViz.Ipc.OpenedRegion
import GgmlViz.Foundation.Promise
import GgmlViz.Ipc.CheckThenAct
import GgmlViz.Hook.Labels
import GgmlViz.Foundation.JsonText
import GgmlViz.Foundation.EventStream
import GgmlViz.Server.StreamedEvent
import GgmlViz.Foundation.Fifo
import GgmlViz.Server.StreamQueue
import GgmlViz.Concurrent.SignalHandler
import GgmlViz.Foundation.LongestPath
import GgmlViz.Frontend.GraphNodes
import GgmlViz.Frontend.GraphLayers
import GgmlViz.Frontend.GraphWidget
import GgmlViz.Foundation.LeadingRun
import GgmlViz.Hook.RingLog
import GgmlViz.Hook.TimestampDrain
import GgmlViz.Foundation.FirstSeen
import GgmlViz.Frontend.TimelineWidget
import GgmlViz.Server.LiveServer
import GgmlViz.Frontend.LoadTrace
import GgmlViz.Frontend.App
import GgmlViz.Frontend.AppRuns
import GgmlViz.Frontend.Selection
import GgmlViz.Server.Delivery
import GgmlViz.Server.Lifecycle
import GgmlViz.Foundation.Nesting
import GgmlViz.Hook.NestedCalls
import GgmlViz.Hook.NestedTimings
import GgmlViz.Trace.Queries
import GgmlViz.Hook.NestedMemory
import GgmlViz.Foundation.Getopt
import GgmlViz.Startup.CommandLine
import GgmlViz.Startup.Logger
import GgmlViz.Startup.Launch
import GgmlViz.Live.WatchedProgram
import GgmlViz.Concurrent.InterruptedTrace
import GgmlViz.Foundation.Heap
import GgmlViz.Trace.HeapReport
import GgmlViz.Hook.ExportedCalls
import GgmlViz.Foundation.Http
import GgmlViz.Server.ClientView
import GgmlViz.Foundation.NameTable
import GgmlViz.Ipc.NamedRegions
import GgmlViz.Ipc.WindowsRegions
