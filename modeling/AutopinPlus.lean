import AutopinPlus.SortedSet
import AutopinPlus.PartialStep
import AutopinPlus.Error
import AutopinPlus.Configuration
import AutopinPlus.CpuInfo
import AutopinPlus.SysFiles
import AutopinPlus.CpuSetup
import AutopinPlus.OSServices
import AutopinPlus.PerformanceMonitor
import AutopinPlus.ProcessTree
import AutopinPlus.ControlStrategy
import AutopinPlus.StrategyStep
import AutopinPlus.SlotTable
import AutopinPlus.PinningTable
import AutopinPlus.ScatterRange
import AutopinPlus.MonitoredTasks
import AutopinPlus.Polling
import AutopinPlus.Worklist
import AutopinPlus.ObservedProcess
import AutopinPlus.Watchdogs
import AutopinPlus.FirstBest
import AutopinPlus.Autopin1
import AutopinPlus.Autopin1Stage
import AutopinPlus.Autopin1Monitor
import AutopinPlus.Autopin1Search
import AutopinPlus.GPerfCounters
import AutopinPlus.EnergyLedger
import AutopinPlus.ScatterBalance
import AutopinPlus.IdleCpu
import AutopinPlus.Placement
import AutopinPlus.SelfPinning
import AutopinPlus.Autopin1Round
import AutopinPlus.Autopin1Batch
import AutopinPlus.WatchdogRun
import AutopinPlus.WatchdogReady
import AutopinPlus.ProcessSignals
import AutopinPlus.CommChannel
import AutopinPlus.SignalDispatcher
import AutopinPlus.TraceThread
import AutopinPlus.TaskSignals
import AutopinPlus.TidReuse
import AutopinPlus.ConfigurationLines
import AutopinPlus.KeyedFold
import AutopinPlus.ConfigurationTexts
import AutopinPlus.QtText
import AutopinPlus.StatFile
import AutopinPlus.ProcScan
import AutopinPlus.CommandLine
import AutopinPlus.Autopin1Average
import AutopinPlus.Autopin1Pinned
import AutopinPlus.FirstOccurrences
import AutopinPlus.OptionAlgebra
import AutopinPlus.MonitorNames
import AutopinPlus.PerfEventAttr
import AutopinPlus.Sensor
import AutopinPlus.SensorSettings
import AutopinPlus.BitFields
import AutopinPlus.CpuRanges
import AutopinPlus.SensorSelectors
import AutopinPlus.PinningSchedule
import AutopinPlus.AutopinSetup
import AutopinPlus.GPerfAtomic
import AutopinPlus.ClustSafeOutlets
import AutopinPlus.ProcessLookup
import AutopinPlus.SensorFit
import AutopinPlus.BulkStop
import AutopinPlus.RingBuffer
import AutopinPlus.SampleRing
import AutopinPlus.SampleRecords
import AutopinPlus.SampleReader
import AutopinPlus.Histogram
import AutopinPlus.SampleProcessing
import AutopinPlus.Tally
import AutopinPlus.SampleStatistics
import AutopinPlus.PageMigration
import AutopinPlus.CoreMapping
import AutopinPlus.MigrationControl
import AutopinPlus.SpmThreads
import AutopinPlus.CommSockets
import AutopinPlus.CommDescriptors
import AutopinPlus.CommAddresses
import AutopinPlus.TracerIsolation
