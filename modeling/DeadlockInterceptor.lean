import DeadlockInterceptor.Lemmas.WaitEdges
import DeadlockInterceptor.Lemmas.TargetDeadlock
import DeadlockInterceptor.Lemmas.IterationOrder
import DeadlockInterceptor.Lemmas.GroupCycles
import DeadlockInterceptor.Impl.Resolution
import DeadlockInterceptor.Lemmas.Victims
import DeadlockInterceptor.Lemmas.InvalidIterator
import DeadlockInterceptor.Lemmas.Release
import DeadlockInterceptor.Lemmas.MonitoringFlag
import DeadlockInterceptor.Lemmas.Ownership
import DeadlockInterceptor.Lemmas.Commutation
import DeadlockInterceptor.Lemmas.CycleBirth
import DeadlockInterceptor.Lemmas.VictimTraces
import DeadlockInterceptor.Lemmas.FutexQueues
import DeadlockInterceptor.Lemmas.GroupReports
import DeadlockInterceptor.Lemmas.GroupResolutions
import DeadlockInterceptor.Impl.Main
import DeadlockInterceptor.Impl.PidUses
import DeadlockInterceptor.Lemmas.ForcedUnlocks
import DeadlockInterceptor.Lemmas.PidUses
import DeadlockInterceptor.Lemmas.Pass
import DeadlockInterceptor.Lemmas.SyscallStops
import DeadlockInterceptor.Lemmas.Recurrence
import DeadlockInterceptor.Lemmas.LockStats
import DeadlockInterceptor.Spec.BitsetVariants
import DeadlockInterceptor.Lemmas.BitsetCalls
import DeadlockInterceptor.Lemmas.TidRoundTrip
import DeadlockInterceptor.Lemmas.DfsCorrectness
import DeadlockInterceptor.Lemmas.InvolvedLocks
import DeadlockInterceptor.Graph.FirstPath
import DeadlockInterceptor.Lemmas.LargestCycle
import DeadlockInterceptor.Lemmas.GroupCycleCorrectness
import DeadlockInterceptor.Lemmas.GroupClasses
import DeadlockInterceptor.Lemmas.GroupPartition
import DeadlockInterceptor.Lemmas.ExpandCycle
import DeadlockInterceptor.Lemmas.ReportParts
import DeadlockInterceptor.Lemmas.CoveredWaits
import DeadlockInterceptor.Impl.Analysis
import DeadlockInterceptor.Lemmas.LockDependencyGraph
import DeadlockInterceptor.Lemmas.PotentialScenarios
import DeadlockInterceptor.Lemmas.ParentCleanUp
import DeadlockInterceptor.Lemmas.UnlockEffects
import DeadlockInterceptor.Lemmas.UnlockNeighbors
import DeadlockInterceptor.Lemmas.PrivateFutexes
import DeadlockInterceptor.Graph.Rounds
import DeadlockInterceptor.Lemmas.StandingDeadlock
import DeadlockInterceptor.Lemmas.UnlockAttempts
import DeadlockInterceptor.Impl.Resume
import DeadlockInterceptor.Lemmas.SignalDelivery
import DeadlockInterceptor.Bytes.LittleEndian
import DeadlockInterceptor.Bytes.Window
import DeadlockInterceptor.Impl.ProcessMemory
import DeadlockInterceptor.Lemmas.ProcessMemory
import DeadlockInterceptor.Bytes.Align
import DeadlockInterceptor.Impl.PrivateMemory
import DeadlockInterceptor.Lemmas.FaultHandler
import DeadlockInterceptor.Impl.Cleanup
import DeadlockInterceptor.Lemmas.Cleanup
import DeadlockInterceptor.Impl.Backoff
import DeadlockInterceptor.Lemmas.Backoff
import DeadlockInterceptor.Lemmas.TrackedAddresses
import DeadlockInterceptor.Lemmas.UserSpace
import DeadlockInterceptor.Impl.Tracing
import DeadlockInterceptor.Impl.TracingResolution
import DeadlockInterceptor.Lemmas.Tracing
import DeadlockInterceptor.Lemmas.Observing
import DeadlockInterceptor.Lemmas.Records
import DeadlockInterceptor.Lemmas.WrittenBytes
import DeadlockInterceptor.Lemmas.LockTallies
import DeadlockInterceptor.Impl.ProcFiles
import DeadlockInterceptor.Spec.ThreadStatus
import DeadlockInterceptor.Lemmas.ProcFiles
import DeadlockInterceptor.Lemmas.SeenRings
import DeadlockInterceptor.Impl.ProcessMaps
import DeadlockInterceptor.Lemmas.ProcessMaps
import DeadlockInterceptor.Lemmas.TracingRoutines
import DeadlockInterceptor.Lemmas.Detaching
import DeadlockInterceptor.Lemmas.Reattaching
import DeadlockInterceptor.Lemmas.Reattach
import DeadlockInterceptor.Lemmas.TracingRuns
