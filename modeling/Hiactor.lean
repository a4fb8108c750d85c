import Hiactor.Lib.Run
import Hiactor.Lib.LifeTree
import Hiactor.Lib.Ledger
import Hiactor.Lib.Segments
import Hiactor.Lib.Pipeline
import Hiactor.Lib.Reservation
import Hiactor.Lib.Heap
import Hiactor.Lib.ReadyTree
import Hiactor.Lib.Cells
import Hiactor.Lib.Sharing
import Hiactor.Lib.Termination
import Hiactor.Lib.Totals
import Hiactor.Core.PromiseManager
import Hiactor.Core.Proofs.PromiseTable
import Hiactor.Core.Request
import Hiactor.Core.Proofs.Request
import Hiactor.Core.Address
import Hiactor.Core.Proofs.Address
import Hiactor.Core.Channel
import Hiactor.Core.Proofs.Channel
import Hiactor.Core.Pollfn
import Hiactor.Core.Proofs.Pollfn
import Hiactor.Core.Shard
import Hiactor.Core.Orphans
import Hiactor.Core.Flow
import Hiactor.Core.Proofs.ShardSteps
import Hiactor.Core.Proofs.ShardTree
import Hiactor.Core.Proofs.ShardLog
import Hiactor.Core.Proofs.ShardRouting
import Hiactor.Core.Proofs.ShardScopes
import Hiactor.Core.Proofs.Scheduling
import Hiactor.Core.Proofs.Shutdown
import Hiactor.Core.Proofs.Orphans
import Hiactor.Core.Proofs.Flow
import Hiactor.Core.Proofs.ShardFlow
import Hiactor.Core.Proofs.StepFlow
import Hiactor.Core.Proofs.Answers
import Hiactor.Core.Proofs.MessageLife
import Hiactor.Core.Proofs.ShardMoves
import Hiactor.Core.Proofs.MailOrder
import Hiactor.Core.Proofs.MessageOrigin
import Hiactor.Core.Sleepers
import Hiactor.Core.Proofs.Sleepers
import Hiactor.Core.Machine
import Hiactor.Core.Proofs.MachineMail
import Hiactor.Core.Proofs.MachineAccounts
import Hiactor.Core.Proofs.MachineRuns
import Hiactor.Core.Proofs.MachineOrder
import Hiactor.Core.Proofs.MachineShards
import Hiactor.Core.Proofs.Stopping
import Hiactor.Core.Proofs.Exit
import Hiactor.Core.Coordinator
import Hiactor.Core.ThreadPool
import Hiactor.Core.Proofs.ThreadPool
import Hiactor.Core.Timer
import Hiactor.Core.Proofs.ShardFrames
import Hiactor.Core.Proofs.Timer
import Hiactor.Core.Proofs.ShardTouches
import Hiactor.Core.Proofs.Wakeups
import Hiactor.Core.Proofs.Workload
import Hiactor.Core.Proofs.Turns
import Hiactor.Core.Proofs.Quiescence
import Hiactor.Core.Proofs.MachineRest
import Hiactor.Core.Proofs.MachineReturns
import Hiactor.Core.Proofs.MachineAnswers
import Hiactor.Core.Proofs.Reentrancy
import Hiactor.Core.Proofs.ForcedStop
import Hiactor.Core.TaskQueue
import Hiactor.Core.Proofs.TaskQueue
import Hiactor.Core.Scope
import Hiactor.Core.Proofs.Scope
import Hiactor.Core.Proofs.Coordinator
import Hiactor.Lib.WorkLine
import Hiactor.Core.CoordinatorWorker
import Hiactor.Core.Proofs.CoordinatorWorker
import Hiactor.Core.Proofs.CoordinatorItems
import Hiactor.Core.DynamicQueue
import Hiactor.Core.Proofs.DynamicQueue
import Hiactor.Core.ColumnBatch
import Hiactor.Core.Proofs.ColumnBatch
import Hiactor.Core.Proofs.ColumnGrowth
import Hiactor.Core.SharedBatch
import Hiactor.Core.Proofs.SharedBatch
import Hiactor.Core.ByteColumn
import Hiactor.Core.Proofs.ByteColumn
import Hiactor.Core.GpuPool
import Hiactor.Core.Proofs.GpuPool
import Hiactor.Net.Cluster
import Hiactor.Net.Proofs.Cluster
import Hiactor.Net.RoutingTable
import Hiactor.Net.Proofs.RoutingTable
import Hiactor.Net.Proofs.RoundRobin
import Hiactor.Net.Peers
import Hiactor.Net.Proofs.Peers
import Hiactor.Net.SerializableQueue
import Hiactor.Net.Proofs.SerializableQueue
import Hiactor.Net.Proofs.QueueRuns
import Hiactor.Net.Proofs.QueueMoves
import Hiactor.Net.Wire
import Hiactor.Net.Proofs.Wire
import Hiactor.Net.Delivery
import Hiactor.Net.Proofs.Connection
import Hiactor.Net.Proofs.Routes
import Hiactor.Net.Proofs.Delivery
import Hiactor.Net.Response
import Hiactor.Net.Proofs.Response
import Hiactor.Net.DataType
import Hiactor.Net.Proofs.DataType
import Hiactor.Codegen.Generator
import Hiactor.Codegen.Proofs.Dispatch
import Hiactor.Core.Proofs.RequestEnds
