import SockMyPort.Library.Runs
import SockMyPort.Library.Bytes
import SockMyPort.Library.Slots
import SockMyPort.Library.Wire
import SockMyPort.Library.Chains
import SockMyPort.Library.Fuel
import SockMyPort.Library.History
import SockMyPort.Commons.Strings
import SockMyPort.Commons.Collections
import SockMyPort.Protocolo.Protocolo
import SockMyPort.Libs.Serializador
import SockMyPort.Libs.ChunkFields
import SockMyPort.Instancia.Globals
import SockMyPort.Instancia.Dumper
import SockMyPort.Instancia.State
import SockMyPort.Instancia.EntryTable
import SockMyPort.Instancia.Storage
import SockMyPort.Instancia.Algorithms
import SockMyPort.Instancia.Compactation
import SockMyPort.Instancia.Instancia
import SockMyPort.Instancia.Layout
import SockMyPort.Instancia.Search
import SockMyPort.Instancia.Placement
import SockMyPort.Instancia.Eviction
import SockMyPort.Instancia.StatusTable
import SockMyPort.Instancia.Packing
import SockMyPort.Instancia.StoreMap
import SockMyPort.Instancia.SetAnswer
import SockMyPort.Instancia.Coherence
import SockMyPort.Instancia.AgeOrder
import SockMyPort.Instancia.Recency
import SockMyPort.Instancia.AtomicSlots
import SockMyPort.Instancia.LeastRecentlySet
import SockMyPort.Instancia.CompactRecency
import SockMyPort.Instancia.Clock
import SockMyPort.Instancia.Biggest
import SockMyPort.Instancia.MinimalEviction
import SockMyPort.Instancia.FirstFit
import SockMyPort.Instancia.CompactLayout
import SockMyPort.Instancia.Recovery
import SockMyPort.Instancia.PlacementAgreement
import SockMyPort.Instancia.Refusal
import SockMyPort.Library.Dispatcher
import SockMyPort.Library.Partition
import SockMyPort.Library.Handover
import SockMyPort.Library.Ownership
import SockMyPort.Library.Turns
import SockMyPort.Planificador.State
import SockMyPort.Planificador.Planificador
import SockMyPort.Planificador.Main
import SockMyPort.Planificador.Frame
import SockMyPort.Planificador.SingleExecution
import SockMyPort.Planificador.Operations
import SockMyPort.Planificador.QueuePartition
import SockMyPort.Planificador.Unlock
import SockMyPort.Planificador.Ownership
import SockMyPort.Planificador.Waiters
import SockMyPort.Sistema.Esi
import SockMyPort.Sistema.Sistema
import SockMyPort.Sistema.Conversation
import SockMyPort.Sistema.Invariant
import SockMyPort.Sistema.Locks
import SockMyPort.Sistema.Statements
import SockMyPort.Sistema.Progress
import SockMyPort.Coordinador.Tables
import SockMyPort.Coordinador.Distribution
import SockMyPort.Coordinador.Requests
import SockMyPort.Coordinador.Retries
import SockMyPort.Coordinador.InstanceMessages
import SockMyPort.Instancia.CoordinatorApi
import SockMyPort.Sistema.EsiWire
import SockMyPort.Sistema.WireAgreement
import SockMyPort.Sistema.KeyStatus
import SockMyPort.Planificador.Deadlock
import SockMyPort.Planificador.DeadlockSearch
import SockMyPort.Planificador.DeadlockReport
import SockMyPort.Sistema.SchedulerLine
import SockMyPort.Planificador.Mutex
import SockMyPort.Sistema.PendingProtocol
import SockMyPort.Sistema.OwnAnswers
import SockMyPort.Sistema.Delivery
import SockMyPort.Sistema.StatusQueries
import SockMyPort.Library.Channel
import SockMyPort.Sistema.InstanceConnections
import SockMyPort.Sistema.InstanceNodes
import SockMyPort.Sistema.InstanceDialogue
import SockMyPort.Sistema.InstanceConversations
import SockMyPort.Sistema.InstanceRuns
import SockMyPort.Sistema.ConfigurationFirst
import SockMyPort.Sistema.ReplyPairing
import SockMyPort.Planificador.Reschedule
import SockMyPort.Libs.EncodersAgree
import SockMyPort.Library.Memory
import SockMyPort.Libs.PackageLoad
import SockMyPort.Planificador.TruncatedMessages
import SockMyPort.Coordinador.RoundRobin
import SockMyPort.Library.Handles
import SockMyPort.Instancia.DumpRecovery
import SockMyPort.Instancia.Descriptors
import SockMyPort.Instancia.EvictionFiles
import SockMyPort.Planificador.BlockByConsole
import SockMyPort.Planificador.ConsoleRequests
import SockMyPort.Planificador.Removal
import SockMyPort.Planificador.PendingKills
import SockMyPort.Planificador.DeadlockLookups
import SockMyPort.Planificador.DeadlockSafety
import SockMyPort.Library.WriteBack
import SockMyPort.Instancia.Files
import SockMyPort.Instancia.WriteBack
import SockMyPort.Instancia.TurnStore
import SockMyPort.Instancia.Lifetimes
import SockMyPort.Instancia.CrashRecovery
import SockMyPort.Instancia.LiveMemory
import SockMyPort.Library.ServiceOrder
import SockMyPort.Planificador.ReadyLine
import SockMyPort.Almacen.Almacen
import SockMyPort.Almacen.Places
import SockMyPort.Almacen.Answers
import SockMyPort.Almacen.Values
import SockMyPort.Almacen.Durability
import SockMyPort.Library.BurstHistory
import SockMyPort.Planificador.Bursts
import SockMyPort.Planificador.ShortestFirst
import SockMyPort.Planificador.EstimationBounds
