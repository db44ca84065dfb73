import DycoCoroutine.RunInvariant
import DycoCoroutine.KeyedSet
import DycoCoroutine.EventFd
import DycoCoroutine.ScheduleState
import DycoCoroutine.ScheduleOps
import DycoCoroutine.ScheduleRun
import DycoCoroutine.CoroutineStanding
import DycoCoroutine.ScheduleControl
import DycoCoroutine.ScheduleEffect
import DycoCoroutine.CoroutineHops
import DycoCoroutine.ScheduleAbort
import DycoCoroutine.ReadyQueues
import DycoCoroutine.QueueOrder
import DycoCoroutine.QueueService
import DycoCoroutine.StopRun
import DycoCoroutine.SleepTree
import DycoCoroutine.WakeupSources
import DycoCoroutine.EpollRegistration
import DycoCoroutine.HalfDuplexChannel
import DycoCoroutine.ChannelWakeups
import DycoCoroutine.ChannelClose
import DycoCoroutine.Semaphore
import DycoCoroutine.SemaphoreFairness
import DycoCoroutine.SemaphoreDestroy
import DycoCoroutine.PubsubChannel
import DycoCoroutine.PubsubDelivery
import DycoCoroutine.PubsubClose
import DycoCoroutine.PubsubNotify
import DycoCoroutine.Waitgroup
import DycoCoroutine.WaitgroupLists
import DycoCoroutine.WaitgroupCompletion
import DycoCoroutine.CoroutinePool
import DycoCoroutine.PoolOwnership
import DycoCoroutine.PoolPops
import DycoCoroutine.PoolWaiters
import DycoCoroutine.PoolHandover
import DycoCoroutine.CoroutineCount
import DycoCoroutine.AsymmetricNesting
import DycoCoroutine.SharedStack
import DycoCoroutine.SignalMask
import DycoCoroutine.KeyedEntries
import DycoCoroutine.HashTable
import DycoCoroutine.HashTableMap
import DycoCoroutine.ChainedTable
import DycoCoroutine.ResizeOrder
import DycoCoroutine.TableAllocation
import DycoCoroutine.InsertAtomicity
import DycoCoroutine.CoroutineRegistry
import DycoCoroutine.PoolClients
import DycoCoroutine.RegistryPools
import DycoCoroutine.SchedulePools
import DycoCoroutine.RegistryContents
import DycoCoroutine.KillRemoval
import DycoCoroutine.AbortRelease
import DycoCoroutine.AbortedTables
import DycoCoroutine.CidValues
import DycoCoroutine.SleepDeadline
import DycoCoroutine.SleepCollision
import DycoCoroutine.EventShuffle
import DycoCoroutine.SendLoop
import DycoCoroutine.SslTransfer
import DycoCoroutine.MultiplexHooks
import DycoCoroutine.StackOwnership
import DycoCoroutine.PoolStacks
import DycoCoroutine.RedBlackTree
import DycoCoroutine.LinkedTree
import DycoCoroutine.SysTree
import DycoCoroutine.SysTreeSearch
import DycoCoroutine.SysTreeInsert
import DycoCoroutine.SysTreeRemove
import DycoCoroutine.SysTreeCalls
import DycoCoroutine.LinkedQueue
import DycoCoroutine.SysQueue
import DycoCoroutine.Simulation
import DycoCoroutine.ContainerNeutral
import DycoCoroutine.LinkedSchedule
import DycoCoroutine.LinkedRefinement
import DycoCoroutine.QueueReinsertion
import DycoCoroutine.PollTimeout
import DycoCoroutine.DescriptorEntry
import DycoCoroutine.ClosedDescriptor
import DycoCoroutine.NotifyWait
import DycoCoroutine.SemaphoreSchedule
