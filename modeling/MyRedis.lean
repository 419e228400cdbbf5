import MyRedis.Foundation.ByteString
import MyRedis.Foundation.TextLines
import MyRedis.Foundation.Loops
import MyRedis.Foundation.SetMap
import MyRedis.Foundation.TimedMap
import MyRedis.Foundation.TimedSimulation
import MyRedis.Foundation.Codec
import MyRedis.Foundation.ByteOrder
import MyRedis.Foundation.PartialReads
import MyRedis.Foundation.Crc
import MyRedis.Foundation.FileProgram
import MyRedis.Foundation.Packets
import MyRedis.Foundation.StreamDecoder
import MyRedis.Foundation.Trace
import MyRedis.Foundation.Simulation
import MyRedis.Foundation.SharedMutex
import MyRedis.Foundation.CriticalSections
import MyRedis.Foundation.Linearizability
import MyRedis.Foundation.Footprint
import MyRedis.Foundation.Sampling
import MyRedis.Foundation.CheckedInt
import MyRedis.Foundation.Deque
import MyRedis.Foundation.Indexing
import MyRedis.Foundation.IntegerText
import MyRedis.Database.Basic
import MyRedis.Database.Cell
import MyRedis.Database.Invariant
import MyRedis.Database.Live
import MyRedis.Database.Effect
import MyRedis.Database.Readings
import MyRedis.Database.Commuting
import MyRedis.Database.Deleting
import MyRedis.Database.Slicing
import MyRedis.Database.Refinement
import MyRedis.Database.ActiveExpiry
import MyRedis.Database.Queues
import MyRedis.Resp.Parse
import MyRedis.Resp.Serialize
import MyRedis.Resp.Encoding
import MyRedis.Resp.Framing
import MyRedis.Resp.Kinds
import MyRedis.Resp.Totality
import MyRedis.Resp.Inline
import MyRedis.Resp.Finality
import MyRedis.Resp.Indexed
import MyRedis.Resp.InlineLines
import MyRedis.Client.Reader
import MyRedis.Client.Values
import MyRedis.Client.Buffer
import MyRedis.Persistence.Basic
import MyRedis.Config.Basic
import MyRedis.Config.Format
import MyRedis.Persistence.RoundTrip
import MyRedis.Persistence.Format
import MyRedis.Persistence.Checksum
import MyRedis.Persistence.Damage
import MyRedis.Persistence.Saving
import MyRedis.Persistence.Loading
import MyRedis.Persistence.LoadedState
import MyRedis.Persistence.Reachability
import MyRedis.Persistence.Restore
import MyRedis.Persistence.Lifetimes
import MyRedis.Persistence.TtlAnswers
import MyRedis.Persistence.Atomicity
import MyRedis.Persistence.ReportedSave
import MyRedis.Persistence.SavedFiles
import MyRedis.PubSub.Basic
import MyRedis.PubSub.Index
import MyRedis.PubSub.Calls
import MyRedis.PubSub.Sending
import MyRedis.Protocol.Framing
import MyRedis.PubSub.Delivery
import MyRedis.Commands.Handlers
import MyRedis.Commands.Responses
import MyRedis.Commands.NumberedTexts
import MyRedis.Client.Lengths
import MyRedis.Commands.Transactions
import MyRedis.Commands.ExecReplies
import MyRedis.Commands.Failures
import MyRedis.Commands.TypeErrors
import MyRedis.Commands.Integers
import MyRedis.Commands.SubscriptionMode
import MyRedis.Commands.Actions
import MyRedis.Commands.Subscriptions
import MyRedis.Commands.Plans
import MyRedis.Commands.System
import MyRedis.Commands.Isolation
import MyRedis.Commands.Watch
import MyRedis.Commands.OptimisticLocking
import MyRedis.Commands.FinishedTransactions
import MyRedis.Server.ReadLoop
import MyRedis.Server.Basic
import MyRedis.Server.LoopEnds
import MyRedis.Server.InlineStreams
import MyRedis.Server.ReplyFraming
import MyRedis.Server.ReplyLengths
import MyRedis.Server.Transactions
import MyRedis.Server.Values
import MyRedis.Server.Running
import MyRedis.Server.BufferBound
import MyRedis.Server.Connections
import MyRedis.Server.Streams
import MyRedis.Server.Dialogue
import MyRedis.Server.Pipelining
import MyRedis.Server.SingleReplies
import MyRedis.Server.Echoes
import MyRedis.Server.Gate
import MyRedis.Server.Channels
import MyRedis.Server.Refusals
import MyRedis.Server.Startup
import MyRedis.Client.Session
import MyRedis.Server.Storage
import MyRedis.Server.Lifecycle
import MyRedis.Server.Service
import MyRedis.Server.ServiceRefinement
import MyRedis.Server.Tenants
import MyRedis.Database.Sections
import MyRedis.Database.SectionEffects
import MyRedis.Database.Threads
import MyRedis.Database.ExpiryThread
