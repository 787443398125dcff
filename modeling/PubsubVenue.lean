import PubsubVenue.Machine
import PubsubVenue.Fallible
import PubsubVenue.Lease.Voter
import PubsubVenue.Lease.Holder
import PubsubVenue.Lease.Participant
import PubsubVenue.Lease.Pair
import PubsubVenue.Lease.Exclusion
import PubsubVenue.Lease.Epochs
import PubsubVenue.Lease.Agent
import PubsubVenue.Lease.PromiseKept
import PubsubVenue.Arbiter.ComponentVoters
import PubsubVenue.Arbiter.Thread
import PubsubVenue.Arbiter.StatementsOnDisk
import PubsubVenue.Arbiter.Role
import PubsubVenue.Arbiter.Pool
import PubsubVenue.Arbiter.PoolLease
import PubsubVenue.Arbiter.Effects
import PubsubVenue.Arbiter.ConfirmingAlone
import PubsubVenue.Bytes
import PubsubVenue.Wal.Entry
import PubsubVenue.Wal.Cursor
import PubsubVenue.Wal.Writer
import PubsubVenue.Wal.TornAppend
import PubsubVenue.Replication.EpochTable
import PubsubVenue.Replication.Repair
import PubsubVenue.Replication.Replica
import PubsubVenue.Lease.OwnEpoch
import PubsubVenue.Replication.Links
import PubsubVenue.Replication.Steps
import PubsubVenue.Replication.LogMatching
import PubsubVenue.Replication.Acknowledged
import PubsubVenue.Wal.Truncation
import PubsubVenue.Wal.TruncationCrash
import PubsubVenue.Gateway.InboundSequence
import PubsubVenue.Gateway.GapRecovery
import PubsubVenue.Room
import PubsubVenue.Sequencer.ReportStores
import PubsubVenue.Gateway.SeqNumRanges
import PubsubVenue.Sequencer.MemberSessions
import PubsubVenue.Sequencer.ReportForwarding
import PubsubVenue.Sequencer.ReportSteps
import PubsubVenue.Sequencer.ForwardedThrough
import PubsubVenue.Sequencer.EngineOrderRouting
import PubsubVenue.Container.IncrementalRehashMap
import PubsubVenue.Container.FiniteMap
import PubsubVenue.Container.EraseWhileIterating
import PubsubVenue.Pdu.Framing
import PubsubVenue.Queue.Fifo
import PubsubVenue.Codec.Encode
import PubsubVenue.Decoding
import PubsubVenue.Codec.Decode
import PubsubVenue.Codec.RoundTrip
import PubsubVenue.Codec.DecodingCost
import PubsubVenue.Codec.EmptyElements
import PubsubVenue.Gateway.ResendOrder
import PubsubVenue.Gateway.Throttle
import PubsubVenue.Container.MappedSlotStore
import PubsubVenue.Container.ValidMap
import PubsubVenue.Engine.OrderBook
import PubsubVenue.Engine.BookAndRegion
import PubsubVenue.Engine.Reports
import PubsubVenue.Engine.StateMachine
import PubsubVenue.Throwing
import PubsubVenue.Engine.Frames
import PubsubVenue.Engine.LearnedVoids
import PubsubVenue.Engine.LiveAndCatchUp
import PubsubVenue.Engine.ExactlyOnce
import PubsubVenue.Arbiter.VotersNeverGoBack
import PubsubVenue.Wal.ScanStart
import PubsubVenue.Fix.Stream
import PubsubVenue.Fix.FieldWalk
import PubsubVenue.Fix.CivilDate
import PubsubVenue.Fix.PerfectHash
