import InferenceLedger.Foundation.ReadProgram
import InferenceLedger.Foundation.Binary64
import InferenceLedger.Foundation.History
import InferenceLedger.Foundation.Chunks
import InferenceLedger.Foundation.Crc
import InferenceLedger.Foundation.WordSums
import InferenceLedger.Foundation.Gauge
import InferenceLedger.Foundation.WordDifferences
import InferenceLedger.Foundation.Numerals
import InferenceLedger.Foundation.SingleChanges
import InferenceLedger.Foundation.Progress
import InferenceLedger.Record.Identity
import InferenceLedger.Record.IdentityText
import InferenceLedger.Record.Entry
import InferenceLedger.Record.Mixer
import InferenceLedger.Ledger.History
import InferenceLedger.Ledger.DerivedIds
import InferenceLedger.Codec.Bytes
import InferenceLedger.Codec.Entry
import InferenceLedger.Codec.Layout
import InferenceLedger.Codec.RoundTrip
import InferenceLedger.Codec.FrameBounds
import InferenceLedger.Codec.Accepted
import InferenceLedger.Codec.Oversize
import InferenceLedger.Accounting.Account
import InferenceLedger.Accounting.Attempts
import InferenceLedger.Accounting.Totals
import InferenceLedger.Accounting.Isolation
import InferenceLedger.Accounting.Outcome
import InferenceLedger.Accounting.Peaks
import InferenceLedger.Accounting.Latency
import InferenceLedger.Accounting.Units
import InferenceLedger.Accounting.Work
import InferenceLedger.Accounting.Query
import InferenceLedger.Accounting.Filtering
import InferenceLedger.Accounting.Grouping
import InferenceLedger.Accounting.Sharing
import InferenceLedger.Accounting.Batch
import InferenceLedger.Accounting.Pricing
import InferenceLedger.Accounting.PolicyFile
import InferenceLedger.Accounting.Billing
import InferenceLedger.Accounting.Signs
import InferenceLedger.Accounting.Counters
import InferenceLedger.Accounting.Delivery
import InferenceLedger.Accounting.Durations
import InferenceLedger.Accounting.Aggregates
import InferenceLedger.Accounting.Attribution
import InferenceLedger.Persistence.Store
import InferenceLedger.Persistence.Grammar
import InferenceLedger.Persistence.Frames
import InferenceLedger.Persistence.Recovery
import InferenceLedger.Persistence.Truncation
import InferenceLedger.Persistence.Writing
import InferenceLedger.Persistence.Replay
import InferenceLedger.Persistence.Resaving
import InferenceLedger.Persistence.Duplicates
import InferenceLedger.Persistence.Extension
import InferenceLedger.Persistence.Digests
import InferenceLedger.Distributed.Protocol
import InferenceLedger.Distributed.MessageBounds
import InferenceLedger.Distributed.MessageRoundTrip
import InferenceLedger.Distributed.Enumerators
import InferenceLedger.Distributed.Corruption
import InferenceLedger.Distributed.Coordinator
import InferenceLedger.Distributed.Refusals
import InferenceLedger.Distributed.Fencing
import InferenceLedger.Distributed.RequestScope
import InferenceLedger.Distributed.Supersession
import InferenceLedger.Distributed.Boots
import InferenceLedger.Distributed.Charging
import InferenceLedger.Distributed.Threads
import InferenceLedger.Distributed.PublicCalls
import InferenceLedger.Distributed.FrameLimits
import InferenceLedger.Distributed.Acknowledgements
import InferenceLedger.Distributed.Broadcast
import InferenceLedger.Distributed.Losses
import InferenceLedger.Distributed.LiveWorkers
import InferenceLedger.Distributed.Worker
import InferenceLedger.Distributed.Cluster
import InferenceLedger.Distributed.Desks
import InferenceLedger.Distributed.Conversations
import InferenceLedger.Distributed.Sessions
import InferenceLedger.Distributed.Completion
import InferenceLedger.Distributed.ScriptDelivery
import InferenceLedger.Distributed.Deployment
import InferenceLedger.Distributed.Arrivals
import InferenceLedger.Distributed.Undisturbed
import InferenceLedger.Distributed.Process
import InferenceLedger.Distributed.Shutdown
import InferenceLedger.Distributed.Stopping
import InferenceLedger.Accounting.Costs
import InferenceLedger.Distributed.Commands
import InferenceLedger.Foundation.Writers
import InferenceLedger.Distributed.Sending
