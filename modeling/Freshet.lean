import Freshet.Autopilot.AtMostOnce
import Freshet.Autopilot.Brief
import Freshet.Autopilot.Budget
import Freshet.Autopilot.Consumer
import Freshet.Autopilot.CurrentEvidence
import Freshet.Autopilot.Effects
import Freshet.Autopilot.FeedToEvidence
import Freshet.Autopilot.FollowupOrder
import Freshet.Autopilot.FollowupProtocol
import Freshet.Autopilot.Gathered
import Freshet.Autopilot.Incidents
import Freshet.Autopilot.Investigate
import Freshet.Autopilot.LeaseProtocol
import Freshet.Autopilot.MdHeading
import Freshet.Autopilot.Mrkdwn
import Freshet.Autopilot.Order
import Freshet.Autopilot.Owed
import Freshet.Autopilot.OwnEvidence
import Freshet.Autopilot.Quotes
import Freshet.Autopilot.Recurrence
import Freshet.Autopilot.Replay
import Freshet.Autopilot.Retried
import Freshet.Autopilot.RowEffect
import Freshet.Autopilot.RowHistory
import Freshet.Autopilot.SlackSink
import Freshet.Autopilot.ThreadAgent
import Freshet.Autopilot.ThreadFailure
import Freshet.Autopilot.ThreadMarker
import Freshet.Common.Heartbeat
import Freshet.Common.ResilientConnection
import Freshet.Common.SteadyRun
import Freshet.Db.DedupeReidentified
import Freshet.Db.Init
import Freshet.Db.LegacySafe
import Freshet.Db.LegacySteps
import Freshet.Eval.Benchmark
import Freshet.Eval.Freshness
import Freshet.Eval.LiveRetrieval
import Freshet.Eval.Scored
import Freshet.Ingest.Backoff
import Freshet.Ingest.BadEntry
import Freshet.Ingest.Blocks
import Freshet.Ingest.ComponentFlip
import Freshet.Ingest.Countdown
import Freshet.Ingest.Delivery
import Freshet.Ingest.Entries
import Freshet.Ingest.Identity
import Freshet.Ingest.Markup
import Freshet.Ingest.OldestFirst
import Freshet.Ingest.ParseWhen
import Freshet.Ingest.Poller
import Freshet.Ingest.Rendering
import Freshet.Ingest.Sources
import Freshet.Ingest.Statuspage
import Freshet.Kafka.BufferedProducer
import Freshet.Kafka.CleanExit
import Freshet.Kafka.Commits
import Freshet.Kafka.ConsumeLoop
import Freshet.Kafka.Deliveries
import Freshet.Kafka.ProduceSync
import Freshet.Kafka.ProducingHandlers
import Freshet.Kafka.Progress
import Freshet.Lib.Calendar
import Freshet.Lib.Dict
import Freshet.Lib.DoubledMarks
import Freshet.Lib.Fallible
import Freshet.Lib.Gaps
import Freshet.Lib.Html
import Freshet.Lib.Interleave
import Freshet.Lib.Interpret
import Freshet.Lib.Json
import Freshet.Lib.KeepFirst
import Freshet.Lib.Limit
import Freshet.Lib.Numbering
import Freshet.Lib.Pool
import Freshet.Lib.Prog
import Freshet.Lib.PyText
import Freshet.Lib.Regex
import Freshet.Lib.Residue
import Freshet.Lib.Restart
import Freshet.Lib.Retry
import Freshet.Lib.Rows
import Freshet.Lib.StableSort
import Freshet.Lib.Summary
import Freshet.Lib.Table
import Freshet.Lib.Topic
import Freshet.Lib.Turns
import Freshet.Lib.Words
import Freshet.Ops.CrashStreak
import Freshet.Ops.IndexReady
import Freshet.Ops.Supervisor
import Freshet.Ops.Uptime
import Freshet.Pipeline.Chunking
import Freshet.Pipeline.Converges
import Freshet.Pipeline.Deadletter
import Freshet.Pipeline.Embedder
import Freshet.Pipeline.EveryLife
import Freshet.Pipeline.Index
import Freshet.Pipeline.IndexStats
import Freshet.Pipeline.Keys
import Freshet.Pipeline.LastWrite
import Freshet.Pipeline.Lossless
import Freshet.Pipeline.OneOutcome
import Freshet.Pipeline.OneStamp
import Freshet.Pipeline.OverConnection
import Freshet.Pipeline.Receipts
import Freshet.Pipeline.ReplayCycle
import Freshet.Pipeline.ReplayDeadletter
import Freshet.Pipeline.Rewriting
import Freshet.Pipeline.Store
import Freshet.Pipeline.Streak
import Freshet.Pipeline.VecLiteral
import Freshet.Rag.Budget
import Freshet.Rag.Caps
import Freshet.Rag.Citations
import Freshet.Rag.Evidence
import Freshet.Rag.Fusion
import Freshet.Rag.IndexModel
import Freshet.Rag.Pruned
import Freshet.Rag.Retrieval
import Freshet.Rag.Search
import Freshet.Rag.Timeframe
import Freshet.Stream.Dedup
import Freshet.Stream.Lifecycle
