import Laminar.Kv.Safety
import Laminar.Kv.Eviction
import Laminar.Kv.Leak
import Laminar.Scheduler.Greedy
import Laminar.Scheduler.Permuted
import Laminar.Scheduler.Invisible
import Laminar.Llama.Agreement
import Laminar.Llama.Truncation
import Laminar.Llama.StreamProtocol
import Laminar.Gateway.BatchLoop
import Laminar.Gateway.Correlation
import Laminar.Gateway.PredictStream
import Laminar.Otlp.Bound
import Laminar.Pool.Observation
import Laminar.Pool.Moves
import Laminar.Pool.InFlight
import Laminar.Pool.Cancellation
import Laminar.Pool.Balance
import Laminar.Gateway.CountersRun
import Laminar.Gateway.SpanReply
import Laminar.Gateway.SpanServer
import Laminar.Kv.Atomic
import Laminar.Kv.BlockCount
import Laminar.Library.Decimal
import Laminar.Library.JsonText
import Laminar.Llama.ChunkFields
import Laminar.Llama.OwnFields
import Laminar.Otlp.Batches
import Laminar.Otlp.Payload
import Laminar.Pool.Gauge
import Laminar.Backend.AllOrNothing
import Laminar.Backend.PrefixCache
import Laminar.Backend.TokenIds
import Laminar.Gateway.AdaptiveWait
import Laminar.Gateway.TraceParent
import Laminar.Gateway.FullConfig
import Laminar.Gateway.BreakerRun
import Laminar.Backend.Cpp
import Laminar.Backend.OnnxLifetime
import Laminar.Worker.Delivery
import Laminar.Gateway.StreamTrace
import Laminar.Backend.Readable
import Laminar.Scheduler.MemoryReport
import Laminar.Scheduler.StepLog
import Laminar.Worker.Answers
import Laminar.Pool.Recovery
