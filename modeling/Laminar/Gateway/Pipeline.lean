import Laminar.Gateway.Admission
import Laminar.Gateway.Messages
import Laminar.Gateway.Tracing

/-! What a request passes through in `Batcher`: its `Submit` call, the channel, the batch of `run`,
the steps of `flush` and the calls of the worker. -/
namespace Laminar.Gateway

inductive Metric where
  | requestsCancelled
  | requestsRejected
  | requestDuration
  | batchSizeDistribution (n : Nat)
  | batchLatency
  | workerErrors
deriving DecidableEq

inductive Op where
  | release (k : Nat)
  | endSpan (s : ActiveSpan) (status : String)
  | count (m : Metric)

inductive SubmitPC where
  | generateID
  | tryAcquire
  | startSpan (admitted : Bool)
  | enqueue
  | queued
  | wait
  | leave (todo : List Op) (resp : Response)
  | returned (resp : Response)

structure Call where
  prompt : String := ""
  traceID : String := ""
  parentSpanID : String := ""
  ctxDone : Bool := false
  pc : SubmitPC := .generateID
  id : String := ""
  lease : AdmissionLease := {}
  queueSpan : ActiveSpan := ⟨0, "", "", "", ""⟩
  respChan : Option Response := none

/-- A timer of Go 1.23: after `Stop` no tick of it is left in its channel. -/
inductive Timer where
  | stopped
  | armed (wait : Int)
  | fired
deriving DecidableEq

def stopTimer (_ : Timer) : Timer := .stopped

/-- Where the goroutine of `run` stands; calls stand for their requests. -/
inductive RunPC where
  | select
  | received (k : Nat)
  | arm
  | check
  | flushing
deriving DecidableEq

/-- The locals of `run`, with what it received and flushed since the start. -/
structure Run where
  pc : RunPC := .select
  batch : List Nat := []
  timer : Timer := .stopped
  timerActive : Bool := false
  received : List Nat := []
  flushed : List (List Nat) := []
deriving DecidableEq

/-- The steps of `flush` that it takes whatever it finds; `deliver` and `respond` are the halves
of `deliverResponse`. -/
inductive FlushOp where
  | op (o : Op)
  | startFlush (k : Nat)
  | startWorker (k : Nat)
  | endWorker (k : Nat) (status : String)
  | endFlush (k : Nat) (status : String)
  | recordFailure
  | recordSuccess
  | observe (batchSize : Nat) (workerLatency : Int) (success : Bool)
  | recordBackend (k : Nat)
  | deliver (k : Nat) (resp : Response)
  | respond (k : Nat) (resp : Response)

/-- Where `flush` goes on after the steps before it: with the requests of the batch that it has
still to look at, with the call of the worker, with its answer, or back to `run`. -/
inductive FlushPC where
  | filter (rest : List Nat)
  | call
  | await
  | done
deriving DecidableEq

structure Rpc where
  calls : List Nat
  requests : List RequestItem
  reply : Option Reply := none

/-- The part of the batcher that requests pass through. Of `flush` it has the steps `todo` before
the next branch, that branch and `activeBatch`; `released` lists the calls whose tokens were
subtracted. -/
structure Pipeline where
  nextID : Nat := 1
  admission : AdmissionController
  requestChan : List Nat := []
  calls : Nat → Call := fun _ => {}
  submitted : Nat := 0
  run : Run := {}
  todo : List FlushOp := []
  flushPC : FlushPC := .done
  active : List Nat := []
  rpcs : List Rpc := []
  released : List Nat := []

def Pipeline.update (p : Pipeline) (k : Nat) (f : Call → Call) : Pipeline :=
  { p with calls := Function.update p.calls k (f (p.calls k)) }

def Pipeline.leave (p : Pipeline) (k : Nat) (todo : List Op) (resp : Response) : Pipeline :=
  p.update k (fun c => { c with pc := .leave todo resp })

def Pipeline.release (p : Pipeline) (k : Nat) : Pipeline :=
  let lease := (p.calls k).lease
  let r := lease.release p.admission
  { p.update k (fun c => { c with lease := r.1 }) with
    admission := r.2
    released := if lease.controller = true ∧ lease.done = false then p.released ++ [k]
      else p.released }

def Pipeline.push (p : Pipeline) (ops : List FlushOp) : Pipeline :=
  { p with todo := ops ++ p.todo }

def Run.receive (r : Run) (k : Nat) : Run :=
  { r with pc := .received k, received := r.received ++ [k] }

def Run.startFlush (r : Run) : Run :=
  { r with pc := .flushing, flushed := r.flushed ++ [r.batch] }

def rejectOps (calls : Nat → Call) (active : List Nat) : List FlushOp :=
  .observe active.length 0 false :: active.flatMap (fun k =>
    [.startFlush k, .endFlush k "error",
      .deliver k (errorResponse (calls k).id .workerUnavailable "worker temporarily unavailable")])

def sendOps (active : List Nat) : List FlushOp :=
  .op (.count (.batchSizeDistribution active.length)) ::
    (active.map .startFlush ++ active.map .startWorker)

def batchRequest (calls : Nat → Call) (active : List Nat) : List RequestItem :=
  active.map (fun k =>
    { id := (calls k).id, prompt := (calls k).prompt, traceId := (calls k).traceID })

def failureOps (calls : Nat → Call) (active : List Nat) (err : Error) (latency : Int)
    (order : List Nat) : List FlushOp :=
  order.flatMap (fun k => [.endWorker k "error", .endFlush k "error"]) ++
    [.recordFailure, .observe active.length latency false, .op (.count .workerErrors)] ++
    active.map (fun k => .deliver k
      (errorResponse (calls k).id (classifyWorkerError err).1 (classifyWorkerError err).2))

def answerOps (calls : Nat → Call) (items : List ResponseItem) (k : Nat) : List FlushOp :=
  match findResponse items (calls k).id with
  | none =>
    [.deliver k (errorResponse (calls k).id .missingResponse
      "worker response missing request id")]
  | some item =>
    (if item.backendLatencyMicros > 0 ∨ item.backendName ≠ "" then [.recordBackend k] else []) ++
      [.deliver k { id := item.id, result := item.result, metadata := item.backendMetadata }]

def successOps (calls : Nat → Call) (active : List Nat) (items : List ResponseItem)
    (latency : Int) (order order' : List Nat) : List FlushOp :=
  order.map (fun k => .endWorker k "ok") ++
    [.recordSuccess, .observe active.length latency true] ++
    active.flatMap (answerOps calls items) ++
    order'.map (fun k => .endFlush k "ok")

def settleOps (calls : Nat → Call) (active : List Nat) (answer : Reply) (latency : Int)
    (order order' : List Nat) : List FlushOp :=
  .op (.count .batchLatency) ::
    match answer with
    | .error err => failureOps calls active err latency order
    | .ok items => successOps calls active items latency order order'

def answerLast : List Rpc → Reply → List Rpc
  | [], _ => []
  | [rpc], answer => [{ rpc with reply := some answer }]
  | rpc :: rest, answer => rpc :: answerLast rest answer

end Laminar.Gateway
