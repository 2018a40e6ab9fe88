import Laminar.Gateway.Pipeline
import Laminar.Gateway.Policy
import Laminar.Library.Transition

/-! `Batcher` of `main.go` as a transition system: the goroutines of its `Submit` calls, the
goroutine of `run`, timer expiries, context cancellations and worker answers, in any order. One
action is one atomic step: a critical section, a channel operation or a metric update. -/
namespace Laminar.Gateway

/-- The collectors of the batcher; of a histogram only its observations or their number. -/
structure Metrics where
  queueDepth : Int := 0
  requestsCancelled : Nat := 0
  requestsRejected : Nat := 0
  requestDuration : Nat := 0
  batchSizeDistribution : List Nat := []
  batchLatency : Nat := 0
  workerErrors : Nat := 0
deriving DecidableEq

def Metrics.count (m : Metrics) : Metric → Metrics
  | .requestsCancelled => { m with requestsCancelled := m.requestsCancelled + 1 }
  | .requestsRejected => { m with requestsRejected := m.requestsRejected + 1 }
  | .requestDuration => { m with requestDuration := m.requestDuration + 1 }
  | .batchSizeDistribution n => { m with batchSizeDistribution := m.batchSizeDistribution ++ [n] }
  | .batchLatency => { m with batchLatency := m.batchLatency + 1 }
  | .workerErrors => { m with workerErrors := m.workerErrors + 1 }

/-- The circuit fields of `Batcher`, all under its mutex. -/
structure Breaker where
  failureCount : Int := 0
  circuitOpen : Bool := false
  circuitOpenAt : Int := 0
deriving DecidableEq

/-- `isCircuitOpen`; `ready` is what the client answers if it is a `WorkerReadinessProvider`. -/
def Breaker.isCircuitOpen (config : Config) (b : Breaker) (now : Int) (ready : Option Bool) :
    Bool × Breaker :=
  match ready with
  | some true => (false, { b with failureCount := 0, circuitOpen := false })
  | some false =>
    (true, { failureCount := max b.failureCount config.circuitBreakerThreshold
             circuitOpen := true, circuitOpenAt := now })
  | none =>
    let b :=
      if b.failureCount ≥ config.circuitBreakerThreshold ∧ !b.circuitOpen then
        { b with circuitOpen := true, circuitOpenAt := now }
      else b
    let b :=
      if b.circuitOpen ∧ now - b.circuitOpenAt ≥ config.circuitBreakerResetAfter then
        { b with circuitOpen := false, failureCount := 0 }
      else b
    (b.circuitOpen, b)

def Breaker.recordSuccess (b : Breaker) : Breaker :=
  { b with failureCount := 0, circuitOpen := false }

def Breaker.recordFailure (b : Breaker) : Breaker := { b with failureCount := b.failureCount + 1 }

structure RequestTraceSpans where
  flush : Option ActiveSpan := none
  worker : Option ActiveSpan := none

structure Batcher extends Pipeline where
  breaker : Breaker := {}
  policy : BatchPolicy
  tracer : TraceRecorder := {}
  traceSpans : String → RequestTraceSpans := fun _ => {}
  metrics : Metrics := {}

def newBatcher (cfg : Config) : Batcher :=
  { policy := newBatchPolicy cfg.normalized, admission := newAdmissionController cfg.normalized }

def newBatcherWithTracer (cfg : Config) (tracer : TraceRecorder) : Batcher :=
  { newBatcher cfg with tracer := tracer }

def Batcher.update (g : Batcher) (k : Nat) (f : Call → Call) : Batcher :=
  { g with toPipeline := g.toPipeline.update k f }

def Batcher.leave (g : Batcher) (k : Nat) (todo : List Op) (resp : Response) : Batcher :=
  { g with toPipeline := g.toPipeline.leave k todo resp }

def Batcher.push (g : Batcher) (ops : List FlushOp) : Batcher :=
  { g with toPipeline := g.toPipeline.push ops }

def Batcher.exec (g : Batcher) : Op → Batcher
  | .release k => { g with toPipeline := g.toPipeline.release k }
  | .endSpan s status => { g with tracer := g.tracer.endSpan s status }
  | .count m => { g with metrics := g.metrics.count m }

inductive SelectCase where
  | ctxDone
  | channel
  | default
deriving DecidableEq

section
variable (config : Config) (randomHex : Nat → Nat → String)

def Batcher.policySnapshot (g : Batcher) (batchSize : Int) : PolicySnapshot :=
  { batchSize := batchSize
    maxBatchSize := config.maxBatchSize
    queueDepth := g.requestChan.length
    queueCapacity := config.queueCapacity
    consecutiveFailures := g.breaker.failureCount }

/-- The first `select` of `submit`. A channel without a buffer takes the request only when `run`
waits for one, and may refuse it although `run` is about to. -/
def Batcher.enqueue (g : Batcher) (k : Nat) : SelectCase → Option Batcher
  | .ctxDone =>
    let c := g.calls k
    if c.ctxDone then
      some (g.leave k [.release k, .endSpan c.queueSpan "cancelled", .count .requestsCancelled,
        .count .requestDuration]
        (errorResponse c.id .requestCancelled "request cancelled before queueing"))
    else none
  | .channel =>
    if g.requestChan.length < config.queueCapacity then
      some ({ g with requestChan := g.requestChan ++ [k] }.update k
        (fun c => { c with pc := .queued }))
    else if config.queueCapacity = 0 ∧ g.run.pc = .select then
      some ({ g with run := g.run.receive k }.update k (fun c => { c with pc := .queued }))
    else none
  | .default =>
    let c := g.calls k
    if !c.ctxDone ∧ config.queueCapacity ≤ g.requestChan.length then
      some (g.leave k [.release k, .endSpan c.queueSpan "error", .count .requestsRejected,
        .count .requestDuration] (errorResponse c.id .queueFull "request queue is full"))
    else none

def Batcher.wait (g : Batcher) (k : Nat) : SelectCase → Option Batcher
  | .ctxDone =>
    let c := g.calls k
    if c.ctxDone then
      some (g.leave k [.release k, .count .requestsCancelled, .count .requestDuration]
        (errorResponse c.id .requestCancelled
          "request cancelled while waiting for batch response"))
    else none
  | .channel =>
    match (g.calls k).respChan with
    | some resp =>
      some (g.update k (fun c =>
        { c with respChan := none, pc := .leave [.count .requestDuration] resp }))
    | none => none
  | .default => none

def Batcher.advance (g : Batcher) (k : Nat) (case : SelectCase) : Option Batcher :=
  let c := g.calls k
  match c.pc with
  | .generateID =>
    some ({ g with nextID := g.nextID + 1 }.update k
      (fun c => { c with id := requestID g.nextID, pc := .tryAcquire }))
  | .tryAcquire =>
    let r := g.admission.tryAcquire c.prompt
    some ({ g with admission := r.2.2 }.update k
      (fun c => { c with lease := r.1, pc := .startSpan r.2.1 }))
  | .startSpan admitted =>
    let r := g.tracer.startSpan randomHex "batch.queue_wait" c.parentSpanID c.traceID
    let pc : SubmitPC :=
      if admitted then .enqueue
      else .leave [.endSpan r.1 "error", .count .requestsRejected, .count .requestDuration]
        (errorResponse c.id .admissionRejected "admission token budget is full")
    some ({ g with tracer := r.2 }.update k (fun c => { c with queueSpan := r.1, pc := pc }))
  | .enqueue => g.enqueue config k case
  | .queued =>
    some ({ g with metrics := { g.metrics with queueDepth := g.metrics.queueDepth + 1 } }.update k
      (fun c => { c with pc := .wait }))
  | .wait => g.wait k case
  | .leave [] resp => some (g.update k (fun c => { c with pc := .returned resp }))
  | .leave (o :: rest) resp => some ((g.exec o).leave k rest resp)
  | .returned _ => none

def Batcher.startFlush (g : Batcher) (r : Run) : Batcher :=
  { g with
    run := r.startFlush, todo := [], flushPC := .filter r.batch, active := []
    traceSpans := fun _ => {} }

/-- One step of `flush`, already taken off its list. -/
def Batcher.execFlush (g : Batcher) : FlushOp → Batcher
  | .op o => g.exec o
  | .startFlush k =>
    let c := g.calls k
    let r := g.tracer.startSpan randomHex "batch.flush" c.queueSpan.spanID c.traceID
    let spans : RequestTraceSpans := { flush := some r.1 }
    { g with tracer := r.2, traceSpans := Function.update g.traceSpans c.id spans }
  | .startWorker k =>
    let c := g.calls k
    let spans := g.traceSpans c.id
    let parent := match spans.flush with
      | some s => s.spanID
      | none => ""
    let r := g.tracer.startSpan randomHex "worker.grpc" parent c.traceID
    let spans : RequestTraceSpans := { spans with worker := some r.1 }
    { g with tracer := r.2, traceSpans := Function.update g.traceSpans c.id spans }
  | .endWorker k status =>
    match (g.traceSpans (g.calls k).id).worker with
    | some s => { g with tracer := g.tracer.endSpan s status }
    | none => g
  | .endFlush k status =>
    match (g.traceSpans (g.calls k).id).flush with
    | some s => { g with tracer := g.tracer.endSpan s status }
    | none => g
  | .recordFailure => { g with breaker := g.breaker.recordFailure }
  | .recordSuccess => { g with breaker := g.breaker.recordSuccess }
  | .observe batchSize workerLatency success =>
    let observation : BatchObservation :=
      { batchSize := batchSize, queueDepth := g.requestChan.length
        workerLatency := workerLatency, success := success }
    { g with policy := g.policy.observe observation }
  | .recordBackend k =>
    let c := g.calls k
    let parent := match (g.traceSpans c.id).worker with
      | some s => s.spanID
      | none => ""
    let tracer := g.tracer.recordSpan
      { traceID := c.traceID, spanID := randomHex g.tracer.draws 8, parentSpanID := parent
        name := "backend.inference", status := "ok" }
    { g with tracer := { tracer with draws := tracer.draws + 1 } }
  | .deliver k resp => (g.exec (.release k)).push [.respond k resp]
  | .respond k resp => g.update k (fun c => { c with respChan := c.respChan.or (some resp) })

def Batcher.filter (g : Batcher) (k : Nat) (rest : List Nat) : Batcher :=
  let c := g.calls k
  if c.ctxDone then
    { g with flushPC := .filter rest }.push
      [.op (.endSpan c.queueSpan "cancelled"), .op (.count .requestsCancelled),
        .deliver k (errorResponse c.id .requestCancelled "cancelled before batch processing")]
  else
    { g with flushPC := .filter rest, active := g.active ++ [k] }.push
      [.op (.endSpan c.queueSpan "ok")]

def Batcher.dispatch (g : Batcher) (now : Int) (ready : Option Bool) : Batcher :=
  if g.active = [] then { g with flushPC := .done }
  else
    let r := g.breaker.isCircuitOpen config now ready
    let g := { g with breaker := r.2 }
    if r.1 then { g with flushPC := .done }.push (rejectOps g.calls g.active)
    else { g with flushPC := .call }.push (sendOps g.active)

def Batcher.call (g : Batcher) : Batcher :=
  let rpc : Rpc := { calls := g.active, requests := batchRequest g.calls g.active }
  { g with rpcs := g.rpcs ++ [rpc], flushPC := .await }

def Batcher.reply (g : Batcher) (answer : Reply) (latency : Int) (order order' : List Nat) :
    Option Batcher :=
  if g.run.pc = .flushing ∧ g.todo = [] ∧ g.flushPC = .await ∧
      order.Perm g.active ∧ order'.Perm g.active then
    some ({ g with rpcs := answerLast g.rpcs answer, flushPC := .done }.push
      (settleOps g.calls g.active answer latency order order'))
  else none

def Batcher.loop (g : Batcher) (now : Int) (ready : Option Bool) : Option Batcher :=
  match g.run.pc with
  | .select => none
  | .received k =>
    some { g with
      metrics := { g.metrics with queueDepth := g.metrics.queueDepth - 1 }
      run := { g.run with pc := .arm, batch := g.run.batch ++ [k] } }
  | .arm =>
    if g.run.batch.length = 1 ∧ !g.run.timerActive then
      some { g with run := { g.run with
        pc := .check
        timer := .armed (g.policy.nextWait (g.policySnapshot config g.run.batch.length))
        timerActive := true } }
    else some { g with run := { g.run with pc := .check } }
  | .check =>
    if g.policy.shouldFlush (g.policySnapshot config g.run.batch.length) then
      let r := if g.run.timerActive then
          { g.run with timer := stopTimer g.run.timer, timerActive := false }
        else g.run
      some (g.startFlush r)
    else some { g with run := { g.run with pc := .select } }
  | .flushing =>
    match g.todo, g.flushPC with
    | o :: rest, _ => some (Batcher.execFlush randomHex { g with todo := rest } o)
    | [], .filter (k :: rest) => some (g.filter k rest)
    | [], .filter [] => some (g.dispatch config now ready)
    | [], .call => some g.call
    | [], .await => none
    | [], .done => some { g with run := { g.run with pc := .select, batch := [] } }

def Batcher.receive (g : Batcher) : Option Batcher :=
  match g.run.pc, g.requestChan with
  | .select, k :: rest => some { g with requestChan := rest, run := g.run.receive k }
  | _, _ => none

def Batcher.tick (g : Batcher) : Option Batcher :=
  if g.run.pc = .select ∧ g.run.timer = .fired then
    let r := { g.run with timer := .stopped, timerActive := false }
    if g.run.batch = [] then some { g with run := r }
    else some (g.startFlush r)
  else none

def Batcher.expire (g : Batcher) : Option Batcher :=
  match g.run.timer with
  | .armed _ => some { g with run := { g.run with timer := .fired } }
  | _ => none

inductive Action where
  | submit (prompt traceID parentSpanID : String)
  | cancel (k : Nat)
  | advance (k : Nat) (case : SelectCase)
  | receive
  | tick
  | expire
  | loop (now : Int) (ready : Option Bool)
  | reply (answer : Reply) (latency : Int) (order order' : List Nat)
  | probe (now : Int) (ready : Option Bool)
  | streamID

/-- One step of the gateway. A `probe` is a call of `Ready` from another goroutine, and `streamID`
a call of `GenerateID` from a handler of `/predict/stream`. -/
def step (g : Batcher) : Action → Option Batcher
  | .submit prompt traceID parentSpanID =>
    some ({ g with submitted := g.submitted + 1 }.update g.submitted (fun _ =>
      { prompt := prompt, traceID := traceID, parentSpanID := parentSpanID }))
  | .cancel k =>
    if k < g.submitted ∧ (g.calls k).ctxDone = false then
      some (g.update k (fun c => { c with ctxDone := true }))
    else none
  | .advance k case => if k < g.submitted then g.advance config randomHex k case else none
  | .receive => g.receive
  | .tick => g.tick
  | .expire => g.expire
  | .loop now ready => g.loop config randomHex now ready
  | .reply answer latency order order' => g.reply answer latency order order'
  | .probe now ready => some { g with breaker := (g.breaker.isCircuitOpen config now ready).2 }
  | .streamID => some { g with nextID := g.nextID + 1 }

end

end Laminar.Gateway
