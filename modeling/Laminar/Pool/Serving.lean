import Laminar.Gateway.PredictStream
import Laminar.Library.Transition
import Laminar.Pool.Endpoint

/-! `WorkerPool` with its callers as a transition system: the calls of `ProcessBatch` by `flush`,
the handlers of `/predict/stream`, the workers and the clients, in any order. One action is one
critical section of an endpoint, one update of a metric, or one answer from outside. -/
namespace Laminar.Pool
open Laminar.Gateway (Config Error StreamHandler StreamResponse StreamEffect)

/-- Who calls the pool: `flush`, or a stream handler, which has a response writer that is an
`http.Flusher` or not. -/
inductive CallKind where
  | batch
  | stream (h : StreamHandler) (flusher : Bool)
deriving DecidableEq

inductive MetricOp where
  | batches (i : Nat)
  | failures (i : Nat)
  | inFlight (i : Nat) (value : Int)
  | circuit (i : Nat) (isOpen : Bool)
deriving DecidableEq

/-- Where a caller stands. `select` has read the endpoints below `i`; `reads` lists what it read.
`metrics` and `finish` know what comes after them. In `deliver` a handler has the result of
`Recv`. -/
inductive CallPC where
  | start
  | select (now : Int) (i : Nat) (selected : Option WorkerSelectionState)
      (reads : List WorkerSelectionState)
  | begin (i : Nat) (reads : List WorkerSelectionState)
  | metrics (ops : List MetricOp) (next : CallPC)
  | worker (i : Nat)
  | finish (i : Nat) (latency : Int) (err : Option Error) (now : Int) (next : CallPC)
  | failed (err : Error)
  | opened (i : Nat)
  | recv (i : Nat) (h : StreamHandler)
  | deliver (i : Nat) (h : StreamHandler) (result : Except Error StreamResponse)
  | returned

/-- A caller; `ctxDone` when its client has gone, `once` the state of the `sync.Once` of its
stream. `begun` is the endpoint on which it executed `begin`, `finished` how often it executed
`finish`. -/
structure Call where
  kind : CallKind := .batch
  pc : CallPC := .start
  ctxDone : Bool := false
  once : Bool := false
  effects : List StreamEffect := []
  begun : Option Nat := none
  finished : Nat := 0

structure Serving where
  size : Nat
  endpoints : Nat → WorkerEndpoint
  now : Int := 0
  calls : Nat → Call := fun _ => {}
  started : Nat := 0

def newServing (size : Nat) (streaming : Nat → Bool) : Serving :=
  { size := size, endpoints := fun i => { index := i, streaming := streaming i } }

/-- `observe` is what `WorkerSnapshots` and `WorkersReady` do to one endpoint. -/
inductive Action where
  | pass (time : Nat)
  | call (kind : CallKind)
  | cancel (k : Nat)
  | advance (k : Nat)
  | answer (k : Nat) (err : Option Error) (latency : Int)
  | recv (k : Nat) (result : Except Error StreamResponse) (latency : Int)
  | deliver (k : Nat) (writeErr : Option Error)
  | observe (i : Nat) (now : Int)

namespace Serving

def update (s : Serving) (k : Nat) (f : Call → Call) : Serving :=
  { s with calls := Function.update s.calls k (f (s.calls k)) }

def goto (s : Serving) (k : Nat) (pc : CallPC) : Serving :=
  s.update k (fun c => { c with pc := pc })

def atEndpoint (s : Serving) (i : Nat) (f : WorkerEndpoint → WorkerEndpoint) : Serving :=
  { s with endpoints := Function.update s.endpoints i (f (s.endpoints i)) }

def setMetric (s : Serving) : MetricOp → Serving
  | .batches i => s.atEndpoint i fun e => { e with batchesMetric := e.batchesMetric + 1 }
  | .failures i => s.atEndpoint i fun e => { e with failuresMetric := e.failuresMetric + 1 }
  | .inFlight i value => s.atEndpoint i fun e => { e with inFlightMetric := value }
  | .circuit i isOpen => s.atEndpoint i fun e => { e with circuitMetric := isOpen }

def finishMetrics (e : WorkerEndpoint) (i : Nat) (err : Option Error) (now : Int) :
    List MetricOp :=
  (if err.isSome then [.failures i] else []) ++
    [.inFlight i e.inFlight, .circuit i (e.circuitOpenLocked now)]

def fail (s : Serving) (k : Nat) (err : Error) : Serving :=
  s.update k (fun c => { c with
    pc := .returned
    effects := match c.kind with
      | .batch => c.effects
      | .stream h _ => c.effects ++ h.openFailed err })

/-- The end of `selectEndpoint`; `Stream` then wants a client that streams. -/
def selected (s : Serving) (k : Nat) (selected : Option WorkerSelectionState)
    (reads : List WorkerSelectionState) : Serving :=
  match selected with
  | none => s.goto k (.failed (.status .unavailable "no available workers"))
  | some best =>
    if (s.calls k).kind ≠ .batch ∧ (s.endpoints best.index).streaming = false then
      s.goto k (.failed (.status .unimplemented "worker does not support streaming"))
    else s.goto k (.begin best.index reads)

def advance (cfg : Config) (s : Serving) (k : Nat) : Option Serving :=
  match (s.calls k).pc with
  | .start => some (s.goto k (.select s.now 0 none []))
  | .select now i selected reads =>
    if i < s.size then
      let r := (s.endpoints i).selectionState now
      some ((s.atEndpoint i fun _ => r.2).goto k
        (.select now (i + 1) (consider selected r.1) (reads ++ [r.1])))
    else some (s.selected k selected reads)
  | .begin i _ =>
    let e := (s.endpoints i).begin s.now
    some ((s.atEndpoint i fun _ => e).update k (fun c => { c with
      begun := some i
      pc := .metrics [.batches i, .inFlight i e.inFlight] (.worker i) }))
  | .metrics [] next => some (s.goto k next)
  | .metrics (op :: ops) next => some ((s.setMetric op).goto k (.metrics ops next))
  | .finish i latency err now next =>
    let e := (s.endpoints i).finish cfg latency err now
    some ((s.atEndpoint i fun _ => e).update k (fun c => { c with
      finished := c.finished + 1
      pc := .metrics (finishMetrics e i err now) next }))
  | .failed err => some (s.fail k err)
  | .opened i =>
    match (s.calls k).kind with
    | .stream h true => some (s.goto k (.recv i h))
    | .stream h false =>
      some (s.update k (fun c => { c with pc := .returned, effects := c.effects ++ h.unflushable }))
    | .batch => none
  | _ => none

def answer (s : Serving) (k : Nat) (err : Option Error) (latency : Int) : Option Serving :=
  match (s.calls k).pc, (s.calls k).kind, err with
  | .worker i, .batch, err => some (s.goto k (.finish i latency err s.now .returned))
  | .worker i, .stream _ _, some err =>
    some (s.goto k (.finish i latency (some err) s.now (.failed err)))
  | .worker i, .stream _ _, none => some (s.goto k (.opened i))
  | _, _, _ => none

/-- `pooledInferenceStream.Recv`. -/
def recv (s : Serving) (k : Nat) (result : Except Error StreamResponse) (latency : Int) :
    Option Serving :=
  match (s.calls k).pc, result with
  | .recv i h, .ok event => some (s.goto k (.deliver i h (.ok event)))
  | .recv i h, .error err =>
    if (s.calls k).once then some (s.goto k (.deliver i h (.error err)))
    else
      let finishErr := if err = .eof then none else some err
      some (s.update k (fun c => { c with
        once := true
        pc := .finish i latency finishErr s.now (.deliver i h (.error err)) }))
  | _, _ => none

def deliver (s : Serving) (k : Nat) (writeErr : Option Error) : Option Serving :=
  match (s.calls k).pc with
  | .deliver i h result =>
    let r := h.receive result writeErr
    some (s.update k (fun c => { c with
      pc := match r.1 with
        | some h' => .recv i h'
        | none => .returned
      effects := c.effects ++ r.2 }))
  | _ => none

end Serving

def step (cfg : Config) (s : Serving) : Action → Option Serving
  | .pass time => some { s with now := s.now + time }
  | .call kind =>
    some ({ s with started := s.started + 1 }.update s.started (fun _ => { kind := kind }))
  | .cancel k =>
    if k < s.started then some (s.update k (fun c => { c with ctxDone := true })) else none
  | .advance k => if k < s.started then s.advance cfg k else none
  | .answer k err latency => if k < s.started then s.answer k err latency else none
  | .recv k result latency => if k < s.started then s.recv k result latency else none
  | .deliver k writeErr => if k < s.started then s.deliver k writeErr else none
  | .observe i now =>
    if now ≤ s.now then some (s.atEndpoint i fun e => (e.refreshCircuitLocked now).2) else none

end Laminar.Pool
