import Laminar.Gateway.Tracing
import Laminar.Library.Transition

/-! `OTLPHTTPExporter` of `otlp_exporter.go` as a transition system: the callers of `ExportSpan`,
`Flush` and `Close`, the goroutine of `run`, the ticker and the collector, in any order. One action
is one critical section, one channel operation or one answer of the collector. -/
namespace Laminar.Otlp
open Laminar.Gateway (TraceSpan)

structure OTLPHTTPExporterConfig where
  maxBatchSize : Int := 0
  queueSize : Int := 0

def normalizeOTLPExporterConfig (config : OTLPHTTPExporterConfig) : OTLPHTTPExporterConfig :=
  { maxBatchSize := if config.maxBatchSize ≤ 0 then 32 else config.maxBatchSize
    queueSize := if config.queueSize ≤ 0 then 4096 else config.queueSize }

inductive FlushPC where
  | drain
  | add (span : TraceSpan)
  | copy
  | post (batch : List TraceSpan)
deriving DecidableEq

structure Flush where
  byRun : Bool
  pc : FlushPC := .drain
deriving DecidableEq

/-- Where the goroutine of `run` stands; `flush` from the call of `Flush` to its return, the `last`
time after `Close`. -/
inductive RunPC where
  | select
  | add (span : TraceSpan)
  | flush (last : Bool)
  | drain
  | drainAdd (span : TraceSpan)
  | returned
deriving DecidableEq

/-- The exporter with its goroutines. `done` stands for a closed channel (`closed` is closed when
`run` returns), `tick` for a tick in the channel of the ticker, `refused` for the spans whose
`ExportSpan` has yet to count them as dropped.
`handed`, `dropped` and `exported` list the spans of the finished calls of `ExportSpan`, those
counted in `droppedSpans` and those counted in `exportedSpans`. -/
structure OTLPHTTPExporter where
  maxBatchSize : Int
  queueSize : Nat
  queue : List TraceSpan := []
  done : Bool := false
  tick : Bool := false
  run : RunPC := .select
  flush : Option Flush := none
  refused : List TraceSpan := []
  pending : List TraceSpan := []
  exportedSpans : Nat := 0
  droppedSpans : Nat := 0
  failedExports : Nat := 0
  lastError : String := ""
  handed : List TraceSpan := []
  dropped : List TraceSpan := []
  exported : List TraceSpan := []

def newOTLPHTTPExporter (config : OTLPHTTPExporterConfig) : OTLPHTTPExporter :=
  let config := normalizeOTLPExporterConfig config
  { maxBatchSize := config.maxBatchSize, queueSize := config.queueSize.toNat }

inductive SelectCase where
  | queue
  | ticker
  | done
deriving DecidableEq

/-- `flush` is a call of `Flush` from outside that gets `flushMu`; `flushing` the next step of the
`Flush` that holds it, with the error of `post` if it posts. -/
inductive Action where
  | exportSpan (span : TraceSpan)
  | drop (span : TraceSpan)
  | flush
  | flushing (err : Option String)
  | tick
  | close
  | run (case : SelectCase)
deriving DecidableEq

namespace OTLPHTTPExporter

def exportSpan (e : OTLPHTTPExporter) (span : TraceSpan) : OTLPHTTPExporter :=
  if e.queue.length < e.queueSize then
    { e with queue := e.queue ++ [span], handed := e.handed ++ [span] }
  else { e with refused := e.refused ++ [span] }

/-- The default case of `ExportSpan`, under `mu`. -/
def drop (e : OTLPHTTPExporter) (span : TraceSpan) : Option OTLPHTTPExporter :=
  if span ∈ e.refused then
    some { e with
      refused := e.refused.erase span
      droppedSpans := e.droppedSpans + 1
      dropped := e.dropped ++ [span]
      handed := e.handed ++ [span] }
  else none

def addPending (e : OTLPHTTPExporter) (span : TraceSpan) : OTLPHTTPExporter :=
  { e with pending := e.pending ++ [span] }

def leaveFlush (e : OTLPHTTPExporter) (byRun : Bool) : OTLPHTTPExporter :=
  { e with
    flush := none
    run :=
      match byRun, e.run with
      | true, .flush true => .returned
      | true, .flush false => .select
      | _, run => run }

def flushing (e : OTLPHTTPExporter) (f : Flush) (err : Option String) : OTLPHTTPExporter :=
  match f.pc with
  | .drain =>
    match e.queue with
    | span :: rest => { e with queue := rest, flush := some { f with pc := .add span } }
    | [] => { e with flush := some { f with pc := .copy } }
  | .add span => { e.addPending span with flush := some { f with pc := .drain } }
  | .copy =>
    if e.pending.length = 0 then e.leaveFlush f.byRun
    else { e with flush := some { f with pc := .post e.pending } }
  | .post batch =>
    match err with
    | some err =>
      { e with failedExports := e.failedExports + 1, lastError := err }.leaveFlush f.byRun
    | none =>
      { e with
        pending := e.pending.drop batch.length
        exportedSpans := e.exportedSpans + batch.length
        exported := e.exported ++ batch
        lastError := "" }.leaveFlush f.byRun

/-- The next step of `run`; inside `Flush` it has none of its own. -/
def runStep (e : OTLPHTTPExporter) (case : SelectCase) : Option OTLPHTTPExporter :=
  match e.run with
  | .select =>
    match case with
    | .queue =>
      match e.queue with
      | span :: rest => some { e with queue := rest, run := .add span }
      | [] => none
    | .ticker => if e.tick then some { e with tick := false, run := .flush false } else none
    | .done => if e.done then some { e with run := .drain } else none
  | .add span =>
    let e := e.addPending span
    some { e with run := if e.pending.length ≥ e.maxBatchSize then .flush false else .select }
  | .flush _ =>
    if e.flush = none then some { e with flush := some { byRun := true } } else none
  | .drain =>
    match e.queue with
    | span :: rest => some { e with queue := rest, run := .drainAdd span }
    | [] => some { e with run := .flush true }
  | .drainAdd span => some { e.addPending span with run := .drain }
  | .returned => none

end OTLPHTTPExporter

def step (e : OTLPHTTPExporter) : Action → Option OTLPHTTPExporter
  | .exportSpan span => some (e.exportSpan span)
  | .drop span => e.drop span
  | .flush => if e.flush = none then some { e with flush := some { byRun := false } } else none
  | .flushing err =>
    match e.flush with
    | some f => some (e.flushing f err)
    | none => none
  | .tick => some { e with tick := true }
  | .close => some { e with done := true }
  | .run case => e.runStep case

end Laminar.Otlp
