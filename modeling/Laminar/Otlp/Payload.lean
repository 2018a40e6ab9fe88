import Laminar.Gateway.Predict
import Laminar.Otlp.Batches

/-! What a post carries: `spansToOTLPExport` of `tracing.go` leaves out the spans whose ids are not
W3C ids, `Flush` counts them as exported. -/
namespace Laminar.Otlp
open Laminar.Gateway (TraceSpan isValidTraceID isValidSpanID toLower)
open Laminar.Transition

/-- A span with its times (`int64`) and its attributes, the entries of a map in any order. -/
structure TimedSpan extends TraceSpan where
  startUnixNanos : Int
  durationMicros : Int
  attributes : List (String × String) := []
deriving DecidableEq

structure OtlpKeyValue where
  key : String
  stringValue : String
deriving DecidableEq

structure OtlpSpan where
  traceID : String
  spanID : String
  parentSpanID : String
  name : String
  kind : Nat
  startTimeUnixNano : String
  endTimeUnixNano : String
  attributes : List OtlpKeyValue
  statusCode : Nat
deriving DecidableEq

structure OtlpScopeSpans where
  scopeName : String
  scopeVersion : String
  spans : List OtlpSpan

structure OtlpResourceSpans where
  attributes : List OtlpKeyValue
  scopeSpans : List OtlpScopeSpans

structure OtlpTraceExport where
  resourceSpans : List OtlpResourceSpans

def otlpSpanKind (name : String) : Nat :=
  if name = "http.predict" then 2 else if name = "worker.grpc" then 3 else 1

def otlpStatusCode (status : String) : Nat :=
  if status = "ok" then 1 else if status = "error" ∨ status = "cancelled" then 2 else 0

def otlpAttributes (attributes : List (String × String)) : List OtlpKeyValue :=
  (attributes.mergeSort fun a b => decide (a.1 ≤ b.1)).map fun a => ⟨a.1, a.2⟩

def TimedSpan.toOTLP (span : TimedSpan) : Option OtlpSpan :=
  let traceID := toLower span.traceID
  let spanID := toLower span.spanID
  let parentSpanID := toLower span.parentSpanID
  if !isValidTraceID traceID || !isValidSpanID spanID then none
  else if parentSpanID ≠ "" && !isValidSpanID parentSpanID then none
  else
    let endUnixNanos := (span.startUnixNanos + span.durationMicros * 1000).bmod (2 ^ 64)
    some
      { traceID := traceID
        spanID := spanID
        parentSpanID := parentSpanID
        name := span.name
        kind := otlpSpanKind span.name
        startTimeUnixNano := toString span.startUnixNanos
        endTimeUnixNano := toString endUnixNanos
        attributes := otlpAttributes span.attributes
        statusCode := otlpStatusCode span.status }

/-- The order of the spans in a payload. -/
def startsBefore (a b : TimedSpan) : Bool :=
  if a.startUnixNanos = b.startUnixNanos then a.name < b.name
  else a.startUnixNanos < b.startUnixNanos

def spansToOTLPExport (spans : List TimedSpan) : OtlpTraceExport :=
  let spans := spans.mergeSort fun a b => !startsBefore b a
  { resourceSpans := [
      { attributes := [⟨"service.name", "laminar-inference-gateway"⟩,
          ⟨"telemetry.sdk.language", "go"⟩]
        scopeSpans := [
          { scopeName := "laminar-inference/gateway"
            scopeVersion := "local"
            spans := spans.filterMap TimedSpan.toOTLP }] }] }

def OtlpTraceExport.spans (payload : OtlpTraceExport) : List OtlpSpan :=
  payload.resourceSpans.flatMap fun r => r.scopeSpans.flatMap OtlpScopeSpans.spans

/-- The ids of a span are W3C ids up to the case of their letters; a parent is not needed. -/
def convertible (span : TraceSpan) : Bool :=
  isValidTraceID (toLower span.traceID) && isValidSpanID (toLower span.spanID) &&
    (toLower span.parentSpanID == "" || isValidSpanID (toLower span.parentSpanID))

theorem TimedSpan.toOTLP_isSome (span : TimedSpan) :
    span.toOTLP.isSome = convertible span.toTraceSpan := by
  simp only [toOTLP, convertible]
  generalize isValidTraceID (toLower span.traceID) = validTrace
  generalize isValidSpanID (toLower span.spanID) = validSpan
  generalize isValidSpanID (toLower span.parentSpanID) = validParent
  by_cases hparent : toLower span.parentSpanID = ""
  · cases validTrace <;> cases validSpan <;> simp [hparent]
  · cases validTrace <;> cases validSpan <;> cases validParent <;> simp [hparent]

/-- A payload has the convertible ones of the spans it is built from. -/
theorem payload_length (spans : List TimedSpan) :
    (spansToOTLPExport spans).spans.length =
      (spans.map TimedSpan.toTraceSpan).countP convertible := by
  have hperm := (List.mergeSort_perm spans fun a b => !startsBefore b a).filterMap TimedSpan.toOTLP
  have hspans : (spansToOTLPExport spans).spans.Perm (spans.filterMap TimedSpan.toOTLP) := by
    simpa [spansToOTLPExport, OtlpTraceExport.spans] using hperm
  rw [hspans.length_eq, List.length_filterMap_eq_countP, List.countP_map]
  exact List.countP_congr fun span _ => by simp [TimedSpan.toOTLP_isSome]

namespace OTLPHTTPExporter

def delivered (e : OTLPHTTPExporter) (a : Action) : Option (List TraceSpan) :=
  match e.event a with
  | .success batch => some batch
  | _ => none

/-- No post succeeds with a span that its payload leaves out. -/
def DeliversAll (e : OTLPHTTPExporter) (a : Action) : Prop :=
  ∀ batch ∈ e.delivered a, ∀ span ∈ batch, convertible span = true

instance (e : OTLPHTTPExporter) (a : Action) : Decidable (e.DeliversAll a) :=
  inferInstanceAs (Decidable (∀ batch ∈ e.delivered a, ∀ span ∈ batch, convertible span = true))

theorem step_exported {e e' : OTLPHTTPExporter} {a : Action} (h : step e a = some e') :
    e'.exported = e.exported ++ (e.delivered a).toList.flatten := by
  have heffect := step_effect h
  unfold delivered
  cases hevent : e.event a with
  | success batch =>
    rw [hevent] at heffect
    simp [heffect.2.2.2]
  | copy batch =>
    rw [hevent] at heffect
    simp [heffect.2.2.2.2]
  | failure batch =>
    rw [hevent] at heffect
    simp [heffect.2.2.2]
  | add span =>
    rw [hevent] at heffect
    simp [heffect.2.2]
  | other =>
    rw [hevent] at heffect
    simp [heffect.2.2]

end OTLPHTTPExporter

variable {config : OTLPHTTPExporterConfig} {actions : List Action} {e : OTLPHTTPExporter}

/-- What counts as exported are the batches whose posts have succeeded. -/
theorem run_exported (h : run step (newOTLPHTTPExporter config) actions = some e) :
    e.exported =
      (observed OTLPHTTPExporter.delivered step (newOTLPHTTPExporter config) actions).flatten := by
  have hstart : (newOTLPHTTPExporter config).exported = ([] : List (List TraceSpan)).flatten := rfl
  refine run_observed (motive := fun e seen => e.exported = seen.flatten) h hstart ?_
  intro e a e' seen hseen hstep
  rw [OTLPHTTPExporter.step_exported hstep, hseen, List.flatten_append]

theorem along_delivers (h : run step (newOTLPHTTPExporter config) actions = some e) :
    Along step OTLPHTTPExporter.DeliversAll (newOTLPHTTPExporter config) actions ↔
      ∀ batch ∈ observed OTLPHTTPExporter.delivered step (newOTLPHTTPExporter config) actions,
        ∀ span ∈ batch, convertible span = true := by
  have hiff := along_iff_observed (motive := fun _ => True) h trivial (fun _ _ _ _ _ => trivial)
    fun e a e' _ _ => (Iff.rfl : (True ∧ ∀ batch ∈ e.delivered a, ∀ span ∈ batch,
      convertible span = true) ↔ True ∧ e.DeliversAll a)
  rw [true_and, true_and] at hiff
  exact hiff.symm

/-- `exportedSpans` is the number of spans in the payloads of the successful posts, and a span that
is in none of them and no longer held is counted in `droppedSpans`, exactly when no post succeeds
with a span that its payload leaves out. `posts` are the batches of these posts with their times
and attributes. -/
theorem exportedSpans_iff (config : OTLPHTTPExporterConfig) (actions : List Action)
    (e : OTLPHTTPExporter) (h : run step (newOTLPHTTPExporter config) actions = some e)
    (posts : List (List TimedSpan)) (hposts : posts.map (·.map TimedSpan.toTraceSpan) =
      observed OTLPHTTPExporter.delivered step (newOTLPHTTPExporter config) actions) :
    (e.exportedSpans = (posts.map fun post => (spansToOTLPExport post).spans.length).sum ∧
      e.handed.length = e.droppedSpans + e.queue.length + e.inHand.length + e.pending.length +
        (posts.map fun post => (spansToOTLPExport post).spans.length).sum) ↔
    Along step OTLPHTTPExporter.DeliversAll (newOTLPHTTPExporter config) actions := by
  have hcount : (posts.map fun post => (spansToOTLPExport post).spans.length).sum =
      e.exported.countP convertible := by
    rw [run_exported h, ← hposts, List.countP_flatten, List.map_map]
    simp only [payload_length, Function.comp_def]
  have hcustody := run_custody h
  have hlength := hcustody.length
  rw [along_delivers h, ← List.forall_mem_flatten, ← run_exported h,
    ← List.countP_eq_length, hcount,
    ← hcustody.exportedSpans]
  omega

/-- A span with W3C ids is counted when its payload has arrived. -/
theorem exportedSpans_traced :
    let span : TimedSpan := ⟨⟨"4bf92f3577b34da6a3ce929d0e0e4736", "00f067aa0ba902b7", "",
      "http.predict", "ok"⟩, 1, 2, []⟩
    let actions : List Action := [.exportSpan span.toTraceSpan, .run .queue, .run .queue,
      .run .queue, .flushing none, .flushing none, .flushing none]
    ∃ e, run step (newOTLPHTTPExporter { maxBatchSize := 1, queueSize := 1 }) actions = some e ∧
      e.exportedSpans = ([[span]].map fun post => (spansToOTLPExport post).spans.length).sum := by
  intro span actions
  obtain ⟨e, he⟩ := Option.isSome_iff_exists.mp
    (show (run step (newOTLPHTTPExporter { maxBatchSize := 1, queueSize := 1 }) actions).isSome =
      true by decide +kernel)
  refine ⟨e, he, ((exportedSpans_iff _ _ e he [[span]] ?_).mpr ?_).1⟩
  · decide +kernel
  · decide +kernel

/-- A client may send any text as its trace id. -/
def clientTraceSpan : TimedSpan :=
  ⟨⟨"client-1", "00f067aa0ba902b7", "", "http.predict", "ok"⟩, 0, 0, []⟩

/-- The span's post succeeds without it. -/
theorem clientTraceSpan_counted :
    ∃ e, run step (newOTLPHTTPExporter { maxBatchSize := 1, queueSize := 1 })
        [.exportSpan clientTraceSpan.toTraceSpan, .run .queue, .run .queue, .run .queue,
          .flushing none, .flushing none, .flushing none] = some e ∧
      e.exportedSpans = 1 ∧ (spansToOTLPExport [clientTraceSpan]).spans.length = 0 ∧
      e.droppedSpans = 0 ∧ e.queue = [] ∧ e.inHand = [] ∧ e.pending = [] := by
  refine ⟨_, rfl, ?_⟩
  decide +kernel

end Laminar.Otlp
