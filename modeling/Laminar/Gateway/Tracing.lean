import Mathlib

/-! The span recorder of `tracing.go`, without times and attributes. Random ids are the draws of
`randomHex`, numbered in order. -/
namespace Laminar.Gateway

structure TraceSpan where
  traceID : String
  spanID : String
  parentSpanID : String
  name : String
  status : String
deriving DecidableEq

/-- `serial` tells one span object from another. -/
structure ActiveSpan where
  serial : Nat
  traceID : String
  spanID : String
  parentID : String
  name : String
deriving DecidableEq

/-- `ended` lists the span objects whose `ended` flag is set. -/
structure TraceRecorder where
  capacity : Nat := 2048
  spans : List TraceSpan := []
  ended : List Nat := []
  draws : Nat := 0
deriving DecidableEq

/-- `NewTraceRecorder`; 2048 is `defaultTraceCapacity`. -/
def newTraceRecorder (capacity : Int) : TraceRecorder :=
  { capacity := if capacity ≤ 0 then 2048 else capacity.toNat }

variable (randomHex : Nat → Nat → String)

def TraceRecorder.startSpan (r : TraceRecorder) (name parentSpanID traceID : String) :
    ActiveSpan × TraceRecorder :=
  let traced := if traceID = "" then (randomHex r.draws 16, r.draws + 1) else (traceID, r.draws)
  ({ serial := traced.2, traceID := traced.1, spanID := randomHex traced.2 8
     parentID := parentSpanID, name := name },
    { r with draws := traced.2 + 1 })

def TraceRecorder.recordSpan (r : TraceRecorder) (span : TraceSpan) : TraceRecorder :=
  let spans := r.spans ++ [span]
  { r with spans := spans.drop (spans.length - r.capacity) }

def TraceRecorder.endSpan (r : TraceRecorder) (s : ActiveSpan) (status : String) : TraceRecorder :=
  if s.serial ∈ r.ended then r
  else TraceRecorder.recordSpan { r with ended := s.serial :: r.ended }
    { traceID := s.traceID, spanID := s.spanID, parentSpanID := s.parentID, name := s.name
      status := status }

end Laminar.Gateway
