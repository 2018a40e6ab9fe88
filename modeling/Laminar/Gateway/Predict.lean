import Laminar.Gateway.Batcher
import Laminar.Gateway.PredictStream

/-! `handlePredict` of `main.go` over the batcher, and the headers it reads and writes
(`tracing.go`). Decoding the body is taken as done. -/
namespace Laminar.Gateway

structure TraceContext where
  traceID : String
  parentSpanID : String
  traceFlags : String
deriving DecidableEq

def defaultTraceFlags : String := "01"

def isLowerHex (value : String) (length : Nat) : Bool :=
  value.utf8ByteSize == length &&
    value.toList.all fun ch => ('0' ≤ ch && ch ≤ '9') || ('a' ≤ ch && ch ≤ 'f')

def isAllZero (value : String) : Bool := value.toList.all (· == '0')

def isValidTraceID (value : String) : Bool := isLowerHex value 32 && !isAllZero value

def isValidSpanID (value : String) : Bool := isLowerHex value 16 && !isAllZero value

/-- `strings.ToLower` for a text that is then checked to be hexadecimal. -/
def toLower (s : String) : String := String.ofList (s.toList.map Char.toLower)

def parseTraceParent (header : String) : Option TraceContext :=
  match ((trimSpace header).toList.splitOn '-').map String.ofList with
  | [version, traceID, parentSpanID, traceFlags] =>
    let c : TraceContext :=
      { traceID := toLower traceID, parentSpanID := toLower parentSpanID
        traceFlags := toLower traceFlags }
    if version ≠ "00" then none
    else if !isValidTraceID c.traceID || !isValidSpanID c.parentSpanID ||
        !isLowerHex c.traceFlags 2 then none
    else some c
  | _ => none

def formatTraceParent (traceID spanID traceFlags : String) : Option String :=
  let traceID := toLower (trimSpace traceID)
  let spanID := toLower (trimSpace spanID)
  let traceFlags := toLower (trimSpace traceFlags)
  let traceFlags := if traceFlags = "" then defaultTraceFlags else traceFlags
  if !isValidTraceID traceID || !isValidSpanID spanID || !isLowerHex traceFlags 2 then none
  else some ("00-" ++ traceID ++ "-" ++ spanID ++ "-" ++ traceFlags)

/-- What the handler reads of a request; `prompt` is missing when the body does not decode. -/
structure PredictRequest where
  method : String := "POST"
  prompt : Option String
  xTraceID : String := ""
  traceparent : String := ""
deriving DecidableEq

structure PredictResponse where
  statusCode : Nat
  xTraceID : String
  traceparent : Option String
  body : Response
deriving DecidableEq

/-- The handler's checks before its span: the prompt, or the status and text of `http.Error`. -/
def checkPredict (maxPromptBytes : Int) (r : PredictRequest) : Except (Nat × String) String :=
  if r.method ≠ "POST" then .error (405, "method not allowed")
  else
    match r.prompt with
    | none => .error (400, "invalid JSON")
    | some prompt =>
      let prompt := trimSpace prompt
      if prompt = "" then .error (400, "prompt is required")
      else if prompt.utf8ByteSize > maxPromptBytes then .error (413, "prompt is too large")
      else .ok prompt

def spanStatus (resp : Response) : String :=
  if resp.error = "" then "ok"
  else if resp.errorCode = some .requestCancelled then "cancelled"
  else "error"

def statusCode (resp : Response) : Nat :=
  if resp.error = "" then 200
  else
    match resp.errorCode with
    | some code => statusForError code
    | none => 500

structure Handler where
  span : ActiveSpan := ⟨0, "", "", "", ""⟩
  traceID : String := ""
  traceFlags : String := ""
  response : Option PredictResponse := none

/-- The gateway with its handlers of `/predict`, each under the number of its `Submit` call. -/
structure Server extends Batcher where
  handlers : Nat → Handler := fun _ => {}

def newServer (cfg : Config) : Server := { toBatcher := newBatcher cfg }

section
variable (randomHex : Nat → Nat → String)

def TraceRecorder.traceContext (t : TraceRecorder) (r : PredictRequest) :
    TraceContext × TraceRecorder :=
  match parseTraceParent r.traceparent with
  | some c => (c, t)
  | none =>
    let traceID := trimSpace r.xTraceID
    if traceID = "" then (⟨randomHex t.draws 16, "", defaultTraceFlags⟩,
      { t with draws := t.draws + 1 })
    else if isValidTraceID (toLower traceID) then (⟨toLower traceID, "", defaultTraceFlags⟩, t)
    else (⟨traceID, "", defaultTraceFlags⟩, t)

variable (config : Config) (maxPromptBytes : Int)

def Server.predict (s : Server) (r : PredictRequest) : Option Server :=
  match checkPredict maxPromptBytes r with
  | .error _ => some s
  | .ok prompt =>
    let c := s.tracer.traceContext randomHex r
    let span := c.2.startSpan randomHex "http.predict" c.1.parentSpanID c.1.traceID
    let handler : Handler :=
      { span := span.1, traceID := c.1.traceID, traceFlags := c.1.traceFlags }
    (step config randomHex { s.toBatcher with tracer := span.2 }
      (.submit prompt c.1.traceID span.1.spanID)).map fun g =>
        { toBatcher := g, handlers := Function.update s.handlers s.submitted handler }

def Server.answer (s : Server) (k : Nat) : Option Server :=
  match (s.calls k).pc with
  | .returned resp =>
    let h := s.handlers k
    if k < s.submitted ∧ h.response = none then
      let response : PredictResponse :=
        { statusCode := statusCode resp
          xTraceID := h.traceID
          traceparent := formatTraceParent h.traceID h.span.spanID h.traceFlags
          body := resp }
      some { s with
        tracer := s.tracer.endSpan h.span (spanStatus resp)
        handlers := Function.update s.handlers k { h with response := some response } }
    else none
  | _ => none

inductive Server.Action where
  | predict (r : PredictRequest)
  | answer (k : Nat)
  | gateway (a : Gateway.Action)

def Server.step (s : Server) : Server.Action → Option Server
  | .predict r => s.predict randomHex config maxPromptBytes r
  | .answer k => s.answer k
  | .gateway (.submit _ _ _) => none
  | .gateway a =>
    (Gateway.step config randomHex s.toBatcher a).map fun g => { s with toBatcher := g }

end

end Laminar.Gateway
