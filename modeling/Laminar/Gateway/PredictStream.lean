import Laminar.Gateway.Admission
import Laminar.Gateway.Messages
import Laminar.Gateway.Tracing

/-! `handlePredictStream` of `main.go` once it has a request: what it does for each thing that
`stream.Recv` tells it, and what the client gets to read. -/
namespace Laminar.Gateway

structure StreamResponse where
  id : String
  eventType : String := ""
  delta : String := ""
  result : String := ""
  backendName : String := ""
  backendMetadata : Metadata := []
deriving DecidableEq

structure StreamEvent where
  id : String
  delta : String := ""
  result : String := ""
  metadata : Metadata := []
deriving DecidableEq

inductive StreamEffect where
  | write (eventType : String) (payload : StreamEvent)
  | endSpan (s : ActiveSpan) (status : String)
  | recordToken (index : Nat)
  | httpError (message : String) (statusCode : Nat)
deriving DecidableEq

def statusForError : ErrorCode → Nat
  | .requestCancelled => 499
  | .admissionRejected => 429
  | .queueFull => 503
  | .workerUnavailable => 503
  | .workerTimeout => 504
  | .missingResponse => 502
  | .workerError => 500

structure StreamHandler where
  requestID : String
  httpSpan : ActiveSpan
  workerSpan : ActiveSpan
  backendSpan : ActiveSpan
  tokenIndex : Nat := 0
  doneSeen : Bool := false
deriving DecidableEq

namespace StreamHandler

/-- The handler when the worker does not open a stream. -/
def openFailed (h : StreamHandler) (err : Error) : List StreamEffect :=
  let failure := classifyWorkerError err
  [.endSpan h.workerSpan "error", .endSpan h.httpSpan "error",
    .httpError failure.2 (statusForError failure.1)]

/-- The handler when the response writer is not an `http.Flusher`. -/
def unflushable (h : StreamHandler) : List StreamEffect :=
  [.endSpan h.workerSpan "error", .endSpan h.httpSpan "error",
    .httpError "streaming unsupported" 500]

def finish (h : StreamHandler) : List StreamEffect :=
  let spanStatus := if h.doneSeen then "ok" else "error"
  (if h.doneSeen then [] else [.endSpan h.backendSpan "error"]) ++
    [.endSpan h.workerSpan spanStatus, .endSpan h.httpSpan spanStatus]

/-- `strings.TrimSpace(event.EventType)`, a token if that is empty. -/
def eventType (event : StreamResponse) : String :=
  let eventType := trimSpace event.eventType
  if eventType = "" then "token" else eventType

/-- One round of the receive loop: what `Recv` returned, and the error of the write to the client
if there is one. No handler comes back when this was the last round. -/
def receive (h : StreamHandler) (result : Except Error StreamResponse) (writeErr : Option Error) :
    Option StreamHandler × List StreamEffect :=
  match result with
  | .error .eof => (none, h.finish)
  | .error _ =>
    (none, [.write "error" { id := h.requestID, metadata := [("error", "worker stream failed")] },
      .endSpan h.backendSpan "error", .endSpan h.workerSpan "error", .endSpan h.httpSpan "error"])
  | .ok event =>
    let eventType := eventType event
    let payload : StreamEvent :=
      { id := event.id, delta := event.delta, result := event.result
        metadata := event.backendMetadata }
    if writeErr.isSome then
      (none, [.write eventType payload, .endSpan h.backendSpan "error",
        .endSpan h.workerSpan "error", .endSpan h.httpSpan "error"])
    else if eventType = "token" then
      (some { h with tokenIndex := h.tokenIndex + 1 },
        [.write eventType payload, .recordToken h.tokenIndex])
    else if eventType = "done" then
      (some { h with doneSeen := true }, [.write eventType payload, .endSpan h.backendSpan "ok"])
    else (some h, [.write eventType payload])

def receiveLoop (h : StreamHandler) :
    List (Except Error StreamResponse × Option Error) → List StreamEffect
  | [] => []
  | (result, writeErr) :: rest =>
    match h.receive result writeErr with
    | (none, effects) => effects
    | (some h', effects) => effects ++ h'.receiveLoop rest

end StreamHandler

def writtenTypes (effects : List StreamEffect) : List String :=
  effects.filterMap fun
    | .write eventType _ => some eventType
    | _ => none

def Terminal (eventType : String) : Prop := eventType = "done" ∨ eventType = "error"

instance : DecidablePred Terminal := fun eventType =>
  inferInstanceAs (Decidable (eventType = "done" ∨ eventType = "error"))

def EndsOnce (types : List String) : Prop :=
  ∃ front last, types = front ++ [last] ∧ Terminal last ∧ ∀ t ∈ front, ¬ Terminal t

theorem endsOnce_cons {t : String} {rest : List String} (hrest : rest ≠ []) :
    EndsOnce (t :: rest) ↔ ¬ Terminal t ∧ EndsOnce rest := by
  constructor
  · rintro ⟨front, last, htypes, hlast, hfront⟩
    cases front with
    | nil => exact absurd (List.cons.inj htypes).2 hrest
    | cons u front =>
      obtain ⟨rfl, rfl⟩ := List.cons.inj htypes
      exact ⟨hfront t List.mem_cons_self, front, last, rfl, hlast,
        fun u hu => hfront u (List.mem_cons_of_mem _ hu)⟩
  · rintro ⟨ht, front, last, rfl, hlast, hfront⟩
    refine ⟨t :: front, last, rfl, hlast, fun u hu => ?_⟩
    obtain rfl | hu := List.mem_cons.mp hu
    · exact ht
    · exact hfront u hu

namespace StreamHandler

def recvResults (events : List StreamResponse) (ending : Error) :
    List (Except Error StreamResponse × Option Error) :=
  events.map (fun event => (.ok event, none)) ++ [(.error ending, none)]

theorem receive_event (h : StreamHandler) (event : StreamResponse) :
    ∃ h' effects, h.receive (.ok event) none = (some h', effects) ∧
      writtenTypes effects = [eventType event] := by
  simp only [receive, Option.isSome_none, Bool.false_eq_true, if_false]
  split_ifs <;> exact ⟨_, _, rfl, rfl⟩

theorem finish_writes (h : StreamHandler) : writtenTypes h.finish = [] := by
  unfold finish
  cases h.doneSeen <;> rfl

theorem written_stream (h : StreamHandler) (events : List StreamResponse) (ending : Error) :
    writtenTypes (h.receiveLoop (recvResults events ending)) =
      events.map eventType ++ if ending = .eof then [] else ["error"] := by
  induction events generalizing h with
  | nil =>
    cases ending with
    | eof => exact finish_writes h
    | contextDeadlineExceeded => rfl
    | status code message => rfl
  | cons event events ih =>
    obtain ⟨h', effects, hround, hwritten⟩ := h.receive_event event
    have hloop : h.receiveLoop (recvResults (event :: events) ending) =
        effects ++ h'.receiveLoop (recvResults events ending) := by
      simp only [recvResults, List.map_cons, List.cons_append, receiveLoop, hround]
    have hsplit : ∀ rest,
        writtenTypes (effects ++ rest) = eventType event :: writtenTypes rest := by
      intro rest
      rw [writtenTypes, List.filterMap_append, ← writtenTypes, hwritten]
      rfl
    rw [hloop, hsplit, ih, List.map_cons, List.cons_append]

end StreamHandler

/-- The client reads one terminal event, and reads it last, exactly for those streams of the
worker that end once themselves: with a terminal event right before `io.EOF`, or with a failure
before any terminal event. -/
theorem clientStream_endsOnce_iff (h : StreamHandler) (events : List StreamResponse)
    (ending : Error) :
    EndsOnce (writtenTypes (h.receiveLoop (StreamHandler.recvResults events ending))) ↔
      if ending = .eof then
        ∃ front last, events = front ++ [last] ∧ Terminal (StreamHandler.eventType last) ∧
          ∀ event ∈ front, ¬ Terminal (StreamHandler.eventType event)
      else ∀ event ∈ events, ¬ Terminal (StreamHandler.eventType event) := by
  rw [StreamHandler.written_stream]
  split_ifs with heof
  · rw [List.append_nil]
    constructor
    · rintro ⟨front, last, htypes, hlast, hfront⟩
      obtain ⟨front', rest, rfl, rfl, hrest⟩ := List.map_eq_append_iff.mp htypes
      obtain ⟨last', rfl, rfl⟩ := List.map_eq_singleton_iff.mp hrest
      exact ⟨front', last', rfl, hlast, fun event hmem =>
        hfront _ (List.mem_map_of_mem hmem)⟩
    · rintro ⟨front, last, rfl, hlast, hfront⟩
      refine ⟨front.map StreamHandler.eventType, _, by rw [List.map_append]; rfl, hlast, ?_⟩
      intro t ht
      obtain ⟨event, hmem, rfl⟩ := List.mem_map.mp ht
      exact hfront event hmem
  · induction events with
    | nil => simpa using ⟨[], "error", rfl, Or.inr rfl, by simp⟩
    | cons event events ih =>
      rw [List.map_cons, List.cons_append, endsOnce_cons (by simp), ih, List.forall_mem_cons]

/-- A stream that just ends leaves its client without a terminal event. -/
theorem clientStream_silentEnd :
    let span : ActiveSpan := ⟨0, "trace", "span", "", "http.predict.stream"⟩
    let h : StreamHandler :=
      { requestID := "req-1", httpSpan := span, workerSpan := span, backendSpan := span }
    ¬ EndsOnce (writtenTypes (h.receiveLoop (StreamHandler.recvResults [] .eof))) := by
  rintro span h ⟨front, last, htypes, -⟩
  simp [StreamHandler.written_stream] at htypes

end Laminar.Gateway
