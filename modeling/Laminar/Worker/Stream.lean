import Laminar.Gateway.PredictStream
import Laminar.Llama.StreamProtocol

/-! `InferenceServiceImpl::Stream` of `main.cc` over any backend, the call that carries its messages
to the gateway, and what the HTTP client reads at the end of it. -/
namespace Laminar.Worker
open Llama

/-- `InferenceBackend::ProcessStream`, for the backends that have no own. -/
def processStream (processBatch : List Llama.BackendRequest → Llama.BackendResult)
    (accepts : List BackendStreamEvent → Bool) (request : Llama.BackendRequest) : StreamOutcome :=
  let result := processBatch [request]
  if result.code ≠ .ok then { result := result }
  else
    match result.outputs with
    | [output] =>
      let event : BackendStreamEvent :=
        { eventType := text "done", result := output, metadata := result.outputMetadata.headD [] }
      { result := if accepts [event] then result else cancelledResult, events := [event] }
    | _ => { result := unavailableResult (text "backend returned the wrong number of outputs") }

structure StreamMessage where
  id : Bytes
  traceId : Bytes
  eventType : Bytes
  delta : Bytes
  result : Bytes
  backendName : Bytes
  backendMetadata : Llama.Metadata
deriving DecidableEq

inductive Status where
  | ok
  | error (code : Gateway.Code) (message : Bytes)
deriving DecidableEq

/-- The callback of `Stream`; `accepts` is what `writer->Write` answers. -/
def streamMessage (name : Bytes) (request : Llama.BackendRequest) (event : BackendStreamEvent) :
    StreamMessage :=
  { id := request.id
    traceId := request.traceId
    eventType := event.eventType
    delta := event.delta
    result := event.result
    backendName := name
    backendMetadata := event.metadata }

def streamStatus (result : Llama.BackendResult) : Status :=
  match result.code with
  | .cancelled => .error .canceled result.message
  | .invalidArgument => .error .invalidArgument result.message
  | .unavailable => .error .unavailable result.message
  | .ok =>
    if result.outputs.length ≠ 1 then
      .error .internal (text "backend returned the wrong number of stream outputs")
    else .ok

def accepted (accepts : List BackendStreamEvent → Bool) :
    List BackendStreamEvent → List BackendStreamEvent → List BackendStreamEvent
  | _, [] => []
  | seen, event :: rest =>
    (if accepts (seen ++ [event]) then [event] else []) ++
      accepted accepts (seen ++ [event]) rest

def streamWritten (name : Bytes) (request : Llama.BackendRequest)
    (accepts : List BackendStreamEvent → Bool) (o : StreamOutcome) : List StreamMessage :=
  (accepted accepts [] o.events).map (streamMessage name request)

variable {accepts : List BackendStreamEvent → Bool} {request : Llama.BackendRequest}

/-- What the `ProcessStream` of some backend comes to. -/
inductive Streams (accepts : List BackendStreamEvent → Bool) (request : Llama.BackendRequest) :
    StreamOutcome → Prop
  | base (processBatch : List Llama.BackendRequest → Llama.BackendResult) :
    Streams accepts request (processStream processBatch accepts request)
  | llamaServer (b : LlamaServerBackend) (hstream : b.stream = true) (isCancelled : Nat → Bool)
    (c : Connection) : Streams accepts request (Llama.processStream b isCancelled accepts request c)

structure Emitted (accepts : List BackendStreamEvent → Bool) (o : StreamOutcome) : Prop where
  order : ∃ tokens, TokenEvents tokens ∧ deltas tokens = o.completion.content ∧
    ((o.result.code ≠ .ok ∧ o.events = tokens) ∨
      ∃ done, done.eventType = text "done" ∧ o.events = tokens ++ [done] ∧
        (o.result.code = .ok ↔ accepts (tokens ++ [done]) = true) ∧
        (o.result.code = .ok → o.result.outputs = [done.result]) ∧ done.delta = [])
  refusal : ∀ n, n + 1 < o.events.length → accepts (o.events.take (n + 1)) = true

theorem tokenEvents_nil : TokenEvents [] := fun _ _ he => absurd he (by simp)

theorem emitted_silent {result : Llama.BackendResult} (hcode : result.code ≠ .ok) :
    Emitted accepts { result := result } :=
  ⟨⟨[], tokenEvents_nil, rfl, Or.inl ⟨hcode, rfl⟩⟩,
    fun _ hn => absurd hn (Nat.not_lt_zero _)⟩

theorem processStream_emitted
    (processBatch : List Llama.BackendRequest → Llama.BackendResult) :
    Emitted accepts (processStream processBatch accepts request) := by
  have hcancelled : cancelledResult.code ≠ .ok := by simp [cancelledResult]
  unfold processStream
  simp only
  by_cases hcode : (processBatch [request]).code = .ok
  · rw [if_neg (not_not.mpr hcode)]
    rcases houtputs : (processBatch [request]).outputs with _ | ⟨output, _ | ⟨_, _⟩⟩
    · exact emitted_silent (by simp [unavailableResult])
    · refine ⟨⟨[], tokenEvents_nil, rfl,
        Or.inr ⟨_, rfl, rfl, ?_, ?_, rfl⟩⟩, fun n hn => absurd hn (by simp)⟩
      · simp only [List.nil_append]
        split_ifs with hok
        · exact iff_of_true hcode hok
        · exact iff_of_false hcancelled hok
      · simp only
        split_ifs with hok
        · exact fun _ => houtputs
        · exact fun h => absurd h hcancelled
    · exact emitted_silent (by simp [unavailableResult])
  · rw [if_pos hcode]
    exact emitted_silent hcode

theorem emitted_stream {b : LlamaServerBackend} {c : Connection} {o : StreamOutcome}
    (h : StreamEnds b accepts request c o) : Emitted accepts o := by
  cases h with
  | broken ok s result h hcode =>
    exact ⟨⟨s.events, h.tokens, h.content.symm, Or.inl ⟨hcode, rfl⟩⟩, h.answered.before⟩
  | finished response s h =>
    obtain ⟨hcode, houtputs⟩ := @finishStream_ok b accepts request c response s
    rw [finishStream_done_event] at hcode houtputs ⊢
    exact ⟨⟨s.events, h.tokens, h.content.symm, Or.inr ⟨_, rfl, rfl, hcode, houtputs, rfl⟩⟩,
      (h.answered.snoc _).before⟩

theorem streams_emitted {o : StreamOutcome} (h : Streams accepts request o) :
    Emitted accepts o := by
  cases h with
  | base processBatch => exact processStream_emitted processBatch
  | llamaServer b hstream isCancelled c =>
    exact emitted_stream (processStream_ends hstream isCancelled)

theorem accepted_append (seen front back : List BackendStreamEvent) :
    accepted accepts seen (front ++ back) =
      accepted accepts seen front ++ accepted accepts (seen ++ front) back := by
  induction front generalizing seen with
  | nil => simp [accepted]
  | cons event rest ih => simp [accepted, ih]

theorem accepted_all {seen rest : List BackendStreamEvent}
    (h : ∀ n, n < rest.length → accepts (seen ++ rest.take (n + 1)) = true) :
    accepted accepts seen rest = rest := by
  induction rest generalizing seen with
  | nil => rfl
  | cons event rest ih =>
    have hfirst : accepts (seen ++ [event]) = true := h 0 (Nat.succ_pos _)
    have hrest : accepted accepts (seen ++ [event]) rest = rest := ih fun n hn => by
      have hnext := h (n + 1) (Nat.succ_lt_succ hn)
      rwa [List.take_succ_cons, ← List.singleton_append, ← List.append_assoc] at hnext
    rw [accepted, if_pos hfirst, hrest, List.singleton_append]

/-- Only the last event can be refused. -/
theorem Emitted.accepted_concat {o : StreamOutcome} (h : Emitted accepts o)
    {front : List BackendStreamEvent} {last : BackendStreamEvent}
    (hevents : o.events = front ++ [last]) :
    accepted accepts [] o.events =
      front ++ if accepts (front ++ [last]) = true then [last] else [] := by
  have hfront : accepted accepts [] front = front := accepted_all fun n hn => by
    have hn' : n + 1 < o.events.length := by
      rw [hevents, List.length_append, List.length_singleton]
      omega
    have hbefore := h.refusal n hn'
    rwa [hevents, List.take_append_of_le_length (by omega)] at hbefore
  rw [hevents, accepted_append, hfront, accepted, accepted, List.nil_append, List.append_nil]

theorem TokenEvents.of_prefix {tokens front : List BackendStreamEvent} (h : TokenEvents tokens)
    (hfront : front <+: tokens) : TokenEvents front := by
  obtain ⟨back, rfl⟩ := hfront
  intro n event hn
  have hlt := (List.getElem?_eq_some_iff.mp hn).1
  exact h n event (by rw [List.getElem?_append_left hlt, hn])

theorem deltas_prefix {tokens front : List BackendStreamEvent} (hfront : front <+: tokens) :
    deltas front <+: deltas tokens := by
  obtain ⟨back, rfl⟩ := hfront
  exact ⟨deltas back, by simp [deltas]⟩

/-- A call of `Stream`: numbered tokens, then one `done` with the output if the status is OK, and
none if it is not. -/
structure StreamContract (name : Bytes) (request : Llama.BackendRequest) (o : StreamOutcome)
    (status : Status) (messages : List StreamMessage) : Prop where
  stamped : ∀ m ∈ messages, m.id = request.id ∧ m.traceId = request.traceId ∧ m.backendName = name
  ended : ∃ tokens : List StreamMessage,
    (∀ (n : Nat) (m : StreamMessage), tokens[n]? = some m → m.eventType = text "token" ∧
      m.backendMetadata.lookup (text "token_index") = some (decimal n)) ∧
    ((status = .ok ∧ o.result.code = .ok ∧
        tokens.flatMap StreamMessage.delta = o.completion.content ∧
        ∃ done, done.eventType = text "done" ∧ done.delta = [] ∧
          o.result.outputs = [done.result] ∧ messages = tokens ++ [done]) ∨
      (o.result.code ≠ .ok ∧ (∃ code, code ≠ .internal ∧ status = .error code o.result.message) ∧
        tokens.flatMap StreamMessage.delta <+: o.completion.content ∧ messages = tokens))

theorem streamStatus_error {result : Llama.BackendResult} (h : result.code ≠ .ok) :
    ∃ code, code ≠ Gateway.Code.internal ∧ streamStatus result = .error code result.message := by
  unfold streamStatus
  cases hcode : result.code with
  | ok => exact absurd hcode h
  | cancelled => exact ⟨_, by decide, rfl⟩
  | invalidArgument => exact ⟨_, by decide, rfl⟩
  | unavailable => exact ⟨_, by decide, rfl⟩

theorem streamMessage_deltas (name : Bytes) (request : Llama.BackendRequest)
    (events : List BackendStreamEvent) :
    (events.map (streamMessage name request)).flatMap StreamMessage.delta = deltas events := by
  rw [List.flatMap_map]
  rfl

theorem streamMessage_numbered (name : Bytes) (request : Llama.BackendRequest)
    {tokens : List BackendStreamEvent} (h : TokenEvents tokens) (n : Nat) (m : StreamMessage)
    (hm : (tokens.map (streamMessage name request))[n]? = some m) :
    m.eventType = text "token" ∧
      m.backendMetadata.lookup (text "token_index") = some (decimal n) := by
  rw [List.getElem?_map, Option.map_eq_some_iff] at hm
  obtain ⟨event, hevent, rfl⟩ := hm
  exact h n event hevent

theorem Emitted.contract {o : StreamOutcome} (h : Emitted accepts o) (name : Bytes) :
    StreamContract name request o (streamStatus o.result)
      (streamWritten name request accepts o) := by
  refine ⟨fun m hm => ?_, ?_⟩
  · obtain ⟨event, -, rfl⟩ := List.mem_map.mp hm
    exact ⟨rfl, rfl, rfl⟩
  obtain ⟨tokens, htokens, hcontent, hend⟩ := h.order
  rcases hend with ⟨hcode, hevents⟩ | ⟨done, htype, hevents, hok, houtput, hdelta⟩
  · have hprefix : accepted accepts [] o.events <+: tokens := by
      rcases List.eq_nil_or_concat o.events with hnil | ⟨front, last, hconcat⟩
      · rw [hnil]
        exact List.nil_prefix
      · rw [List.concat_eq_append] at hconcat
        rw [h.accepted_concat hconcat, ← hevents, hconcat]
        split_ifs
        · exact List.prefix_refl _
        · exact ⟨[last], by rw [List.append_nil]⟩
    refine ⟨_, streamMessage_numbered name request (TokenEvents.of_prefix htokens hprefix),
      Or.inr ⟨hcode, streamStatus_error hcode, ?_, rfl⟩⟩
    rw [streamMessage_deltas, ← hcontent]
    exact deltas_prefix hprefix
  · refine ⟨_, streamMessage_numbered name request htokens, ?_⟩
    unfold streamWritten
    rw [h.accepted_concat hevents, streamMessage_deltas]
    by_cases haccepted : accepts (tokens ++ [done]) = true
    · have hcode := hok.mpr haccepted
      refine Or.inl ⟨?_, hcode, hcontent, streamMessage name request done, htype, hdelta,
        houtput hcode, ?_⟩
      · simp [streamStatus, hcode, houtput hcode]
      · rw [if_pos haccepted, List.map_append, List.map_singleton]
    · have hcode : o.result.code ≠ .ok := fun hcode => haccepted (hok.mp hcode)
      refine Or.inr ⟨hcode, streamStatus_error hcode, ?_, ?_⟩
      · rw [hcontent]
      · rw [if_neg haccepted, List.append_nil]

end Laminar.Worker
