import Laminar.Llama.BrokenRead
import Laminar.Llama.Server

/-! The events of `ProcessStream`: tokens numbered from zero, one `done` at the end of a success,
and nothing after the first event that is refused. -/
namespace Laminar.Llama
open Laminar.Lines

def TokenEvents (events : List BackendStreamEvent) : Prop :=
  ∀ (n : Nat) (event : BackendStreamEvent), events[n]? = some event →
    event.eventType = text "token" ∧ event.metadata.lookup (text "token_index") = some (decimal n)

def deltas (events : List BackendStreamEvent) : Bytes := events.flatMap BackendStreamEvent.delta

theorem TokenEvents.snoc {events : List BackendStreamEvent} (h : TokenEvents events)
    {event : BackendStreamEvent} (htype : event.eventType = text "token")
    (hindex : event.metadata.lookup (text "token_index") = some (decimal events.length)) :
    TokenEvents (events ++ [event]) := by
  intro n e he
  rcases Nat.lt_trichotomy n events.length with hn | rfl | hn
  · rw [List.getElem?_append_left hn] at he
    exact h n e he
  · rw [List.getElem?_concat_length] at he
    obtain rfl := Option.some.inj he
    exact ⟨htype, hindex⟩
  · have hlt := (List.getElem?_eq_some_iff.mp he).1
    rw [List.length_append, List.length_singleton] at hlt
    omega

theorem TokenEvents.not_done {events : List BackendStreamEvent} (h : TokenEvents events)
    {event : BackendStreamEvent} (he : event ∈ events) : event.eventType ≠ text "done" := by
  obtain ⟨n, hn⟩ := List.getElem?_of_mem he
  rw [(h n event hn).1]
  decide

section
variable (accepts : List BackendStreamEvent → Bool)

/-- Every event but the last was accepted; `ok` is the answer to the last. -/
structure Answered (ok : Bool) (events : List BackendStreamEvent) : Prop where
  before : ∀ n, n + 1 < events.length → accepts (events.take (n + 1)) = true
  last : events ≠ [] → accepts events = ok
  refused : ok = false → events ≠ []

variable {accepts}

theorem Answered.snoc {events : List BackendStreamEvent} (h : Answered accepts true events)
    (event : BackendStreamEvent) :
    Answered accepts (accepts (events ++ [event])) (events ++ [event]) := by
  refine ⟨fun n hn => ?_, fun _ => rfl, fun _ => by simp⟩
  rw [List.length_append, List.length_singleton] at hn
  have hle : n + 1 ≤ events.length := by omega
  rw [List.take_append_of_le_length hle]
  rcases Nat.lt_or_eq_of_le hle with hlt | heq
  · exact h.before n hlt
  · rw [heq, List.take_length]
    refine h.last fun hnil => ?_
    rw [hnil] at heq
    exact absurd heq (by simp)

structure Streamed (accepts : List BackendStreamEvent → Bool) (ok : Bool) (s : StreamState) :
    Prop where
  tokens : TokenEvents s.events
  index : s.tokenIndex = s.events.length
  content : s.completion.content = deltas s.events
  answered : Answered accepts ok s.events

theorem streamed_start : Streamed accepts true ({} : StreamState) :=
  ⟨fun n event he => absurd he (by simp), rfl, rfl,
    ⟨fun n hn => absurd hn (Nat.not_lt_zero _), fun h => absurd rfl h, nofun⟩⟩

theorem Streamed.withPending {ok : Bool} {s : StreamState} (h : Streamed accepts ok s)
    (pendingLine : Bytes) : Streamed accepts ok { s with pendingLine := pendingLine } :=
  ⟨h.tokens, h.index, h.content, h.answered⟩

variable (accepts)

inductive LineStep (s : StreamState) : Bool × StreamState → Prop where
  | quiet (s' : StreamState) (hevents : s'.events = s.events)
      (hindex : s'.tokenIndex = s.tokenIndex)
      (hcontent : s'.completion.content = s.completion.content) : LineStep s (true, s')
  | token (event : BackendStreamEvent) (s' : StreamState)
      (htype : event.eventType = text "token")
      (hnumber : event.metadata.lookup (text "token_index") = some (decimal s.tokenIndex))
      (hevents : s'.events = s.events ++ [event]) (hindex : s'.tokenIndex = s.tokenIndex + 1)
      (hcontent : s'.completion.content = s.completion.content ++ event.delta) :
      LineStep s (accepts (s.events ++ [event]), s')

theorem tokenEvent_index (chunk : LlamaServerChunk) (tokenIndex : Nat)
    (completion : LlamaServerCompletion) :
    (tokenEvent chunk tokenIndex completion).metadata.lookup (text "token_index") =
      some (decimal tokenIndex) := by
  have hstream : (text "token_index" == text "stream") = false := by decide
  simp [tokenEvent, List.lookup, hstream]

theorem consumeLine_lineStep (line : Bytes) (s : StreamState) :
    LineStep accepts s (consumeLine accepts line s) := by
  unfold consumeLine
  simp only [StreamState.emit]
  split_ifs
  · exact .quiet s rfl rfl rfl
  · exact .quiet s rfl rfl rfl
  · exact .quiet s rfl rfl rfl
  · exact .quiet _ rfl rfl rfl
  · exact .token _ _ rfl (tokenEvent_index _ _ _) rfl rfl rfl

theorem consumeLine_streamed (line : Bytes) {s : StreamState} (h : Streamed accepts true s) :
    Streamed accepts (consumeLine accepts line s).1 (consumeLine accepts line s).2 := by
  have hstep := consumeLine_lineStep accepts line s
  generalize consumeLine accepts line s = r at hstep ⊢
  cases hstep with
  | quiet s' hevents hindex hcontent =>
    refine ⟨?_, ?_, ?_, ?_⟩ <;> simp only [hevents, hindex, hcontent]
    · exact h.tokens
    · exact h.index
    · exact h.content
    · exact h.answered
  | token event s' htype hnumber hevents hindex hcontent =>
    refine ⟨?_, ?_, ?_, ?_⟩ <;> simp only [hevents, hindex, hcontent]
    · exact h.tokens.snoc htype (h.index ▸ hnumber)
    · rw [List.length_append, List.length_singleton, h.index]
    · rw [h.content, deltas, deltas, List.flatMap_append, List.flatMap_singleton]
    · exact h.answered.snoc event

theorem drainLines_streamed (rounds : Nat) {s : StreamState} (h : Streamed accepts true s) :
    Streamed accepts (drainLines accepts rounds s).1 (drainLines accepts rounds s).2 := by
  induction rounds generalizing s with
  | zero => exact h
  | succ rounds ih =>
    unfold drainLines
    cases hfind : find [10] s.pendingLine with
    | none => exact h
    | some newline =>
      have hline := consumeLine_streamed accepts (s.pendingLine.take newline)
        (h.withPending (s.pendingLine.drop (newline + 1)))
      simp only
      split_ifs with hok
      · rw [hok] at hline
        exact ih hline
      · rwa [Bool.eq_false_iff.mpr hok] at hline

theorem onBody_streamed (piece : Bytes) {s : StreamState} (h : Streamed accepts true s) :
    Streamed accepts (onBody accepts piece s).1 (onBody accepts piece s).2 :=
  drainLines_streamed accepts _ (h.withPending (s.pendingLine ++ piece))

theorem flushLine_streamed {s : StreamState} (h : Streamed accepts true s) :
    Streamed accepts (flushLine accepts s).1 (flushLine accepts s).2 := by
  unfold flushLine
  split_ifs
  · exact h
  · exact consumeLine_streamed accepts s.pendingLine (h.withPending [])

/-- When the request ends, no event was refused, or the response says so. -/
theorem httpPostJsonStream_streamed (isCancelled : Nat → Bool) (url : ParsedHttpUrl) (body : Bytes)
    (c : Connection) (polls : Nat) :
    let r := httpPostJsonStream isCancelled (onBody accepts) url body c ({} : StreamState) polls
    Streamed accepts true r.2.1 ∨ (Streamed accepts false r.2.1 ∧ r.1.error = cancelled) := by
  intro r
  have hkeep : ∀ piece s, Streamed accepts true s →
      ((onBody accepts piece s).1 = true ∧ Streamed accepts true (onBody accepts piece s).2) ∨
        ((onBody accepts piece s).1 = false ∧
          Streamed accepts false (onBody accepts piece s).2) := by
    intro piece s hs
    have hbody := onBody_streamed accepts piece hs
    cases hok : (onBody accepts piece s).1 with
    | true => exact Or.inl ⟨rfl, hok ▸ hbody⟩
    | false => exact Or.inr ⟨rfl, hok ▸ hbody⟩
  have hloop := fun polls => streamLoop_kept hkeep isCancelled c c.reads
    ({ sink := {} } : StreamRead StreamState) polls streamed_start
  show Streamed accepts true (httpPostJsonStream _ _ _ _ _ _ _).2.1 ∨ _
  unfold r httpPostJsonStream
  rcases postRequest isCancelled url body c polls with ⟨_ | error, polls'⟩
  · simp only
    have hend := hloop polls'
    rcases hread : streamLoop isCancelled (onBody accepts) c c.reads { sink := {} } polls' with
      ⟨_ | _, t, polls''⟩
    · rw [hread] at hend
      exact hend.imp_right fun hrefused => ⟨hrefused.1, hrefused.2.2⟩
    · rw [hread] at hend
      exact Or.inl (hend.resolve_right fun hrefused => Bool.false_ne_true hrefused.2.1.symm)
  · exact Or.inl streamed_start

end

/-- What the events of an answer are, whatever came and whoever refused. -/
structure StreamProtocol (b : LlamaServerBackend) (accepts : List BackendStreamEvent → Bool)
    (request : BackendRequest) (c : Connection) (o : StreamOutcome) : Prop where
  order : ∃ tokens, TokenEvents tokens ∧ (o.events = tokens ∨
    ∃ event, event.eventType = text "done" ∧ o.events = tokens ++ [event])
  refusal : ∀ n, n + 1 < o.events.length → accepts (o.events.take (n + 1)) = true
  success : o.result.code = .ok ↔ ∃ before event after, o.events = before ++ event :: after ∧
    event.eventType = text "done" ∧ accepts (before ++ [event]) = true
  content : o.result.code = .ok → ∃ tokens event ttftMicros,
    o.events = tokens ++ [event] ∧ TokenEvents tokens ∧ deltas tokens = o.completion.content ∧
    event.result = formatLlamaServerOutput b true (collapseWhitespace o.completion.content)
      (endpointForOutput b.serverUrl) request.prompt.length c.elapsedMicros 1 ttftMicros
      o.completion ∧
    o.result.outputs = [event.result]

section
variable {b : LlamaServerBackend} {accepts : List BackendStreamEvent → Bool}
  {request : BackendRequest} {c : Connection}

theorem Streamed.protocol {ok : Bool} {s : StreamState} (h : Streamed accepts ok s)
    {result : BackendResult} (hcode : result.code ≠ .ok) :
    StreamProtocol b accepts request c
      { result := result, events := s.events, completion := s.completion } := by
  refine ⟨⟨s.events, h.tokens, Or.inl rfl⟩, h.answered.before, iff_of_false hcode ?_,
    fun hok => absurd hok hcode⟩
  rintro ⟨before, event, after, hevents, hdone, -⟩
  have hmem : event ∈ s.events := by
    rw [show s.events = before ++ event :: after from hevents]
    simp
  exact h.tokens.not_done hmem hdone

def doneEvent (b : LlamaServerBackend) (request : BackendRequest) (c : Connection)
    (response : HttpResponse) (completion : LlamaServerCompletion) : BackendStreamEvent :=
  let generated := collapseWhitespace completion.content
  { eventType := text "done"
    result := formatLlamaServerOutput b true generated (endpointForOutput b.serverUrl)
      request.prompt.length c.elapsedMicros 1 response.firstResponseByteMicros completion
    metadata := buildLlamaServerMetadata true b.cachePrompt b.timingsPerToken completion
      request.prompt.length generated.length response.firstResponseByteMicros }

theorem finishStream_done_event (response : HttpResponse) (s : StreamState) :
    let event := doneEvent b request c response s.completion
    finishStream b accepts request c response s =
      { result := if accepts (s.events ++ [event]) = true then
          { outputs := [event.result], outputMetadata := [event.metadata] } else cancelledResult
        events := s.events ++ [event]
        completion := s.completion } := by
  unfold finishStream doneEvent
  rfl

/-- The answer is ok exactly if the last event is taken, and then holds its output. -/
theorem finishStream_ok (response : HttpResponse) (s : StreamState) :
    let event := doneEvent b request c response s.completion
    let result := (finishStream b accepts request c response s).result
    (result.code = .ok ↔ accepts (s.events ++ [event]) = true) ∧
      (result.code = .ok → result.outputs = [event.result]) := by
  intro event result
  simp only [result, finishStream_done_event]
  split_ifs with hok
  · exact ⟨iff_of_true rfl hok, fun _ => rfl⟩
  · exact ⟨iff_of_false (by simp [cancelledResult]) hok, by simp [cancelledResult]⟩

theorem finishStream_protocol (response : HttpResponse) {s : StreamState}
    (h : Streamed accepts true s) :
    StreamProtocol b accepts request c (finishStream b accepts request c response s) := by
  have hdone : (doneEvent b request c response s.completion).eventType = text "done" := rfl
  have hresult : (doneEvent b request c response s.completion).result =
      formatLlamaServerOutput b true (collapseWhitespace s.completion.content)
        (endpointForOutput b.serverUrl) request.prompt.length c.elapsedMicros 1
        response.firstResponseByteMicros s.completion := rfl
  obtain ⟨hcode, houtputs⟩ := @finishStream_ok b accepts request c response s
  rw [finishStream_done_event] at hcode houtputs ⊢
  generalize doneEvent b request c response s.completion = event at hdone hresult hcode houtputs ⊢
  -- a `done` event before the last would be among the tokens
  have honly : (∃ before last after, s.events ++ [event] = before ++ last :: after ∧
      last.eventType = text "done" ∧ accepts (before ++ [last]) = true) →
        accepts (s.events ++ [event]) = true := by
    rintro ⟨before, last, after, heq, hlast, hok⟩
    rcases List.eq_nil_or_concat after with rfl | ⟨rest, x, rfl⟩
    · rwa [heq]
    · rw [List.concat_eq_append, ← List.cons_append, ← List.append_assoc] at heq
      have hmem : last ∈ s.events := by
        rw [(List.append_inj' heq rfl).1]
        simp
      exact absurd hlast (h.tokens.not_done hmem)
  refine ⟨⟨s.events, h.tokens, Or.inr ⟨event, hdone, rfl⟩⟩, (h.answered.snoc event).before,
    hcode.trans ⟨fun hok => ⟨s.events, event, [], rfl, hdone, hok⟩, honly⟩, fun hok => ?_⟩
  exact ⟨s.events, event, _, rfl, h.tokens, h.content.symm, hresult, houtputs hok⟩

inductive StreamEnds (b : LlamaServerBackend) (accepts : List BackendStreamEvent → Bool)
    (request : BackendRequest) (c : Connection) : StreamOutcome → Prop
  | broken (ok : Bool) (s : StreamState) (result : BackendResult) (h : Streamed accepts ok s)
    (hcode : result.code ≠ .ok) : StreamEnds b accepts request c
      { result := result, events := s.events, completion := s.completion }
  | finished (response : HttpResponse) (s : StreamState) (h : Streamed accepts true s) :
    StreamEnds b accepts request c (finishStream b accepts request c response s)

theorem StreamEnds.protocol {o : StreamOutcome} (h : StreamEnds b accepts request c o) :
    StreamProtocol b accepts request c o := by
  cases h with
  | broken ok s result h hcode => exact h.protocol hcode
  | finished response s h => exact finishStream_protocol response h

theorem concludeStream_ends (isCancelled : Nat → Bool) (response : HttpResponse)
    {s : StreamState} (polls : Nat) (h : Streamed accepts true s ∨
      (Streamed accepts false s ∧ response.error = cancelled)) :
    StreamEnds b accepts request c
      (concludeStream b isCancelled accepts request c response s polls) := by
  have hcancelled : cancelledResult.code ≠ .ok := by simp [cancelledResult]
  unfold concludeStream
  by_cases hstop : isCancelled polls = true ∨ response.error = cancelled
  · rw [if_pos hstop]
    rcases h with h | ⟨h, -⟩
    · exact .broken true s _ h hcancelled
    · exact .broken false s _ h hcancelled
  rw [if_neg hstop]
  have h := h.resolve_right fun hrefused => hstop (Or.inr hrefused.2)
  have hflush := flushLine_streamed accepts h
  simp only
  split_ifs with hok htaken hcontent
  · exact .broken true s _ h (by simp [unavailableResult])
  · exact .broken _ _ _ hflush hcancelled
  · exact .broken _ _ _ hflush (by simp [unavailableResult])
  · have htaken : (flushLine accepts s).1 = true := by simpa using htaken
    rw [htaken] at hflush
    exact .finished response _ hflush

theorem processStream_ends (hstream : b.stream = true) (isCancelled : Nat → Bool) :
    StreamEnds b accepts request c (processStream b isCancelled accepts request c) := by
  unfold processStream
  rw [hstream, if_neg (by decide)]
  simp only
  split_ifs
  · exact .broken true {} _ streamed_start (by simp [cancelledResult])
  · exact .broken true {} _ streamed_start (by simp [unavailableResult])
  · exact concludeStream_ends isCancelled _ _
      (httpPostJsonStream_streamed accepts isCancelled _ _ c 1)

end

/-- Whatever llama-server answers, however it comes, whoever cancels and whatever is refused: the
events of a backend in stream mode keep the protocol. -/
theorem stream_protocol (serverUrl : Bytes) (maxTokens : Int) (temperature : Bytes)
    (cachePrompt timingsPerToken : Bool) (isCancelled : Nat → Bool)
    (accepts : List BackendStreamEvent → Bool) (request : BackendRequest) (c : Connection) :
    let b := llamaServerBackend serverUrl maxTokens temperature cachePrompt true timingsPerToken
    StreamProtocol b accepts request c (processStream b isCancelled accepts request c) := by
  intro b
  exact (processStream_ends rfl isCancelled).protocol

end Laminar.Llama
