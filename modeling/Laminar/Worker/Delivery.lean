import Laminar.Worker.Stream

/-! The gRPC call between a worker's `Stream` and the gateway's `handlePredictStream`: what the
client of the gateway reads of what the backend said. -/
namespace Laminar.Worker
open Llama

theorem text_injective {s t : String} (h : text s = text t) : s = t := by
  have harray : s.toUTF8.data = t.toUTF8.data := Array.toList_inj.mp h
  exact String.toByteArray_inj.mp (ByteArray.ext harray)

/-- A message and the value that it is decoded to; strings that are not UTF-8 have none. -/
structure Carries (m : StreamMessage) (r : Gateway.StreamResponse) : Prop where
  id : text r.id = m.id
  eventType : text r.eventType = m.eventType
  delta : text r.delta = m.delta
  result : text r.result = m.result
  backendName : text r.backendName = m.backendName
  backendMetadata :
    (r.backendMetadata.map fun p => (text p.1, text p.2)).Perm m.backendMetadata

/-- What `stream.Recv` gives the gateway before its last error: all messages if that is `io.EOF`,
and otherwise the first ones. -/
inductive Delivered (status : Status) (messages : List StreamMessage) :
    List Gateway.StreamResponse → Gateway.Error → Prop
  | complete {received : List Gateway.StreamResponse} (hok : status = .ok)
    (hall : List.Forall₂ Carries messages received) : Delivered status messages received .eof
  | failed {received : List Gateway.StreamResponse} {ending : Gateway.Error} (n : Nat)
    (hfirst : List.Forall₂ Carries (messages.take n) received) (hending : ending ≠ .eof) :
    Delivered status messages received ending

section
open Gateway Gateway.StreamHandler

def writtenEvent : StreamEffect → Option (String × StreamEvent)
  | .write eventType payload => some (eventType, payload)
  | .endSpan _ _ => none
  | .recordToken _ => none
  | .httpError _ _ => none

def writes (effects : List StreamEffect) : List (String × StreamEvent) :=
  effects.filterMap writtenEvent

def streamPayload (event : StreamResponse) : StreamEvent :=
  { id := event.id, delta := event.delta, result := event.result
    metadata := event.backendMetadata }

def failurePayload (h : StreamHandler) : StreamEvent :=
  { id := h.requestID, metadata := [("error", "worker stream failed")] }

theorem receive_written (h : StreamHandler) (event : StreamResponse) :
    ∃ h' effects, h.receive (.ok event) none = (some h', effects) ∧ h'.requestID = h.requestID ∧
      writes effects = [(eventType event, streamPayload event)] := by
  simp only [receive, Option.isSome_none, Bool.false_eq_true, if_false]
  split_ifs <;> exact ⟨_, _, rfl, rfl, rfl⟩

/-- The client reads the events of the worker in order, and a failure after them. -/
theorem writes_stream (h : StreamHandler) (events : List StreamResponse) (ending : Error) :
    writes (h.receiveLoop (recvResults events ending)) =
      events.map (fun event => (eventType event, streamPayload event)) ++
        if ending = .eof then [] else [("error", failurePayload h)] := by
  induction events generalizing h with
  | nil =>
    cases ending with
    | eof =>
      show writes h.finish = []
      unfold finish
      cases h.doneSeen <;> rfl
    | contextDeadlineExceeded => rfl
    | status code message => rfl
  | cons event events ih =>
    obtain ⟨h', effects, hround, hid, hwritten⟩ := receive_written h event
    have hloop : h.receiveLoop (recvResults (event :: events) ending) =
        effects ++ h'.receiveLoop (recvResults events ending) := by
      simp only [recvResults, List.map_cons, List.cons_append, receiveLoop, hround]
    have hsplit : ∀ rest, writes (effects ++ rest) =
        (eventType event, streamPayload event) :: writes rest := by
      intro rest
      rw [writes, List.filterMap_append, ← writes, hwritten]
      rfl
    rw [hloop, hsplit, ih, List.map_cons, List.cons_append, failurePayload, failurePayload, hid]

end

/-- What an HTTP client reads of a stream: tokens of its request, and then how it ended. -/
inductive ClientReads (request : Llama.BackendRequest) (o : StreamOutcome)
    (h : Gateway.StreamHandler) : List (String × Gateway.StreamEvent) → Prop
  /-- All deltas, and the output in the end. -/
  | completed (tokens : List Gateway.StreamEvent) (done : Gateway.StreamEvent)
    (hids : ∀ t ∈ done :: tokens, text t.id = request.id) (hcode : o.result.code = .ok)
    (hdeltas : tokens.flatMap (fun t => text t.delta) = o.completion.content)
    (houtput : o.result.outputs = [text done.result]) :
    ClientReads request o h (tokens.map (Prod.mk "token") ++ [("done", done)])
  /-- Some deltas, and an error in the end. -/
  | failed (tokens : List Gateway.StreamEvent) (hids : ∀ t ∈ tokens, text t.id = request.id)
    (hdeltas : tokens.flatMap (fun t => text t.delta) <+: o.completion.content) :
    ClientReads request o h (tokens.map (Prod.mk "token") ++ [("error", failurePayload h)])
  /-- The call broke between the last message and its status. -/
  | brokeLate (tokens : List Gateway.StreamEvent) (done : Gateway.StreamEvent)
    (hids : ∀ t ∈ done :: tokens, text t.id = request.id) (hcode : o.result.code = .ok)
    (hdeltas : tokens.flatMap (fun t => text t.delta) = o.completion.content)
    (houtput : o.result.outputs = [text done.result]) :
    ClientReads request o h
      (tokens.map (Prod.mk "token") ++ [("done", done), ("error", failurePayload h)])

variable {request : Llama.BackendRequest}

/-- Tokens arrive as tokens, with the deltas that were sent. -/
theorem carries_tokens {tokens : List StreamMessage} {received : List Gateway.StreamResponse}
    (h : List.Forall₂ Carries tokens received)
    (htokens : ∀ m ∈ tokens, m.eventType = text "token" ∧ m.id = request.id) :
    received.map (fun r => (Gateway.StreamHandler.eventType r, streamPayload r)) =
        (received.map streamPayload).map (Prod.mk "token") ∧
      (received.map streamPayload).flatMap (fun t => text t.delta) =
        tokens.flatMap StreamMessage.delta ∧
      ∀ t ∈ received.map streamPayload, text t.id = request.id := by
  induction h with
  | nil => simp
  | @cons m r tokens received hm hrest ih =>
    obtain ⟨hwrites, hdeltas, hids⟩ := ih fun m hmem => htokens m (List.mem_cons_of_mem _ hmem)
    obtain ⟨htype, hid⟩ := htokens m List.mem_cons_self
    have heventType : r.eventType = "token" := text_injective (hm.eventType.trans htype)
    have hdefault : Gateway.StreamHandler.eventType r = "token" := by
      unfold Gateway.StreamHandler.eventType
      rw [heventType]
      decide
    refine ⟨?_, ?_, ?_⟩
    · rw [List.map_cons, List.map_cons, List.map_cons, hwrites, hdefault]
    · rw [List.map_cons, List.flatMap_cons, List.flatMap_cons, hdeltas]
      exact congrArg (· ++ _) hm.delta
    · intro t ht
      rcases List.mem_cons.mp ht with rfl | ht
      · exact hm.id.trans hid
      · exact hids t ht

theorem carries_done {m : StreamMessage} {r : Gateway.StreamResponse} (h : Carries m r)
    (htype : m.eventType = text "done") :
    Gateway.StreamHandler.eventType r = "done" := by
  have heventType : r.eventType = "done" := text_injective (h.eventType.trans htype)
  unfold Gateway.StreamHandler.eventType
  rw [heventType]
  decide

theorem carries_concat {tokens : List StreamMessage} {done : StreamMessage}
    {received : List Gateway.StreamResponse}
    (h : List.Forall₂ Carries (tokens ++ [done]) received) :
    ∃ front last, received = front ++ [last] ∧ List.Forall₂ Carries tokens front ∧
      Carries done last := by
  have hflip := h.flip
  have htokens := (List.forall₂_take_append _ _ _ hflip).flip
  have hdone := (List.forall₂_drop_append _ _ _ hflip).flip
  obtain ⟨last, rest, hlast, hnil, hdrop⟩ := List.forall₂_cons_left_iff.mp hdone
  obtain rfl := List.forall₂_nil_left_iff.mp hnil
  exact ⟨received.take tokens.length, last, by rw [← hdrop, List.take_append_drop], htokens, hlast⟩

theorem reads_done {tokens : List StreamMessage} {done : StreamMessage}
    {received : List Gateway.StreamResponse}
    (h : List.Forall₂ Carries (tokens ++ [done]) received)
    (htokens : ∀ m ∈ tokens, m.eventType = text "token" ∧ m.id = request.id)
    (htype : done.eventType = text "done") (hid : done.id = request.id) :
    ∃ (ts : List Gateway.StreamEvent) (d : Gateway.StreamEvent),
      received.map (fun r => (Gateway.StreamHandler.eventType r, streamPayload r)) =
        ts.map (Prod.mk "token") ++ [("done", d)] ∧
      (∀ t ∈ d :: ts, text t.id = request.id) ∧
      ts.flatMap (fun t => text t.delta) = tokens.flatMap StreamMessage.delta ∧
      text d.result = done.result := by
  obtain ⟨front, last, rfl, hfront, hlast⟩ := carries_concat h
  obtain ⟨hwrites, hdeltas, hids⟩ := carries_tokens hfront htokens
  refine ⟨front.map streamPayload, streamPayload last, ?_, ?_, hdeltas, hlast.result⟩
  · rw [List.map_append, hwrites, List.map_singleton, carries_done hlast htype]
  · exact List.forall_mem_cons.mpr ⟨hlast.id.trans hid, hids⟩

/-- Whatever the backend is and does, whoever cancels, and however the call between them breaks:
a client that takes what it is sent reads tokens of its own request, and then either `done` with
the output, or an error, or both; a stream never just ends. -/
theorem client_reads {accepts : List BackendStreamEvent → Bool} {o : StreamOutcome}
    (hstreams : Streams accepts request o) (name : Bytes) (h : Gateway.StreamHandler)
    {received : List Gateway.StreamResponse} {ending : Gateway.Error}
    (hdelivered : Delivered (streamStatus o.result) (streamWritten name request accepts o)
      received ending) :
    ClientReads request o h
      (writes (h.receiveLoop (Gateway.StreamHandler.recvResults received ending))) := by
  have hcontract : StreamContract name request o _ _ := (streams_emitted hstreams).contract name
  obtain ⟨hstamped, tokens, hnumbered, hend⟩ := hcontract
  have htokens : ∀ m ∈ tokens, m ∈ streamWritten name request accepts o →
      m.eventType = text "token" ∧ m.id = request.id := fun m hm hmem => by
    obtain ⟨n, hn⟩ := List.getElem?_of_mem hm
    exact ⟨(hnumbered n m hn).1, (hstamped m hmem).1⟩
  -- a call that fails before its last message
  have hfailed : ∀ n, tokens.take n ⊆ streamWritten name request accepts o →
      tokens.flatMap StreamMessage.delta <+: o.completion.content → ending ≠ .eof →
      List.Forall₂ Carries (tokens.take n) received → ClientReads request o h
        (writes (h.receiveLoop (Gateway.StreamHandler.recvResults received ending))) := by
    intro n hsubset hcontent hending hfirst
    obtain ⟨hwrites, hdeltas, hids⟩ := carries_tokens hfirst fun m hm =>
      htokens m (List.mem_of_mem_take hm) (hsubset hm)
    rw [writes_stream, if_neg hending, hwrites]
    exact .failed _ hids (hdeltas ▸ ((List.take_prefix n tokens).flatMap _).trans hcontent)
  rcases hend with ⟨hok, hcode, hcontent, done, htype, hdelta, houtput, hmessages⟩ |
      ⟨hcode, ⟨code, -, herror⟩, hcontent, hmessages⟩
  · have hmem : ∀ m ∈ tokens, m.eventType = text "token" ∧ m.id = request.id := fun m hm =>
      htokens m hm (by rw [hmessages]; exact List.mem_append_left _ hm)
    have hid : done.id = request.id := (hstamped done (by rw [hmessages]; simp)).1
    cases hdelivered with
    | complete _ hall =>
      rw [hmessages] at hall
      obtain ⟨ts, d, hwrites, hids, hdeltas, hresult⟩ := reads_done hall hmem htype hid
      rw [writes_stream, if_pos rfl, List.append_nil, hwrites]
      exact .completed ts d hids hcode (hdeltas.trans hcontent) (hresult ▸ houtput)
    | failed n hfirst hending =>
      rw [hmessages] at hfirst
      rcases Nat.lt_or_ge tokens.length n with hn | hn
      · rw [List.take_of_length_le (by simp; omega)] at hfirst
        obtain ⟨ts, d, hwrites, hids, hdeltas, hresult⟩ := reads_done hfirst hmem htype hid
        rw [writes_stream, if_neg hending, hwrites, List.append_assoc]
        exact .brokeLate ts d hids hcode (hdeltas.trans hcontent) (hresult ▸ houtput)
      · rw [List.take_append_of_le_length hn] at hfirst
        refine hfailed n (fun m hm => ?_) (by rw [hcontent]) hending hfirst
        rw [hmessages]
        exact List.mem_append_left _ (List.mem_of_mem_take hm)
  · cases hdelivered with
    | complete hok => exact absurd (hok.symm.trans herror) (by simp)
    | failed n hfirst hending =>
      rw [hmessages] at hfirst
      refine hfailed n (fun m hm => ?_) hcontent hending hfirst
      rw [hmessages]
      exact List.mem_of_mem_take hm

/-- A call that breaks after its last message. -/
theorem client_reads_broken :
    let span : Gateway.ActiveSpan := ⟨0, "trace", "span", "", "http.predict.stream"⟩
    let h : Gateway.StreamHandler :=
      { requestID := "req-1", httpSpan := span, workerSpan := span, backendSpan := span }
    let request : Llama.BackendRequest := { id := text "req-1", prompt := text "hi" }
    let received : List Gateway.StreamResponse :=
      [{ id := "req-1", eventType := "done", result := "hi", backendName := "echo" }]
    ClientReads request
      (processStream (fun requests => { outputs := requests.map Llama.BackendRequest.prompt })
        (fun _ => true) request) h
      (writes (h.receiveLoop
        (Gateway.StreamHandler.recvResults received .contextDeadlineExceeded))) := by
  intro span h request received
  have hcarries : Carries (streamMessage (text "echo") request
      { eventType := text "done", result := text "hi" })
      { id := "req-1", eventType := "done", result := "hi", backendName := "echo" } :=
    ⟨rfl, rfl, rfl, rfl, rfl, .nil⟩
  exact client_reads (.base _) (text "echo") h (.failed 1 (.cons hcarries .nil) (by decide))

end Laminar.Worker
