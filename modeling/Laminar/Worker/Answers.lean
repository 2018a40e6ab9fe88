import Laminar.Backend.Dispatch
import Laminar.Gateway.Correlation

/-! A gateway in front of a worker: a batch that the worker's backend has answered is answered for
each of its calls, if the answer is well-formed UTF-8. -/
namespace Laminar.Worker
open Laminar.Gateway Laminar.Transition

def BackendRequest.bytes (r : BackendRequest) : Llama.BackendRequest :=
  { id := text r.id, prompt := text r.prompt, traceId := text r.traceId }

/-- Bytes that are well-formed UTF-8. -/
def Spelled (b : Bytes) : Prop := b ∈ Set.range text

/-- An answer that a client can decode. A backend need not give one: the output of a llama.cpp
process is cut at a number of bytes, wherever in a character that is. -/
structure WellFormed (result : Llama.BackendResult) : Prop where
  outputs : ∀ output ∈ result.outputs, Spelled output
  metadata : ∀ m ∈ result.outputMetadata, ∀ p ∈ m, Spelled p.1 ∧ Spelled p.2

/-- A euro sign that is cut after its second byte. -/
example : ¬ Spelled [0xE2, 0x82] := by
  rintro ⟨s, hs⟩
  have hbytes : s.toByteArray = ByteArray.mk #[0xE2, 0x82] :=
    ByteArray.ext (Array.toList_inj.mp hs)
  have hvalid : (ByteArray.mk #[0xE2, 0x82]).IsValidUTF8 := hbytes ▸ s.isValidUTF8
  rw [← ByteArray.validateUTF8_eq_true_iff] at hvalid
  exact absurd hvalid (by decide +kernel)

def metadataBytes (m : Metadata) : Llama.Metadata := m.map (Prod.map text text)

/-- A result of a backend, and the same with its bytes as strings. An answer that is not ok has no
items, and its message is whatever the client makes of it. -/
structure Spells (w : BackendResult) (result : Llama.BackendResult) : Prop where
  code : w.code = result.code
  message : Spelled result.message → text w.message = result.message
  outputs : w.code = .ok → w.outputs.map text = result.outputs
  metadata : w.code = .ok → List.Forall₂ (fun m bytes => (metadataBytes m).Perm bytes)
    w.outputMetadata result.outputMetadata

/-- What `client.ProcessBatch` gives the gateway if the call is not broken off: a client refuses a
message with strings that are not UTF-8, and reports an internal error. -/
inductive Arrives (name : String) (elapsedMicros : Int) (requests : List RequestItem)
    (result : Llama.BackendResult) : Reply → Prop
  | decoded (backend : List BackendRequest → BackendResult)
    (hspells : Spells (backend (backendRequests requests)) result) :
    Arrives name elapsedMicros requests result (processBatch name backend elapsedMicros requests)
  | refused (message : String) (hok : result.code = .ok) (hgarbled : ¬ WellFormed result) :
    Arrives name elapsedMicros requests result (.error (.status .internal message))

theorem Spells.wellFormed {w : BackendResult} {result : Llama.BackendResult} (h : Spells w result)
    (hok : w.code = .ok) : WellFormed result := by
  constructor
  · intro output houtput
    rw [← h.outputs hok] at houtput
    obtain ⟨s, -, rfl⟩ := List.mem_map.mp houtput
    exact ⟨s, rfl⟩
  · intro m hm p hp
    obtain ⟨i, rfl⟩ := List.get_of_mem hm
    have hperm := (h.metadata hok).get ((h.metadata hok).length_eq.symm ▸ i.isLt) i.isLt
    obtain ⟨q, -, rfl⟩ := List.mem_map.mp (hperm.mem_iff.mpr hp)
    exact ⟨⟨q.1, rfl⟩, ⟨q.2, rfl⟩⟩

theorem exists_text (b : Bytes) : ∃ s, Spelled b → text s = b := by
  by_cases h : Spelled b
  · obtain ⟨s, hs⟩ := h
    exact ⟨s, fun _ => hs⟩
  · exact ⟨"", fun hspelled => absurd hspelled h⟩

theorem WellFormed.spells {result : Llama.BackendResult} (h : WellFormed result) :
    ∃ w, Spells w result := by
  obtain ⟨message, hmessage⟩ := exists_text result.message
  obtain ⟨outputs, houtputs⟩ : result.outputs ∈ Set.range (List.map text) := by
    rw [Set.range_list_map]
    exact h.outputs
  have hmetadata : result.outputMetadata ∈ Set.range (List.map metadataBytes) := by
    change _ ∈ Set.range (List.map (List.map (Prod.map text text)))
    rw [Set.range_list_map, Set.range_list_map, Set.range_prodMap]
    exact h.metadata
  obtain ⟨metadata, hmetadata⟩ := hmetadata
  refine ⟨⟨result.code, message, outputs, metadata⟩, rfl, hmessage, fun _ => houtputs, fun _ => ?_⟩
  rw [← hmetadata]
  exact List.forall₂_map_right_iff.mpr (List.forall₂_same.mpr fun m _ => List.Perm.refl _)

/-- Whatever a backend answers, something arrives. -/
theorem exists_arrives (name : String) (elapsedMicros : Int) (requests : List RequestItem)
    (result : Llama.BackendResult) : ∃ reply, Arrives name elapsedMicros requests result reply := by
  by_cases hok : result.code = .ok
  · by_cases hformed : WellFormed result
    · obtain ⟨w, hw⟩ := hformed.spells
      exact ⟨_, .decoded (fun _ => w) hw⟩
    · exact ⟨_, .refused "" hok hformed⟩
  · obtain ⟨message, hmessage⟩ := exists_text result.message
    exact ⟨_, .decoded (fun _ => { code := result.code, message := message })
      ⟨rfl, hmessage, fun h => absurd h hok, fun h => absurd h hok⟩⟩

theorem Spells.complete {w : BackendResult} {result : Llama.BackendResult} (h : Spells w result)
    (hok : w.code = .ok) {requests : List Llama.BackendRequest}
    (hcomplete : Backend.Complete requests result) : w.outputs.length = requests.length ∧
      (w.outputMetadata = [] ∨ w.outputMetadata.length = requests.length) := by
  have hlength := (h.metadata hok).length_eq
  constructor
  · rw [← hcomplete.outputs, ← h.outputs hok, List.length_map]
  · rcases hcomplete.metadata with hnone | hall
    · left
      rw [← List.length_eq_zero_iff, hlength, hnone, List.length_nil]
    · exact Or.inr (hlength.trans hall)

inductive StatusCode : Llama.BackendStatusCode → Code → Prop
  | cancelled : StatusCode .cancelled .canceled
  | invalidArgument : StatusCode .invalidArgument .invalidArgument
  | unavailable : StatusCode .unavailable .unavailable

/-- The guards of the service on the number of outputs and of metadata records never fire. -/
theorem processBatch_guarded {name : String} {backend : List BackendRequest → BackendResult}
    {elapsedMicros : Int} {requests : List RequestItem} {w : BackendResult}
    (hw : backend (backendRequests requests) = w) (houtputs : w.code = .ok →
      w.outputs.length = requests.length ∧
        (w.outputMetadata = [] ∨ w.outputMetadata.length = requests.length)) :
    (w.code = .ok ∧ processBatch name backend elapsedMicros requests =
      .ok (requests.zipIdx.map fun p => responseItem name elapsedMicros w p.1 p.2)) ∨
    (w.code ≠ .ok ∧ ∃ code, StatusCode w.code code ∧
      processBatch name backend elapsedMicros requests = .error (.status code w.message)) := by
  unfold processBatch
  simp only [hw]
  cases hcode : w.code with
  | ok =>
    obtain ⟨hlength, hmetadata⟩ := houtputs hcode
    refine Or.inl ⟨rfl, ?_⟩
    rw [if_neg (not_not.mpr hlength), if_neg]
    rintro ⟨hsome, hne⟩
    exact hmetadata.elim hsome hne
  | cancelled => exact Or.inr ⟨by simp, _, .cancelled, rfl⟩
  | invalidArgument => exact Or.inr ⟨by simp, _, .invalidArgument, rfl⟩
  | unavailable => exact Or.inr ⟨by simp, _, .unavailable, rfl⟩

end Laminar.Worker

namespace Laminar.Gateway
open Laminar.Transition Laminar.Worker
variable {randomHex : Nat → Nat → String} {cfg : Config} {actions : List Action} {g : Batcher}

theorem findResponse_isSome {items : List ResponseItem} {id : String} {item : ResponseItem}
    (hitem : item ∈ items) (hid : item.id = id) : ∃ found, findResponse items id = some found := by
  induction items using List.reverseRecOn with
  | nil => exact absurd hitem List.not_mem_nil
  | append_singleton items last ih =>
    rw [findResponse, List.foldl_append]
    simp only [List.foldl_cons, List.foldl_nil]
    split_ifs with hlast
    · exact ⟨last, rfl⟩
    · refine ih ((List.mem_append.mp hitem).resolve_right fun hmem => hlast ?_)
      rw [← List.mem_singleton.mp hmem, hid]

theorem Batcher.Kept.calls_nodup {maxBatchSize : Int} (h : g.Kept maxBatchSize) {rpc : Rpc}
    (hrpc : rpc ∈ g.rpcs) : rpc.calls.Nodup := by
  have hsublist : rpc.calls.Sublist (g.rpcs.flatMap Rpc.calls) := by
    rw [List.flatMap_def]
    exact List.sublist_flatten_of_mem (List.mem_map_of_mem hrpc)
  refine List.nodup_iff_count_le_one.mpr fun k => ?_
  by_cases hk : k ∈ rpc.calls
  · exact h.sent_once hrpc hk ▸ hsublist.count_le k
  · simp [List.count_eq_zero_of_not_mem hk]

/-- The batch of a call, as the worker's backend gets it. -/
def Rpc.backendBatch (rpc : Rpc) : List Llama.BackendRequest :=
  (backendRequests rpc.requests).map BackendRequest.bytes

theorem Batcher.Kept.finds {maxBatchSize : Int} (h : g.Kept maxBatchSize) {rpc : Rpc}
    (hrpc : rpc ∈ g.rpcs) {name : String} {backend : List BackendRequest → BackendResult}
    {elapsedMicros : Int}
    (hreply : rpc.reply = some (processBatch name backend elapsedMicros rpc.requests))
    {w : BackendResult}
    (hitems : processBatch name backend elapsedMicros rpc.requests =
      .ok (rpc.requests.zipIdx.map fun p => responseItem name elapsedMicros w p.1 p.2))
    {i k : Nat} (hk : rpc.calls[i]? = some k) :
    ∃ item, findResponse
        (rpc.requests.zipIdx.map fun p => responseItem name elapsedMicros w p.1 p.2)
        (g.calls k).id = some item ∧
      (backend (backendRequests rpc.requests)).outputs[i]? = some item.result := by
  obtain ⟨-, hrequests⟩ := h.corresponds.requests rpc hrpc
  have hmem := List.mem_of_getElem? hk
  obtain ⟨req, hreq, hid⟩ : ∃ req, rpc.requests[i]? = some req ∧ req.id = (g.calls k).id := by
    rw [hrequests, batchRequest, List.getElem?_map, hk]
    exact ⟨_, rfl, rfl⟩
  have hat : (req, i) ∈ rpc.requests.zipIdx := List.mem_zipIdx_iff_getElem?.mpr hreq
  have hitem : responseItem name elapsedMicros w req i ∈
      rpc.requests.zipIdx.map fun p => responseItem name elapsedMicros w p.1 p.2 :=
    List.mem_map.mpr ⟨(req, i), hat, rfl⟩
  obtain ⟨found, hfound⟩ := findResponse_isSome hitem hid
  obtain ⟨hfoundmem, hfoundid⟩ := findResponse_mem hfound
  rw [hitems] at hreply
  obtain ⟨j, hj, -, houtput⟩ := h.served hrpc
    ⟨hmem, _, found, hreply, hfoundmem, hfoundid, rfl⟩ (hitems ▸ hreply)
  have hlt : j < rpc.calls.length := (List.getElem?_eq_some_iff.mp hj).1
  obtain rfl := (List.getElem?_inj hlt (h.calls_nodup hrpc)).mp (hj.trans hk.symm)
  exact ⟨found, hfound, houtput⟩

theorem answer_failureOps (calls : Nat → Call) (active : List Nat) (err : Error) (latency : Int)
    (order : List Nat) : (failureOps calls active err latency order).filterMap FlushOp.answer =
      active.map fun k => (k,
        errorResponse (calls k).id (classifyWorkerError err).1 (classifyWorkerError err).2) := by
  have hspans : (order.flatMap fun k =>
      [FlushOp.endWorker k "error", .endFlush k "error"]).filterMap FlushOp.answer = [] := by
    refine List.filterMap_eq_nil_iff.mpr fun o ho => ?_
    obtain ⟨k, -, ho⟩ := List.mem_flatMap.mp ho
    rcases List.mem_pair.mp ho with rfl | rfl <;> rfl
  rw [failureOps, List.filterMap_append, List.filterMap_append, hspans, List.filterMap_map]
  exact congrFun List.filterMap_eq_map active

/-- Every call of a batch whose answer is ok finds the output that the backend gave for its place,
and no call is left without an item. -/
theorem Batcher.Kept.answers {maxBatchSize : Int} (h : g.Kept maxBatchSize) {rpc : Rpc}
    (hrpc : rpc ∈ g.rpcs) {name : String} {backend : List BackendRequest → BackendResult}
    {elapsedMicros : Int} {w : BackendResult}
    (hreply : rpc.reply = some (processBatch name backend elapsedMicros rpc.requests))
    (hw : backend (backendRequests rpc.requests) = w)
    (hitems : processBatch name backend elapsedMicros rpc.requests =
      .ok (rpc.requests.zipIdx.map fun p => responseItem name elapsedMicros w p.1 p.2))
    {i k : Nat} (hk : rpc.calls[i]? = some k) :
    ∃ resp, (answerOps g.calls
        (rpc.requests.zipIdx.map fun p => responseItem name elapsedMicros w p.1 p.2) k).filterMap
          FlushOp.answer = [(k, resp)] ∧
      resp.id = (g.calls k).id ∧ resp.error = "" ∧ w.outputs[i]? = some resp.result := by
  obtain ⟨item, hfound, houtput⟩ := h.finds hrpc hreply hitems hk
  refine ⟨{ id := item.id, result := item.result, metadata := item.backendMetadata }, ?_,
    (findResponse_mem hfound).2, rfl, hw ▸ houtput⟩
  rw [answerOps, hfound]
  simp only
  split_ifs <;> rfl

section
variable {Hidden TextHidden Feature : Type} {floats : Backend.TinyLLMFloats ℚ Hidden}
  {textFloats : Backend.TinyTextFloats TextHidden} {features : Bytes → Feature × Feature}
  {zero : Feature} {isCancelled : Nat → Bool}

/-- Over every run of the gateway and whatever backend its worker has. If the backend says ok and
its answer is well-formed UTF-8, every call of the batch finds the output that the backend gave for
its place. If the answer is not, the client refuses it, and every call is told that the worker
failed. Otherwise the gateway gets the backend's own status: the worker never reports an internal
error. -/
theorem batch_answered (h : run (step cfg.normalized randomHex) (newBatcher cfg) actions = some g)
    {rpc : Rpc} (hrpc : rpc ∈ g.rpcs) {name : String} {elapsedMicros : Int} {reply : Reply}
    (hreply : rpc.reply = some reply) {b : Backend.WorkerBackend} {result : Llama.BackendResult}
    (hanswers : Backend.Answers floats textFloats features zero isCancelled b rpc.backendBatch
      result) (harrives : Arrives name elapsedMicros rpc.requests result reply) :
    (result.code = .ok ∧ WellFormed result ∧ ∃ items, reply = .ok items ∧
      ∀ (i k : Nat), rpc.calls[i]? = some k → ∃ resp,
        (answerOps g.calls items k).filterMap FlushOp.answer = [(k, resp)] ∧
        resp.id = (g.calls k).id ∧ resp.error = "" ∧
        result.outputs[i]? = some (text resp.result)) ∨
    (result.code = .ok ∧ ¬ WellFormed result ∧ ∃ message,
      reply = .error (.status .internal message) ∧ ∀ latency order,
        (failureOps g.calls rpc.calls (.status .internal message) latency order).filterMap
            FlushOp.answer =
          rpc.calls.map fun k => (k, errorResponse (g.calls k).id .workerError
            "worker failed to process batch")) ∨
    (∃ code message, StatusCode result.code code ∧
      (Spelled result.message → text message = result.message) ∧
      reply = .error (.status code message)) := by
  have hkept := run_kept h
  have hlength : rpc.backendBatch.length = rpc.requests.length := by
    simp [Rpc.backendBatch, backendRequests]
  cases harrives with
  | refused message hok hgarbled =>
    exact Or.inr (Or.inl ⟨hok, hgarbled, message, rfl, fun latency order =>
      answer_failureOps g.calls rpc.calls _ latency order⟩)
  | decoded backend hspells =>
    have hguarded := @processBatch_guarded name backend elapsedMicros rpc.requests _ rfl
      fun hok => hlength ▸ hspells.complete hok (hanswers.complete (hspells.code ▸ hok))
    rcases hguarded with ⟨hok, hitems⟩ | ⟨-, code, hcode, herror⟩
    · refine Or.inl ⟨hspells.code ▸ hok, hspells.wellFormed hok, _, hitems, fun i k hk => ?_⟩
      obtain ⟨resp, hanswer, hid, hnone, houtput⟩ := hkept.answers hrpc hreply rfl hitems hk
      refine ⟨resp, hanswer, hid, hnone, ?_⟩
      rw [← hspells.outputs hok, List.getElem?_map, houtput]
      rfl
    · exact Or.inr (Or.inr ⟨code, _, hspells.code ▸ hcode, hspells.message, herror⟩)

end

/-- Two calls in one batch, in front of a simulator that takes no time. -/
theorem batch_answered_simulator :
    let cfg : Config := { promptTokens := fun n => n, maxBatchSize := 2 }
    let submit : String → Nat → List Action := fun prompt k =>
      .submit prompt "trace" "" :: List.replicate 5 (.advance k .channel)
    let loop : Nat → List Action := fun n => List.replicate n (.loop 0 none)
    let w : BackendResult := { outputs :=
      ["Processed: 'one' (backend=simulator, batch_size=2, latency=0ms)",
        "Processed: 'two' (backend=simulator, batch_size=2, latency=0ms)"] }
    let requests : List RequestItem := [{ id := "req-1", prompt := "one", traceId := "trace" },
      { id := "req-2", prompt := "two", traceId := "trace" }]
    ∃ g, run (step cfg.normalized fun n _ => toString n) (newBatcher cfg)
        (submit "one" 0 ++ submit "two" 1 ++ [.receive] ++ loop 3 ++ [.receive] ++ loop 14 ++
          [.reply (processBatch "simulator" (fun _ => w) 5 requests) 5 [0, 1] [1, 0]]) = some g ∧
      ∃ rpc ∈ g.rpcs, ∃ items, rpc.reply = some (.ok items) ∧
        ∀ (i k : Nat), rpc.calls[i]? = some k → ∃ resp,
          (answerOps g.calls items k).filterMap FlushOp.answer = [(k, resp)] ∧
          resp.id = (g.calls k).id ∧ resp.error = "" ∧
          (w.outputs.map text)[i]? = some (text resp.result) := by
  intro cfg submit loop w requests
  have hend : (run (step cfg.normalized fun n _ => toString n) (newBatcher cfg)
      (submit "one" 0 ++ submit "two" 1 ++ [.receive] ++ loop 3 ++ [.receive] ++ loop 14 ++
        [.reply (processBatch "simulator" (fun _ => w) 5 requests) 5 [0, 1] [1, 0]])).any
        (fun g => decide (g.rpcs.map (fun rpc => (rpc.requests, rpc.reply)) =
          [(requests, some (processBatch "simulator" (fun _ => w) 5 requests))])) = true := by
    decide +kernel
  obtain ⟨g, hg, hlast⟩ := (Option.any_eq_true _ _).mp hend
  obtain ⟨rpc, hrpcs, hrpc⟩ := List.map_eq_singleton_iff.mp (of_decide_eq_true hlast)
  obtain ⟨hrequests, hreply⟩ := Prod.mk.inj hrpc
  have hquiet : ∀ n, ¬ Polling.Raised (fun _ => false) 0 (0 + n) := by
    rintro n ⟨k, -, -, hk⟩
    exact Bool.false_ne_true hk
  have hbatch : (Backend.outcome (fun _ => false)
      ((Backend.simulatorBackend 0 0).processBatch rpc.backendBatch) 0).1 =
      { outputs := w.outputs.map text } := by
    obtain ⟨n, hn⟩ := (Backend.simulatorBackend 0 0).processBatch_yields rpc.backendBatch
    rw [Backend.outcome_quiet hn (hquiet n), Rpc.backendBatch, hrequests]
    refine congrArg (fun outputs => ({ outputs := outputs } : Llama.BackendResult)) ?_
    decide +kernel
  have hspells : Spells w (Backend.outcome (fun _ => false)
      ((Backend.simulatorBackend 0 0).processBatch rpc.backendBatch) 0).1 := by
    rw [hbatch]
    exact ⟨rfl, fun _ => rfl, fun _ => rfl, fun _ => .nil⟩
  have hanswers : Backend.Answers
      { clampTemperature := id, fixed := fun _ => text "0.800", nextState := fun _ _ _ => ()
        ranked := fun _ _ _ _ => 0, averageDecodeBatchSize := fun _ _ => text "1.00" }
      { hidden := fun _ => (), layer := fun _ _ => (), classify := fun _ => (0, text "1.000") }
      (fun _ => ((), ())) () (fun _ => false) (.simulator (Backend.simulatorBackend 0 0))
      rpc.backendBatch _ := .simulator _ _
  have hmem : rpc ∈ g.rpcs := by simp [hrpcs]
  have harrives : Arrives "simulator" 5 rpc.requests _ _ := .decoded (fun _ => w) hspells
  rcases batch_answered hg hmem (hrequests ▸ hreply) hanswers harrives with
    ⟨-, -, items, hitems, hcalls⟩ | ⟨-, hgarbled, -⟩ | ⟨code, -, hcode, -⟩
  · rw [hbatch] at hcalls
    exact ⟨g, hg, rpc, hmem, items, hitems ▸ hrequests ▸ hreply, hcalls⟩
  · exact absurd (hspells.wellFormed rfl) hgarbled
  · rw [hbatch] at hcode
    cases hcode

end Laminar.Gateway
