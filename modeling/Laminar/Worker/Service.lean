import Laminar.Gateway.Messages
import Laminar.Llama.Server

/-! `InferenceServiceImpl::ProcessBatch` of `main.cc`, with the strings of the gateway and over any
backend. -/
namespace Laminar.Worker
open Laminar.Gateway

structure BackendRequest where
  id : String
  prompt : String
  traceId : String
deriving DecidableEq

structure BackendResult where
  code : Llama.BackendStatusCode := .ok
  message : String := ""
  outputs : List String := []
  outputMetadata : List Metadata := []
deriving DecidableEq

def backendRequests (requests : List RequestItem) : List BackendRequest :=
  requests.map fun req => { id := req.id, prompt := req.prompt, traceId := req.traceId }

def responseItem (name : String) (elapsedMicros : Int) (result : BackendResult)
    (req : RequestItem) (i : Nat) : ResponseItem :=
  { id := req.id
    traceId := req.traceId
    result := result.outputs.getD i ""
    backendName := name
    backendLatencyMicros := elapsedMicros
    backendMetadata := result.outputMetadata.getD i [] }

def processBatch (name : String) (backend : List BackendRequest → BackendResult)
    (elapsedMicros : Int) (requests : List RequestItem) : Reply :=
  let result := backend (backendRequests requests)
  match result.code with
  | .cancelled => .error (.status .canceled result.message)
  | .invalidArgument => .error (.status .invalidArgument result.message)
  | .unavailable => .error (.status .unavailable result.message)
  | .ok =>
    if result.outputs.length ≠ requests.length then
      .error (.status .internal "backend returned the wrong number of outputs")
    else if result.outputMetadata ≠ [] ∧ result.outputMetadata.length ≠ requests.length then
      .error (.status .internal "backend returned the wrong number of metadata records")
    else .ok (requests.zipIdx.map fun p => responseItem name elapsedMicros result p.1 p.2)

theorem processBatch_item {name : String} {backend : List BackendRequest → BackendResult}
    {elapsedMicros : Int} {requests : List RequestItem} {items : List ResponseItem}
    (h : processBatch name backend elapsedMicros requests = .ok items) {item : ResponseItem}
    (hitem : item ∈ items) :
    ∃ (i : Nat) (req : RequestItem), requests[i]? = some req ∧ item.id = req.id ∧
      (backend (backendRequests requests)).outputs[i]? = some item.result := by
  simp only [processBatch] at h
  split at h
  · exact absurd h (by simp)
  · exact absurd h (by simp)
  · exact absurd h (by simp)
  · split_ifs at h with houtputs hmetadata
    obtain rfl := Except.ok.inj h
    obtain ⟨⟨req, i⟩, hreq, rfl⟩ := List.mem_map.mp hitem
    have hget := List.mem_zipIdx_iff_getElem?.mp hreq
    refine ⟨i, req, hget, rfl, ?_⟩
    have hlt : i < (backend (backendRequests requests)).outputs.length := by
      rw [not_not.mp houtputs]
      exact (List.getElem?_eq_some_iff.mp hget).1
    simp [responseItem, List.getElem?_eq_getElem hlt]

end Laminar.Worker
