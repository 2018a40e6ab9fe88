import Laminar.Backend.Configured
import Laminar.Backend.Readable

/-! `ProcessBatch` of whatever backend a worker has: a result that is ok is complete. -/
namespace Laminar.Backend
open Laminar.Llama Laminar.Polling

section
variable {Hidden TextHidden Feature : Type} (floats : TinyLLMFloats ℚ Hidden)
  (textFloats : TinyTextFloats TextHidden) (features : Bytes → Feature × Feature) (zero : Feature)
  (isCancelled : Nat → Bool)

/-- The results that `ProcessBatch` may have for a batch: one for each way in which the clock, the
connections, the processes or the runtime may behave, and for an ONNX backend after any batches. -/
inductive Answers : WorkerBackend → List BackendRequest → BackendResult → Prop
  | simulator (b : SimulatorBackend) (requests : List BackendRequest) :
      Answers (.simulator b) requests (outcome isCancelled (b.processBatch requests) 0).1
  | tinyTextModel (b : TinyTextModelBackend) (requests : List BackendRequest) :
      Answers (.tinyTextModel b) requests
        (outcome isCancelled (b.processBatch textFloats requests) 0).1
  | tinyLLM (b : TinyLLMBackend ℚ) (elapsed : Nat → Elapsed) (requests : List BackendRequest) :
      Answers (.tinyLLM b) requests
        (outcome isCancelled (b.processBatch floats elapsed requests) 0).1
  | continuousTinyLLM (b : ContinuousTinyLLMBackend ℚ) (elapsed : Nat → Elapsed)
      (requests : List BackendRequest) (fuel polls : Nat) (result : BackendResult)
      (h : b.processBatch floats elapsed requests isCancelled fuel = some (result, polls)) :
      Answers (.continuousTinyLLM b) requests result
  | onnxRuntime (modelPath runtimeLibraryPath : Bytes) (l : OnnxLoading)
      (before : List (OnnxImpl.Batch Feature)) (b : OnnxImpl.Batch Feature)
      (h : b.isCancelled = isCancelled) :
      Answers (.onnxRuntime modelPath runtimeLibraryPath) b.requests
        (((OnnxImpl.construct modelPath runtimeLibraryPath l).serve features zero before).2.run
          features zero b.session b.isCancelled b.requests).1
  | llamaCpp (b : LlamaCppBackend) (files : CppFiles) (batch : List CppRequest)
      (out : CppOutcome) (h : b.processBatch files isCancelled batch = some out) :
      Answers (.llamaCpp b) (batch.map CppRequest.request) out.result
  | llamaServer (b : LlamaServerBackend) (timeoutMs : Clamped 100 (10 * 60 * 1000))
      (batch : List (BackendRequest × Connection)) :
      Answers (.llamaServer b timeoutMs) (batch.map Prod.fst)
        (processBatch b isCancelled batch).result

structure Complete (requests : List BackendRequest) (result : BackendResult) : Prop where
  outputs : result.outputs.length = requests.length
  metadata : result.outputMetadata = [] ∨ result.outputMetadata.length = requests.length

theorem outcome_complete {x : Polling BackendResult} {outputs : List Bytes} {n : Nat}
    (h : Yields x { outputs := outputs } n) {requests : List BackendRequest}
    (hlength : outputs.length = requests.length) (hok : (outcome isCancelled x 0).1.code = .ok) :
    Complete requests (outcome isCancelled x 0).1 := by
  by_cases hraised : Raised isCancelled 0 (0 + n)
  · obtain ⟨last, hlast⟩ := outcome_raised h hraised
    exact absurd hok (by simp [hlast, cancelledResult])
  · rw [outcome_quiet h hraised]
    exact ⟨hlength, Or.inl rfl⟩

theorem OnnxImpl.Answered.complete {b : OnnxImpl.Batch Feature} {result : BackendResult}
    (h : OnnxImpl.Answered features b result) (hok : result.code = .ok) :
    Complete b.requests result := by
  cases h with
  | labelled outputs hlength hrows => exact ⟨hlength, Or.inl rfl⟩
  | cancelled hraised => exact absurd hok (by simp [cancelledResult])
  | unavailable reason => exact absurd hok (by simp [unavailableResult])

variable {floats textFloats features zero isCancelled} in
/-- A backend that says ok has answered every request. -/
theorem Answers.complete {b : WorkerBackend} {requests : List BackendRequest}
    {result : BackendResult}
    (h : Answers floats textFloats features zero isCancelled b requests result)
    (hok : result.code = .ok) : Complete requests result := by
  cases h with
  | simulator b =>
    obtain ⟨n, hn⟩ := b.processBatch_yields requests
    exact outcome_complete isCancelled hn (by simp) hok
  | tinyTextModel b =>
    obtain ⟨n, hn⟩ := b.processBatch_yields textFloats requests
    exact outcome_complete isCancelled hn (by simp) hok
  | tinyLLM b elapsed =>
    obtain ⟨n, hn⟩ := b.processBatch_yields floats elapsed requests
    exact outcome_complete isCancelled hn (by simp) hok
  | continuousTinyLLM b elapsed _ fuel polls _ h =>
    obtain ⟨entries, hrequests, houtputs, hmetadata⟩ := continuous_outputs floats h hok
    have hlength := congrArg List.length hrequests
    rw [List.length_map] at hlength
    exact ⟨by rw [houtputs, List.length_map, hlength], Or.inr (hmetadata.trans hlength)⟩
  | onnxRuntime modelPath runtimeLibraryPath l before b h =>
    exact (OnnxImpl.run_answered features zero _ b).complete features hok
  | llamaCpp b files batch out h =>
    have hsettled := LlamaCppBackend.processBatch_outcome h
    rcases hsettled.answers with ⟨-, houtputs, -⟩ | ⟨hcode, -⟩
    · exact ⟨by rw [List.length_map, houtputs.length_eq], Or.inl hsettled.metadata⟩
    · exact absurd hok hcode
  | llamaServer b timeoutMs batch =>
    rcases processBatch_readable b isCancelled batch with hread | hrefused
    · exact ⟨by rw [List.length_map, hread.outputs.length_eq],
        Or.inr (by rw [List.length_map, hread.metadata])⟩
    · exact absurd hok hrefused.1

end

end Laminar.Backend
