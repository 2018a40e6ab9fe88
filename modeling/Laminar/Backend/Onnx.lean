import Laminar.Backend.Tiny
import Laminar.Library.Transition

/-! `OnnxRuntimeBackend` of `backend/inference_backend.cc` over the runtime that it loads. What the
runtime answers is an input; a call of it that fails creates nothing but its `OrtStatus`. -/
namespace Laminar.Backend
open Laminar.Llama

inductive OrtObject where
  | env
  | sessionOptions
  | memoryInfo
  | session
  | inputValue
  | outputValue
  | status
deriving DecidableEq

inductive OrtCall where
  | dlopen
  | dlclose
  | create (o : OrtObject)
  | release (o : OrtObject)
deriving DecidableEq

/-- `Impl`; `held` lists the members that are not null, the newest first. -/
structure OnnxImpl where
  modelPath : Bytes
  runtimeLibraryPath : Bytes
  unavailableReason : Bytes := text "onnx runtime is not initialized"
  ready : Bool := false
  libraryHandle : Bool := false
  api : Bool := false
  held : List OrtObject := []
  calls : List OrtCall := []
deriving DecidableEq

/-- What `Initialize` meets; `statuses` are the error messages of its API calls, in order. -/
structure OnnxLoading where
  libraryExists : Bool := true
  modelExists : Bool := true
  opens : Bool := true
  dlerror : Option Bytes := none
  symbolFound : Bool := true
  apiBase : Bool := true
  apiVersion : Bool := true
  statuses : Nat → Option Bytes := fun _ => none

/-- What the session answers for one chunk: an error message for each call that fails, and the
labels of the three rows. -/
structure OnnxAnswer where
  tensorError : Option Bytes := none
  runError : Option Bytes := none
  dataError : Option Bytes := none
  labels : Vector Int 3

namespace OnnxImpl

def call (s : OnnxImpl) (c : OrtCall) : OnnxImpl := { s with calls := s.calls ++ [c] }

/-- An API call that creates `o`, or else an `OrtStatus`. -/
def apiCall (s : OnnxImpl) (status : Option Bytes) (o : Option OrtObject) : OnnxImpl :=
  match status, o with
  | some _, _ => s.call (.create .status)
  | none, some o => s.call (.create o)
  | none, none => s

def failureReason (operation error : Bytes) : Bytes :=
  operation ++ text " failed" ++ if error = [] then [] else text ": " ++ error

def checkStatus (s : OnnxImpl) (status : Option Bytes) (operation : Bytes) : Bool × OnnxImpl :=
  match status with
  | none => (true, s)
  | some error =>
    (false, { s.call (.release .status) with
      unavailableReason := failureReason operation error
      ready := false })

def initCalls : List (String × Option OrtObject) :=
  [("CreateEnv", some .env), ("CreateSessionOptions", some .sessionOptions),
    ("SetIntraOpNumThreads", none), ("SetInterOpNumThreads", none),
    ("CreateCpuMemoryInfo", some .memoryInfo), ("CreateSession", some .session)]

def initLoop (statuses : Nat → Option Bytes) :
    List (String × Option OrtObject) → Nat → OnnxImpl → OnnxImpl
  | [], _, s => { s with ready := true }
  | (operation, o) :: rest, n, s =>
    let checked := (s.apiCall (statuses n) o).checkStatus (statuses n) (text operation)
    if checked.1 then
      initLoop statuses rest (n + 1) { checked.2 with held := o.toList ++ checked.2.held }
    else checked.2

def defaultOnnxRuntimeLibraryPath : Bytes := text "third_party/onnxruntime/lib/libonnxruntime.so"

def initializeRuntime (s : OnnxImpl) (l : OnnxLoading) : OnnxImpl :=
  let s := if s.runtimeLibraryPath = [] then
      { s with runtimeLibraryPath := defaultOnnxRuntimeLibraryPath } else s
  let fail (s : OnnxImpl) (reason : Bytes) : OnnxImpl := { s with unavailableReason := reason }
  if !l.libraryExists then fail s (text "libonnxruntime not found at " ++ s.runtimeLibraryPath)
  else if !l.modelExists then fail s (text "ONNX model not found at " ++ s.modelPath)
  else if !l.opens then
    fail s (text "failed to load libonnxruntime" ++
      match l.dlerror with
      | none => []
      | some error => text ": " ++ error)
  else
    let s := { s.call .dlopen with libraryHandle := true }
    if !l.symbolFound then
      fail s (text "OrtGetApiBase symbol not found in " ++ s.runtimeLibraryPath)
    else if !l.apiBase then fail s (text "OrtGetApiBase returned null")
    else if !l.apiVersion then fail s (text "ONNX Runtime API version is unavailable")
    else initLoop l.statuses initCalls 0 { s with api := true }

def construct (modelPath runtimeLibraryPath : Bytes) (l : OnnxLoading) : OnnxImpl :=
  initializeRuntime { modelPath := modelPath, runtimeLibraryPath := runtimeLibraryPath } l

def releaseIfHeld (s : OnnxImpl) (o : OrtObject) : OnnxImpl :=
  if o ∈ s.held then { s.call (.release o) with held := s.held.erase o } else s

def destroy (s : OnnxImpl) : OnnxImpl :=
  let s := if s.api then
      [OrtObject.session, .sessionOptions, .memoryInfo, .env].foldl releaseIfHeld s else s
  if s.libraryHandle then { s.call .dlclose with libraryHandle := false } else s

section
variable {Feature : Type} (features : Bytes → Feature × Feature) (zero : Feature)

def chunkInput (chunk : List BackendRequest) : Vector (Feature × Feature) 3 :=
  Vector.ofFn fun i =>
    match chunk[i.val]? with
    | some request => features request.prompt
    | none => (zero, zero)

def formatOutput (label : Int) (batchSize : Nat) : Bytes :=
  text "OnnxRuntime(backend=onnx, model=logreg_iris, label=" ++ decimal label ++
    text ", batch_size=" ++ decimal batchSize ++ text ", model_batch=3)"

def runChunk (s : OnnxImpl) (answer : OnnxAnswer) : Option (Vector Int 3) × OnnxImpl :=
  let tensor := (s.apiCall answer.tensorError (some .inputValue)).checkStatus answer.tensorError
    (text "CreateTensorWithDataAsOrtValue")
  if !tensor.1 then (none, tensor.2)
  else
    let s := (tensor.2.apiCall answer.runError (some .outputValue)).call (.release .inputValue)
    let ran := s.checkStatus answer.runError (text "Run")
    if !ran.1 then (none, ran.2)
    else
      let data := (ran.2.apiCall answer.dataError none).checkStatus answer.dataError
        (text "GetTensorMutableData")
      let s := data.2.call (.release .outputValue)
      if !data.1 then (none, s) else (some answer.labels, s)

variable (session : Nat → Vector (Feature × Feature) 3 → OnnxAnswer) (isCancelled : Nat → Bool)

def chunkOutputs (chunk : List BackendRequest) (labels : Vector Int 3) (batchSize : Nat) :
    List Bytes :=
  (labels.toList.take chunk.length).map fun label => formatOutput label batchSize

/-- The loop of `Run` over the offsets; the poll before chunk `k` has the number `k + 1`. -/
def runLoop (requests : List BackendRequest) :
    List Nat → OnnxImpl → List Bytes → BackendResult × OnnxImpl
  | [], s, outputs => ({ outputs := outputs }, s)
  | k :: rest, s, outputs =>
    if isCancelled (k + 1) then (cancelledResult, s)
    else
      let chunk := (requests.drop (3 * k)).take 3
      match s.runChunk (session k (chunkInput features zero chunk)) with
      | (none, s) => (unavailableResult s.unavailableReason, s)
      | (some labels, s) =>
        runLoop requests rest s (outputs ++ chunkOutputs chunk labels requests.length)

def run (s : OnnxImpl) (requests : List BackendRequest) : BackendResult × OnnxImpl :=
  if !s.ready then (unavailableResult s.unavailableReason, s)
  else if isCancelled 0 then (cancelledResult, s)
  else
    runLoop features zero session isCancelled requests (List.range ((requests.length + 2) / 3)) s []

end

structure Batch (Feature : Type) where
  requests : List BackendRequest
  session : Nat → Vector (Feature × Feature) 3 → OnnxAnswer
  isCancelled : Nat → Bool

def serve {Feature : Type} (features : Bytes → Feature × Feature) (zero : Feature) (s : OnnxImpl)
    (batches : List (Batch Feature)) : List BackendResult × OnnxImpl :=
  batches.foldl (fun p b =>
    let r := p.2.run features zero b.session b.isCancelled b.requests
    (p.1 ++ [r.1], r.2)) ([], s)

end OnnxImpl

end Laminar.Backend
