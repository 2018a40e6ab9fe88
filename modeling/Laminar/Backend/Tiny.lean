import Laminar.Library.Polling
import Laminar.Llama.Server

/-! The simulator, the tiny text model and the tiny language model of
`backend/inference_backend.cc`. Their floating-point computations are functions of their inputs,
the durations they measure are inputs. -/
namespace Laminar.Backend
open Laminar.Llama Laminar.Polling

/-- An integer that `std::clamp` has put between two bounds. -/
abbrev Clamped (low high : Int) : Type := {value : Int // low ≤ value ∧ value ≤ high}

def clamp (value low high : Int) (h : low ≤ high) : Clamped low high :=
  ⟨max low (min value high), by omega⟩

/-- The result of a computation that begins after some polls, and the polls made then; what gives
up is `CancelledResult`. -/
def outcome (isCancelled : Nat → Bool) (x : Polling BackendResult) (polls : Nat) :
    BackendResult × Nat :=
  ((x isCancelled polls).1.getD cancelledResult, (x isCancelled polls).2)

def isAlnum (c : UInt8) : Bool :=
  isDigit c || (65 ≤ c && c ≤ 90) || (97 ≤ c && c ≤ 122)

def toLower (c : UInt8) : UInt8 := if 65 ≤ c && c ≤ 90 then c + 32 else c

def hashToken (token : Bytes) : UInt32 :=
  token.foldl (fun hash ch => (hash ^^^ ch.toUInt32) * 16777619) 2166136261

def tokenize (prompt : Bytes) : List Bytes :=
  let rec loop : Bytes → List Bytes → Bytes → List Bytes
    | [], tokens, token => if token = [] then tokens else tokens ++ [token]
    | ch :: rest, tokens, token =>
      if isAlnum ch then loop rest tokens (token ++ [toLower ch])
      else if token = [] then loop rest tokens token
      else loop rest (tokens ++ [token]) []
  loop prompt [] []

def vocabulary : Vector String 64 := #v[
  "<bos>", "<eos>", "batching", "latency", "throughput", "queue", "worker", "trace",
  "token", "prefill", "decode", "attention", "cache", "runtime", "model", "adaptive",
  "system", "request", "response", "metric", "collector", "span", "grpc", "http",
  "onnx", "scheduler", "load", "failure", "circuit", "prompt", "context", "generation",
  "quality", "safe", "fast", "deterministic", "serve", "inference", "pipeline", "parallel",
  "microbatch", "tail", "p50", "p95", "tokenizer", "embedding", "logit", "sample",
  "topk", "temperature", "hidden", "layer", "position", "causal", "benchmark", "evidence",
  "local", "hermetic", "control", "data", "engine", "memory", "compute", "finish"]

def tokenId (token : Bytes) : Fin 64 :=
  ⟨2 + (hashToken token).toNat % (64 - 2), by omega⟩

def tokenizeForTinyLLM (prompt : Bytes) : List (Fin 64) :=
  let tokenIds := 0 :: (tokenize prompt).map tokenId
  if tokenIds.length = 1 then tokenIds ++ [tokenId prompt] else tokenIds

structure SimulatorBackend where
  baseLatencyMs : Int
  perRequestLatencyMs : Int

def simulatorBackend (baseLatencyMs perRequestLatencyMs : Int) : SimulatorBackend :=
  { baseLatencyMs := max baseLatencyMs 0, perRequestLatencyMs := max perRequestLatencyMs 0 }

def SimulatorBackend.totalLatencyMs (b : SimulatorBackend) (batchSize : Nat) : Int :=
  b.baseLatencyMs + batchSize * b.perRequestLatencyMs

def SimulatorBackend.format (b : SimulatorBackend) (batchSize : Nat) (request : BackendRequest) :
    Bytes :=
  text "Processed: '" ++ request.prompt ++ text "' (backend=simulator, batch_size=" ++
    decimal batchSize ++ text ", latency=" ++ decimal (b.totalLatencyMs batchSize) ++ text "ms)"

def waitLoop (remainingLatencyMs : Int) : Polling Unit :=
  if remainingLatencyMs > 0 then do
    poll
    waitLoop (remainingLatencyMs - min remainingLatencyMs 5)
  else pure ()
termination_by remainingLatencyMs.toNat
decreasing_by omega

def SimulatorBackend.processBatch (b : SimulatorBackend) (requests : List BackendRequest) :
    Polling BackendResult := do
  waitLoop (b.totalLatencyMs requests.length)
  poll
  pure { outputs := requests.map (b.format requests.length) }

/-- The floating-point part of the tiny text model, over the hidden layers it computes. -/
structure TinyTextFloats (Hidden : Type) where
  hidden : Bytes → Hidden
  layer : Hidden → Nat → Hidden
  /-- The likeliest class, and its probability with three decimals. -/
  classify : Hidden → Fin 4 × Bytes

def labels : Vector String 4 := #v["latency_sensitive", "quality_seeking", "safety_review",
  "general"]

structure TinyTextModelBackend where
  iterations : Clamped 1 1024

def tinyTextModelBackend (iterations : Int) : TinyTextModelBackend :=
  { iterations := clamp iterations 1 1024 (by omega) }

def formatTinyModelOutput (label confidence : Bytes) (batchSize : Nat) (iterations : Int) : Bytes :=
  text "TinyTextModel(backend=tiny_text_model, label=" ++ label ++
    text ", confidence=" ++ confidence ++
    text ", batch_size=" ++ decimal batchSize ++
    text ", iterations=" ++ decimal iterations ++ text ")"

section
variable {Hidden : Type}

def TinyTextModelBackend.answer (floats : TinyTextFloats Hidden) (b : TinyTextModelBackend)
    (batchSize : Nat) (request : BackendRequest) : Polling Bytes := do
  poll
  let hidden ← (List.range b.iterations.val.toNat).foldlM
    (fun hidden layer => do
      poll
      pure (floats.layer hidden layer))
    (floats.hidden request.prompt)
  let best := floats.classify hidden
  pure (formatTinyModelOutput (text labels[best.1]) best.2 batchSize b.iterations.val)

def TinyTextModelBackend.processBatch (floats : TinyTextFloats Hidden) (b : TinyTextModelBackend)
    (requests : List BackendRequest) : Polling BackendResult := do
  poll
  let outputs ← requests.mapM (b.answer floats requests.length)
  pure { outputs := outputs }

end

/-- The floating-point part of the tiny language model, over its temperatures and states. -/
structure TinyLLMFloats (Temperature Hidden : Type) where
  clampTemperature : Temperature → Temperature
  /-- A temperature with three decimals. -/
  fixed : Temperature → Bytes
  nextState : Fin 64 → Nat → List Hidden → Hidden
  /-- The ids by falling logit at a temperature, as far as the first `topK` are sorted. -/
  ranked : Hidden → Temperature → Int → Nat → Fin 64
  /-- Tokens per decode step, with two decimals. -/
  averageDecodeBatchSize : Int → Int → Bytes

structure TinyLLMBackend (Temperature : Type) where
  maxGeneratedTokens : Clamped 1 64
  temperature : Temperature
  topK : Clamped 1 62

/-- The microseconds that a request's prefill and decode took. -/
structure Elapsed where
  prefillMicros : Int
  decodeMicros : Int

section
variable {Temperature Hidden : Type} (floats : TinyLLMFloats Temperature Hidden)

def tinyLLMBackend (maxGeneratedTokens : Int) (temperature : Temperature) (topK : Int) :
    TinyLLMBackend Temperature :=
  { maxGeneratedTokens := clamp maxGeneratedTokens 1 64 (by omega)
    temperature := floats.clampTemperature temperature
    topK := clamp topK 1 62 (by omega) }

def tinyLLMPrefill (tokenIds : List (Fin 64)) : Polling (List Hidden) :=
  Polling.otherwise
    (tokenIds.foldlM
      (fun states tokenId => do
        poll
        pure (states ++ [floats.nextState tokenId states.length states]))
      [])
    []

def tinyLLMSelectToken (b : TinyLLMBackend Temperature) (state : Hidden) (seed : UInt32)
    (step : Nat) : Fin 64 :=
  floats.ranked state b.temperature b.topK.val
    ((seed + UInt32.ofNat (step * 17)) % UInt32.ofNat b.topK.val.toNat).toNat

structure Decoding (Hidden : Type) where
  tokenIds : List (Fin 64)
  generatedIds : List (Fin 64) := []
  states : List Hidden

def Decoding.next (b : TinyLLMBackend Temperature) (seed : UInt32) (d : Decoding Hidden)
    (step : Nat) : Decoding Hidden :=
  match d.states.getLast? with
  | none => d
  | some state =>
    let nextToken := tinyLLMSelectToken floats b state seed step
    { tokenIds := d.tokenIds ++ [nextToken]
      generatedIds := d.generatedIds ++ [nextToken]
      states := d.states ++ [floats.nextState nextToken d.tokenIds.length d.states] }

def decodeLoop (b : TinyLLMBackend Temperature) (seed : UInt32) (d : Decoding Hidden) :
    Polling (Decoding Hidden) :=
  (List.range b.maxGeneratedTokens.val.toNat).foldlM
    (fun d step => do
      poll
      pure (d.next floats b seed step))
    d

def joinGeneratedTokens (tokenIds : List (Fin 64)) : Bytes :=
  (text " ").intercalate (tokenIds.map (fun tokenId => text vocabulary[tokenId]))

def formatTinyLLMOutput (b : TinyLLMBackend Temperature) (generated : Bytes)
    (promptTokens generatedTokens : Nat) (elapsed : Elapsed) (batchSize : Nat) : Bytes :=
  text "TinyLLM(backend=tiny_llm, generated='" ++ generated ++
    text "', prompt_tokens=" ++ decimal promptTokens ++
    text ", generated_tokens=" ++ decimal generatedTokens ++
    text ", prefill_micros=" ++ decimal elapsed.prefillMicros ++
    text ", decode_micros=" ++ decimal elapsed.decodeMicros ++
    text ", batch_size=" ++ decimal batchSize ++
    text ", max_generated_tokens=" ++ decimal b.maxGeneratedTokens.val ++
    text ", top_k=" ++ decimal b.topK.val ++
    text ", temperature=" ++ floats.fixed b.temperature ++ text ")"

def TinyLLMBackend.answer (b : TinyLLMBackend Temperature) (elapsed : Nat → Elapsed)
    (batchSize : Nat) (request : BackendRequest × Nat) : Polling Bytes := do
  poll
  let tokenIds := tokenizeForTinyLLM request.1.prompt
  let states ← tinyLLMPrefill floats tokenIds
  poll
  if states = [] then giveUp
  let d ← decodeLoop floats b (hashToken request.1.prompt)
    { tokenIds := tokenIds, states := states }
  pure (formatTinyLLMOutput floats b (joinGeneratedTokens d.generatedIds)
    (d.tokenIds.length - d.generatedIds.length) d.generatedIds.length (elapsed request.2) batchSize)

def TinyLLMBackend.processBatch (b : TinyLLMBackend Temperature) (elapsed : Nat → Elapsed)
    (requests : List BackendRequest) : Polling BackendResult := do
  poll
  let outputs ← requests.zipIdx.mapM (b.answer floats elapsed requests.length)
  pure { outputs := outputs }

end

end Laminar.Backend
