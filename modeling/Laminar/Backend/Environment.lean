import Laminar.Backend.Cpp
import Laminar.Backend.OnnxLifetime
import Laminar.Llama.OwnFields

/-! The configuration of a worker: `BackendConfigFromEnv` and `CreateBackend` of
`backend/inference_backend.cc`, over any environment. A float is the rational number it stands
for; its text is read by a `strtof` that is an input. -/
namespace Laminar.Backend
open Laminar.Llama Laminar.Decimal

inductive BackendKind where
  | simulator
  | tinyTextModel
  | tinyLLM
  | continuousTinyLLM
  | onnxRuntime
  | llamaCpp
  | llamaServer
deriving DecidableEq

inductive FloatValue where
  | finite (value : ℚ)
  | nonFinite
deriving DecidableEq

/-- `std::getenv`; a value is a C string. -/
abbrev Environment := String → Option Bytes

def trimLower (value : Bytes) : Bytes := (trimWhitespace value).map toLower

/-- Where `std::strtol` stops, if it reads a number. -/
def afterDecimal (value : Bytes) : Bytes :=
  let rest := value.dropWhile isSpace
  let rest := if rest.head? = some 45 ∨ rest.head? = some 43 then rest.tail else rest
  rest.dropWhile isDigit

def clampFloat (value low high : ℚ) : ℚ := max low (min value high)

section
variable (getenv : Environment)

def envString (key : String) (fallback : Bytes) : Bytes :=
  match getenv key with
  | none => fallback
  | some raw => if raw = [] then fallback else raw

def envInt (key : String) (fallback minimum maximum : Int) : Int :=
  match getenv key with
  | none => fallback
  | some raw =>
    if raw = [] then fallback
    else
      match strtol raw with
      | none => fallback
      | some value =>
        if afterDecimal raw ≠ [] then fallback else toInt (max minimum (min value maximum))

def envFloat (strtof : Bytes → Option (FloatValue × Bytes)) (key : String)
    (fallback minimum maximum : ℚ) : ℚ :=
  match getenv key with
  | none => fallback
  | some raw =>
    if raw = [] then fallback
    else
      match strtof raw with
      | none => fallback
      | some (.nonFinite, _) => fallback
      | some (.finite value, rest) =>
        if rest ≠ [] then fallback else clampFloat value minimum maximum

def envBool (key : String) (fallback : Bool) : Bool :=
  match getenv key with
  | none => fallback
  | some raw =>
    if raw = [] then fallback
    else
      let value := trimLower raw
      if [text "1", text "true", text "yes", text "on"].contains value then true
      else if [text "0", text "false", text "no", text "off"].contains value then false
      else fallback

end

def parseBackendKind (raw : Bytes) : BackendKind :=
  let normalized := trimLower raw
  if [text "tiny_model", text "tiny-text", text "tiny_text",
      text "tiny_text_model"].contains normalized then .tinyTextModel
  else if [text "tiny_llm", text "tiny-llm", text "tiny_decoder",
      text "tiny_decoder_llm"].contains normalized then .tinyLLM
  else if [text "continuous_tiny_llm", text "continuous-tiny-llm",
      text "continuous_llm", text "continuous-llm"].contains normalized then .continuousTinyLLM
  else if [text "llama_cpp", text "llama-cpp", text "llama", text "gguf"].contains normalized then
    .llamaCpp
  else if [text "llama_server", text "llama-server", text "llama.cpp-server",
      text "llama_server_http"].contains normalized then .llamaServer
  else if [text "onnx", text "onnxruntime", text "onnx_runtime"].contains normalized then
    .onnxRuntime
  else .simulator

def backendKindName : BackendKind → Bytes
  | .llamaServer => text "llama_server"
  | .llamaCpp => text "llama_cpp"
  | .onnxRuntime => text "onnx"
  | .continuousTinyLLM => text "continuous_tiny_llm"
  | .tinyLLM => text "tiny_llm"
  | .tinyTextModel => text "tiny_text_model"
  | .simulator => text "simulator"

def float005 : ℚ := 13421773 / 2 ^ 28

def float07 : ℚ := 11744051 / 2 ^ 24

def float08 : ℚ := 13421773 / 2 ^ 24

@[ext]
structure BackendConfig where
  kind : BackendKind := .simulator
  simulatorBaseLatencyMs : Int := 20
  simulatorPerRequestLatencyMs : Int := 5
  tinyModelIterations : Int := 8
  tinyLLMMaxGeneratedTokens : Int := 12
  tinyLLMTopK : Int := 5
  tinyLLMTemperature : ℚ := float08
  continuousMaxPrefillTokensPerStep : Int := 32
  continuousMaxDecodeSequencesPerStep : Int := 8
  continuousKvCacheBlocks : Int := 512
  continuousKvBlockTokens : Int := 16
  continuousPrefixCacheTokens : Int := 2
  onnxModelPath : Bytes := text "models/logreg_iris.onnx"
  onnxRuntimeLibraryPath : Bytes := []
  llamaCppBinaryPath : Bytes := text "llama-cli"
  llamaCppModelPath : Bytes := []
  llamaCppMaxTokens : Int := 64
  llamaCppContextSize : Int := 2048
  llamaCppThreads : Int := 0
  llamaCppTemperature : ℚ := float07
  llamaCppTimeoutMs : Int := 120000
  llamaServerUrl : Bytes := text "http://127.0.0.1:8080/completion"
  llamaServerMaxTokens : Int := 64
  llamaServerTemperature : ℚ := float07
  llamaServerTimeoutMs : Int := 120000
  llamaServerCachePrompt : Bool := true
  llamaServerStream : Bool := true
  llamaServerTimingsPerToken : Bool := true
deriving DecidableEq

def backendConfigFromEnv (getenv : Environment) (strtof : Bytes → Option (FloatValue × Bytes)) :
    BackendConfig :=
  let config : BackendConfig := {}
  { kind :=
      match getenv "LAMINAR_WORKER_BACKEND" with
      | none => config.kind
      | some backend => parseBackendKind backend
    simulatorBaseLatencyMs :=
      envInt getenv "LAMINAR_SIMULATOR_BASE_LATENCY_MS" config.simulatorBaseLatencyMs 0 60000
    simulatorPerRequestLatencyMs :=
      envInt getenv "LAMINAR_SIMULATOR_PER_REQUEST_LATENCY_MS" config.simulatorPerRequestLatencyMs
        0 60000
    tinyModelIterations :=
      envInt getenv "LAMINAR_TINY_MODEL_ITERATIONS" config.tinyModelIterations 1 1024
    tinyLLMMaxGeneratedTokens :=
      envInt getenv "LAMINAR_TINY_LLM_MAX_GENERATED_TOKENS" config.tinyLLMMaxGeneratedTokens 1 64
    tinyLLMTopK := envInt getenv "LAMINAR_TINY_LLM_TOP_K" config.tinyLLMTopK 1 (64 - 2)
    tinyLLMTemperature :=
      envFloat getenv strtof "LAMINAR_TINY_LLM_TEMPERATURE" config.tinyLLMTemperature float005 2
    continuousMaxPrefillTokensPerStep :=
      envInt getenv "LAMINAR_CONTINUOUS_MAX_PREFILL_TOKENS_PER_STEP"
        config.continuousMaxPrefillTokensPerStep 1 (2 ^ 20)
    continuousMaxDecodeSequencesPerStep :=
      envInt getenv "LAMINAR_CONTINUOUS_MAX_DECODE_SEQUENCES_PER_STEP"
        config.continuousMaxDecodeSequencesPerStep 1 (2 ^ 20)
    continuousKvCacheBlocks :=
      envInt getenv "LAMINAR_CONTINUOUS_KV_CACHE_BLOCKS" config.continuousKvCacheBlocks 1 (2 ^ 20)
    continuousKvBlockTokens :=
      envInt getenv "LAMINAR_CONTINUOUS_KV_BLOCK_TOKENS" config.continuousKvBlockTokens 1 (2 ^ 20)
    continuousPrefixCacheTokens :=
      envInt getenv "LAMINAR_CONTINUOUS_PREFIX_CACHE_TOKENS" config.continuousPrefixCacheTokens
        0 1024
    onnxModelPath := envString getenv "LAMINAR_ONNX_MODEL_PATH" config.onnxModelPath
    onnxRuntimeLibraryPath :=
      envString getenv "LAMINAR_ONNX_RUNTIME_LIB" OnnxImpl.defaultOnnxRuntimeLibraryPath
    llamaCppBinaryPath := envString getenv "LAMINAR_LLAMA_CPP_BINARY" config.llamaCppBinaryPath
    llamaCppModelPath := envString getenv "LAMINAR_LLAMA_CPP_MODEL" config.llamaCppModelPath
    llamaCppMaxTokens :=
      envInt getenv "LAMINAR_LLAMA_CPP_MAX_TOKENS" config.llamaCppMaxTokens 1 4096
    llamaCppContextSize :=
      envInt getenv "LAMINAR_LLAMA_CPP_CONTEXT_SIZE" config.llamaCppContextSize 128 262144
    llamaCppThreads := envInt getenv "LAMINAR_LLAMA_CPP_THREADS" config.llamaCppThreads 0 1024
    llamaCppTemperature :=
      envFloat getenv strtof "LAMINAR_LLAMA_CPP_TEMPERATURE" config.llamaCppTemperature 0 2
    llamaCppTimeoutMs :=
      envInt getenv "LAMINAR_LLAMA_CPP_TIMEOUT_MS" config.llamaCppTimeoutMs 100 (10 * 60 * 1000)
    llamaServerUrl := envString getenv "LAMINAR_LLAMA_SERVER_URL" config.llamaServerUrl
    llamaServerMaxTokens :=
      envInt getenv "LAMINAR_LLAMA_SERVER_MAX_TOKENS" config.llamaServerMaxTokens 1 4096
    llamaServerTemperature :=
      envFloat getenv strtof "LAMINAR_LLAMA_SERVER_TEMPERATURE" config.llamaServerTemperature 0 2
    llamaServerTimeoutMs :=
      envInt getenv "LAMINAR_LLAMA_SERVER_TIMEOUT_MS" config.llamaServerTimeoutMs 100
        (10 * 60 * 1000)
    llamaServerCachePrompt :=
      envBool getenv "LAMINAR_LLAMA_SERVER_CACHE_PROMPT" config.llamaServerCachePrompt
    llamaServerStream := envBool getenv "LAMINAR_LLAMA_SERVER_STREAM" config.llamaServerStream
    llamaServerTimingsPerToken :=
      envBool getenv "LAMINAR_LLAMA_SERVER_TIMINGS_PER_TOKEN" config.llamaServerTimingsPerToken }

theorem timeoutMs_range : (100 : Int) ≤ 10 * 60 * 1000 := by decide

/-- What `CreateBackend` makes. The ONNX backend comes as its two paths, before its runtime. -/
inductive WorkerBackend where
  | simulator (b : SimulatorBackend)
  | tinyTextModel (b : TinyTextModelBackend)
  | tinyLLM (b : TinyLLMBackend ℚ)
  | continuousTinyLLM (b : ContinuousTinyLLMBackend ℚ)
  | onnxRuntime (modelPath runtimeLibraryPath : Bytes)
  | llamaCpp (b : LlamaCppBackend)
  | llamaServer (b : LlamaServerBackend) (timeoutMs : Clamped 100 (10 * 60 * 1000))

def WorkerBackend.name : WorkerBackend → Bytes
  | .simulator _ => text "simulator"
  | .tinyTextModel _ => text "tiny_text_model"
  | .tinyLLM _ => text "tiny_llm"
  | .continuousTinyLLM _ => text "continuous_tiny_llm"
  | .onnxRuntime _ _ => text "onnx"
  | .llamaCpp _ => text "llama_cpp"
  | .llamaServer _ _ => text "llama_server"

section
variable {Hidden : Type} (floats : TinyLLMFloats ℚ Hidden)

/-- The floating-point part with the bounds that the constructors put on a temperature. -/
def bounded : TinyLLMFloats ℚ Hidden :=
  { floats with clampTemperature := fun temperature => clampFloat temperature float005 2 }

def createBackend (config : BackendConfig) : WorkerBackend :=
  match config.kind with
  | .llamaServer =>
    .llamaServer
      (llamaServerBackend config.llamaServerUrl config.llamaServerMaxTokens
        (floats.fixed (clampFloat config.llamaServerTemperature 0 2))
        config.llamaServerCachePrompt config.llamaServerStream config.llamaServerTimingsPerToken)
      (clamp config.llamaServerTimeoutMs 100 (10 * 60 * 1000) timeoutMs_range)
  | .llamaCpp =>
    .llamaCpp (llamaCppBackend config.llamaCppBinaryPath config.llamaCppModelPath
      config.llamaCppMaxTokens config.llamaCppContextSize config.llamaCppThreads
      (floats.fixed (clampFloat config.llamaCppTemperature 0 2)) config.llamaCppTimeoutMs)
  | .onnxRuntime => .onnxRuntime config.onnxModelPath config.onnxRuntimeLibraryPath
  | .continuousTinyLLM =>
    .continuousTinyLLM (continuousTinyLLMBackend (bounded floats) config.tinyLLMMaxGeneratedTokens
      config.tinyLLMTemperature config.tinyLLMTopK config.continuousMaxPrefillTokensPerStep
      config.continuousMaxDecodeSequencesPerStep config.continuousKvCacheBlocks
      config.continuousKvBlockTokens config.continuousPrefixCacheTokens)
  | .tinyLLM =>
    .tinyLLM (tinyLLMBackend (bounded floats) config.tinyLLMMaxGeneratedTokens
      config.tinyLLMTemperature config.tinyLLMTopK)
  | .tinyTextModel => .tinyTextModel (tinyTextModelBackend config.tinyModelIterations)
  | .simulator =>
    .simulator (simulatorBackend config.simulatorBaseLatencyMs config.simulatorPerRequestLatencyMs)

end

end Laminar.Backend
