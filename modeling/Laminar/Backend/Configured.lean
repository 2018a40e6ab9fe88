import Laminar.Backend.Environment

/-! What a worker runs with: every number within its bounds, the backend with the numbers of its
configuration, and each configuration within bounds from some environment. -/
namespace Laminar.Backend
open Laminar.Llama Laminar.Decimal

structure BackendConfig.InRange (c : BackendConfig) : Prop where
  simulatorBaseLatencyMs : c.simulatorBaseLatencyMs ∈ Set.Icc 0 60000
  simulatorPerRequestLatencyMs : c.simulatorPerRequestLatencyMs ∈ Set.Icc 0 60000
  tinyModelIterations : c.tinyModelIterations ∈ Set.Icc 1 1024
  tinyLLMMaxGeneratedTokens : c.tinyLLMMaxGeneratedTokens ∈ Set.Icc 1 64
  tinyLLMTopK : c.tinyLLMTopK ∈ Set.Icc 1 62
  tinyLLMTemperature : c.tinyLLMTemperature ∈ Set.Icc float005 2
  continuousMaxPrefillTokensPerStep : c.continuousMaxPrefillTokensPerStep ∈ Set.Icc 1 (2 ^ 20)
  continuousMaxDecodeSequencesPerStep :
    c.continuousMaxDecodeSequencesPerStep ∈ Set.Icc 1 (2 ^ 20)
  continuousKvCacheBlocks : c.continuousKvCacheBlocks ∈ Set.Icc 1 (2 ^ 20)
  continuousKvBlockTokens : c.continuousKvBlockTokens ∈ Set.Icc 1 (2 ^ 20)
  continuousPrefixCacheTokens : c.continuousPrefixCacheTokens ∈ Set.Icc 0 1024
  onnxModelPath : c.onnxModelPath ≠ []
  onnxRuntimeLibraryPath : c.onnxRuntimeLibraryPath ≠ []
  llamaCppBinaryPath : c.llamaCppBinaryPath ≠ []
  llamaCppMaxTokens : c.llamaCppMaxTokens ∈ Set.Icc 1 4096
  llamaCppContextSize : c.llamaCppContextSize ∈ Set.Icc 128 262144
  llamaCppThreads : c.llamaCppThreads ∈ Set.Icc 0 1024
  llamaCppTemperature : c.llamaCppTemperature ∈ Set.Icc 0 2
  llamaCppTimeoutMs : c.llamaCppTimeoutMs ∈ Set.Icc 100 600000
  llamaServerUrl : c.llamaServerUrl ≠ []
  llamaServerMaxTokens : c.llamaServerMaxTokens ∈ Set.Icc 1 4096
  llamaServerTemperature : c.llamaServerTemperature ∈ Set.Icc 0 2
  llamaServerTimeoutMs : c.llamaServerTimeoutMs ∈ Set.Icc 100 600000

theorem toInt_eq {value : Int} (hlow : -2 ^ 31 ≤ value) (hhigh : value < 2 ^ 31) :
    toInt value = value := by
  rw [toInt, Int.bmod_def]
  omega

section
variable (getenv : Environment)

/-- Whatever the text of the variable: the number is within the bounds if the fallback is. -/
theorem envInt_mem (key : String) {fallback minimum maximum : Int}
    (hfallback : fallback ∈ Set.Icc minimum maximum) (hlow : -2 ^ 31 ≤ minimum)
    (hhigh : maximum < 2 ^ 31) :
    envInt getenv key fallback minimum maximum ∈ Set.Icc minimum maximum := by
  obtain ⟨hminimum, hmaximum⟩ := hfallback
  have hclamp : ∀ value, toInt (max minimum (min value maximum)) ∈ Set.Icc minimum maximum := by
    intro value
    rw [toInt_eq (by omega) (by omega)]
    exact ⟨by omega, by omega⟩
  unfold envInt
  split
  · exact ⟨hminimum, hmaximum⟩
  · split
    · exact ⟨hminimum, hmaximum⟩
    · split
      · exact ⟨hminimum, hmaximum⟩
      · split
        · exact ⟨hminimum, hmaximum⟩
        · exact hclamp _

theorem clampFloat_mem {minimum maximum : ℚ} (h : minimum ≤ maximum) (value : ℚ) :
    clampFloat value minimum maximum ∈ Set.Icc minimum maximum :=
  ⟨le_max_left _ _, max_le h (min_le_right _ _)⟩

theorem envFloat_mem (strtof : Bytes → Option (FloatValue × Bytes)) (key : String)
    {fallback minimum maximum : ℚ} (hfallback : fallback ∈ Set.Icc minimum maximum) :
    envFloat getenv strtof key fallback minimum maximum ∈ Set.Icc minimum maximum := by
  unfold envFloat
  split
  · exact hfallback
  · split_ifs
    · exact hfallback
    · split
      · exact hfallback
      · exact hfallback
      · split_ifs
        · exact hfallback
        · exact clampFloat_mem (hfallback.1.trans hfallback.2) _

theorem envString_ne_nil (key : String) {fallback : Bytes} (hfallback : fallback ≠ []) :
    envString getenv key fallback ≠ [] := by
  unfold envString
  split
  · exact hfallback
  · split_ifs with hraw
    · exact hfallback
    · exact hraw

theorem backendConfigFromEnv_inRange (strtof : Bytes → Option (FloatValue × Bytes)) :
    (backendConfigFromEnv getenv strtof).InRange where
  simulatorBaseLatencyMs := envInt_mem _ _ (by decide) (by decide) (by decide)
  simulatorPerRequestLatencyMs := envInt_mem _ _ (by decide) (by decide) (by decide)
  tinyModelIterations := envInt_mem _ _ (by decide) (by decide) (by decide)
  tinyLLMMaxGeneratedTokens := envInt_mem _ _ (by decide) (by decide) (by decide)
  tinyLLMTopK := envInt_mem _ _ (by decide) (by decide) (by decide)
  tinyLLMTemperature := envFloat_mem _ _ _ (by norm_num [float005, float08])
  continuousMaxPrefillTokensPerStep := envInt_mem _ _ (by decide) (by decide) (by decide)
  continuousMaxDecodeSequencesPerStep := envInt_mem _ _ (by decide) (by decide) (by decide)
  continuousKvCacheBlocks := envInt_mem _ _ (by decide) (by decide) (by decide)
  continuousKvBlockTokens := envInt_mem _ _ (by decide) (by decide) (by decide)
  continuousPrefixCacheTokens := envInt_mem _ _ (by decide) (by decide) (by decide)
  onnxModelPath := envString_ne_nil _ _ (by decide)
  onnxRuntimeLibraryPath := envString_ne_nil _ _ (by decide)
  llamaCppBinaryPath := envString_ne_nil _ _ (by decide)
  llamaCppMaxTokens := envInt_mem _ _ (by decide) (by decide) (by decide)
  llamaCppContextSize := envInt_mem _ _ (by decide) (by decide) (by decide)
  llamaCppThreads := envInt_mem _ _ (by decide) (by decide) (by decide)
  llamaCppTemperature := envFloat_mem _ _ _ (by norm_num [float07])
  llamaCppTimeoutMs := envInt_mem _ _ (by decide) (by decide) (by decide)
  llamaServerUrl := envString_ne_nil _ _ (by decide)
  llamaServerMaxTokens := envInt_mem _ _ (by decide) (by decide) (by decide)
  llamaServerTemperature := envFloat_mem _ _ _ (by norm_num [float07])
  llamaServerTimeoutMs := envInt_mem _ _ (by decide) (by decide) (by decide)

end

theorem clamp_val {value low high : Int} (hvalue : value ∈ Set.Icc low high) :
    (clamp value low high (hvalue.1.trans hvalue.2)).val = value := by
  obtain ⟨hlow, hhigh⟩ := hvalue
  change max low (min value high) = value
  omega

theorem clampFloat_eq {value low high : ℚ} (h : value ∈ Set.Icc low high) :
    clampFloat value low high = value := by
  rw [clampFloat, min_eq_left h.2, max_eq_right h.1]

section
variable {Hidden : Type} (floats : TinyLLMFloats ℚ Hidden)

structure HoldsTinyLLM (c : BackendConfig) (b : TinyLLMBackend ℚ) : Prop where
  maxGeneratedTokens : b.maxGeneratedTokens.val = c.tinyLLMMaxGeneratedTokens
  temperature : b.temperature = c.tinyLLMTemperature
  topK : b.topK.val = c.tinyLLMTopK

/-- A backend of the kind of its configuration, with the values of the configuration as they
are. -/
inductive Holds (c : BackendConfig) : WorkerBackend → Prop
  | simulator (hkind : c.kind = .simulator) : Holds c (.simulator
      { baseLatencyMs := c.simulatorBaseLatencyMs
        perRequestLatencyMs := c.simulatorPerRequestLatencyMs })
  | tinyTextModel (hkind : c.kind = .tinyTextModel) (b : TinyTextModelBackend)
      (hiterations : b.iterations.val = c.tinyModelIterations) : Holds c (.tinyTextModel b)
  | tinyLLM (hkind : c.kind = .tinyLLM) (b : TinyLLMBackend ℚ) (hb : HoldsTinyLLM c b) :
      Holds c (.tinyLLM b)
  | continuousTinyLLM (hkind : c.kind = .continuousTinyLLM) (b : ContinuousTinyLLMBackend ℚ)
      (hb : HoldsTinyLLM c b.toTinyLLMBackend)
      (hconfig : b.schedulerConfig =
        { maxPrefillTokensPerStep := c.continuousMaxPrefillTokensPerStep
          maxDecodeSequencesPerStep := c.continuousMaxDecodeSequencesPerStep
          kvCacheBlocks := c.continuousKvCacheBlocks
          kvBlockTokens := c.continuousKvBlockTokens })
      (hcached : b.prefixCacheTokens.val = c.continuousPrefixCacheTokens) :
      Holds c (.continuousTinyLLM b)
  | onnxRuntime (hkind : c.kind = .onnxRuntime) :
      Holds c (.onnxRuntime c.onnxModelPath c.onnxRuntimeLibraryPath)
  | llamaCpp (hkind : c.kind = .llamaCpp) (b : LlamaCppBackend)
      (hpaths : b.binaryPath = c.llamaCppBinaryPath ∧ b.modelPath = c.llamaCppModelPath)
      (hmaxTokens : b.maxTokens.val = c.llamaCppMaxTokens)
      (hcontextSize : b.contextSize.val = c.llamaCppContextSize)
      (hthreads : b.threads.val = c.llamaCppThreads)
      (htemperature : b.temperature = floats.fixed c.llamaCppTemperature)
      (htimeout : b.timeoutMs.val = c.llamaCppTimeoutMs) : Holds c (.llamaCpp b)
  | llamaServer (hkind : c.kind = .llamaServer) (timeoutMs : Clamped 100 (10 * 60 * 1000))
      (htimeout : timeoutMs.val = c.llamaServerTimeoutMs) : Holds c (.llamaServer
        { serverUrl := c.llamaServerUrl, maxTokens := c.llamaServerMaxTokens
          temperature := floats.fixed c.llamaServerTemperature
          cachePrompt := c.llamaServerCachePrompt, stream := c.llamaServerStream
          timingsPerToken := c.llamaServerTimingsPerToken } timeoutMs)

theorem tinyLLMBackend_holds {c : BackendConfig} (h : c.InRange) :
    HoldsTinyLLM c (tinyLLMBackend (bounded floats) c.tinyLLMMaxGeneratedTokens
      c.tinyLLMTemperature c.tinyLLMTopK) :=
  ⟨clamp_val h.tinyLLMMaxGeneratedTokens, clampFloat_eq h.tinyLLMTemperature,
    clamp_val h.tinyLLMTopK⟩

/-- No constructor changes a value that is within the bounds of the configuration. -/
theorem createBackend_holds {c : BackendConfig} (h : c.InRange) :
    Holds floats c (createBackend floats c) := by
  unfold createBackend
  cases hkind : c.kind with
  | simulator =>
    have hbase := h.simulatorBaseLatencyMs.1
    have hperRequest := h.simulatorPerRequestLatencyMs.1
    simp only [simulatorBackend, max_eq_left hbase, max_eq_left hperRequest]
    exact .simulator hkind
  | tinyTextModel => exact .tinyTextModel hkind _ (clamp_val h.tinyModelIterations)
  | tinyLLM => exact .tinyLLM hkind _ (tinyLLMBackend_holds floats h)
  | continuousTinyLLM =>
    refine .continuousTinyLLM hkind _ (tinyLLMBackend_holds floats h) ?_
      (clamp_val h.continuousPrefixCacheTokens)
    simp only [ContinuousTinyLLMBackend.schedulerConfig, continuousTinyLLMBackend,
      clamp_val h.continuousMaxPrefillTokensPerStep,
      clamp_val h.continuousMaxDecodeSequencesPerStep, clamp_val h.continuousKvCacheBlocks,
      clamp_val h.continuousKvBlockTokens]
  | onnxRuntime => exact .onnxRuntime hkind
  | llamaCpp =>
    exact .llamaCpp hkind _ ⟨rfl, rfl⟩ (clamp_val h.llamaCppMaxTokens)
      (clamp_val h.llamaCppContextSize) (clamp_val h.llamaCppThreads)
      (congrArg floats.fixed (clampFloat_eq h.llamaCppTemperature))
      (clamp_val h.llamaCppTimeoutMs)
  | llamaServer =>
    obtain ⟨hlow, hhigh⟩ := h.llamaServerMaxTokens
    simp only [llamaServerBackend, min_eq_left hhigh, max_eq_right hlow,
      clampFloat_eq h.llamaServerTemperature]
    exact .llamaServer hkind _ (clamp_val h.llamaServerTimeoutMs)

end

theorem parseBackendKind_name (kind : BackendKind) :
    parseBackendKind (backendKindName kind) = kind := by
  cases kind <;> decide

theorem Holds.name {Hidden : Type} {floats : TinyLLMFloats ℚ Hidden} {c : BackendConfig}
    {b : WorkerBackend} (h : Holds floats c b) : b.name = backendKindName c.kind := by
  cases h with
  | simulator hkind => rw [hkind]; rfl
  | tinyTextModel hkind b hiterations => rw [hkind]; rfl
  | tinyLLM hkind b hb => rw [hkind]; rfl
  | continuousTinyLLM hkind b hb hconfig hcached => rw [hkind]; rfl
  | onnxRuntime hkind => rw [hkind]; rfl
  | llamaCpp hkind b hpaths hmaxTokens hcontextSize hthreads htemperature htimeout =>
    rw [hkind]; rfl
  | llamaServer hkind timeoutMs htimeout => rw [hkind]; rfl

/-- Whatever the environment: all values are within bounds, the backend runs with exactly the values
of the configuration, and it is of the kind that its name says. -/
theorem backendConfigFromEnv_holds {Hidden : Type} (floats : TinyLLMFloats ℚ Hidden)
    (getenv : Environment) (strtof : Bytes → Option (FloatValue × Bytes)) :
    let config := backendConfigFromEnv getenv strtof
    let backend := createBackend floats config
    config.InRange ∧ Holds floats config backend ∧ parseBackendKind backend.name = config.kind := by
  have hrange := backendConfigFromEnv_inRange getenv strtof
  have hholds := createBackend_holds floats hrange
  refine ⟨hrange, hholds, ?_⟩
  rw [hholds.name, parseBackendKind_name]

def settings (floatText : ℚ → Bytes) (c : BackendConfig) : List (String × Bytes) :=
  [("LAMINAR_WORKER_BACKEND", backendKindName c.kind),
    ("LAMINAR_SIMULATOR_BASE_LATENCY_MS", decimal c.simulatorBaseLatencyMs),
    ("LAMINAR_SIMULATOR_PER_REQUEST_LATENCY_MS", decimal c.simulatorPerRequestLatencyMs),
    ("LAMINAR_TINY_MODEL_ITERATIONS", decimal c.tinyModelIterations),
    ("LAMINAR_TINY_LLM_MAX_GENERATED_TOKENS", decimal c.tinyLLMMaxGeneratedTokens),
    ("LAMINAR_TINY_LLM_TOP_K", decimal c.tinyLLMTopK),
    ("LAMINAR_TINY_LLM_TEMPERATURE", floatText c.tinyLLMTemperature),
    ("LAMINAR_CONTINUOUS_MAX_PREFILL_TOKENS_PER_STEP",
      decimal c.continuousMaxPrefillTokensPerStep),
    ("LAMINAR_CONTINUOUS_MAX_DECODE_SEQUENCES_PER_STEP",
      decimal c.continuousMaxDecodeSequencesPerStep),
    ("LAMINAR_CONTINUOUS_KV_CACHE_BLOCKS", decimal c.continuousKvCacheBlocks),
    ("LAMINAR_CONTINUOUS_KV_BLOCK_TOKENS", decimal c.continuousKvBlockTokens),
    ("LAMINAR_CONTINUOUS_PREFIX_CACHE_TOKENS", decimal c.continuousPrefixCacheTokens),
    ("LAMINAR_ONNX_MODEL_PATH", c.onnxModelPath),
    ("LAMINAR_ONNX_RUNTIME_LIB", c.onnxRuntimeLibraryPath),
    ("LAMINAR_LLAMA_CPP_BINARY", c.llamaCppBinaryPath),
    ("LAMINAR_LLAMA_CPP_MODEL", c.llamaCppModelPath),
    ("LAMINAR_LLAMA_CPP_MAX_TOKENS", decimal c.llamaCppMaxTokens),
    ("LAMINAR_LLAMA_CPP_CONTEXT_SIZE", decimal c.llamaCppContextSize),
    ("LAMINAR_LLAMA_CPP_THREADS", decimal c.llamaCppThreads),
    ("LAMINAR_LLAMA_CPP_TEMPERATURE", floatText c.llamaCppTemperature),
    ("LAMINAR_LLAMA_CPP_TIMEOUT_MS", decimal c.llamaCppTimeoutMs),
    ("LAMINAR_LLAMA_SERVER_URL", c.llamaServerUrl),
    ("LAMINAR_LLAMA_SERVER_MAX_TOKENS", decimal c.llamaServerMaxTokens),
    ("LAMINAR_LLAMA_SERVER_TEMPERATURE", floatText c.llamaServerTemperature),
    ("LAMINAR_LLAMA_SERVER_TIMEOUT_MS", decimal c.llamaServerTimeoutMs),
    ("LAMINAR_LLAMA_SERVER_CACHE_PROMPT", boolToJson c.llamaServerCachePrompt),
    ("LAMINAR_LLAMA_SERVER_STREAM", boolToJson c.llamaServerStream),
    ("LAMINAR_LLAMA_SERVER_TIMINGS_PER_TOKEN", boolToJson c.llamaServerTimingsPerToken)]

def exported (floatText : ℚ → Bytes) (c : BackendConfig) : Environment :=
  fun key => (settings floatText c).lookup key

theorem strtol_decimal {value : Int} (hlow : 0 ≤ value) (hhigh : value < 2 ^ 31) :
    decimal value ≠ [] ∧ strtol (decimal value) = some value ∧
      afterDecimal (decimal value) = [] := by
  obtain ⟨n, rfl⟩ := Int.eq_ofNat_of_zero_le hlow
  have hread := readDecimal_integer false n (show Parted [] by simp [Parted])
  obtain ⟨d, ds, hdigits⟩ := List.exists_cons_of_ne_nil (digits_ne_nil n)
  have hd := isDigit_of_range (digits_range n d (by simp [hdigits]))
  have hall : (d :: ds).dropWhile isDigit = [] := by
    rw [List.dropWhile_eq_nil_iff, ← hdigits]
    exact fun c hc => (isDigit_of_range (digits_range n c hc)).1
  rw [show decimal (n : Int) = digits n from rfl]
  simp only [Scalar.write, Bool.false_eq_true, if_false, List.nil_append, List.append_nil] at hread
  refine ⟨digits_ne_nil n, ?_, ?_⟩
  · rw [strtol, hread, Option.map_some, Option.some.injEq]
    omega
  · have hsign : ¬ ((d :: ds).head? = some 45 ∨ (d :: ds).head? = some 43) := by
      simp [hd.2.2.2.1, hd.2.2.2.2]
    rw [afterDecimal, hdigits, List.dropWhile_cons_of_neg (by simp [hd.2.1])]
    simp only [if_neg hsign]
    exact hall

section
variable {getenv : Environment} {key : String}

theorem envInt_decimal {value minimum maximum : Int} (hget : getenv key = some (decimal value))
    (hvalue : value ∈ Set.Icc minimum maximum) (hlow : 0 ≤ minimum) (hhigh : maximum < 2 ^ 31)
    (fallback : Int) : envInt getenv key fallback minimum maximum = value := by
  obtain ⟨hminimum, hmaximum⟩ := hvalue
  obtain ⟨hraw, hread, hend⟩ := strtol_decimal (show 0 ≤ value by omega) (by omega)
  simp only [envInt, hget, hraw, if_false, hread, hend, ne_eq, not_true_eq_false]
  rw [min_eq_left hmaximum, max_eq_right hminimum, toInt_eq (by omega) (by omega)]

theorem envFloat_text {strtof : Bytes → Option (FloatValue × Bytes)} {value minimum maximum : ℚ}
    {raw : Bytes} (hget : getenv key = some raw) (hraw : raw ≠ [])
    (hread : strtof raw = some (.finite value, []))
    (hvalue : value ∈ Set.Icc minimum maximum) (fallback : ℚ) :
    envFloat getenv strtof key fallback minimum maximum = value := by
  simp only [envFloat, hget, hraw, if_false, hread, ne_eq, not_true_eq_false]
  exact clampFloat_eq hvalue

theorem envString_text {value : Bytes} (hget : getenv key = some value) {fallback : Bytes}
    (hvalue : value = [] → fallback = []) : envString getenv key fallback = value := by
  simp only [envString, hget]
  split_ifs with hempty
  · rw [hvalue hempty, hempty]
  · rfl

theorem envBool_boolToJson {value : Bool} (hget : getenv key = some (boolToJson value))
    (fallback : Bool) : envBool getenv key fallback = value := by
  simp only [envBool, hget]
  cases value <;> rfl

end

/-- Every configuration within bounds can be asked for: read back from its own variables it is the
same, whatever else `strtof` does. -/
theorem backendConfigFromEnv_exported {c : BackendConfig} (h : c.InRange)
    {floatText : ℚ → Bytes} {strtof : Bytes → Option (FloatValue × Bytes)}
    (hfloats : ∀ value ∈ [c.tinyLLMTemperature, c.llamaCppTemperature, c.llamaServerTemperature],
      floatText value ≠ [] ∧ strtof (floatText value) = some (.finite value, [])) :
    backendConfigFromEnv (exported floatText c) strtof = c := by
  have htiny := hfloats c.tinyLLMTemperature (by simp)
  have hcpp := hfloats c.llamaCppTemperature (by simp)
  have hserver := hfloats c.llamaServerTemperature (by simp)
  apply BackendConfig.ext <;> simp only [backendConfigFromEnv]
  · exact parseBackendKind_name c.kind
  · exact envInt_decimal rfl h.simulatorBaseLatencyMs (by decide) (by decide) _
  · exact envInt_decimal rfl h.simulatorPerRequestLatencyMs (by decide) (by decide) _
  · exact envInt_decimal rfl h.tinyModelIterations (by decide) (by decide) _
  · exact envInt_decimal rfl h.tinyLLMMaxGeneratedTokens (by decide) (by decide) _
  · exact envInt_decimal rfl h.tinyLLMTopK (by decide) (by decide) _
  · exact envFloat_text rfl htiny.1 htiny.2 h.tinyLLMTemperature _
  · exact envInt_decimal rfl h.continuousMaxPrefillTokensPerStep (by decide) (by decide) _
  · exact envInt_decimal rfl h.continuousMaxDecodeSequencesPerStep (by decide) (by decide) _
  · exact envInt_decimal rfl h.continuousKvCacheBlocks (by decide) (by decide) _
  · exact envInt_decimal rfl h.continuousKvBlockTokens (by decide) (by decide) _
  · exact envInt_decimal rfl h.continuousPrefixCacheTokens (by decide) (by decide) _
  · exact envString_text rfl fun hempty => absurd hempty h.onnxModelPath
  · exact envString_text rfl fun hempty => absurd hempty h.onnxRuntimeLibraryPath
  · exact envString_text rfl fun hempty => absurd hempty h.llamaCppBinaryPath
  · exact envString_text rfl fun _ => rfl
  · exact envInt_decimal rfl h.llamaCppMaxTokens (by decide) (by decide) _
  · exact envInt_decimal rfl h.llamaCppContextSize (by decide) (by decide) _
  · exact envInt_decimal rfl h.llamaCppThreads (by decide) (by decide) _
  · exact envFloat_text rfl hcpp.1 hcpp.2 h.llamaCppTemperature _
  · exact envInt_decimal rfl h.llamaCppTimeoutMs (by decide) (by decide) _
  · exact envString_text rfl fun hempty => absurd hempty h.llamaServerUrl
  · exact envInt_decimal rfl h.llamaServerMaxTokens (by decide) (by decide) _
  · exact envFloat_text rfl hserver.1 hserver.2 h.llamaServerTemperature _
  · exact envInt_decimal rfl h.llamaServerTimeoutMs (by decide) (by decide) _
  · exact envBool_boolToJson rfl _
  · exact envBool_boolToJson rfl _
  · exact envBool_boolToJson rfl _

/-- A configuration that has no value of the default one. -/
theorem backendConfigFromEnv_exported_changed :
    let c : BackendConfig :=
      { kind := .llamaServer, simulatorBaseLatencyMs := 40, simulatorPerRequestLatencyMs := 10
        tinyModelIterations := 16, tinyLLMMaxGeneratedTokens := 24, tinyLLMTopK := 10
        tinyLLMTemperature := 3 / 2, continuousMaxPrefillTokensPerStep := 64
        continuousMaxDecodeSequencesPerStep := 16, continuousKvCacheBlocks := 1024
        continuousKvBlockTokens := 32, continuousPrefixCacheTokens := 0
        onnxModelPath := text "model.onnx", onnxRuntimeLibraryPath := text "onnxruntime.so"
        llamaCppBinaryPath := text "llama", llamaCppModelPath := text "model.gguf"
        llamaCppMaxTokens := 128, llamaCppContextSize := 4096, llamaCppThreads := 4
        llamaCppTemperature := 1 / 2, llamaCppTimeoutMs := 60000
        llamaServerUrl := text "http://llama:8080/completion", llamaServerMaxTokens := 256
        llamaServerTemperature := 1 / 4, llamaServerTimeoutMs := 30000
        llamaServerCachePrompt := false, llamaServerStream := false
        llamaServerTimingsPerToken := false }
    let floatText : ℚ → Bytes := fun value =>
      if value = 3 / 2 then text "1.5" else if value = 1 / 2 then text "0.5" else text "0.25"
    let strtof : Bytes → Option (FloatValue × Bytes) := fun raw =>
      if raw = text "1.5" then some (.finite (3 / 2), [])
      else if raw = text "0.5" then some (.finite (1 / 2), [])
      else if raw = text "0.25" then some (.finite (1 / 4), []) else none
    backendConfigFromEnv (exported floatText c) strtof = c := by
  intro c floatText strtof
  refine backendConfigFromEnv_exported ?_ fun value hvalue => ?_
  · constructor
    case tinyLLMTemperature => norm_num [c, float005]
    case llamaCppTemperature => norm_num [c]
    case llamaServerTemperature => norm_num [c]
    all_goals decide
  · rcases List.mem_cons.mp hvalue with rfl | hvalue
    · decide +kernel
    rcases List.mem_pair.mp hvalue with rfl | rfl <;> decide +kernel

end Laminar.Backend
