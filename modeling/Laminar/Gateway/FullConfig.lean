import Laminar.Gateway.Admission

/-! The whole of `Config` and what `normalized` makes of it: the values that need no change are
exactly the valid ones. Durations are in nanoseconds. -/
namespace Laminar.Gateway

inductive Rune where
  | char (c : Char)
  | invalid (byte : UInt8)
deriving DecidableEq

abbrev GoString := List Rune

namespace GoString

def of (s : String) : GoString := s.toList.map .char

def isSpace : Rune → Bool
  | .char c => Gateway.isSpace c
  | .invalid _ => false

def trimSpace (s : GoString) : GoString := (s.dropWhile isSpace).rdropWhile isSpace

/-- `unicode.ToLower`, whose table beyond ASCII is `unicodeLower`. -/
def lowerRune (unicodeLower : Char → Char) : Rune → Rune
  | .char c => .char (if c.toNat < 128 then c.toLower else unicodeLower c)
  | .invalid _ => .char '\uFFFD'

def toLower (unicodeLower : Char → Char) (s : GoString) : GoString :=
  s.map (lowerRune unicodeLower)

end GoString

structure Float64 where
  bits : BitVec 64
deriving DecidableEq

namespace Float64

def magnitude (x : Float64) : Nat := x.bits.toNat % 2 ^ 63

def isNaN (x : Float64) : Bool := 0x7FF0000000000000 < x.magnitude

/-- The place of a number in the order; both zeros have the same. -/
def rank (x : Float64) : Int := if x.bits.msb then -x.magnitude else x.magnitude

def le (x y : Float64) : Bool := !x.isNaN && !y.isNaN && decide (x.rank ≤ y.rank)

def lt (x y : Float64) : Bool := !x.isNaN && !y.isNaN && decide (x.rank < y.rank)

def zero : Float64 := ⟨0⟩

def quarter : Float64 := ⟨0x3FD0000000000000⟩

theorem lt_of_not_le {x y : Float64} (hx : x.isNaN = false) (hy : y.isNaN = false)
    (h : x.le y = false) : y.lt x = true := by
  simp only [le, lt, hx, hy, Bool.not_false, Bool.true_and, decide_eq_false_iff_not,
    decide_eq_true_eq] at h ⊢
  omega

end Float64

def batchPolicyFixed : GoString := .of "fixed"

def batchPolicyAdaptive : GoString := .of "adaptive"

structure FullConfig where
  httpListenAddress : GoString := .of ":8080"
  workerAddress : GoString := .of "localhost:50051"
  workerAddresses : List GoString := [.of "localhost:50051"]
  workerDialTimeout : Int := 5 * second
  workerRequestTimeout : Int := 30 * second
  batchPolicy : GoString := batchPolicyFixed
  maxBatchSize : Int := 32
  maxBatchWaitTime : Int := 10 * millisecond
  adaptiveMinBatchWaitTime : Int := 1 * millisecond
  adaptiveMaxBatchWaitTime : Int := 10 * millisecond
  adaptiveTargetWorkerLatency : Int := 150 * millisecond
  adaptiveQueueHighWatermark : Int := 32
  requestQueueSize : Int := 1000
  maxPromptBytes : Int := 8192
  admissionEnabled : Bool := false
  admissionMaxInFlightTokens : Int := 0
  admissionEstimatedTokensPerByte : Float64 := .quarter
  admissionEstimatedOutputTokens : Int := 64
  circuitBreakerThreshold : Int := 5
  circuitBreakerResetAfter : Int := 30 * second
  otlpEndpoint : GoString := .of ""
  otlpBatchSize : Int := 32
  otlpFlushInterval : Int := 5 * second
  otlpQueueSize : Int := 4096
  otlpTimeout : Int := 2 * second

def defaultConfig : FullConfig := {}

/-- The body of the loop of `normalizeWorkerAddresses`; `seen` has the addresses taken so far. -/
def takeAddress (normalized : List GoString) (address : GoString) : List GoString :=
  let address := address.trimSpace
  if address = [] then normalized
  else if address ∈ normalized then normalized
  else normalized ++ [address]

def normalizeWorkerAddresses (addresses : List GoString) : List GoString :=
  addresses.foldl takeAddress []

def parseWorkerAddresses (raw : GoString) : List GoString :=
  if raw.trimSpace = [] then [] else normalizeWorkerAddresses (raw.splitOn (.char ','))

/-- `if value <= 0 { value = fallback }` -/
def positiveOr (value fallback : Int) : Int := if value ≤ 0 then fallback else value

/-- `if value < 0 { value = 0 }` -/
def nonnegative (value : Int) : Int := if value < 0 then 0 else value

def normalizedPolicy (unicodeLower : Char → Char) (batchPolicy : GoString) : GoString :=
  let batchPolicy := batchPolicy.trimSpace.toLower unicodeLower
  if batchPolicy ≠ batchPolicyAdaptive then batchPolicyFixed else batchPolicy

def normalizedTokensPerByte (tokensPerByte : Float64) : Float64 :=
  if tokensPerByte.le .zero then defaultConfig.admissionEstimatedTokensPerByte else tokensPerByte

def FullConfig.addresses (cfg : FullConfig) : List GoString :=
  let workerAddress := cfg.workerAddress.trimSpace
  let workerAddresses := normalizeWorkerAddresses cfg.workerAddresses
  let workerAddresses :=
    if workerAddresses.length = 0 ∧ workerAddress ≠ [] then
      normalizeWorkerAddresses [workerAddress]
    else workerAddresses
  if workerAddresses.length = 0 then [defaultConfig.workerAddress] else workerAddresses

def FullConfig.normalized (unicodeLower : Char → Char) (cfg : FullConfig) : FullConfig :=
  let workerAddresses := cfg.addresses
  let maxBatchSize := positiveOr cfg.maxBatchSize defaultConfig.maxBatchSize
  let maxBatchWaitTime := positiveOr cfg.maxBatchWaitTime defaultConfig.maxBatchWaitTime
  let adaptiveMinBatchWaitTime :=
    positiveOr cfg.adaptiveMinBatchWaitTime defaultConfig.adaptiveMinBatchWaitTime
  let adaptiveMaxBatchWaitTime := positiveOr cfg.adaptiveMaxBatchWaitTime maxBatchWaitTime
  { httpListenAddress := cfg.httpListenAddress
    workerAddress := workerAddresses.headD cfg.workerAddress.trimSpace
    workerAddresses := workerAddresses
    workerDialTimeout := positiveOr cfg.workerDialTimeout defaultConfig.workerDialTimeout
    workerRequestTimeout := positiveOr cfg.workerRequestTimeout defaultConfig.workerRequestTimeout
    batchPolicy := normalizedPolicy unicodeLower cfg.batchPolicy
    maxBatchSize := maxBatchSize
    maxBatchWaitTime := maxBatchWaitTime
    adaptiveMinBatchWaitTime := adaptiveMinBatchWaitTime
    adaptiveMaxBatchWaitTime :=
      if adaptiveMaxBatchWaitTime < adaptiveMinBatchWaitTime then adaptiveMinBatchWaitTime
      else adaptiveMaxBatchWaitTime
    adaptiveTargetWorkerLatency :=
      positiveOr cfg.adaptiveTargetWorkerLatency defaultConfig.adaptiveTargetWorkerLatency
    adaptiveQueueHighWatermark := positiveOr cfg.adaptiveQueueHighWatermark maxBatchSize
    requestQueueSize := nonnegative cfg.requestQueueSize
    maxPromptBytes := positiveOr cfg.maxPromptBytes defaultConfig.maxPromptBytes
    admissionEnabled := cfg.admissionEnabled
    admissionMaxInFlightTokens := nonnegative cfg.admissionMaxInFlightTokens
    admissionEstimatedTokensPerByte :=
      normalizedTokensPerByte cfg.admissionEstimatedTokensPerByte
    admissionEstimatedOutputTokens := nonnegative cfg.admissionEstimatedOutputTokens
    circuitBreakerThreshold :=
      positiveOr cfg.circuitBreakerThreshold defaultConfig.circuitBreakerThreshold
    circuitBreakerResetAfter :=
      positiveOr cfg.circuitBreakerResetAfter defaultConfig.circuitBreakerResetAfter
    otlpEndpoint := cfg.otlpEndpoint.trimSpace
    otlpBatchSize := positiveOr cfg.otlpBatchSize defaultConfig.otlpBatchSize
    otlpFlushInterval := positiveOr cfg.otlpFlushInterval defaultConfig.otlpFlushInterval
    otlpQueueSize := positiveOr cfg.otlpQueueSize defaultConfig.otlpQueueSize
    otlpTimeout := positiveOr cfg.otlpTimeout defaultConfig.otlpTimeout }

/-- What `normalized` establishes; a NaN is left alone. -/
structure FullConfig.Valid (cfg : FullConfig) : Prop where
  batchPolicy : cfg.batchPolicy = batchPolicyFixed ∨ cfg.batchPolicy = batchPolicyAdaptive
  trimmed : ∀ address ∈ cfg.workerAddresses, address.trimSpace = address ∧ address ≠ []
  distinct : cfg.workerAddresses.Nodup
  head : cfg.workerAddresses.head? = some cfg.workerAddress
  workerDialTimeout : 0 < cfg.workerDialTimeout
  workerRequestTimeout : 0 < cfg.workerRequestTimeout
  maxBatchSize : 0 < cfg.maxBatchSize
  maxBatchWaitTime : 0 < cfg.maxBatchWaitTime
  adaptiveMin : 0 < cfg.adaptiveMinBatchWaitTime
  adaptiveOrder : cfg.adaptiveMinBatchWaitTime ≤ cfg.adaptiveMaxBatchWaitTime
  targetLatency : 0 < cfg.adaptiveTargetWorkerLatency
  watermark : 0 < cfg.adaptiveQueueHighWatermark
  queueSize : 0 ≤ cfg.requestQueueSize
  maxPromptBytes : 0 < cfg.maxPromptBytes
  maxTokens : 0 ≤ cfg.admissionMaxInFlightTokens
  tokensPerByte : cfg.admissionEstimatedTokensPerByte.le .zero = false
  outputTokens : 0 ≤ cfg.admissionEstimatedOutputTokens
  threshold : 0 < cfg.circuitBreakerThreshold
  resetAfter : 0 < cfg.circuitBreakerResetAfter
  otlpEndpoint : cfg.otlpEndpoint.trimSpace = cfg.otlpEndpoint
  otlpBatchSize : 0 < cfg.otlpBatchSize
  otlpFlushInterval : 0 < cfg.otlpFlushInterval
  otlpQueueSize : 0 < cfg.otlpQueueSize
  otlpTimeout : 0 < cfg.otlpTimeout

namespace GoString

/-- Trimming once takes all blanks off both ends. -/
theorem trimSpace_trimSpace (s : GoString) : s.trimSpace.trimSpace = s.trimSpace := by
  have hleft : (s.dropWhile isSpace).rdropWhile isSpace =
      ((s.dropWhile isSpace).rdropWhile isSpace).dropWhile isSpace := by
    symm
    rw [List.dropWhile_eq_self_iff]
    intro hlen
    have hpre := List.rdropWhile_prefix isSpace (l := s.dropWhile isSpace)
    have hpos := hlen.trans_le hpre.length_le
    rw [hpre.getElem hlen]
    exact List.dropWhile_get_zero_not isSpace s hpos
  rw [trimSpace, trimSpace, ← hleft, List.rdropWhile_idempotent]

theorem trimSpace_of (s : String) : (of s).trimSpace = of (Gateway.trimSpace s) := by
  have hdrop : ∀ cs : List Char,
      (cs.map Rune.char).dropWhile isSpace = (cs.dropWhile Gateway.isSpace).map .char :=
    fun cs => List.dropWhile_map
  rw [of, of, trimSpace, Gateway.trimSpace, hdrop, List.rdropWhile, ← List.map_reverse, hdrop,
    ← List.map_reverse, String.toList_ofList]

end GoString

theorem normalizeWorkerAddresses_concat (addresses : List GoString) (address : GoString) :
    normalizeWorkerAddresses (addresses ++ [address]) =
      takeAddress (normalizeWorkerAddresses addresses) address := by
  rw [normalizeWorkerAddresses, List.foldl_append]
  rfl

def trimmedAddresses (addresses : List GoString) : List GoString :=
  (addresses.map GoString.trimSpace).filter (· ≠ [])

theorem mem_normalizeWorkerAddresses (addresses : List GoString) (a : GoString) :
    a ∈ normalizeWorkerAddresses addresses ↔ a ∈ trimmedAddresses addresses := by
  induction addresses using List.reverseRecOn with
  | nil => rfl
  | append_singleton addresses address ih =>
    rw [normalizeWorkerAddresses_concat, takeAddress, trimmedAddresses, List.map_append,
      List.filter_append, List.mem_append, ← trimmedAddresses, ← ih]
    split_ifs with hblank hseen
    · simp [hblank]
    · simp [hblank]
      rintro rfl
      exact hseen
    · simp [hblank]

/-- The addresses stand in the order in which they first occurred. -/
theorem normalizeWorkerAddresses_order (addresses : List GoString) :
    (normalizeWorkerAddresses addresses).Pairwise fun a b =>
      (trimmedAddresses addresses).idxOf a < (trimmedAddresses addresses).idxOf b := by
  induction addresses using List.reverseRecOn with
  | nil => exact List.Pairwise.nil
  | append_singleton addresses address ih =>
    have hkeep : (normalizeWorkerAddresses addresses).Pairwise fun a b =>
        (trimmedAddresses (addresses ++ [address])).idxOf a <
          (trimmedAddresses (addresses ++ [address])).idxOf b := by
      refine ih.imp_of_mem fun ha hb hab => ?_
      rw [mem_normalizeWorkerAddresses] at ha hb
      rw [trimmedAddresses, List.map_append, List.filter_append, ← trimmedAddresses,
        List.idxOf_append_of_mem ha, List.idxOf_append_of_mem hb]
      exact hab
    rw [normalizeWorkerAddresses_concat, takeAddress]
    split_ifs with hblank hseen
    · exact hkeep
    · exact hkeep
    · refine List.pairwise_append.mpr ⟨hkeep, List.pairwise_singleton _ _, fun a ha b hb => ?_⟩
      obtain rfl := List.mem_singleton.mp hb
      rw [mem_normalizeWorkerAddresses] at ha hseen
      rw [trimmedAddresses, List.map_append, List.filter_append, ← trimmedAddresses,
        List.idxOf_append_of_mem ha, List.idxOf_append_of_notMem hseen]
      exact Nat.lt_add_right _ (List.idxOf_lt_length_of_mem ha)

theorem normalizeWorkerAddresses_nodup (addresses : List GoString) :
    (normalizeWorkerAddresses addresses).Nodup :=
  (normalizeWorkerAddresses_order addresses).imp fun hlt heq => by
    rw [heq] at hlt
    exact Nat.lt_irrefl _ hlt

theorem normalizeWorkerAddresses_trimmed {addresses : List GoString} {a : GoString}
    (h : a ∈ normalizeWorkerAddresses addresses) : a.trimSpace = a ∧ a ≠ [] := by
  rw [mem_normalizeWorkerAddresses, trimmedAddresses, List.mem_filter] at h
  obtain ⟨hmem, hne⟩ := h
  obtain ⟨address, -, rfl⟩ := List.mem_map.mp hmem
  exact ⟨address.trimSpace_trimSpace, by simpa using hne⟩

/-- Trimmed and distinct addresses stay as they are. -/
theorem normalizeWorkerAddresses_self {addresses : List GoString}
    (htrimmed : ∀ a ∈ addresses, a.trimSpace = a ∧ a ≠ []) (hnodup : addresses.Nodup) :
    normalizeWorkerAddresses addresses = addresses := by
  induction addresses using List.reverseRecOn with
  | nil => rfl
  | append_singleton addresses address ih =>
    obtain ⟨htrim, hne⟩ := htrimmed address (by simp)
    obtain ⟨hrest, -, hnew⟩ := List.nodup_append.mp hnodup
    rw [normalizeWorkerAddresses_concat, takeAddress, htrim, if_neg hne,
      ih (fun a ha => htrimmed a (List.mem_append_left _ ha)) hrest, if_neg]
    exact fun hmem => hnew address hmem address (by simp) rfl

/-- What is parsed from the environment needs no further change. -/
theorem normalizeWorkerAddresses_parse (raw : GoString) :
    normalizeWorkerAddresses (parseWorkerAddresses raw) = parseWorkerAddresses raw := by
  rw [parseWorkerAddresses]
  split_ifs
  · rfl
  · exact normalizeWorkerAddresses_self (fun _ ha => normalizeWorkerAddresses_trimmed ha)
      (normalizeWorkerAddresses_nodup _)

/-- The addresses that a configuration names: those of the list that are not blank, or else the
single one, or else the default. -/
def FullConfig.named (cfg : FullConfig) : List GoString :=
  if trimmedAddresses cfg.workerAddresses ≠ [] then trimmedAddresses cfg.workerAddresses
  else if cfg.workerAddress.trimSpace ≠ [] then [cfg.workerAddress.trimSpace]
  else [defaultConfig.workerAddress]

theorem normalizeWorkerAddresses_eq_nil (addresses : List GoString) :
    normalizeWorkerAddresses addresses = [] ↔ trimmedAddresses addresses = [] := by
  simp only [List.eq_nil_iff_forall_not_mem, mem_normalizeWorkerAddresses]

theorem FullConfig.addresses_eq (cfg : FullConfig) :
    cfg.addresses =
      if trimmedAddresses cfg.workerAddresses ≠ [] then normalizeWorkerAddresses cfg.workerAddresses
      else cfg.named := by
  have hsingle : cfg.workerAddress.trimSpace ≠ [] →
      normalizeWorkerAddresses [cfg.workerAddress.trimSpace] = [cfg.workerAddress.trimSpace] :=
    fun hne => normalizeWorkerAddresses_self
      (fun a ha => by
        rw [List.mem_singleton.mp ha]
        exact ⟨GoString.trimSpace_trimSpace _, hne⟩)
      (List.nodup_singleton _)
  simp only [addresses, named, List.length_eq_zero_iff, normalizeWorkerAddresses_eq_nil]
  by_cases hnone : trimmedAddresses cfg.workerAddresses = []
  · have hnil := (normalizeWorkerAddresses_eq_nil _).mpr hnone
    by_cases haddress : cfg.workerAddress.trimSpace = []
    · simp [hnone, haddress, hnil]
    · simp [hnone, haddress, hsingle haddress]
  · have hsome := mt (normalizeWorkerAddresses_eq_nil _).mp hnone
    simp [hnone, hsome]

/-- The addresses are those named, each once, in the order in which they were first named. -/
theorem FullConfig.addresses_named (cfg : FullConfig) :
    (∀ a, a ∈ cfg.addresses ↔ a ∈ cfg.named) ∧
      cfg.addresses.Pairwise fun a b => cfg.named.idxOf a < cfg.named.idxOf b := by
  rw [cfg.addresses_eq]
  split_ifs with hsome
  · rw [named, if_pos hsome]
    exact ⟨mem_normalizeWorkerAddresses _, normalizeWorkerAddresses_order _⟩
  · refine ⟨fun a => Iff.rfl, ?_⟩
    rw [named, if_neg hsome]
    split_ifs <;> exact List.pairwise_singleton _ _

theorem FullConfig.addresses_trimmed (cfg : FullConfig) :
    cfg.addresses ≠ [] ∧ cfg.addresses.Nodup ∧
      ∀ a ∈ cfg.addresses, a.trimSpace = a ∧ a ≠ [] := by
  rw [cfg.addresses_eq]
  split_ifs with hsome
  · exact ⟨mt (normalizeWorkerAddresses_eq_nil _).mp hsome, normalizeWorkerAddresses_nodup _,
      fun a ha => normalizeWorkerAddresses_trimmed ha⟩
  · rw [named, if_neg hsome]
    split_ifs with haddress
    · refine ⟨List.cons_ne_nil _ _, List.nodup_singleton _, fun a ha => ?_⟩
      rw [List.mem_singleton.mp ha]
      exact ⟨GoString.trimSpace_trimSpace _, haddress⟩
    · refine ⟨List.cons_ne_nil _ _, List.nodup_singleton _, fun a ha => ?_⟩
      rw [List.mem_singleton.mp ha]
      decide

section
variable (unicodeLower : Char → Char)

theorem normalizedPolicy_cases (batchPolicy : GoString) :
    normalizedPolicy unicodeLower batchPolicy = batchPolicyFixed ∨
      normalizedPolicy unicodeLower batchPolicy = batchPolicyAdaptive := by
  unfold normalizedPolicy
  by_cases h : batchPolicy.trimSpace.toLower unicodeLower = batchPolicyAdaptive
  · exact Or.inr (by simp only [h, ne_eq, not_true_eq_false, if_false])
  · exact Or.inl (if_pos h)

theorem normalizedPolicy_self {batchPolicy : GoString}
    (h : batchPolicy = batchPolicyFixed ∨ batchPolicy = batchPolicyAdaptive) :
    normalizedPolicy unicodeLower batchPolicy = batchPolicy := by
  rcases h with rfl | rfl
  · have hlower : batchPolicyFixed.trimSpace.toLower unicodeLower = batchPolicyFixed := rfl
    simp only [normalizedPolicy, hlower, ite_self]
  · have hlower : batchPolicyAdaptive.trimSpace.toLower unicodeLower = batchPolicyAdaptive := rfl
    simp only [normalizedPolicy, hlower, ne_eq, not_true_eq_false, if_false]

theorem positiveOr_pos {fallback : Int} (h : 0 < fallback) (value : Int) :
    0 < positiveOr value fallback := by
  unfold positiveOr
  split_ifs <;> omega

theorem positiveOr_self {value : Int} (h : 0 < value) (fallback : Int) :
    positiveOr value fallback = value := if_neg (Int.not_le.mpr h)

theorem nonnegative_nonneg (value : Int) : 0 ≤ nonnegative value := by
  unfold nonnegative
  split_ifs <;> omega

theorem nonnegative_self {value : Int} (h : 0 ≤ value) : nonnegative value = value :=
  if_neg (Int.not_lt.mpr h)

theorem FullConfig.normalized_valid (cfg : FullConfig) : (cfg.normalized unicodeLower).Valid := by
  obtain ⟨hne, hnodup, htrimmed⟩ := cfg.addresses_trimmed
  have hsize := positiveOr_pos (by decide : 0 < defaultConfig.maxBatchSize) cfg.maxBatchSize
  refine
    { batchPolicy := normalizedPolicy_cases unicodeLower _
      trimmed := htrimmed
      distinct := hnodup
      head := ?_
      workerDialTimeout := positiveOr_pos (by decide) _
      workerRequestTimeout := positiveOr_pos (by decide) _
      maxBatchSize := hsize
      maxBatchWaitTime := positiveOr_pos (by decide) _
      adaptiveMin := positiveOr_pos (by decide) _
      adaptiveOrder := ?_
      targetLatency := positiveOr_pos (by decide) _
      watermark := positiveOr_pos hsize _
      queueSize := nonnegative_nonneg _
      maxPromptBytes := positiveOr_pos (by decide) _
      maxTokens := nonnegative_nonneg _
      tokensPerByte := ?_
      outputTokens := nonnegative_nonneg _
      threshold := positiveOr_pos (by decide) _
      resetAfter := positiveOr_pos (by decide) _
      otlpEndpoint := GoString.trimSpace_trimSpace _
      otlpBatchSize := positiveOr_pos (by decide) _
      otlpFlushInterval := positiveOr_pos (by decide) _
      otlpQueueSize := positiveOr_pos (by decide) _
      otlpTimeout := positiveOr_pos (by decide) _ }
  · obtain ⟨address, rest, haddresses⟩ := List.exists_cons_of_ne_nil hne
    simp only [normalized, haddresses, List.head?_cons, List.headD_cons]
  · simp only [normalized]
    split_ifs with hless
    · exact Int.le_refl _
    · exact Int.not_lt.mp hless
  · simp only [normalized, normalizedTokensPerByte]
    split_ifs with hle
    · decide
    · simpa using hle

/-- A valid configuration is left as it is. -/
theorem FullConfig.Valid.normalized_eq {cfg : FullConfig} (h : cfg.Valid) :
    cfg.normalized unicodeLower = cfg := by
  have haddresses : cfg.addresses = cfg.workerAddresses := by
    have hself := normalizeWorkerAddresses_self h.trimmed h.distinct
    have hsome : cfg.workerAddresses ≠ [] := by
      intro hnil
      simpa [hnil] using h.head
    have hnamed : trimmedAddresses cfg.workerAddresses ≠ [] := by
      intro hnil
      rw [← normalizeWorkerAddresses_eq_nil, hself] at hnil
      exact hsome hnil
    rw [cfg.addresses_eq, if_pos hnamed, hself]
  have hmax := h.adaptiveMin.trans_le h.adaptiveOrder
  have htokens : normalizedTokensPerByte cfg.admissionEstimatedTokensPerByte =
      cfg.admissionEstimatedTokensPerByte := if_neg (by simp [h.tokensPerByte])
  simp only [normalized, haddresses, normalizedPolicy_self unicodeLower h.batchPolicy,
    positiveOr_self h.workerDialTimeout, positiveOr_self h.workerRequestTimeout,
    positiveOr_self h.maxBatchSize, positiveOr_self h.maxBatchWaitTime,
    positiveOr_self h.adaptiveMin, positiveOr_self hmax, positiveOr_self h.targetLatency,
    positiveOr_self h.watermark, positiveOr_self h.maxPromptBytes, positiveOr_self h.threshold,
    positiveOr_self h.resetAfter, positiveOr_self h.otlpBatchSize,
    positiveOr_self h.otlpFlushInterval, positiveOr_self h.otlpQueueSize,
    positiveOr_self h.otlpTimeout, nonnegative_self h.queueSize, nonnegative_self h.maxTokens,
    nonnegative_self h.outputTokens, htokens, h.otlpEndpoint, Int.not_lt.mpr h.adaptiveOrder,
    if_false, List.headD_eq_head?_getD, h.head, Option.getD_some]

theorem FullConfig.normalized_normalized (cfg : FullConfig) :
    (cfg.normalized unicodeLower).normalized unicodeLower = cfg.normalized unicodeLower :=
  (cfg.normalized_valid unicodeLower).normalized_eq unicodeLower

/-- What `NewBatcherWithTracer` keeps. -/
def batcherConfig (cfg : FullConfig) : FullConfig := cfg.normalized unicodeLower

/-- What `NewBatchPolicy` goes by, called by `NewBatcherWithTracer`. -/
def batchPolicyConfig (cfg : FullConfig) : FullConfig :=
  (batcherConfig unicodeLower cfg).normalized unicodeLower

/-- What `NewAdaptiveBatchPolicy` goes by, called by `NewBatchPolicy`. -/
def adaptivePolicyConfig (cfg : FullConfig) : FullConfig :=
  (batchPolicyConfig unicodeLower cfg).normalized unicodeLower

/-- What `NewAdmissionController` goes by, called by `NewBatcherWithTracer`. -/
def admissionConfig (cfg : FullConfig) : FullConfig :=
  (batcherConfig unicodeLower cfg).normalized unicodeLower

def workerPoolConfig (cfg : FullConfig) : FullConfig := cfg.normalized unicodeLower

def grpcWorkerPoolConfig (cfg : FullConfig) : FullConfig :=
  workerPoolConfig unicodeLower (cfg.normalized unicodeLower)

/-- `normalized` projects onto the valid configurations, and its addresses are those that were
named. Applied again it changes nothing, so every part runs on the same configuration. -/
theorem normalized_projection (cfg : FullConfig) :
    (cfg.normalized unicodeLower).Valid ∧
    (cfg.admissionEstimatedTokensPerByte.isNaN = false →
      Float64.lt .zero (cfg.normalized unicodeLower).admissionEstimatedTokensPerByte = true) ∧
    (∀ a, a ∈ (cfg.normalized unicodeLower).workerAddresses ↔ a ∈ cfg.named) ∧
    ((cfg.normalized unicodeLower).workerAddresses.Pairwise fun a b =>
      cfg.named.idxOf a < cfg.named.idxOf b) ∧
    (cfg.normalized unicodeLower).normalized unicodeLower = cfg.normalized unicodeLower ∧
    ∀ part ∈ [batcherConfig, batchPolicyConfig, adaptivePolicyConfig, admissionConfig,
      workerPoolConfig, grpcWorkerPoolConfig],
      part unicodeLower cfg = cfg.normalized unicodeLower := by
  have htwice := cfg.normalized_normalized unicodeLower
  have hvalid := cfg.normalized_valid unicodeLower
  refine ⟨hvalid, fun hnan => ?_, cfg.addresses_named.1, cfg.addresses_named.2, htwice, ?_⟩
  · refine Float64.lt_of_not_le ?_ (by decide) hvalid.tokensPerByte
    simp only [FullConfig.normalized, normalizedTokensPerByte]
    split_ifs
    · decide
    · exact hnan
  · simp only [List.forall_mem_cons, batcherConfig, batchPolicyConfig, adaptivePolicyConfig,
      admissionConfig, workerPoolConfig, grpcWorkerPoolConfig, htwice, true_and]
    exact fun _ h => absurd h List.not_mem_nil

/-- The part of a configuration that the model of the batcher works with; `promptTokens` is the
product with a byte count that the code computes in floating point. -/
def FullConfig.batching (promptTokens : Float64 → Nat → Int) (cfg : FullConfig) : Config :=
  { batchPolicy :=
      if normalizedPolicy unicodeLower cfg.batchPolicy = batchPolicyAdaptive then .adaptive
      else .fixed
    maxBatchSize := cfg.maxBatchSize
    maxBatchWaitTime := cfg.maxBatchWaitTime
    adaptiveMinBatchWaitTime := cfg.adaptiveMinBatchWaitTime
    adaptiveMaxBatchWaitTime := cfg.adaptiveMaxBatchWaitTime
    adaptiveTargetWorkerLatency := cfg.adaptiveTargetWorkerLatency
    adaptiveQueueHighWatermark := cfg.adaptiveQueueHighWatermark
    requestQueueSize := cfg.requestQueueSize
    admissionEnabled := cfg.admissionEnabled
    admissionMaxInFlightTokens := cfg.admissionMaxInFlightTokens
    promptTokens := promptTokens (normalizedTokensPerByte cfg.admissionEstimatedTokensPerByte)
    admissionEstimatedOutputTokens := cfg.admissionEstimatedOutputTokens
    circuitBreakerThreshold := cfg.circuitBreakerThreshold
    circuitBreakerResetAfter := cfg.circuitBreakerResetAfter }

/-- Normalising the whole of a configuration normalises the part. -/
theorem FullConfig.batching_normalized (promptTokens : Float64 → Nat → Int) (cfg : FullConfig) :
    (cfg.normalized unicodeLower).batching unicodeLower promptTokens =
      (cfg.batching unicodeLower promptTokens).normalized := by
  have hvalid := cfg.normalized_valid unicodeLower
  have hpolicy := normalizedPolicy_self unicodeLower hvalid.batchPolicy
  have htokens : normalizedTokensPerByte
      (cfg.normalized unicodeLower).admissionEstimatedTokensPerByte =
        (cfg.normalized unicodeLower).admissionEstimatedTokensPerByte :=
    if_neg (by simp [hvalid.tokensPerByte])
  rw [batching, hpolicy, htokens]
  rfl

end

end Laminar.Gateway
