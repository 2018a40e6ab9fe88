import Laminar.Gateway.Policy

/-! The wait of the adaptive policy over any history of batches: it keeps within its bounds, falls
to the lower one under pressure and rises to the upper one while batches stay small. -/
namespace Laminar.Gateway

def BatchObservation.Pressured (cfg : Config) (o : BatchObservation) : Prop :=
  o.workerLatency > cfg.adaptiveTargetWorkerLatency ∨ o.queueDepth ≥ cfg.adaptiveQueueHighWatermark

structure BatchObservation.SmallHealthy (cfg : Config) (o : BatchObservation) : Prop where
  success : o.success = true
  workerLatency : o.workerLatency ≤ cfg.adaptiveTargetWorkerLatency
  queueDepth : o.queueDepth < cfg.adaptiveQueueHighWatermark
  batchSize : o.batchSize < max 1 (cfg.maxBatchSize.tdiv 2)

structure AdaptiveBatchPolicy.Tuned (cfg : Config) (p : AdaptiveBatchPolicy) : Prop where
  minWait : p.minWait = cfg.adaptiveMinBatchWaitTime
  maxWait : p.maxWait = cfg.adaptiveMaxBatchWaitTime
  targetWorkerLatency : p.targetWorkerLatency = cfg.adaptiveTargetWorkerLatency
  queueHighWatermark : p.queueHighWatermark = cfg.adaptiveQueueHighWatermark
  maxBatchSize : p.maxBatchSize = cfg.maxBatchSize
  lower : cfg.adaptiveMinBatchWaitTime ≤ p.currentWait
  upper : p.currentWait ≤ cfg.adaptiveMaxBatchWaitTime

theorem newAdaptiveBatchPolicy_tuned (cfg : Config) :
    (newAdaptiveBatchPolicy cfg).Tuned cfg.normalized := by
  have horder := cfg.normalized_normal.adaptiveOrder
  refine ⟨rfl, rfl, rfl, rfl, rfl, le_max_left _ _, ?_⟩
  exact max_le horder (min_le_right _ _)

section
variable {cfg : Config} {p : AdaptiveBatchPolicy} {o : BatchObservation}

namespace AdaptiveBatchPolicy

theorem Tuned.observe_failure (h : p.Tuned cfg) (ho : o.success = false) :
    (p.observe o).currentWait = cfg.adaptiveMinBatchWaitTime := by
  simp [observe, ho, h.minWait]

/-- Pressure halves the wait, unless a failure brings it down at once. -/
theorem Tuned.observe_pressured (h : p.Tuned cfg) (hmin : 0 ≤ cfg.adaptiveMinBatchWaitTime)
    (ho : o.Pressured cfg) :
    (p.observe o).currentWait ≤ max cfg.adaptiveMinBatchWaitTime (p.currentWait / 2) := by
  have hhalf : p.currentWait.tdiv 2 = p.currentWait / 2 :=
    Int.tdiv_eq_ediv_of_nonneg (hmin.trans h.lower)
  simp only [observe, h.minWait, h.targetWorkerLatency, h.queueHighWatermark, hhalf]
  rcases ho with hslow | hfull
  · split_ifs
    · exact le_max_left _ _
    · exact le_rfl
  · split_ifs
    · exact le_max_left _ _
    · exact le_rfl
    · exact le_rfl

theorem Tuned.observe_small (h : p.Tuned cfg) (ho : o.SmallHealthy cfg) :
    (p.observe o).currentWait =
      min cfg.adaptiveMaxBatchWaitTime (p.currentWait + millisecond) := by
  simp only [observe, h.maxWait, h.targetWorkerLatency, h.queueHighWatermark, h.maxBatchSize,
    ho.success, not_lt.mpr ho.workerLatency, not_le.mpr ho.queueDepth, ho.batchSize,
    Bool.not_true, Bool.false_eq_true, if_false, if_true]

/-- Every observation keeps the wait within the bounds. -/
theorem Tuned.observe (h : p.Tuned cfg) (hmin : 0 ≤ cfg.adaptiveMinBatchWaitTime)
    (horder : cfg.adaptiveMinBatchWaitTime ≤ cfg.adaptiveMaxBatchWaitTime) (o : BatchObservation) :
    (p.observe o).Tuned cfg := by
  refine ⟨h.minWait, h.maxWait, h.targetWorkerLatency, h.queueHighWatermark, h.maxBatchSize, ?_, ?_⟩
  all_goals
    have hlower := h.lower
    have hupper := h.upper
    have hhalf : p.currentWait.tdiv 2 = p.currentWait / 2 :=
      Int.tdiv_eq_ediv_of_nonneg (hmin.trans h.lower)
    simp only [AdaptiveBatchPolicy.observe, h.minWait, h.maxWait, hhalf, clampDuration, millisecond]
    split_ifs <;> omega

theorem Tuned.run (h : p.Tuned cfg) (hmin : 0 ≤ cfg.adaptiveMinBatchWaitTime)
    (horder : cfg.adaptiveMinBatchWaitTime ≤ cfg.adaptiveMaxBatchWaitTime)
    (observations : List BatchObservation) :
    (observations.foldl AdaptiveBatchPolicy.observe p).Tuned cfg := by
  induction observations generalizing p with
  | nil => exact h
  | cons o rest ih => exact ih (h.observe hmin horder o)

theorem Tuned.run_pressured (h : p.Tuned cfg) (hmin : 0 ≤ cfg.adaptiveMinBatchWaitTime)
    (horder : cfg.adaptiveMinBatchWaitTime ≤ cfg.adaptiveMaxBatchWaitTime)
    {observations : List BatchObservation} (hall : ∀ o ∈ observations, o.Pressured cfg) :
    (observations.foldl AdaptiveBatchPolicy.observe p).currentWait ≤
      max cfg.adaptiveMinBatchWaitTime (p.currentWait / 2 ^ observations.length) := by
  induction observations generalizing p with
  | nil => simp
  | cons o rest ih =>
    obtain ⟨ho, hrest⟩ := List.forall_mem_cons.mp hall
    have hpow : (0 : Int) < 2 ^ rest.length := by positivity
    have hlast := ih (h.observe hmin horder o) hrest
    have hfirst := h.observe_pressured hmin ho
    have hsplit : p.currentWait / 2 ^ (o :: rest).length = p.currentWait / 2 / 2 ^ rest.length := by
      rw [List.length_cons, pow_succ', Int.ediv_ediv_of_nonneg (by omega)]
    rw [List.foldl_cons, hsplit]
    refine hlast.trans (max_le (le_max_left _ _) ?_)
    rcases le_max_iff.mp hfirst with hlow | hhalf
    · refine le_max_of_le_left ((Int.ediv_le_self _ ?_).trans hlow)
      exact hmin.trans (h.observe hmin horder o).lower
    · exact le_max_of_le_right (Int.ediv_le_ediv hpow hhalf)

theorem Tuned.run_small (h : p.Tuned cfg) (hmin : 0 ≤ cfg.adaptiveMinBatchWaitTime)
    (horder : cfg.adaptiveMinBatchWaitTime ≤ cfg.adaptiveMaxBatchWaitTime)
    {observations : List BatchObservation} (hall : ∀ o ∈ observations, o.SmallHealthy cfg) :
    (observations.foldl AdaptiveBatchPolicy.observe p).currentWait =
      min cfg.adaptiveMaxBatchWaitTime (p.currentWait + observations.length * millisecond) := by
  induction observations generalizing p with
  | nil => simpa using h.upper
  | cons o rest ih =>
    obtain ⟨ho, hrest⟩ := List.forall_mem_cons.mp hall
    rw [List.foldl_cons, ih (h.observe hmin horder o) hrest, h.observe_small ho, List.length_cons]
    simp only [millisecond]
    push_cast
    omega

end AdaptiveBatchPolicy

end

/-- The halvings that bring any wait within the bounds down to the lower one. -/
def halvings (cfg : Config) : Nat :=
  Nat.log 2 (cfg.adaptiveMaxBatchWaitTime.toNat / cfg.adaptiveMinBatchWaitTime.toNat) + 1

/-- The milliseconds between the bounds, rounded up. -/
def increments (cfg : Config) : Nat :=
  (cfg.adaptiveMaxBatchWaitTime - cfg.adaptiveMinBatchWaitTime).toNat ⌈/⌉ millisecond.toNat

theorem halvings_enough {cfg : Config} (hmin : 0 < cfg.adaptiveMinBatchWaitTime) {wait : Int}
    (hwait : wait ≤ cfg.adaptiveMaxBatchWaitTime) :
    wait / 2 ^ halvings cfg ≤ cfg.adaptiveMinBatchWaitTime := by
  have hpos : 0 < cfg.adaptiveMinBatchWaitTime.toNat := by omega
  have hlog := Nat.lt_pow_succ_log_self one_lt_two
    (cfg.adaptiveMaxBatchWaitTime.toNat / cfg.adaptiveMinBatchWaitTime.toNat)
  have hmax := (Nat.div_lt_iff_lt_mul hpos).mp hlog
  have hless : wait < cfg.adaptiveMinBatchWaitTime * 2 ^ halvings cfg := by
    calc wait ≤ cfg.adaptiveMaxBatchWaitTime.toNat := hwait.trans (Int.self_le_toNat _)
      _ < (2 ^ halvings cfg * cfg.adaptiveMinBatchWaitTime.toNat : Nat) := by exact_mod_cast hmax
      _ = cfg.adaptiveMinBatchWaitTime * 2 ^ halvings cfg := by
        push_cast
        rw [Int.toNat_of_nonneg hmin.le, mul_comm]
  exact (Int.ediv_lt_of_lt_mul (by positivity) hless).le

theorem increments_enough (cfg : Config) :
    cfg.adaptiveMaxBatchWaitTime - cfg.adaptiveMinBatchWaitTime ≤ increments cfg * millisecond := by
  have hms : millisecond.toNat = 1000000 := rfl
  rw [increments, Nat.ceilDiv_eq_add_pred_div, hms, millisecond]
  omega

/-- The wait keeps within its bounds after any history of batches; a failure brings it to the lower
one at once, pressure within `halvings` batches, and `increments` small healthy ones bring it to the
upper one. Whenever the fixed policy flushes the adaptive one does. -/
theorem adaptiveWait_converges (cfg : Config) (observations : List BatchObservation) :
    let c := cfg.normalized
    let p := observations.foldl AdaptiveBatchPolicy.observe (newAdaptiveBatchPolicy cfg)
    (c.adaptiveMinBatchWaitTime ≤ p.currentWait ∧ p.currentWait ≤ c.adaptiveMaxBatchWaitTime) ∧
    (∀ snapshot, c.adaptiveMinBatchWaitTime ≤ p.nextWait snapshot ∧
      p.nextWait snapshot ≤ c.adaptiveMaxBatchWaitTime) ∧
    (∀ o, o.success = false → (p.observe o).currentWait = c.adaptiveMinBatchWaitTime) ∧
    (∃ n ≤ halvings c, ∀ more : List BatchObservation, more.length = n →
      (∀ o ∈ more, o.Pressured c) →
      (more.foldl AdaptiveBatchPolicy.observe p).currentWait = c.adaptiveMinBatchWaitTime) ∧
    (∀ more : List BatchObservation, more.length = increments c → (∀ o ∈ more, o.SmallHealthy c) →
      (more.foldl AdaptiveBatchPolicy.observe p).currentWait = c.adaptiveMaxBatchWaitTime) ∧
    (∀ snapshot, (BatchPolicy.fixed c.maxBatchWaitTime).shouldFlush snapshot = true →
      (BatchPolicy.adaptive p).shouldFlush snapshot = true) := by
  intro c p
  have hmin : 0 < c.adaptiveMinBatchWaitTime := cfg.normalized_normal.adaptiveMin
  have horder := cfg.normalized_normal.adaptiveOrder
  have htuned : p.Tuned c := (newAdaptiveBatchPolicy_tuned cfg).run hmin.le horder observations
  refine ⟨⟨htuned.lower, htuned.upper⟩, fun snapshot => ?_, fun o ho => htuned.observe_failure ho,
    ⟨halvings c, le_rfl, fun more hlength hall => ?_⟩, fun more hlength hall => ?_,
    fun snapshot hfixed => ?_⟩
  · unfold AdaptiveBatchPolicy.nextWait
    split_ifs
    · rw [htuned.minWait]
      exact ⟨le_rfl, horder⟩
    · exact ⟨htuned.lower, htuned.upper⟩
  · refine le_antisymm ?_ (htuned.run hmin.le horder more).lower
    refine (htuned.run_pressured hmin.le horder hall).trans (max_le le_rfl ?_)
    rw [hlength]
    exact halvings_enough hmin htuned.upper
  · rw [htuned.run_small hmin.le horder hall, hlength]
    have henough := increments_enough c
    have hlower := htuned.lower
    omega
  · refine BatchPolicy.shouldFlush_full _ snapshot ?_
    simpa [BatchPolicy.shouldFlush] using hfixed

end Laminar.Gateway
