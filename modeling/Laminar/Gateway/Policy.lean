import Laminar.Gateway.Config

/-! The batch policies of `policy.go`. -/
namespace Laminar.Gateway

structure PolicySnapshot where
  batchSize : Int
  maxBatchSize : Int
  queueDepth : Int
  queueCapacity : Int
  consecutiveFailures : Int

structure BatchObservation where
  batchSize : Int
  queueDepth : Int
  workerLatency : Int := 0
  success : Bool

structure AdaptiveBatchPolicy where
  minWait : Int
  maxWait : Int
  currentWait : Int
  targetWorkerLatency : Int
  queueHighWatermark : Int
  maxBatchSize : Int
  lastBatchSize : Int := 0
  lastQueueDepth : Int := 0
  lastWorkerLatency : Int := 0
  lastSuccess : Bool := true
  adjustments : Int := 0

def clampDuration (value minimum maximum : Int) : Int := max minimum (min value maximum)

def newAdaptiveBatchPolicy (cfg : Config) : AdaptiveBatchPolicy :=
  let cfg := cfg.normalized
  { minWait := cfg.adaptiveMinBatchWaitTime
    maxWait := cfg.adaptiveMaxBatchWaitTime
    currentWait := clampDuration cfg.maxBatchWaitTime cfg.adaptiveMinBatchWaitTime
      cfg.adaptiveMaxBatchWaitTime
    targetWorkerLatency := cfg.adaptiveTargetWorkerLatency
    queueHighWatermark := cfg.adaptiveQueueHighWatermark
    maxBatchSize := cfg.maxBatchSize }

def AdaptiveBatchPolicy.nextWait (p : AdaptiveBatchPolicy) (snapshot : PolicySnapshot) : Int :=
  if snapshot.queueDepth ≥ p.queueHighWatermark then p.minWait else p.currentWait

/-- `int(math.Ceil(float64(n)/2))` for a size that the slices of the batch can have. -/
def halfRoundedUp (n : Int) : Int := (n + 1) / 2

def AdaptiveBatchPolicy.shouldFlush (p : AdaptiveBatchPolicy) (snapshot : PolicySnapshot) : Bool :=
  if snapshot.batchSize ≥ snapshot.maxBatchSize then true
  else if snapshot.queueDepth ≥ p.queueHighWatermark then
    decide (snapshot.batchSize ≥ halfRoundedUp snapshot.maxBatchSize)
  else false

def AdaptiveBatchPolicy.observe (p : AdaptiveBatchPolicy) (observation : BatchObservation) :
    AdaptiveBatchPolicy :=
  let currentWait :=
    if !observation.success then p.minWait
    else if observation.workerLatency > p.targetWorkerLatency then
      max p.minWait (p.currentWait.tdiv 2)
    else if observation.queueDepth ≥ p.queueHighWatermark then
      max p.minWait (p.currentWait.tdiv 2)
    else if observation.batchSize < max 1 (p.maxBatchSize.tdiv 2) then
      min p.maxWait (p.currentWait + millisecond)
    else clampDuration p.currentWait p.minWait p.maxWait
  { p with
    lastBatchSize := observation.batchSize
    lastQueueDepth := observation.queueDepth
    lastWorkerLatency := observation.workerLatency
    lastSuccess := observation.success
    currentWait := currentWait
    adjustments := if currentWait ≠ p.currentWait then p.adjustments + 1 else p.adjustments }

inductive BatchPolicy where
  | fixed (maxWait : Int)
  | adaptive (p : AdaptiveBatchPolicy)

def newBatchPolicy (cfg : Config) : BatchPolicy :=
  match cfg.normalized.batchPolicy with
  | .adaptive => .adaptive (newAdaptiveBatchPolicy cfg)
  | .fixed => .fixed cfg.normalized.maxBatchWaitTime

def BatchPolicy.nextWait (policy : BatchPolicy) (snapshot : PolicySnapshot) : Int :=
  match policy with
  | .fixed maxWait => maxWait
  | .adaptive p => p.nextWait snapshot

def BatchPolicy.shouldFlush (policy : BatchPolicy) (snapshot : PolicySnapshot) : Bool :=
  match policy with
  | .fixed _ => decide (snapshot.batchSize ≥ snapshot.maxBatchSize)
  | .adaptive p => p.shouldFlush snapshot

def BatchPolicy.observe (policy : BatchPolicy) (observation : BatchObservation) : BatchPolicy :=
  match policy with
  | .fixed maxWait => .fixed maxWait
  | .adaptive p => .adaptive (p.observe observation)

/-- Both policies flush a full batch. -/
theorem BatchPolicy.shouldFlush_full (policy : BatchPolicy) (snapshot : PolicySnapshot)
    (h : snapshot.maxBatchSize ≤ snapshot.batchSize) : policy.shouldFlush snapshot = true := by
  cases policy with
  | fixed maxWait => simpa [BatchPolicy.shouldFlush] using h
  | adaptive p =>
    rw [BatchPolicy.shouldFlush, AdaptiveBatchPolicy.shouldFlush, if_pos h]

end Laminar.Gateway
