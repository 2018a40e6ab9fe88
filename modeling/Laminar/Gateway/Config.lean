import Mathlib

/-! The part of `Config` that the batcher, its policy and its admission controller read.
Durations are in nanoseconds. -/
namespace Laminar.Gateway

inductive BatchPolicyName where
  | fixed
  | adaptive
deriving DecidableEq

def millisecond : Int := 1000000

def second : Int := 1000 * millisecond

/-- `promptTokens` is the rounded-up product of a byte count with
`AdmissionEstimatedTokensPerByte`, which the code computes in floating point. -/
structure Config where
  batchPolicy : BatchPolicyName := .fixed
  maxBatchSize : Int := 32
  maxBatchWaitTime : Int := 10 * millisecond
  adaptiveMinBatchWaitTime : Int := 1 * millisecond
  adaptiveMaxBatchWaitTime : Int := 10 * millisecond
  adaptiveTargetWorkerLatency : Int := 150 * millisecond
  adaptiveQueueHighWatermark : Int := 32
  requestQueueSize : Int := 1000
  admissionEnabled : Bool := false
  admissionMaxInFlightTokens : Int := 0
  promptTokens : Nat → Int
  admissionEstimatedOutputTokens : Int := 64
  circuitBreakerThreshold : Int := 5
  circuitBreakerResetAfter : Int := 30 * second

def Config.normalized (cfg : Config) : Config :=
  let maxBatchSize := if cfg.maxBatchSize ≤ 0 then 32 else cfg.maxBatchSize
  let maxBatchWaitTime :=
    if cfg.maxBatchWaitTime ≤ 0 then 10 * millisecond else cfg.maxBatchWaitTime
  let adaptiveMinBatchWaitTime :=
    if cfg.adaptiveMinBatchWaitTime ≤ 0 then 1 * millisecond else cfg.adaptiveMinBatchWaitTime
  let adaptiveMaxBatchWaitTime :=
    if cfg.adaptiveMaxBatchWaitTime ≤ 0 then maxBatchWaitTime else cfg.adaptiveMaxBatchWaitTime
  { cfg with
    maxBatchSize := maxBatchSize
    maxBatchWaitTime := maxBatchWaitTime
    adaptiveMinBatchWaitTime := adaptiveMinBatchWaitTime
    adaptiveMaxBatchWaitTime :=
      if adaptiveMaxBatchWaitTime < adaptiveMinBatchWaitTime then adaptiveMinBatchWaitTime
      else adaptiveMaxBatchWaitTime
    adaptiveTargetWorkerLatency :=
      if cfg.adaptiveTargetWorkerLatency ≤ 0 then 150 * millisecond
      else cfg.adaptiveTargetWorkerLatency
    adaptiveQueueHighWatermark :=
      if cfg.adaptiveQueueHighWatermark ≤ 0 then maxBatchSize else cfg.adaptiveQueueHighWatermark
    requestQueueSize := if cfg.requestQueueSize < 0 then 0 else cfg.requestQueueSize
    admissionMaxInFlightTokens :=
      if cfg.admissionMaxInFlightTokens < 0 then 0 else cfg.admissionMaxInFlightTokens
    admissionEstimatedOutputTokens :=
      if cfg.admissionEstimatedOutputTokens < 0 then 0 else cfg.admissionEstimatedOutputTokens
    circuitBreakerThreshold :=
      if cfg.circuitBreakerThreshold ≤ 0 then 5 else cfg.circuitBreakerThreshold
    circuitBreakerResetAfter :=
      if cfg.circuitBreakerResetAfter ≤ 0 then 30 * second else cfg.circuitBreakerResetAfter }

def Config.queueCapacity (cfg : Config) : Nat := cfg.requestQueueSize.toNat

structure Config.Normal (cfg : Config) : Prop where
  maxBatchSize : 0 < cfg.maxBatchSize
  maxBatchWaitTime : 0 < cfg.maxBatchWaitTime
  adaptiveMin : 0 < cfg.adaptiveMinBatchWaitTime
  adaptiveOrder : cfg.adaptiveMinBatchWaitTime ≤ cfg.adaptiveMaxBatchWaitTime
  watermark : 0 < cfg.adaptiveQueueHighWatermark
  queueSize : 0 ≤ cfg.requestQueueSize
  maxTokens : 0 ≤ cfg.admissionMaxInFlightTokens
  outputTokens : 0 ≤ cfg.admissionEstimatedOutputTokens
  threshold : 0 < cfg.circuitBreakerThreshold

theorem Config.normalized_normal (cfg : Config) : cfg.normalized.Normal := by
  refine ⟨?_, ?_, ?_, ?_, ?_, ?_, ?_, ?_, ?_⟩ <;>
    simp only [Config.normalized, second, millisecond] <;> split_ifs <;> omega

end Laminar.Gateway
