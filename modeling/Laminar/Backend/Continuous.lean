import Laminar.Backend.Tiny
import Laminar.Scheduler.Batcher

/-! `ContinuousTinyLLMBackend` of `backend/inference_backend.cc`: a batch goes through the
scheduler, then its completions are computed one after the other. -/
namespace Laminar.Backend
open Laminar.Llama Laminar.Polling Laminar.Scheduler

def prefixCacheKey (tokenIds : List Int) (prefixCacheTokens : Int) : Bytes :=
  if prefixCacheTokens ≤ 0 ∨ (tokenIds.length : Int) < prefixCacheTokens then []
  else
    text "tiny_llm" ++
      (tokenIds.take prefixCacheTokens.toNat).flatMap (fun tokenId => text ":" ++ decimal tokenId)

structure TinyLLMGeneration where
  generated : Bytes := []
  promptTokens : Int := 0
  generatedTokens : Int := 0
  prefillMicros : Int := 0
  decodeMicros : Int := 0

structure ContinuousTinyLLMBackend (Temperature : Type) extends TinyLLMBackend Temperature where
  maxPrefillTokensPerStep : Clamped 1 (2 ^ 20)
  maxDecodeSequencesPerStep : Clamped 1 (2 ^ 20)
  kvCacheBlocks : Clamped 1 (2 ^ 20)
  kvBlockTokens : Clamped 1 (2 ^ 20)
  prefixCacheTokens : Clamped 0 1024

def sequenceStatusName : SequenceStatus → String
  | .completed => "completed"
  | .rejected => "rejected"
  | .cancelled => "cancelled"

section
variable {Temperature Hidden : Type} (floats : TinyLLMFloats Temperature Hidden)

def continuousTinyLLMBackend (maxGeneratedTokens : Int) (temperature : Temperature) (topK : Int)
    (maxPrefillTokensPerStep maxDecodeSequencesPerStep kvCacheBlocks kvBlockTokens
      prefixCacheTokens : Int) : ContinuousTinyLLMBackend Temperature :=
  { tinyLLMBackend floats maxGeneratedTokens temperature topK with
    maxPrefillTokensPerStep := clamp maxPrefillTokensPerStep 1 (2 ^ 20) (by omega)
    maxDecodeSequencesPerStep := clamp maxDecodeSequencesPerStep 1 (2 ^ 20) (by omega)
    kvCacheBlocks := clamp kvCacheBlocks 1 (2 ^ 20) (by omega)
    kvBlockTokens := clamp kvBlockTokens 1 (2 ^ 20) (by omega)
    prefixCacheTokens := clamp prefixCacheTokens 0 1024 (by omega) }

/-- Every early `return generation` of the source leaves the fields of the prefill alone. -/
def generateTinyLLMCompletion (b : TinyLLMBackend Temperature) (prompt : Bytes)
    (elapsed : Elapsed) : Polling TinyLLMGeneration := do
  let tokenIds := tokenizeForTinyLLM prompt
  let states ← tinyLLMPrefill floats tokenIds
  let generation : TinyLLMGeneration :=
    { promptTokens := tokenIds.length, prefillMicros := elapsed.prefillMicros }
  Polling.otherwise (do
      poll
      if states = [] then giveUp
      let d ← decodeLoop floats b (hashToken prompt) { tokenIds := tokenIds, states := states }
      pure { generation with
        generated := joinGeneratedTokens d.generatedIds
        generatedTokens := d.generatedIds.length
        decodeMicros := elapsed.decodeMicros })
    generation

def formatContinuousTinyLLMOutput (b : TinyLLMBackend Temperature)
    (generation : TinyLLMGeneration) (batchSize : Nat) (firstTokenStep completionStep : Int) :
    Bytes :=
  text "ContinuousTinyLLM(backend=continuous_tiny_llm, generated='" ++ generation.generated ++
    text "', prompt_tokens=" ++ decimal generation.promptTokens ++
    text ", generated_tokens=" ++ decimal generation.generatedTokens ++
    text ", prefill_micros=" ++ decimal generation.prefillMicros ++
    text ", decode_micros=" ++ decimal generation.decodeMicros ++
    text ", batch_size=" ++ decimal batchSize ++
    text ", max_generated_tokens=" ++ decimal b.maxGeneratedTokens.val ++
    text ", top_k=" ++ decimal b.topK.val ++
    text ", temperature=" ++ floats.fixed b.temperature ++
    text ", first_token_step=" ++ decimal firstTokenStep ++
    text ", completion_step=" ++ decimal completionStep ++ text ")"

def buildContinuousTinyLLMMetadata (run : ContinuousBatchingRun) (sequence : SequenceResult) :
    Metadata :=
  let kv := run.stats.kvCache
  [(text "sequence.status", text (sequenceStatusName sequence.status)),
    (text "sequence.generated_tokens", decimal sequence.generatedTokens),
    (text "sequence.first_token_step", decimal sequence.firstTokenStep),
    (text "sequence.completion_step", decimal sequence.completionStep),
    (text "sequence.kv_blocks", decimal sequence.kvBlocks),
    (text "sequence.prefix_cache_hit", boolToJson sequence.prefixCacheHit),
    (text "scheduler.total_steps", decimal run.stats.totalSteps),
    (text "scheduler.prefill_steps", decimal run.stats.prefillSteps),
    (text "scheduler.decode_steps", decimal run.stats.decodeSteps),
    (text "scheduler.total_prompt_tokens", decimal run.stats.totalPromptTokens),
    (text "scheduler.total_generated_tokens", decimal run.stats.totalGeneratedTokens),
    (text "scheduler.average_decode_batch_size",
      floats.averageDecodeBatchSize run.stats.totalGeneratedTokens run.stats.decodeSteps),
    (text "kv_cache.total_blocks", decimal kv.totalBlocks),
    (text "kv_cache.used_blocks", decimal kv.usedBlocks),
    (text "kv_cache.high_watermark_blocks", decimal kv.highWatermarkBlocks),
    (text "kv_cache.cached_prefixes", decimal kv.cachedPrefixes),
    (text "kv_cache.prefix_cache_hits", decimal kv.prefixCacheHits),
    (text "kv_cache.prefix_cache_misses", decimal kv.prefixCacheMisses),
    (text "kv_cache.evictions", decimal kv.evictions),
    (text "kv_cache.allocation_failures", decimal kv.allocationFailures)]

def ContinuousTinyLLMBackend.schedulerConfig (b : ContinuousTinyLLMBackend Temperature) :
    ContinuousBatcherConfig :=
  { maxPrefillTokensPerStep := b.maxPrefillTokensPerStep.val
    maxDecodeSequencesPerStep := b.maxDecodeSequencesPerStep.val
    kvCacheBlocks := b.kvCacheBlocks.val
    kvBlockTokens := b.kvBlockTokens.val }

def ContinuousTinyLLMBackend.sequenceRequest (b : ContinuousTinyLLMBackend Temperature)
    (request : BackendRequest) : SequenceRequest :=
  let tokenIds := (tokenizeForTinyLLM request.prompt).map (fun tokenId => (tokenId.val : Int))
  let key := prefixCacheKey tokenIds b.prefixCacheTokens.val
  { id := request.id
    promptTokens := tokenIds.length
    maxGeneratedTokens := b.maxGeneratedTokens.val
    prefixCacheKey := key
    prefixCacheTokens := if key = [] then -1 else b.prefixCacheTokens.val }

def answerLoop (b : TinyLLMBackend Temperature) (elapsed : Nat → Elapsed) (batchSize : Nat)
    (run : ContinuousBatchingRun) :
    List ((BackendRequest × SequenceResult) × Nat) → BackendResult → Polling BackendResult
  | [], result => pure result
  | entry :: rest, result =>
    let sequence := entry.1.2
    if sequence.status = .rejected then
      pure { result with code := .unavailable, message := text sequence.message }
    else do
      let generation ←
        generateTinyLLMCompletion floats b entry.1.1.prompt (elapsed entry.2)
      poll
      if generation.generatedTokens ≠ b.maxGeneratedTokens.val then giveUp
      answerLoop b elapsed batchSize run rest
        { result with
          outputs := result.outputs ++ [formatContinuousTinyLLMOutput floats b generation batchSize
            sequence.firstTokenStep sequence.completionStep]
          outputMetadata := result.outputMetadata ++
            [buildContinuousTinyLLMMetadata floats run sequence] }

/-- `ProcessBatch`, its scheduler running for at most `fuel` iterations; the result comes with the
number of polls. -/
def ContinuousTinyLLMBackend.processBatch (b : ContinuousTinyLLMBackend Temperature)
    (elapsed : Nat → Elapsed) (requests : List BackendRequest) (isCancelled : Nat → Bool)
    (fuel : Nat) : Option (BackendResult × Nat) :=
  if isCancelled 0 then some (cancelledResult, 1)
  else
    (run b.schedulerConfig (requests.map b.sequenceRequest) (fun n => isCancelled (n + 1))
      fuel).map (fun run =>
        if run.results.any (fun sequence => decide (sequence.status = .cancelled)) then
          (cancelledResult, run.steps.length + 2)
        else
          outcome isCancelled (answerLoop floats b.toTinyLLMBackend elapsed requests.length run
            (requests.zip run.results).zipIdx {}) (run.steps.length + 1))

end

end Laminar.Backend
