import Laminar.Kv.Allocator

/-! `ContinuousBatcher::Run` of `backend/scheduling/continuous_batcher.cc`. A pointer into
the vector of states is the index of the state it points to. -/
namespace Laminar.Scheduler
open Laminar.Kv

structure ContinuousBatcherConfig where
  maxPrefillTokensPerStep : Int := 64
  maxDecodeSequencesPerStep : Int := 8
  kvCacheBlocks : Int := 1024
  kvBlockTokens : Int := 16
deriving DecidableEq

def continuousBatcher (config : ContinuousBatcherConfig) : ContinuousBatcherConfig :=
  { maxPrefillTokensPerStep := clampPositive config.maxPrefillTokensPerStep 64
    maxDecodeSequencesPerStep := clampPositive config.maxDecodeSequencesPerStep 8
    kvCacheBlocks := clampPositive config.kvCacheBlocks 1024
    kvBlockTokens := clampPositive config.kvBlockTokens 16 }

structure SequenceRequest where
  id : Bytes
  promptTokens : Int := 0
  maxGeneratedTokens : Int := 0
  priority : Int := 0
  prefixCacheKey : Bytes := []
  prefixCacheTokens : Int := -1
deriving DecidableEq

inductive SequenceStatus where
  | completed
  | rejected
  | cancelled
deriving DecidableEq

structure SequenceResult where
  id : Bytes
  status : SequenceStatus := .rejected
  promptTokens : Int := 0
  generatedTokens : Int := 0
  firstTokenStep : Int := -1
  completionStep : Int := -1
  kvBlocks : Int := 0
  prefixCacheHit : Bool := false
  message : String := ""
deriving DecidableEq

structure SchedulerStep where
  stepIndex : Int := 0
  prefillTokens : Int := 0
  decodedTokens : Int := 0
  queuedSequences : Int := 0
  activeSequences : Int := 0
  kvBlocksUsed : Int := 0
  decodedSequenceIds : List Bytes := []
deriving DecidableEq

structure ContinuousBatchingStats where
  totalSteps : Int := 0
  prefillSteps : Int := 0
  decodeSteps : Int := 0
  totalPromptTokens : Int := 0
  totalGeneratedTokens : Int := 0
  kvCache : KvCacheStats := {}
deriving DecidableEq

structure ContinuousBatchingRun where
  results : List SequenceResult
  steps : List SchedulerStep
  stats : ContinuousBatchingStats
deriving DecidableEq

structure State where
  request : SequenceRequest
  index : Nat
  prefillRemaining : Int := 0
  generated : Int := 0
  promptAllocated : Bool := false
  promptReady : Bool := false
  done : Bool := false
deriving DecidableEq

structure Machine where
  states : List State
  results : List SequenceResult
  allocator : Impl

/-- The copy of a request that `Run` works on. -/
def SequenceRequest.clamped (request : SequenceRequest) : SequenceRequest :=
  { request with
    promptTokens := max 0 request.promptTokens
    maxGeneratedTokens := max 0 request.maxGeneratedTokens }

def queuedResult (request : SequenceRequest) : SequenceResult :=
  { id := request.id, promptTokens := request.promptTokens, message := "queued" }

def queuedState (request : SequenceRequest) (index : Nat) : State :=
  { request := request, index := index, prefillRemaining := request.promptTokens }

def Machine.start (config : ContinuousBatcherConfig) (requests : List SequenceRequest) : Machine :=
  let requests := requests.map SequenceRequest.clamped
  { states := requests.zipIdx.map (fun r => queuedState r.1 r.2)
    results := requests.map queuedResult
    allocator := Impl.new ⟨config.kvCacheBlocks, config.kvBlockTokens⟩ }

def Machine.unfinishedCount (m : Machine) : Nat := m.states.countP (fun s => !s.done)

def byPriority (lhs rhs : State) : Prop :=
  if lhs.request.priority ≠ rhs.request.priority then
    lhs.request.priority > rhs.request.priority
  else lhs.index < rhs.index

instance : DecidableRel byPriority := fun lhs rhs => by
  unfold byPriority
  infer_instance

/-- The candidates of one phase, in the order in which the phase serves them. -/
def Machine.ranked (m : Machine) (candidate : State → Bool) : List Nat :=
  ((m.states.filter candidate).insertionSort byPriority).map State.index

def Machine.setState (m : Machine) (s : State) : Machine :=
  { m with states := m.states.set s.index s }

def Machine.updateResult (m : Machine) (index : Nat) (f : SequenceResult → SequenceResult) :
    Machine :=
  { m with results := m.results.modify index f }

def Machine.releaseSequence (m : Machine) (s : State) : Machine :=
  { m with allocator := m.allocator.releaseSequence s.request.id }

def Machine.allocatePrompt (m : Machine) (s : State) : Machine × Option State :=
  if s.promptAllocated then (m, some s)
  else
    let r := m.allocator.allocatePrompt s.request.id s.request.promptTokens
      s.request.prefixCacheKey s.request.prefixCacheTokens
    let m := { m with allocator := r.2 }
    if r.1.ok then
      let s := { s with promptAllocated := true }
      ((m.updateResult s.index (fun result =>
        { result with prefixCacheHit := r.1.cacheHit })).setState s, some s)
    else
      ((m.updateResult s.index (fun result =>
        { result with
          status := .rejected
          message := r.1.message
          kvBlocks := m.allocator.sequenceBlockCount s.request.id })).setState
        { s with done := true }, none)

def State.consume (s : State) (consumed : Int) : State :=
  let remaining := s.prefillRemaining - consumed
  { s with
    prefillRemaining := remaining
    promptReady := if remaining = 0 then true else s.promptReady }

def prefillLoop : List Nat → Int → Machine → SchedulerStep → Machine × SchedulerStep
  | [], _, m, step => (m, step)
  | i :: rest, budget, m, step =>
    if budget ≤ 0 then (m, step)
    else
      match m.states[i]? with
      | none => prefillLoop rest budget m step
      | some s =>
        match m.allocatePrompt s with
        | (m, none) => prefillLoop rest budget m step
        | (m, some s) =>
          let consumed := min budget s.prefillRemaining
          prefillLoop rest (budget - consumed) (m.setState (s.consume consumed))
            { step with prefillTokens := step.prefillTokens + consumed }

def Machine.complete (m : Machine) (stepIndex : Nat) (s : State) : Machine :=
  let m := m.updateResult s.index (fun result =>
    { result with
      status := .completed
      message := "completed"
      completionStep := stepIndex
      kvBlocks := m.allocator.sequenceBlockCount s.request.id })
  (m.releaseSequence s).setState { s with done := true }

def Machine.decode (stepIndex : Nat) (s : State) (m : Machine) (step : SchedulerStep) :
    Machine × SchedulerStep :=
  let r := m.allocator.appendTokens s.request.id 1
  let m := { m with allocator := r.2 }
  if r.1.ok then
    let s := { s with generated := s.generated + 1 }
    let step := { step with
      decodedTokens := step.decodedTokens + 1
      decodedSequenceIds := step.decodedSequenceIds ++ [s.request.id] }
    let m := m.updateResult s.index (fun result =>
      if result.firstTokenStep < 0 then { result with firstTokenStep := stepIndex } else result)
    if s.generated = s.request.maxGeneratedTokens then
      ((m.updateResult s.index (fun result =>
        { result with generatedTokens := s.generated })).complete stepIndex s, step)
    else (m.setState s, step)
  else
    let m := m.updateResult s.index (fun result =>
      { result with
        status := .rejected
        message := r.1.message
        generatedTokens := s.generated
        kvBlocks := m.allocator.sequenceBlockCount s.request.id })
    ((m.releaseSequence s).setState { s with done := true }, step)

def decodeLoop (stepIndex : Nat) : List Nat → Machine → SchedulerStep → Machine × SchedulerStep
  | [], m, step => (m, step)
  | i :: rest, m, step =>
    match m.states[i]? with
    | none => decodeLoop stepIndex rest m step
    | some s =>
      let r := m.decode stepIndex s step
      decodeLoop stepIndex rest r.1 r.2

def completeLoop (stepIndex : Nat) : List Nat → Machine → Machine
  | [], m => m
  | i :: rest, m =>
    match m.states[i]? with
    | none => completeLoop stepIndex rest m
    | some s =>
      if !s.done && s.promptReady && s.request.maxGeneratedTokens == 0 then
        completeLoop stepIndex rest (m.complete stepIndex s)
      else completeLoop stepIndex rest m

def prefillCandidate (s : State) : Bool := !s.done && !s.promptReady

def decodeCandidate (s : State) : Bool :=
  !s.done && s.promptReady && decide (s.generated < s.request.maxGeneratedTokens)

/-- One iteration of the step loop after its poll of `is_cancelled`. -/
def Machine.step (config : ContinuousBatcherConfig) (stepIndex : Nat) (m : Machine) :
    Machine × SchedulerStep :=
  let step : SchedulerStep := { stepIndex := stepIndex, queuedSequences := m.unfinishedCount }
  let p := prefillLoop (m.ranked prefillCandidate) config.maxPrefillTokensPerStep m step
  let d := decodeLoop stepIndex
    ((p.1.ranked decodeCandidate).take config.maxDecodeSequencesPerStep.toNat) p.1 p.2
  let m := completeLoop stepIndex (List.range d.1.states.length) d.1
  (m, { d.2 with
    activeSequences := m.states.countP (fun s => !s.done && s.promptReady)
    kvBlocksUsed := m.allocator.snapshotStats.usedBlocks })

def cancelLoop : List Nat → Machine → Machine
  | [], m => m
  | i :: rest, m =>
    match m.states[i]? with
    | none => cancelLoop rest m
    | some s =>
      if s.done then cancelLoop rest m
      else
        let m := m.updateResult s.index (fun result =>
          { result with status := .cancelled, message := "cancelled" })
        cancelLoop rest ((m.releaseSequence s).setState { s with done := true })

def Machine.cancel (m : Machine) : Machine := cancelLoop (List.range m.states.length) m

def ContinuousBatchingStats.record (stats : ContinuousBatchingStats) (step : SchedulerStep) :
    ContinuousBatchingStats :=
  let stats := if step.prefillTokens > 0 then
    { stats with prefillSteps := stats.prefillSteps + 1 } else stats
  if step.decodedTokens > 0 then
    { stats with
      decodeSteps := stats.decodeSteps + 1
      totalGeneratedTokens := stats.totalGeneratedTokens + step.decodedTokens }
  else stats

/-- The step loop. `isCancelled n` answers the poll of iteration `n`; there is no result when
the loop has not ended within `fuel` iterations. -/
def stepLoop (config : ContinuousBatcherConfig) (isCancelled : Nat → Bool) :
    Nat → Nat → Machine → List SchedulerStep → ContinuousBatchingStats →
      Option (Machine × List SchedulerStep × ContinuousBatchingStats)
  | fuel, stepIndex, m, steps, stats =>
    if m.unfinishedCount = 0 then some (m, steps, stats)
    else
      match fuel with
      | 0 => none
      | fuel + 1 =>
        if isCancelled stepIndex then some (m.cancel, steps, stats)
        else
          let r := m.step config stepIndex
          stepLoop config isCancelled fuel (stepIndex + 1) r.1 (steps ++ [r.2]) (stats.record r.2)

def totalPromptTokens (requests : List SequenceRequest) : Int :=
  (requests.map (fun r => r.clamped.promptTokens)).sum

def finish (r : Machine × List SchedulerStep × ContinuousBatchingStats) : ContinuousBatchingRun :=
  { results := r.1.results
    steps := r.2.1
    stats := { r.2.2 with
      totalSteps := r.2.1.length
      kvCache := r.1.allocator.snapshotStats } }

/-- `ContinuousBatcher::Run` for at most `fuel` iterations of its step loop. -/
def run (config : ContinuousBatcherConfig) (requests : List SequenceRequest)
    (isCancelled : Nat → Bool) (fuel : Nat) : Option ContinuousBatchingRun :=
  let config := continuousBatcher config
  (stepLoop config isCancelled fuel 0 (Machine.start config requests) []
    { totalPromptTokens := totalPromptTokens requests }).map finish

end Laminar.Scheduler
