import Laminar.Scheduler.Memory

/-! The counters of the cache at the end of a run, and what its results say of their blocks. -/
namespace Laminar.Scheduler
open Laminar.Kv

/-- No call lowers the watermark. -/
theorem exec_rises {a : Impl} (h : Ledger a []) (call : Call) :
    a.stats.highWatermarkBlocks ≤ (a.exec call).stats.highWatermarkBlocks := by
  cases call with
  | allocatePrompt id promptTokens key prefixTokens =>
    obtain ⟨misses, htallied, -⟩ :=
      (Counted.allocatePrompt h.tokens id promptTokens key prefixTokens).tallied
    exact htallied.rises
  | appendTokens id tokenCount =>
    by_cases hlive : ∃ q, a.Live id q
    · obtain ⟨q, hq⟩ := hlive
      by_cases hpos : 0 < tokenCount
      · exact (Tallied.appendTokens hq h.tokens hpos).1.rises
      · rw [Impl.exec, Impl.appendTokens, show a.sequences[id]? = some q from hq]
        simp only
        rw [if_pos (Int.not_lt.mp hpos)]
    · have hnone : a.sequences[id]? = none :=
        Option.eq_none_iff_forall_not_mem.mpr fun q hq => hlive ⟨q, hq⟩
      rw [Impl.exec, Impl.appendTokens, hnone]
  | releaseSequence id => exact (Tallied.releaseSequence a id).rises

theorem foldl_exec_rises (calls : List Call) {a : Impl} (h : Ledger a []) :
    a.stats.highWatermarkBlocks ≤ (calls.foldl Impl.exec a).stats.highWatermarkBlocks := by
  induction calls generalizing a with
  | nil => exact le_rfl
  | cons call calls ih => exact (exec_rises h call).trans (ih (h.exec call))

def Machine.watermark (m : Machine) : Int := m.allocator.stats.highWatermarkBlocks

theorem step_rises (config : ContinuousBatcherConfig) (requests : List SequenceRequest) (n : Nat) :
    (machineAt config requests n).watermark ≤ (machineAt config requests (n + 1)).watermark := by
  obtain ⟨ha, hremembered⟩ := machineAt_remembered config requests n
  rw [machineAt_succ]
  refine (step_turns (continuousBatcher config) n ha (motive := fun m _ =>
    Remembered config requests (n + 1) m ∧ (machineAt config requests n).watermark ≤ m.watermark)
    ?_ ⟨⟨hremembered.tracked.next, hremembered.memory⟩, le_rfl⟩).2.2
  rintro m step i s r o ⟨h, hle⟩ ha hslot ho
  obtain ⟨calls, hcalls, -⟩ := ho.calls
  refine ⟨⟨h.tracked.turn hslot ho, h.memory.turn h.tracked ha hslot ho⟩, hle.trans ?_⟩
  rw [Machine.watermark, Machine.watermark, Machine.put, hcalls]
  exact foldl_exec_rises calls h.memory.ledger

theorem machineAt_rises (config : ContinuousBatcherConfig) (requests : List SequenceRequest)
    {k n : Nat} (h : k ≤ n) :
    (machineAt config requests k).watermark ≤ (machineAt config requests n).watermark :=
  monotone_nat_of_le_succ (step_rises config requests) h

/-- Between its steps the blocks in use are within the watermark. -/
theorem stepAt_used (config : ContinuousBatcherConfig) (requests : List SequenceRequest) (n : Nat) :
    (stepAt config requests n).kvBlocksUsed ≤ (machineAt config requests (n + 1)).watermark :=
  (machineAt_remembered config requests (n + 1)).2.memory.tally.used

theorem cancel_tally {config : ContinuousBatcherConfig} {requests : List SequenceRequest}
    {m : Machine} (ha : m.Aligned) (h : Memory config requests m) :
    Tally config m.cancel ∧ m.watermark ≤ m.cancel.watermark := by
  have hall := (cancelLoop_turns (motive := fun m' => Tally config m' ∧ m.watermark ≤ m'.watermark ∧
    ∀ (i : Nat) (s : State) (r : SequenceResult), m'.Slot i s r → s.done = false →
      r.message = "queued") ?_ (List.range m.states.length) ha
    ⟨h.tally, le_rfl, fun i s r hslot hd => ((h.noted i s r hslot).waiting hd).1⟩).2
  · exact ⟨hall.1, hall.2.1⟩
  rintro m' i s r ⟨htally, hle, hqueued⟩ - hslot hd
  have hreleased := Tallied.releaseSequence m'.allocator s.request.id
  refine ⟨htally.put hslot (.quiet hreleased rfl ?_ rfl ?_), hle.trans hreleased.rises,
    fun j t u htu htd => ?_⟩
  · have hfailures : r.failures = 0 :=
      if_neg (by rw [hqueued i s r hslot hd]; decide)
    rw [hfailures]
    exact if_neg (show ¬ "cancelled" = exhausted by decide)
  · cases hallocated : s.promptAllocated with
    | true => exact (if_pos (Or.inl hallocated)).trans_le (if_pos (Or.inr rfl)).ge
    | false =>
      have hnone : s.triedLookups = 0 := if_neg (by simp [hallocated, hd])
      rw [hnone]
      exact (lookups_request_nonneg s.request).trans_eq (if_pos (Or.inr rfl)).symm
  · rcases (hslot.put _).mp htu with ⟨rfl, rfl, rfl⟩ | ⟨-, htu⟩
    · exact absurd htd (by simp [cancelTurn])
    · exact hqueued j t u htu htd

/-- What the result of a request says of its message and of its blocks. -/
structure ResultExplained (requests : List SequenceRequest) (tokensPerBlock : Int) (i : Nat)
    (q : SequenceRequest) (result : SequenceResult) : Prop where
  completed : result.status = .completed →
    result.message = "completed" ∧ result.kvBlocks = q.blocksNeeded tokensPerBlock
  cancelled : result.status = .cancelled → result.message = "cancelled" ∧ result.kvBlocks = 0
  rejected : result.status = .rejected →
    (result.message = "sequence id is required" ∧ q.id = [] ∧ result.kvBlocks = 0) ∨
    (result.message = "sequence already exists" ∧ ∃ j ≠ i, ∃ p ∈ requests[j]?, p.id = q.id) ∨
    (result.message = exhausted ∧ (result.kvBlocks = 0 ∨ result.kvBlocks =
      promptBlocks tokensPerBlock q.promptTokens q.prefixCacheKey q.prefixCacheTokens +
        ceilDiv result.generatedTokens tokensPerBlock))

structure MemoryReport (config : ContinuousBatcherConfig) (requests : List SequenceRequest)
    (r : ContinuousBatchingRun) : Prop where
  capacity : r.stats.kvCache.totalBlocks = (continuousBatcher config).kvCacheBlocks ∧
    r.stats.kvCache.usedBlocks + r.stats.kvCache.freeBlocks = r.stats.kvCache.totalBlocks ∧
    r.stats.kvCache.usedBlocks ≤ r.stats.kvCache.highWatermarkBlocks ∧
    r.stats.kvCache.highWatermarkBlocks ≤ r.stats.kvCache.totalBlocks
  steps : ∀ step ∈ r.steps, step.kvBlocksUsed ≤ r.stats.kvCache.highWatermarkBlocks
  hits : r.stats.kvCache.prefixCacheHits = r.results.countP (fun result => result.prefixCacheHit)
  lookups : ((requests.zip r.results).map fun p =>
      if p.2.status = .completed then p.1.lookups else 0).sum ≤
      r.stats.kvCache.prefixCacheHits + r.stats.kvCache.prefixCacheMisses ∧
    r.stats.kvCache.prefixCacheHits + r.stats.kvCache.prefixCacheMisses ≤
      (requests.map SequenceRequest.lookups).sum
  failures : r.stats.kvCache.allocationFailures =
    r.results.countP (fun result => result.message = exhausted)
  results : ∀ (i : Nat) (q : SequenceRequest) (result : SequenceResult), requests[i]? = some q →
    r.results[i]? = some result →
      ResultExplained requests (continuousBatcher config).kvBlockTokens i q result
  named : DistinctIds requests → (∀ q ∈ requests, q.id ≠ []) →
    r.stats.kvCache.allocationFailures =
      r.results.countP (fun result => result.status = .rejected)

/-- Under ids of their own, requests are rejected for want of blocks only. -/
theorem ResultExplained.rejected_iff {requests : List SequenceRequest} {tokensPerBlock : Int}
    {i : Nat} {q : SequenceRequest} {result : SequenceResult}
    (h : ResultExplained requests tokensPerBlock i q result) (hdistinct : DistinctIds requests)
    (hnamed : ∀ q ∈ requests, q.id ≠ []) (hq : requests[i]? = some q) :
    result.message = exhausted ↔ result.status = .rejected := by
  constructor
  · intro hmessage
    cases hstatus : result.status with
    | rejected => rfl
    | completed =>
      rw [(h.completed hstatus).1] at hmessage
      exact absurd hmessage (by decide)
    | cancelled =>
      rw [(h.cancelled hstatus).1] at hmessage
      exact absurd hmessage (by decide)
  · intro hstatus
    rcases h.rejected hstatus with ⟨-, hempty, -⟩ | ⟨-, j, hne, p, hp, hid⟩ | ⟨hmessage, -⟩
    · exact absurd hempty (hnamed q (List.mem_of_getElem? hq))
    · have hi : (requests.map SequenceRequest.id)[i]? = some q.id := by
        rw [List.getElem?_map, hq, Option.map_some]
      have hj : (requests.map SequenceRequest.id)[j]? = some q.id := by
        rw [List.getElem?_map, show requests[j]? = some p from hp, Option.map_some, hid]
      obtain ⟨hlt, -⟩ := List.getElem?_eq_some_iff.mp hi
      exact absurd ((List.getElem?_inj hlt hdistinct).mp (hi.trans hj.symm)) hne.symm
    · exact hmessage

theorem clamped_lookups (q : SequenceRequest) : q.clamped.lookups = q.lookups := by
  simp [SequenceRequest.lookups, SequenceRequest.clamped, Kv.lookups, Prefixed]

/-- The blocks of a sequence that completed are those that its request needs. -/
theorem charge_completed {s : State} {q : SequenceRequest} (hsq : s.request = q.clamped)
    (hallocated : s.promptAllocated = true)
    (hgenerated : s.generated = s.request.maxGeneratedTokens)
    (tokensPerBlock : Int) : s.charge tokensPerBlock = q.blocksNeeded tokensPerBlock := by
  have hcharge : s.charge tokensPerBlock = promptBlocks tokensPerBlock s.request.promptTokens
      s.request.prefixCacheKey s.request.prefixCacheTokens + ceilDiv s.generated tokensPerBlock :=
    if_pos hallocated
  rw [hcharge, hgenerated, hsq]
  simp [SequenceRequest.blocksNeeded, SequenceRequest.clamped, promptBlocks]

section
variable {config : ContinuousBatcherConfig} {requests : List SequenceRequest}
  {isCancelled : Nat → Bool} {n : Nat}
  {out : Machine × List SchedulerStep × ContinuousBatchingStats}
  (h : Ended config requests isCancelled n out)
include h

theorem Ended.tally : Tally (continuousBatcher config) out.1 ∧
    (machineAt config requests n).watermark ≤ out.1.watermark := by
  obtain ⟨ha, hremembered⟩ := machineAt_remembered config requests n
  obtain ⟨-, hout⟩ | ⟨-, -, hout⟩ := h.last
  · rw [hout]
    exact ⟨hremembered.memory.tally, le_rfl⟩
  · rw [hout]
    exact cancel_tally ha hremembered.memory

theorem Ended.explained {i : Nat} {q : SequenceRequest} {result : SequenceResult}
    (hq : requests[i]? = some q) (hresult : out.1.results[i]? = some result) :
    ResultExplained requests (continuousBatcher config).kvBlockTokens i q result := by
  obtain ⟨s, r, hslot, hsq⟩ := machineAt_slot config hq n
  obtain ⟨-, htracked, hmemory⟩ := machineAt_remembered config requests n
  have htold := htracked.told i s r hslot
  have hnoted := hmemory.noted i s r hslot
  obtain ⟨r', hslot', ⟨hd, rfl⟩ | ⟨hd, -, rfl⟩⟩ := h.slot hslot
  · obtain rfl := Option.some.inj (hslot'.result.symm.trans hresult)
    obtain ⟨huncancelled, hcompleted⟩ := htold.finished hd
    refine ⟨fun hc => ?_, fun hc => absurd hc huncancelled, fun hc => ?_⟩
    · obtain ⟨hready, hgenerated⟩ := hcompleted.mp hc
      have hmessage := hnoted.completed hc
      refine ⟨hmessage, ?_⟩
      rw [hnoted.blocks hd (by rw [hmessage]; decide)]
      exact charge_completed hsq (htold.ready.mp hready).1 hgenerated _
    · have hid : s.request.id = q.id := by rw [hsq]; rfl
      rcases hnoted.rejected hd hc with ⟨hmessage, hempty⟩ | ⟨hmessage, htwin⟩ | hmessage
      · refine Or.inl ⟨hmessage, hid ▸ hempty, ?_⟩
        rw [hnoted.blocks hd (by rw [hmessage]; decide)]
        exact if_neg fun hallocated => hnoted.named hallocated hempty
      · exact Or.inr (Or.inl ⟨hmessage, hid ▸ htwin⟩)
      · refine Or.inr (Or.inr ⟨hmessage, ?_⟩)
        have htokens : r'.generatedTokens = s.generated := by
          rw [htold.tokens, hd]
          rfl
        rw [hnoted.blocks hd (by rw [hmessage]; decide), htokens, State.charge, hsq]
        split_ifs
        · refine Or.inr ?_
          simp [SequenceRequest.clamped, promptBlocks]
        · exact Or.inl rfl
  · obtain rfl := Option.some.inj (hslot'.result.symm.trans hresult)
    exact ⟨fun hc => SequenceStatus.noConfusion hc, fun _ => ⟨rfl, (hnoted.waiting hd).2⟩,
      fun hc => SequenceStatus.noConfusion hc⟩

/-- The lookups of the completed requests were made, and no others than those of all requests. -/
theorem Ended.lookups : ((requests.zip out.1.results).map fun p =>
      if p.2.status = .completed then p.1.lookups else 0).sum ≤
      (out.1.states.map State.madeLookups).sum ∧
    (out.1.states.map State.triedLookups).sum ≤ (requests.map SequenceRequest.lookups).sum := by
  obtain ⟨ha, hlength⟩ := h.aligned
  have hresults := ha.length
  have hat : ∀ i (hi : i < requests.length), ∃ s r, out.1.Slot i s r ∧
      s.request = (requests[i]).clamped ∧ Settled n s r := by
    intro i hi
    obtain ⟨s, r, hslot, hsq, hsettled, -⟩ := h.settled (List.getElem?_eq_getElem hi)
    exact ⟨s, r, hslot, hsq, hsettled⟩
  refine ⟨List.Forall₂.sum_le_sum (List.forall₂_iff_get.mpr ⟨?_, fun i hi hi' => ?_⟩),
    List.Forall₂.sum_le_sum (List.forall₂_iff_get.mpr ⟨?_, fun i hi hi' => ?_⟩)⟩
  · simp only [List.length_map, List.length_zip]
    omega
  · simp only [List.length_map, List.length_zip] at hi hi'
    obtain ⟨s, r, hslot, hsq, hsettled⟩ := hat i (by omega)
    obtain ⟨_, hs⟩ := List.getElem?_eq_some_iff.mp hslot.state
    obtain ⟨_, hr⟩ := List.getElem?_eq_some_iff.mp hslot.result
    simp only [List.get_eq_getElem, List.getElem_map, List.getElem_zip, hs, hr, State.madeLookups,
      hsq, clamped_lookups]
    by_cases hc : r.status = .completed
    · rw [if_pos hc, if_pos (hsettled.ready.mp (hsettled.completed.mp hc).1).1]
    · rw [if_neg hc]
      have hnonneg := lookups_request_nonneg requests[i]
      split_ifs
      · exact hnonneg
      · exact le_rfl
  · simp only [List.length_map]
    exact hlength
  · simp only [List.length_map] at hi hi'
    obtain ⟨s, r, hslot, hsq, -⟩ := hat i hi'
    obtain ⟨_, hs⟩ := List.getElem?_eq_some_iff.mp hslot.state
    simp only [List.get_eq_getElem, List.getElem_map, hs, State.triedLookups, hsq, clamped_lookups]
    have hnonneg := lookups_request_nonneg requests[i]
    split_ifs
    · exact le_rfl
    · exact hnonneg

theorem Ended.memoryReport : MemoryReport config requests (finish out) := by
  obtain ⟨htally, hrises⟩ := h.tally
  obtain ⟨hmade, htried⟩ := h.lookups
  have hresults : ∀ (i : Nat) (q : SequenceRequest) (result : SequenceResult),
      requests[i]? = some q → (finish out).results[i]? = some result →
        ResultExplained requests (continuousBatcher config).kvBlockTokens i q result :=
    fun i q result hq hresult => h.explained hq hresult
  have hfailures : (finish out).stats.kvCache.allocationFailures =
      (finish out).results.countP (fun result => result.message = exhausted) :=
    htally.failures.trans (Sums.sum_indicator _ _)
  refine ⟨⟨htally.blockCount, ?_, htally.used, htally.high⟩, fun step hstep => ?_, ?_,
    ⟨hmade.trans htally.made, htally.tried.trans htried⟩, hfailures, hresults,
    fun hdistinct hnamed => ?_⟩
  · simp only [finish, Impl.snapshotStats, Impl.usedBlockCount]
    omega
  · rw [finish, h.steps] at hstep
    obtain ⟨k, hk, rfl⟩ := List.mem_map.mp hstep
    have hlt := List.mem_range.mp hk
    exact ((stepAt_used config requests k).trans (machineAt_rises config requests hlt)).trans hrises
  · refine htally.hits.trans ((Sums.sum_indicator _ _).trans ?_)
    simp [finish]
  · rw [hfailures]
    refine congrArg _ (List.countP_congr fun result hmem => ?_)
    obtain ⟨i, hi⟩ := List.getElem?_of_mem hmem
    obtain ⟨ha, hlength⟩ := h.aligned
    obtain ⟨hlt, -⟩ := List.getElem?_eq_some_iff.mp hi
    have hlt' : i < requests.length := by
      rw [← hlength, ← ha.length]
      exact hlt
    have hexplained := hresults i _ result (List.getElem?_eq_getElem hlt') hi
    simp only [decide_eq_true_eq]
    exact hexplained.rejected_iff hdistinct hnamed (List.getElem?_eq_getElem hlt')

end

/-- A run of the scheduler ends, and what it then reports of its memory is so, whatever it was asked
for and whenever it was cancelled. -/
theorem run_memory (config : ContinuousBatcherConfig) (requests : List SequenceRequest)
    (isCancelled : Nat → Bool) :
    ∃ r, (∀ fuel, workBound requests ≤ fuel → run config requests isCancelled fuel = some r) ∧
      MemoryReport config requests r := by
  obtain ⟨n, out, hended, hout⟩ := loop_terminates config requests isCancelled
  refine ⟨finish out, fun fuel hfuel => ?_, hended.memoryReport⟩
  rw [run_eq, hout fuel hfuel, Option.map_some]

end Laminar.Scheduler
