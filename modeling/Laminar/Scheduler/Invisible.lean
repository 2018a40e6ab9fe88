import Laminar.Scheduler.Roomy

/-! Two runs in roomy caches, of requests that differ in their prefix keys alone, go through
the same steps: neither sharing nor the size of the cache shows in the schedule. -/
namespace Laminar.Scheduler
open Laminar.Kv

def SequenceRequest.forgetCache (q : SequenceRequest) : SequenceRequest :=
  { q with prefixCacheKey := [], prefixCacheTokens := -1 }

def State.forgetCache (s : State) : State := { s with request := s.request.forgetCache }

def SequenceResult.forgetCache (r : SequenceResult) : SequenceResult :=
  { r with kvBlocks := 0, prefixCacheHit := false }

structure Machine.Alike (m m' : Machine) : Prop where
  states : m.states.map State.forgetCache = m'.states.map State.forgetCache
  results : m.results.map SequenceResult.forgetCache = m'.results.map SequenceResult.forgetCache

structure Outcome.Alike (o o' : Outcome) : Prop where
  state : o.state.forgetCache = o'.state.forgetCache
  result : o.result.forgetCache = o'.result.forgetCache
  prefilled : o.prefilled = o'.prefilled
  decoded : o.decoded = o'.decoded

theorem Machine.Alike.slot {m m' : Machine} (h : m.Alike m') {i : Nat} {s : State}
    {r : SequenceResult} (hslot : m.Slot i s r) :
    ∃ s' r', m'.Slot i s' r' ∧ s.forgetCache = s'.forgetCache ∧
      r.forgetCache = r'.forgetCache := by
  have hs := congrArg (fun states => states[i]?) h.states
  have hr := congrArg (fun results => results[i]?) h.results
  simp only [List.getElem?_map, hslot.state, hslot.result, Option.map_some] at hs hr
  obtain ⟨s', hs', hss⟩ := Option.map_eq_some_iff.mp hs.symm
  obtain ⟨r', hr', hrr⟩ := Option.map_eq_some_iff.mp hr.symm
  exact ⟨s', r', ⟨hs', hr'⟩, hss.symm, hrr.symm⟩

theorem Machine.Alike.put {m m' : Machine} (h : m.Alike m') (i : Nat) {o o' : Outcome}
    (ho : o.Alike o') : (m.put i o).Alike (m'.put i o') := by
  refine ⟨?_, ?_⟩
  · simp only [Machine.put, List.map_set, h.states, ho.state]
  · simp only [Machine.put, List.map_set, h.results, ho.result]

/-- The candidates of a phase and their order do not depend on the cache. -/
theorem Machine.Alike.ranked {m m' : Machine} (h : m.Alike m') (candidate : State → Bool)
    (hc : ∀ s : State, candidate s.forgetCache = candidate s) :
    m.ranked candidate = m'.ranked candidate := by
  have hview : ∀ m : Machine, m.ranked candidate =
      (((m.states.map State.forgetCache).filter candidate).insertionSort byPriority).map
        State.index := by
    intro m
    have hfilter : (m.states.map State.forgetCache).filter candidate =
        (m.states.filter candidate).map State.forgetCache := by
      rw [List.filter_map]
      refine congrArg (List.map State.forgetCache) (List.filter_congr fun s _ => ?_)
      exact hc s
    rw [hfilter, ← List.map_insertionSort byPriority byPriority State.forgetCache _
      (fun s _ t _ => Iff.rfl), List.map_map]
    rfl
  rw [hview m, hview m', h.states]

theorem forgetCache_fields {s s' : State} (h : s.forgetCache = s'.forgetCache) :
    s.index = s'.index ∧ s.prefillRemaining = s'.prefillRemaining ∧ s.generated = s'.generated ∧
      s.promptAllocated = s'.promptAllocated ∧ s.promptReady = s'.promptReady ∧
      s.done = s'.done ∧ s.request.id = s'.request.id ∧
      s.request.maxGeneratedTokens = s'.request.maxGeneratedTokens := by
  simp only [State.forgetCache, SequenceRequest.forgetCache, State.mk.injEq,
    SequenceRequest.mk.injEq] at h
  tauto

theorem forgetCache_consume {s s' : State} (h : s.forgetCache = s'.forgetCache)
    {consumed consumed' : Int} (hc : consumed = consumed') :
    (({ s with promptAllocated := true } : State).consume consumed).forgetCache =
      (({ s' with promptAllocated := true } : State).consume consumed').forgetCache := by
  have hconsume : ∀ s : State, (({ s with promptAllocated := true } : State).consume
      consumed').forgetCache =
        ({ s.forgetCache with promptAllocated := true } : State).consume consumed' := fun _ => rfl
  rw [hc, hconsume, hconsume, h]

theorem PrefillTurn.alike {budget : Int} {a a' : Impl} {s s' : State} {r r' : SequenceResult}
    {o o' : Outcome} (h : PrefillTurn budget a s r o) (h' : PrefillTurn budget a' s' r' o')
    (hs : s.forgetCache = s'.forgetCache) (hr : r.forgetCache = r'.forgetCache)
    (hkept : ¬ Rejected o.state o.result) (hkept' : ¬ Rejected o'.state o'.result) :
    o.Alike o' := by
  obtain ⟨-, hremaining, -, hallocated, -⟩ := forgetCache_fields hs
  have hconsumed : min budget s.prefillRemaining = min budget s'.prefillRemaining := by
    rw [hremaining]
  cases h with
  | refuse ha hok => exact absurd ⟨rfl, rfl⟩ hkept
  | accept ha hok =>
    cases h' with
    | refuse ha' hok' => exact absurd ⟨rfl, rfl⟩ hkept'
    | accept ha' hok' =>
      exact ⟨forgetCache_consume hs hconsumed,
        congrArg (fun r => ({ r with prefixCacheHit := false } : SequenceResult)) hr,
        hconsumed, rfl⟩
    | consume ha' => exact absurd (ha.symm.trans (hallocated.trans ha')) Bool.false_ne_true
  | consume ha =>
    cases h' with
    | refuse ha' hok' => exact absurd ⟨rfl, rfl⟩ hkept'
    | accept ha' hok' =>
      exact absurd (ha'.symm.trans (hallocated.symm.trans ha)) Bool.false_ne_true
    | consume ha' =>
      have hself : ({ s with promptAllocated := true } : State) = s := by rw [← ha]
      have hself' : ({ s' with promptAllocated := true } : State) = s' := by rw [← ha']
      have hstate := forgetCache_consume hs hconsumed
      rw [hself, hself'] at hstate
      exact ⟨hstate, hr, hconsumed, rfl⟩

theorem forgetCache_token {r r' : SequenceResult} (h : r.forgetCache = r'.forgetCache) (n : Nat) :
    (r.token n).forgetCache = (r'.token n).forgetCache := by
  have htoken : ∀ r : SequenceResult, (r.token n).forgetCache = r.forgetCache.token n := by
    intro r
    have hfirst : r.forgetCache.firstTokenStep = r.firstTokenStep := rfl
    unfold SequenceResult.token
    rw [hfirst]
    split_ifs <;> rfl
  rw [htoken, htoken, h]

theorem DecodeTurn.alike {n : Nat} {a a' : Impl} {s s' : State} {r r' : SequenceResult}
    {o o' : Outcome} (h : DecodeTurn n a s r o) (h' : DecodeTurn n a' s' r' o')
    (hs : s.forgetCache = s'.forgetCache) (hr : r.forgetCache = r'.forgetCache)
    (hkept : ¬ Rejected o.state o.result) (hkept' : ¬ Rejected o'.state o'.result) :
    o.Alike o' := by
  obtain ⟨-, -, hgenerated, -, -, -, hid, hmax⟩ := forgetCache_fields hs
  have htoken := forgetCache_token hr n
  have hdecoded : [s.request.id] = [s'.request.id] := by rw [hid]
  cases h with
  | refuse hok => exact absurd ⟨rfl, rfl⟩ hkept
  | token hok hne =>
    cases h' with
    | refuse hok' => exact absurd ⟨rfl, rfl⟩ hkept'
    | token hok' hne' =>
      exact ⟨congrArg (fun s => ({ s with generated := s.generated + 1 } : State)) hs, htoken, rfl,
        hdecoded⟩
    | last hok' heq' => exact absurd (by rw [hgenerated, hmax, heq']) hne
  | last hok heq =>
    cases h' with
    | refuse hok' => exact absurd ⟨rfl, rfl⟩ hkept'
    | token hok' hne' => exact absurd (by rw [← hgenerated, ← hmax, heq]) hne'
    | last hok' heq' =>
      refine ⟨
        congrArg (fun s => ({ s with generated := s.generated + 1, done := true } : State)) hs,
        ?_, rfl, hdecoded⟩
      have hlast := congrArg (fun r => ({ r with
        generatedTokens := s.generated + 1
        status := .completed
        message := "completed"
        completionStep := n } : SequenceResult)) htoken
      simp only [SequenceResult.forgetCache] at hlast ⊢
      rw [← hgenerated]
      exact hlast

theorem completeTurn_alike (n : Nat) (a a' : Impl) {s s' : State} {r r' : SequenceResult}
    (hs : s.forgetCache = s'.forgetCache) (hr : r.forgetCache = r'.forgetCache) :
    (completeTurn n a s r).Alike (completeTurn n a' s' r') :=
  ⟨congrArg (fun s => ({ s with done := true } : State)) hs,
    congrArg (fun r => ({ r with
      status := .completed
      message := "completed"
      completionStep := n } : SequenceResult)) hr, rfl, rfl⟩

structure Twins (config config' : ContinuousBatcherConfig)
    (requests requests' : List SequenceRequest)
    (n : Nat) (m m' : Machine) (step step' : SchedulerStep) : Prop where
  aligned : m.Aligned
  aligned' : m'.Aligned
  uncrowded : Uncrowded config requests n m
  uncrowded' : Uncrowded config' requests' n m'
  alike : m.Alike m'
  prefilled : step.prefillTokens = step'.prefillTokens
  decoded : step.decodedSequenceIds = step'.decodedSequenceIds

section
variable {config config' : ContinuousBatcherConfig} {requests requests' : List SequenceRequest}
  (hroomy : Roomy config requests) (hroomy' : Roomy config' requests') {n : Nat}
  {m m' : Machine} {step step' : SchedulerStep}
include hroomy hroomy'

theorem Twins.turn (h : Twins config config' requests requests' (n + 1) m m' step step') {i : Nat}
    {s s' : State} {r r' : SequenceResult} {o o' : Outcome} (hslot : m.Slot i s r)
    (hslot' : m'.Slot i s' r') (ho : Turn n m.allocator s r o) (ho' : Turn n m'.allocator s' r' o')
    (halike : ¬ Rejected o.state o.result → ¬ Rejected o'.state o'.result → o.Alike o') :
    o.Alike o' ∧ Twins config config' requests requests' (n + 1) (m.put i o) (m'.put i o')
      (step.add o) (step'.add o') := by
  have hnext := h.uncrowded.turn hroomy h.aligned hslot ho
  have hnext' := h.uncrowded'.turn hroomy' h.aligned' hslot' ho'
  have hsame := halike (hnext.kept i _ _ ((hslot.put o).mpr (Or.inl ⟨rfl, rfl, rfl⟩)))
    (hnext'.kept i _ _ ((hslot'.put o').mpr (Or.inl ⟨rfl, rfl, rfl⟩)))
  refine ⟨hsame, h.aligned.put hslot.state ho.index, h.aligned'.put hslot'.state ho'.index, hnext,
    hnext', h.alike.put i hsame, ?_, ?_⟩
  · simp only [SchedulerStep.add, h.prefilled, hsame.prefilled]
  · simp only [SchedulerStep.add, h.decoded, hsame.decoded]

theorem prefillLoop_twins (ids : List Nat) (budget : Int)
    (h : Twins config config' requests requests' (n + 1) m m' step step')
    (hc : m.Candidates prefillCandidate ids) (hc' : m'.Candidates prefillCandidate ids) :
    Twins config config' requests requests' (n + 1) (prefillLoop ids budget m step).1
      (prefillLoop ids budget m' step').1 (prefillLoop ids budget m step).2
      (prefillLoop ids budget m' step').2 := by
  induction ids generalizing budget m m' step step' with
  | nil => exact h
  | cons i rest ih =>
    by_cases hb : budget ≤ 0
    · rw [prefillLoop, prefillLoop, if_pos hb, if_pos hb]
      exact h
    have hpos := Int.not_le.mp hb
    obtain ⟨s, hs, hcand⟩ := hc.candidate i List.mem_cons_self
    obtain ⟨s', hs', hcand'⟩ := hc'.candidate i List.mem_cons_self
    obtain ⟨r, o, hslot, ho, hloop⟩ := prefillLoop_turn h.aligned hs rest hpos step
    obtain ⟨r', o', hslot', ho', hloop'⟩ := prefillLoop_turn h.aligned' hs' rest hpos step'
    obtain ⟨t', u', htu, hst, hru⟩ := h.alike.slot hslot
    obtain ⟨rfl, rfl⟩ := hslot'.unique htu
    obtain ⟨hsame, hnext⟩ := h.turn hroomy hroomy' hslot hslot' (.prefill budget hpos hcand ho)
      (.prefill budget hpos hcand' ho') (ho.alike ho' hst hru)
    rw [hloop, hloop', hsame.prefilled]
    exact ih _ hnext (hc.put o) (hc'.put o')

theorem decodeLoop_twins (ids : List Nat)
    (h : Twins config config' requests requests' (n + 1) m m' step step')
    (hc : m.Candidates decodeCandidate ids) (hc' : m'.Candidates decodeCandidate ids) :
    Twins config config' requests requests' (n + 1) (decodeLoop n ids m step).1
      (decodeLoop n ids m' step').1 (decodeLoop n ids m step).2
      (decodeLoop n ids m' step').2 := by
  induction ids generalizing m m' step step' with
  | nil => exact h
  | cons i rest ih =>
    obtain ⟨s, hs, hcand⟩ := hc.candidate i List.mem_cons_self
    obtain ⟨s', hs', hcand'⟩ := hc'.candidate i List.mem_cons_self
    obtain ⟨r, o, hslot, ho, hloop⟩ := decodeLoop_turn n h.aligned hs rest step
    obtain ⟨r', o', hslot', ho', hloop'⟩ := decodeLoop_turn n h.aligned' hs' rest step'
    obtain ⟨t', u', htu, hst, hru⟩ := h.alike.slot hslot
    obtain ⟨rfl, rfl⟩ := hslot'.unique htu
    obtain ⟨-, hnext⟩ := h.turn hroomy hroomy' hslot hslot' (.decode hcand ho)
      (.decode hcand' ho') (ho.alike ho' hst hru)
    rw [hloop, hloop']
    exact ih hnext (hc.put o) (hc'.put o')

theorem completeLoop_twins (ids : List Nat)
    (h : Twins config config' requests requests' (n + 1) m m' step step') :
    Twins config config' requests requests' (n + 1) (completeLoop n ids m) (completeLoop n ids m')
      step step' := by
  induction ids generalizing m m' with
  | nil => exact h
  | cons i rest ih =>
    cases hs : m.states[i]? with
    | none =>
      have hs' : m'.states[i]? = none := by
        have hlength := congrArg List.length h.alike.states
        rw [List.length_map, List.length_map] at hlength
        rw [List.getElem?_eq_none_iff] at hs ⊢
        omega
      simp only [completeLoop, hs, hs']
      exact ih h
    | some s =>
      obtain ⟨r, hslot⟩ := h.aligned.slot hs
      obtain ⟨s', r', hslot', hst, hru⟩ := h.alike.slot hslot
      obtain ⟨-, -, -, -, hready, hdone, -, hmax⟩ := forgetCache_fields hst
      rcases completeLoop_turn n h.aligned hs rest with ⟨hd, hr, hm, u, hu, hloop⟩ |
        ⟨hno, hloop⟩ <;>
        rcases completeLoop_turn n h.aligned' hslot'.state rest with
          ⟨hd', hr', hm', u', hu', hloop'⟩ | ⟨hno', hloop'⟩
      · obtain ⟨-, rfl⟩ := hu.unique hslot
        obtain ⟨-, rfl⟩ := hu'.unique hslot'
        obtain ⟨-, hnext⟩ := h.turn hroomy hroomy' hu hu' (.complete hd hr hm rfl)
          (.complete hd' hr' hm' rfl) fun _ _ => completeTurn_alike n _ _ hst hru
        rw [SchedulerStep.add_nothing step rfl rfl, SchedulerStep.add_nothing step' rfl rfl]
          at hnext
        rw [hloop, hloop']
        exact ih hnext
      · exact absurd ⟨hdone ▸ hd, hready ▸ hr, hmax ▸ hm⟩ hno'
      · exact absurd ⟨hdone.symm ▸ hd', hready.symm ▸ hr', hmax.symm ▸ hm'⟩ hno
      · rw [hloop, hloop']
        exact ih h

end

/-- The two runs are of the same requests under the same limits, but for the cache. -/
structure SameSchedule (config config' : ContinuousBatcherConfig)
    (requests requests' : List SequenceRequest) : Prop where
  prefill : config.maxPrefillTokensPerStep = config'.maxPrefillTokensPerStep
  decode : config.maxDecodeSequencesPerStep = config'.maxDecodeSequencesPerStep
  requests : requests.map SequenceRequest.forgetCache = requests'.map SequenceRequest.forgetCache

theorem start_alike {config config' : ContinuousBatcherConfig}
    {requests requests' : List SequenceRequest}
    (hsame : SameSchedule config config' requests requests') :
    (machineAt config requests 0).Alike (machineAt config' requests' 0) := by
  have hclamped : ∀ q : SequenceRequest, q.clamped.forgetCache = q.forgetCache.clamped :=
    fun _ => rfl
  have hmap : (requests.map SequenceRequest.clamped).map SequenceRequest.forgetCache =
      (requests'.map SequenceRequest.clamped).map SequenceRequest.forgetCache := by
    have hboth := congrArg (List.map SequenceRequest.clamped) hsame.requests
    simpa only [List.map_map, Function.comp_def, hclamped] using hboth
  constructor
  · have hstates : ∀ qs : List SequenceRequest,
        (qs.zipIdx.map fun q => queuedState q.1 q.2).map State.forgetCache =
          (qs.map SequenceRequest.forgetCache).zipIdx.map fun q => queuedState q.1 q.2 := by
      intro qs
      rw [List.zipIdx_map, List.map_map, List.map_map]
      rfl
    exact (hstates _).trans ((congrArg (fun qs => qs.zipIdx.map fun q => queuedState q.1 q.2)
      hmap).trans (hstates _).symm)
  · have hresults : ∀ qs : List SequenceRequest,
        (qs.map queuedResult).map SequenceResult.forgetCache =
          (qs.map SequenceRequest.forgetCache).map queuedResult := by
      intro qs
      rw [List.map_map, List.map_map]
      rfl
    exact (hresults _).trans ((congrArg (List.map queuedResult) hmap).trans (hresults _).symm)

section
variable {config config' : ContinuousBatcherConfig} {requests requests' : List SequenceRequest}
  (hroomy : Roomy config requests) (hroomy' : Roomy config' requests')
  (hsame : SameSchedule config config' requests requests')
include hroomy hroomy' hsame

theorem step_twins {n : Nat} {m m' : Machine} (ha : m.Aligned) (ha' : m'.Aligned)
    (h : Uncrowded config requests n m) (h' : Uncrowded config' requests' n m')
    (halike : m.Alike m') :
    Twins config config' requests requests' (n + 1) (m.step (continuousBatcher config) n).1
      (m'.step (continuousBatcher config') n).1 (m.step (continuousBatcher config) n).2
      (m'.step (continuousBatcher config') n).2 := by
  have hbudget : (continuousBatcher config).maxPrefillTokensPerStep =
      (continuousBatcher config').maxPrefillTokensPerStep := by
    simp only [continuousBatcher, hsame.prefill]
  have hlimit : (continuousBatcher config).maxDecodeSequencesPerStep =
      (continuousBatcher config').maxDecodeSequencesPerStep := by
    simp only [continuousBatcher, hsame.decode]
  have hp : Twins config config' requests requests' (n + 1)
      (m.prefilled (continuousBatcher config) n).1 (m'.prefilled (continuousBatcher config') n).1
      (m.prefilled (continuousBatcher config) n).2
      (m'.prefilled (continuousBatcher config') n).2 := by
    have hids := halike.ranked prefillCandidate fun _ => rfl
    unfold Machine.prefilled
    rw [hbudget, ← hids]
    exact prefillLoop_twins hroomy hroomy' _ _ ⟨ha, ha', h.next, h'.next, halike, rfl, rfl⟩
      (ranked_candidates ha prefillCandidate) (hids ▸ ranked_candidates ha' prefillCandidate)
  have hd : Twins config config' requests requests' (n + 1)
      (m.decoded (continuousBatcher config) n).1 (m'.decoded (continuousBatcher config') n).1
      (m.decoded (continuousBatcher config) n).2 (m'.decoded (continuousBatcher config') n).2 := by
    have hids : m.decodeOrder (continuousBatcher config) n =
        m'.decodeOrder (continuousBatcher config') n := by
      have hranked := hp.alike.ranked decodeCandidate fun _ => rfl
      simp only [Machine.decodeOrder, hranked, hlimit]
    have hc' := decodeOrder_candidates (continuousBatcher config') n ha'
    unfold Machine.decoded
    rw [← hids] at hc' ⊢
    exact decodeLoop_twins hroomy hroomy' _ hp
      (decodeOrder_candidates (continuousBatcher config) n ha) hc'
  have hlength : (m'.decoded (continuousBatcher config') n).1.states.length =
      (m.decoded (continuousBatcher config) n).1.states.length := by
    simpa only [List.length_map] using (congrArg List.length hd.alike.states).symm
  have hc := completeLoop_twins hroomy hroomy'
    (List.range (m.decoded (continuousBatcher config) n).1.states.length) hd
  rw [step_fst, step_fst, hlength]
  exact ⟨hc.aligned, hc.aligned', hc.uncrowded, hc.uncrowded', hc.alike, hc.prefilled, hc.decoded⟩

/-- The two runs are alike before every step, and their steps record the same. -/
theorem machineAt_alike (n : Nat) :
    (machineAt config requests n).Alike (machineAt config' requests' n) ∧
      (List.range n).map (fun k => ((stepAt config requests k).prefillTokens,
        (stepAt config requests k).decodedSequenceIds)) =
      (List.range n).map (fun k => ((stepAt config' requests' k).prefillTokens,
        (stepAt config' requests' k).decodedSequenceIds)) := by
  induction n with
  | zero => exact ⟨start_alike hsame, rfl⟩
  | succ n ih =>
    obtain ⟨halike, hsteps⟩ := ih
    have htwins := step_twins hroomy hroomy' hsame (machineAt_tracked config requests n).1
      (machineAt_tracked config' requests' n).1 (machineAt_uncrowded hroomy n)
      (machineAt_uncrowded hroomy' n) halike
    refine ⟨htwins.alike, ?_⟩
    rw [List.range_succ, List.map_append, List.map_append, hsteps]
    exact congrArg _ (congrArg (fun p => [p]) (Prod.ext htwins.prefilled htwins.decoded))

end

theorem unfinishedCount_alike {m m' : Machine} (h : m.Alike m') :
    m.unfinishedCount = m'.unfinishedCount := by
  have hview : ∀ m : Machine, m.unfinishedCount =
      (m.states.map State.forgetCache).countP (fun s => !s.done) := by
    intro m
    rw [List.countP_map]
    rfl
  rw [hview, hview, h.states]

/-- What the schedule of a run decides for a request. -/
def SequenceResult.schedule (r : SequenceResult) : Bytes × SequenceStatus × Int × Int :=
  (r.id, r.status, r.firstTokenStep, r.completionStep)

def SchedulerStep.schedule (step : SchedulerStep) : Int × List Bytes :=
  (step.prefillTokens, step.decodedSequenceIds)

theorem Ended.completes {config : ContinuousBatcherConfig} {requests : List SequenceRequest}
    (hroomy : Roomy config requests) {n : Nat}
    {out : Machine × List SchedulerStep × ContinuousBatchingStats}
    (h : Ended config requests (fun _ => false) n out) {i : Nat} {q : SequenceRequest}
    (hq : requests[i]? = some q) :
    ∃ result, out.1.results[i]? = some result ∧ result.status = .completed ∧
      result.generatedTokens = max 0 q.maxGeneratedTokens := by
  obtain ⟨hidle, hout⟩ := h.idle
  obtain ⟨s, r, hslot, hsq⟩ := machineAt_slot config hq n
  have hd := done_of_idle hidle hslot.state
  have huncrowded := machineAt_uncrowded hroomy n
  have htold := huncrowded.tracked.told i s r hslot
  obtain ⟨hnot, hcompleted⟩ := htold.finished hd
  have hstatus : r.status = .completed := by
    cases hstatus : r.status with
    | completed => rfl
    | rejected => exact absurd ⟨hd, hstatus⟩ (huncrowded.kept i s r hslot)
    | cancelled => exact absurd hstatus hnot
  refine ⟨r, hout ▸ hslot.result, hstatus, ?_⟩
  rw [htold.tokens, if_pos hd, (hcompleted.mp hstatus).2, hsq]
  rfl

/-- In a cache with room for all requests an uncancelled run completes every request with the
tokens it asked for, and any other such run of the same requests, whatever their prefix keys and
the cache, goes through the same schedule. -/
theorem cache_invisible (config : ContinuousBatcherConfig) (requests : List SequenceRequest)
    (hroomy : Roomy config requests) :
    ∃ r, (∀ fuel, workBound requests ≤ fuel →
        run config requests (fun _ => false) fuel = some r) ∧
      (∀ (i : Nat) (q : SequenceRequest), requests[i]? = some q →
        ∃ result, r.results[i]? = some result ∧ result.status = .completed ∧
          result.generatedTokens = max 0 q.maxGeneratedTokens) ∧
      ∀ config' requests', Roomy config' requests' →
        SameSchedule config config' requests requests' →
        ∃ r', (∀ fuel, workBound requests' ≤ fuel →
            run config' requests' (fun _ => false) fuel = some r') ∧
          r'.steps.map SchedulerStep.schedule = r.steps.map SchedulerStep.schedule ∧
          r'.results.map SequenceResult.schedule = r.results.map SequenceResult.schedule := by
  obtain ⟨n, out, hended, hout⟩ := loop_terminates config requests fun _ => false
  refine ⟨finish out, fun fuel hfuel => by rw [run_eq, hout fuel hfuel, Option.map_some],
    fun i q hq => hended.completes hroomy hq, fun config' requests' hroomy' hsame => ?_⟩
  obtain ⟨n', out', hended', hout'⟩ := loop_terminates config' requests' fun _ => false
  refine ⟨finish out', fun fuel hfuel => by rw [run_eq, hout' fuel hfuel, Option.map_some], ?_⟩
  obtain ⟨hidle, hmachine⟩ := hended.idle
  obtain ⟨hidle', hmachine'⟩ := hended'.idle
  -- both loops stop at the first step at which no sequence is left
  have hcount := fun k => unfinishedCount_alike (machineAt_alike hroomy hroomy' hsame k).1
  have hn : n' = n := by
    rcases Nat.lt_trichotomy n n' with hlt | heq | hlt
    · have hbusy := (hended'.polls n hlt).2
      rw [← hcount, hidle] at hbusy
      exact absurd hbusy (Nat.lt_irrefl 0)
    · exact heq.symm
    · have hbusy := (hended.polls n' hlt).2
      rw [hcount, hidle'] at hbusy
      exact absurd hbusy (Nat.lt_irrefl 0)
  subst hn
  obtain ⟨halike, hsteps⟩ := machineAt_alike hroomy hroomy' hsame n'
  constructor
  · show out'.2.1.map _ = out.2.1.map _
    rw [hended.steps, hended'.steps, List.map_map, List.map_map]
    exact hsteps.symm
  · show out'.1.results.map _ = out.1.results.map _
    rw [hmachine, hmachine']
    have hschedule := congrArg (List.map SequenceResult.schedule) halike.results
    rw [List.map_map, List.map_map] at hschedule
    exact hschedule.symm

/-- Two requests that share a prefix in a cache of their own size, and without keys in a larger
cache of smaller blocks. -/
theorem cache_invisible_shared :
    let keyed : Bytes → SequenceRequest := fun id =>
      { id := id, promptTokens := 8, maxGeneratedTokens := 2, prefixCacheKey := [107] }
    let plain : Bytes → SequenceRequest := fun id =>
      { id := id, promptTokens := 8, maxGeneratedTokens := 2 }
    ∃ r, run { kvCacheBlocks := 6, kvBlockTokens := 4 } [keyed [97], keyed [98]]
        (fun _ => false) 22 = some r ∧
      ∃ r', run { kvCacheBlocks := 20, kvBlockTokens := 1 } [plain [97], plain [98]]
          (fun _ => false) 22 = some r' ∧
        r'.results.map SequenceResult.schedule = r.results.map SequenceResult.schedule := by
  intro keyed plain
  have hroomy : Roomy { kvCacheBlocks := 6, kvBlockTokens := 4 } [keyed [97], keyed [98]] :=
    ⟨by decide, by unfold DistinctIds; decide, by decide⟩
  have hroomy' : Roomy { kvCacheBlocks := 20, kvBlockTokens := 1 } [plain [97], plain [98]] :=
    ⟨by decide, by unfold DistinctIds; decide, by decide⟩
  obtain ⟨r, hr, -, hother⟩ := cache_invisible _ _ hroomy
  obtain ⟨r', hr', -, hresults⟩ := hother _ _ hroomy' ⟨rfl, rfl, rfl⟩
  exact ⟨r, hr 22 (by decide), r', hr' 22 (by decide), hresults⟩

end Laminar.Scheduler
