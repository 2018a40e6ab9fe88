import Laminar.Scheduler.Termination

/-! One turn of a sequence in a scheduler step: what its state, its result and the
allocator become, and what the step counts for it. -/
namespace Laminar.Scheduler
open Laminar.Kv Laminar.ListUpdate

structure Outcome where
  state : State
  result : SequenceResult
  allocator : Impl
  prefilled : Int := 0
  decoded : List Bytes := []

def Machine.put (m : Machine) (i : Nat) (o : Outcome) : Machine :=
  { states := m.states.set i o.state
    results := m.results.set i o.result
    allocator := o.allocator }

def SchedulerStep.add (step : SchedulerStep) (o : Outcome) : SchedulerStep :=
  { step with
    prefillTokens := step.prefillTokens + o.prefilled
    decodedTokens := step.decodedTokens + o.decoded.length
    decodedSequenceIds := step.decodedSequenceIds ++ o.decoded }

def State.admission (s : State) (a : Impl) : KvAllocation × Impl :=
  a.allocatePrompt s.request.id s.request.promptTokens s.request.prefixCacheKey
    s.request.prefixCacheTokens

inductive PrefillTurn (budget : Int) (a : Impl) (s : State) (r : SequenceResult) :
    Outcome → Prop where
  | refuse (ha : s.promptAllocated = false) (hok : (s.admission a).1.ok = false) :
      PrefillTurn budget a s r
        { state := { s with done := true }
          result := { r with
            status := .rejected
            message := (s.admission a).1.message
            kvBlocks := (s.admission a).2.sequenceBlockCount s.request.id }
          allocator := (s.admission a).2 }
  | accept (ha : s.promptAllocated = false) (hok : (s.admission a).1.ok = true) :
      PrefillTurn budget a s r
        { state := { s with promptAllocated := true }.consume (min budget s.prefillRemaining)
          result := { r with prefixCacheHit := (s.admission a).1.cacheHit }
          allocator := (s.admission a).2
          prefilled := min budget s.prefillRemaining }
  | consume (ha : s.promptAllocated = true) :
      PrefillTurn budget a s r
        { state := s.consume (min budget s.prefillRemaining)
          result := r
          allocator := a
          prefilled := min budget s.prefillRemaining }

def SequenceResult.token (r : SequenceResult) (n : Nat) : SequenceResult :=
  if r.firstTokenStep < 0 then { r with firstTokenStep := n } else r

inductive DecodeTurn (n : Nat) (a : Impl) (s : State) (r : SequenceResult) : Outcome → Prop where
  | refuse (hok : (a.appendTokens s.request.id 1).1.ok = false) :
      DecodeTurn n a s r
        { state := { s with done := true }
          result := { r with
            status := .rejected
            message := (a.appendTokens s.request.id 1).1.message
            generatedTokens := s.generated
            kvBlocks := (a.appendTokens s.request.id 1).2.sequenceBlockCount s.request.id }
          allocator := (a.appendTokens s.request.id 1).2.releaseSequence s.request.id }
  | token (hok : (a.appendTokens s.request.id 1).1.ok = true)
      (hlt : s.generated + 1 ≠ s.request.maxGeneratedTokens) :
      DecodeTurn n a s r
        { state := { s with generated := s.generated + 1 }
          result := r.token n
          allocator := (a.appendTokens s.request.id 1).2
          decoded := [s.request.id] }
  | last (hok : (a.appendTokens s.request.id 1).1.ok = true)
      (heq : s.generated + 1 = s.request.maxGeneratedTokens) :
      DecodeTurn n a s r
        { state := { s with generated := s.generated + 1, done := true }
          result := { r.token n with
            generatedTokens := s.generated + 1
            status := .completed
            message := "completed"
            completionStep := n
            kvBlocks := (a.appendTokens s.request.id 1).2.sequenceBlockCount s.request.id }
          allocator := (a.appendTokens s.request.id 1).2.releaseSequence s.request.id
          decoded := [s.request.id] }

def completeTurn (n : Nat) (a : Impl) (s : State) (r : SequenceResult) : Outcome :=
  { state := { s with done := true }
    result := { r with
      status := .completed
      message := "completed"
      completionStep := n
      kvBlocks := a.sequenceBlockCount s.request.id }
    allocator := a.releaseSequence s.request.id }

def cancelTurn (a : Impl) (s : State) (r : SequenceResult) : Outcome :=
  { state := { s with done := true }
    result := { r with status := .cancelled, message := "cancelled" }
    allocator := a.releaseSequence s.request.id }

structure Machine.Slot (m : Machine) (i : Nat) (s : State) (r : SequenceResult) : Prop where
  state : m.states[i]? = some s
  result : m.results[i]? = some r

structure Machine.Aligned (m : Machine) : Prop where
  index : ∀ (i : Nat) (s : State), m.states[i]? = some s → s.index = i
  length : m.results.length = m.states.length

theorem Machine.Slot.unique {m : Machine} {i : Nat} {s t : State} {r u : SequenceResult}
    (h : m.Slot i s r) (h' : m.Slot i t u) : s = t ∧ r = u :=
  ⟨Option.some.inj (h.state.symm.trans h'.state), Option.some.inj (h.result.symm.trans h'.result)⟩

theorem Machine.Aligned.slot {m : Machine} (h : m.Aligned) {i : Nat} {s : State}
    (hs : m.states[i]? = some s) : ∃ r, m.Slot i s r := by
  obtain ⟨hlt, -⟩ := List.getElem?_eq_some_iff.mp hs
  have hr : i < m.results.length := h.length ▸ hlt
  exact ⟨m.results[i], hs, List.getElem?_eq_getElem hr⟩

/-- A turn at one slot leaves the other slots as they were. -/
theorem Machine.Slot.put {m : Machine} {i : Nat} {s : State} {r : SequenceResult}
    (h : m.Slot i s r) (o : Outcome) {j : Nat} {t : State} {u : SequenceResult} :
    (m.put i o).Slot j t u ↔
      (j = i ∧ t = o.state ∧ u = o.result) ∨ (j ≠ i ∧ m.Slot j t u) := by
  obtain ⟨hs, -⟩ := List.getElem?_eq_some_iff.mp h.state
  obtain ⟨hr, -⟩ := List.getElem?_eq_some_iff.mp h.result
  by_cases hij : i = j
  · subst hij
    refine ⟨fun h' => Or.inl ⟨rfl, ?_⟩, ?_⟩
    · obtain ⟨ht, hu⟩ := h'
      simp only [Machine.put, List.getElem?_set_self hs, List.getElem?_set_self hr,
        Option.some.injEq] at ht hu
      exact ⟨ht.symm, hu.symm⟩
    · rintro (⟨-, rfl, rfl⟩ | ⟨hne, -⟩)
      · exact ⟨List.getElem?_set_self hs, List.getElem?_set_self hr⟩
      · exact absurd rfl hne
  · have hne : j ≠ i := Ne.symm hij
    constructor
    · rintro ⟨ht, hu⟩
      simp only [Machine.put, List.getElem?_set_ne hij] at ht hu
      exact Or.inr ⟨hne, ht, hu⟩
    · rintro (⟨heq, -⟩ | ⟨-, ht, hu⟩)
      · exact absurd heq hne
      · exact ⟨(List.getElem?_set_ne hij).trans ht, (List.getElem?_set_ne hij).trans hu⟩

theorem Machine.put_states {m : Machine} {i j : Nat} {o : Outcome} {t : State}
    (h : (m.put i o).states[j]? = some t) :
    (j = i ∧ t = o.state) ∨ (j ≠ i ∧ m.states[j]? = some t) := by
  simp only [Machine.put, List.getElem?_set] at h
  split_ifs at h with hij
  · exact Or.inl ⟨hij.symm, (Option.some.inj h).symm⟩
  · exact Or.inr ⟨Ne.symm hij, h⟩

theorem Machine.Aligned.put {m : Machine} (h : m.Aligned) {i : Nat} {s : State}
    (hs : m.states[i]? = some s) {o : Outcome} (ho : o.state.index = s.index) :
    (m.put i o).Aligned := by
  obtain ⟨r, hslot⟩ := h.slot hs
  refine ⟨fun j t ht => ?_, ?_⟩
  · simp only [Machine.put, List.getElem?_set] at ht
    split_ifs at ht with hij hlt
    · obtain rfl := Option.some.inj ht
      rw [ho, h.index i s hs, hij]
    · exact h.index j t ht
  · simp only [Machine.put, List.length_set, h.length]

theorem SchedulerStep.add_nothing (step : SchedulerStep) {o : Outcome} (hp : o.prefilled = 0)
    (hd : o.decoded = []) : step.add o = step := by
  simp [SchedulerStep.add, hp, hd]

theorem PrefillTurn.index {budget : Int} {a : Impl} {s : State} {r : SequenceResult} {o : Outcome}
    (h : PrefillTurn budget a s r o) : o.state.index = s.index := by
  cases h <;> rfl

theorem DecodeTurn.index {n : Nat} {a : Impl} {s : State} {r : SequenceResult} {o : Outcome}
    (h : DecodeTurn n a s r o) : o.state.index = s.index := by
  cases h <;> rfl

theorem prefillLoop_turn {m : Machine} (h : m.Aligned) {i : Nat} {s : State}
    (hs : m.states[i]? = some s) (rest : List Nat) {budget : Int} (hb : 0 < budget)
    (step : SchedulerStep) :
    ∃ r o, m.Slot i s r ∧ PrefillTurn budget m.allocator s r o ∧
      prefillLoop (i :: rest) budget m step =
        prefillLoop rest (budget - o.prefilled) (m.put i o) (step.add o) := by
  obtain ⟨r, hslot⟩ := h.slot hs
  obtain rfl := h.index i s hs
  have hmodify := modify_eq_set hslot.result
  simp only [prefillLoop, if_neg (Int.not_le.mpr hb), hs, Machine.allocatePrompt]
  by_cases ha : s.promptAllocated = true
  · refine ⟨r, _, hslot, .consume ha, ?_⟩
    simp [ha, Machine.put, Machine.setState, SchedulerStep.add, set_self hslot.result]
  have hfalse : s.promptAllocated = false := by simpa using ha
  by_cases hok : (s.admission m.allocator).1.ok = true
  · refine ⟨r, _, hslot, .accept hfalse hok, ?_⟩
    unfold State.admission at hok ⊢
    simp [ha, hok, Machine.put, Machine.setState, Machine.updateResult, SchedulerStep.add, hmodify,
      State.consume]
  · refine ⟨r, _, hslot, .refuse hfalse (by simpa using hok), ?_⟩
    unfold State.admission at hok ⊢
    simp [ha, hok, Machine.put, Machine.setState, Machine.updateResult, SchedulerStep.add, hmodify]

theorem decodeLoop_turn (n : Nat) {m : Machine} (h : m.Aligned) {i : Nat} {s : State}
    (hs : m.states[i]? = some s) (rest : List Nat) (step : SchedulerStep) :
    ∃ r o, m.Slot i s r ∧ DecodeTurn n m.allocator s r o ∧
      decodeLoop n (i :: rest) m step = decodeLoop n rest (m.put i o) (step.add o) := by
  obtain ⟨r, hslot⟩ := h.slot hs
  obtain rfl := h.index i s hs
  obtain ⟨hlt, -⟩ := List.getElem?_eq_some_iff.mp hslot.result
  have hmodify := modify_eq_set hslot.result
  have hset : ∀ (r' : SequenceResult) f,
      (m.results.set s.index r').modify s.index f = m.results.set s.index (f r') := by
    intro r' f
    rw [modify_eq_set (List.getElem?_set_self hlt), List.set_set]
  simp only [decodeLoop, hs, Machine.decode]
  by_cases hok : (m.allocator.appendTokens s.request.id 1).1.ok = true
  · have htoken : m.results.modify s.index (fun result =>
        if result.firstTokenStep < 0 then { result with firstTokenStep := (n : Int) } else result) =
          m.results.set s.index (r.token n) := hmodify _
    by_cases hlast : s.generated + 1 = s.request.maxGeneratedTokens
    · refine ⟨r, _, hslot, .last hok hlast, ?_⟩
      simp [hok, hlast, Machine.put, Machine.setState, Machine.updateResult, Machine.complete,
        Machine.releaseSequence, SchedulerStep.add, htoken, hset]
    · refine ⟨r, _, hslot, .token hok hlast, ?_⟩
      simp [hok, hlast, Machine.put, Machine.setState, Machine.updateResult, SchedulerStep.add,
        htoken]
  · refine ⟨r, _, hslot, .refuse (by simpa using hok), ?_⟩
    simp [hok, Machine.put, Machine.setState, Machine.updateResult, Machine.releaseSequence,
      SchedulerStep.add, hmodify]

theorem completeLoop_turn (n : Nat) {m : Machine} (h : m.Aligned) {i : Nat} {s : State}
    (hs : m.states[i]? = some s) (rest : List Nat) :
    (s.done = false ∧ s.promptReady = true ∧ s.request.maxGeneratedTokens = 0 ∧
        ∃ r, m.Slot i s r ∧ completeLoop n (i :: rest) m =
          completeLoop n rest (m.put i (completeTurn n m.allocator s r))) ∨
      (¬ (s.done = false ∧ s.promptReady = true ∧ s.request.maxGeneratedTokens = 0) ∧
        completeLoop n (i :: rest) m = completeLoop n rest m) := by
  obtain ⟨r, hslot⟩ := h.slot hs
  obtain rfl := h.index i s hs
  have hmodify := modify_eq_set hslot.result
  by_cases hc : s.done = false ∧ s.promptReady = true ∧ s.request.maxGeneratedTokens = 0
  · obtain ⟨hd, hr, hm⟩ := hc
    refine Or.inl ⟨hd, hr, hm, r, hslot, ?_⟩
    simp [completeLoop, hs, hd, hr, hm, completeTurn, Machine.put, Machine.complete,
      Machine.setState, Machine.updateResult, Machine.releaseSequence, hmodify]
  · refine Or.inr ⟨hc, ?_⟩
    rw [completeLoop, hs]
    simp only
    rw [if_neg]
    simpa [and_assoc] using hc

theorem cancelLoop_turn {m : Machine} (h : m.Aligned) {i : Nat} {s : State}
    (hs : m.states[i]? = some s) (rest : List Nat) :
    (s.done = false ∧ ∃ r, m.Slot i s r ∧
        cancelLoop (i :: rest) m = cancelLoop rest (m.put i (cancelTurn m.allocator s r))) ∨
      (s.done = true ∧ cancelLoop (i :: rest) m = cancelLoop rest m) := by
  obtain ⟨r, hslot⟩ := h.slot hs
  obtain rfl := h.index i s hs
  have hmodify := modify_eq_set hslot.result
  by_cases hd : s.done = true
  · exact Or.inr ⟨hd, by simp [cancelLoop, hs, hd]⟩
  · refine Or.inl ⟨by simpa using hd, r, hslot, ?_⟩
    simp [cancelLoop, hs, hd, cancelTurn, Machine.put, Machine.setState, Machine.updateResult,
      Machine.releaseSequence, hmodify]

structure Machine.Candidates (m : Machine) (candidate : State → Bool) (ids : List Nat) : Prop where
  nodup : ids.Nodup
  candidate : ∀ i ∈ ids, ∃ s, m.states[i]? = some s ∧ candidate s = true

theorem Machine.Aligned.places {m : Machine} (h : m.Aligned) :
    m.states.map State.index = List.range m.states.length := by
  refine List.ext_getElem? fun i => ?_
  rw [List.getElem?_map]
  cases hs : m.states[i]? with
  | none =>
    rw [Option.map_none, eq_comm, List.getElem?_eq_none_iff, List.length_range]
    exact List.getElem?_eq_none_iff.mp hs
  | some s =>
    obtain ⟨hlt, -⟩ := List.getElem?_eq_some_iff.mp hs
    rw [Option.map_some, h.index i s hs, List.getElem?_range hlt]

theorem ranked_candidates {m : Machine} (h : m.Aligned) (candidate : State → Bool) :
    m.Candidates candidate (m.ranked candidate) := by
  refine ⟨?_, fun i hi => (mem_ranked h.index candidate i).mp hi⟩
  have hperm := (List.perm_insertionSort byPriority (m.states.filter candidate)).map State.index
  refine hperm.nodup_iff.mpr ?_
  refine ((List.filter_sublist (p := candidate)).map State.index).nodup ?_
  rw [h.places]
  exact List.nodup_range

theorem Machine.Candidates.take {m : Machine} {candidate : State → Bool} {ids : List Nat}
    (h : m.Candidates candidate ids) (n : Nat) : m.Candidates candidate (ids.take n) :=
  ⟨(List.take_sublist n ids).nodup h.nodup, fun i hi => h.candidate i (List.mem_of_mem_take hi)⟩

theorem Machine.Candidates.put {m : Machine} {candidate : State → Bool} {i : Nat} {rest : List Nat}
    (h : m.Candidates candidate (i :: rest)) (o : Outcome) :
    (m.put i o).Candidates candidate rest := by
  obtain ⟨hi, hrest⟩ := List.nodup_cons.mp h.nodup
  refine ⟨hrest, fun j hj => ?_⟩
  obtain ⟨s, hs, hc⟩ := h.candidate j (List.mem_cons_of_mem i hj)
  have hne : i ≠ j := fun hij => hi (hij ▸ hj)
  exact ⟨s, (List.getElem?_set_ne hne).trans hs, hc⟩

inductive Turn (n : Nat) (a : Impl) (s : State) (r : SequenceResult) (o : Outcome) : Prop where
  | prefill (budget : Int) (hb : 0 < budget) (hc : prefillCandidate s = true)
      (h : PrefillTurn budget a s r o)
  | decode (hc : decodeCandidate s = true) (h : DecodeTurn n a s r o)
  | complete (hd : s.done = false) (hr : s.promptReady = true)
      (hm : s.request.maxGeneratedTokens = 0) (ho : o = completeTurn n a s r)

theorem Turn.index {n : Nat} {a : Impl} {s : State} {r : SequenceResult} {o : Outcome}
    (h : Turn n a s r o) : o.state.index = s.index := by
  cases h with
  | prefill budget hb hc h => exact h.index
  | decode hc h => exact h.index
  | complete hd hr hm ho => rw [ho]; rfl

section
variable {n : Nat} {motive : Machine → SchedulerStep → Prop}
  (hturn : ∀ m step i s r o, motive m step → m.Aligned → m.Slot i s r → Turn n m.allocator s r o →
    motive (m.put i o) (step.add o))
include hturn

theorem prefillLoop_turns (ids : List Nat) (budget : Int) {m : Machine} {step : SchedulerStep}
    (ha : m.Aligned) (hc : m.Candidates prefillCandidate ids) (h : motive m step) :
    (prefillLoop ids budget m step).1.Aligned ∧
      motive (prefillLoop ids budget m step).1 (prefillLoop ids budget m step).2 := by
  induction ids generalizing budget m step with
  | nil => exact ⟨ha, h⟩
  | cons i rest ih =>
    by_cases hb : budget ≤ 0
    · rw [prefillLoop, if_pos hb]
      exact ⟨ha, h⟩
    obtain ⟨s, hs, hcand⟩ := hc.candidate i List.mem_cons_self
    obtain ⟨r, o, hslot, ho, hloop⟩ := prefillLoop_turn ha hs rest (Int.not_le.mp hb) step
    rw [hloop]
    exact ih _ (ha.put hs ho.index) (hc.put o)
      (hturn m step i s r o h ha hslot (.prefill budget (Int.not_le.mp hb) hcand ho))

theorem decodeLoop_turns (ids : List Nat) {m : Machine} {step : SchedulerStep}
    (ha : m.Aligned) (hc : m.Candidates decodeCandidate ids) (h : motive m step) :
    (decodeLoop n ids m step).1.Aligned ∧
      motive (decodeLoop n ids m step).1 (decodeLoop n ids m step).2 := by
  induction ids generalizing m step with
  | nil => exact ⟨ha, h⟩
  | cons i rest ih =>
    obtain ⟨s, hs, hcand⟩ := hc.candidate i List.mem_cons_self
    obtain ⟨r, o, hslot, ho, hloop⟩ := decodeLoop_turn n ha hs rest step
    rw [hloop]
    exact ih (ha.put hs ho.index) (hc.put o)
      (hturn m step i s r o h ha hslot (.decode hcand ho))

theorem completeLoop_turns (ids : List Nat) {m : Machine} {step : SchedulerStep}
    (ha : m.Aligned) (h : motive m step) :
    (completeLoop n ids m).Aligned ∧ motive (completeLoop n ids m) step := by
  induction ids generalizing m with
  | nil => exact ⟨ha, h⟩
  | cons i rest ih =>
    cases hs : m.states[i]? with
    | none =>
      simp only [completeLoop, hs]
      exact ih ha h
    | some s =>
      rcases completeLoop_turn n ha hs rest with ⟨hd, hr, hm, r, hslot, hloop⟩ | ⟨-, hloop⟩
      · rw [hloop]
        have hnext := hturn m step i s r _ h ha hslot (.complete hd hr hm rfl)
        rw [SchedulerStep.add_nothing step rfl rfl] at hnext
        exact ih (ha.put hs rfl) hnext
      · rw [hloop]
        exact ih ha h

end

def Machine.prefilled (config : ContinuousBatcherConfig) (n : Nat) (m : Machine) :
    Machine × SchedulerStep :=
  prefillLoop (m.ranked prefillCandidate) config.maxPrefillTokensPerStep m
    { stepIndex := n, queuedSequences := m.unfinishedCount }

def Machine.decodeOrder (config : ContinuousBatcherConfig) (n : Nat) (m : Machine) : List Nat :=
  ((m.prefilled config n).1.ranked decodeCandidate).take config.maxDecodeSequencesPerStep.toNat

def Machine.decoded (config : ContinuousBatcherConfig) (n : Nat) (m : Machine) :
    Machine × SchedulerStep :=
  decodeLoop n (m.decodeOrder config n) (m.prefilled config n).1 (m.prefilled config n).2

theorem step_fst (config : ContinuousBatcherConfig) (n : Nat) (m : Machine) :
    (m.step config n).1 = completeLoop n (List.range (m.decoded config n).1.states.length)
      (m.decoded config n).1 := rfl

theorem step_snd (config : ContinuousBatcherConfig) (n : Nat) (m : Machine) :
    (m.step config n).2 = { (m.decoded config n).2 with
      activeSequences := (m.step config n).2.activeSequences
      kvBlocksUsed := (m.step config n).2.kvBlocksUsed } := rfl

section
variable (config : ContinuousBatcherConfig) (n : Nat) {m : Machine} (ha : m.Aligned)
include ha

theorem prefilled_aligned : (m.prefilled config n).1.Aligned :=
  (prefillLoop_turns (n := n) (motive := fun _ _ => True) (fun _ _ _ _ _ _ _ _ _ _ => trivial) _ _
    ha (ranked_candidates ha prefillCandidate) trivial).1

theorem decodeOrder_candidates :
    (m.prefilled config n).1.Candidates decodeCandidate (m.decodeOrder config n) :=
  (ranked_candidates (prefilled_aligned config n ha) decodeCandidate).take _

theorem decoded_aligned : (m.decoded config n).1.Aligned :=
  (decodeLoop_turns (n := n) (motive := fun _ _ => True) (fun _ _ _ _ _ _ _ _ _ _ => trivial) _
    (prefilled_aligned config n ha) (decodeOrder_candidates config n ha) trivial).1

/-- What every turn keeps, a whole step keeps. -/
theorem step_turns {motive : Machine → SchedulerStep → Prop}
    (hturn : ∀ m step i s r o, motive m step → m.Aligned → m.Slot i s r →
      Turn n m.allocator s r o → motive (m.put i o) (step.add o))
    (h : motive m { stepIndex := n, queuedSequences := m.unfinishedCount }) :
    (m.step config n).1.Aligned ∧ motive (m.step config n).1 (m.decoded config n).2 := by
  obtain ⟨hpa, hp⟩ := prefillLoop_turns hturn _ config.maxPrefillTokensPerStep ha
    (ranked_candidates ha prefillCandidate) h
  obtain ⟨hda, hd⟩ := decodeLoop_turns hturn _ hpa (decodeOrder_candidates config n ha) hp
  exact completeLoop_turns hturn (List.range _) hda hd

end

theorem cancelLoop_turns {motive : Machine → Prop}
    (hturn : ∀ m i s r, motive m → m.Aligned → m.Slot i s r → s.done = false →
      motive (m.put i (cancelTurn m.allocator s r)))
    (ids : List Nat) {m : Machine} (ha : m.Aligned) (h : motive m) :
    (cancelLoop ids m).Aligned ∧ motive (cancelLoop ids m) := by
  induction ids generalizing m with
  | nil => exact ⟨ha, h⟩
  | cons i rest ih =>
    cases hs : m.states[i]? with
    | none =>
      simp only [cancelLoop, hs]
      exact ih ha h
    | some s =>
      rcases cancelLoop_turn ha hs rest with ⟨hd, r, hslot, hloop⟩ | ⟨-, hloop⟩
      · rw [hloop]
        exact ih (ha.put hs rfl) (hturn m i s r h ha hslot hd)
      · rw [hloop]
        exact ih ha h

end Laminar.Scheduler
