import Laminar.Scheduler.Greedy
import Laminar.Scheduler.Tokens

/-! The step log of a run: its counts, the prompt tokens that its steps account for, and its queue
against the results. -/
namespace Laminar.Scheduler
open Laminar.Kv

def totalRemaining (states : List State) : Int := (states.map State.prefillRemaining).sum

theorem Turn.prefilled {n : Nat} {a : Impl} {s : State} {r : SequenceResult} {o : Outcome}
    (h : Turn n a s r o) : o.state.prefillRemaining + o.prefilled = s.prefillRemaining ∧
      (0 ≤ s.prefillRemaining → 0 ≤ o.prefilled) := by
  cases h with
  | prefill budget hb hc h =>
    cases h with
    | refuse ha hok => exact ⟨Int.add_zero _, fun _ => le_rfl⟩
    | accept ha hok => exact ⟨Int.sub_add_cancel _ _, fun h => le_min hb.le h⟩
    | consume ha => exact ⟨Int.sub_add_cancel _ _, fun h => le_min hb.le h⟩
  | decode hc h => cases h <;> exact ⟨Int.add_zero _, fun _ => le_rfl⟩
  | complete hd hr hm ho =>
    subst ho
    exact ⟨Int.add_zero _, fun _ => le_rfl⟩

/-- Before step `n` the prompts are shorter by what the steps so far prefilled, none by more than
its length. -/
structure Shortened (requests : List SequenceRequest) (n : Nat) (m : Machine) (prefilled : Int) :
    Prop where
  tracked : Tracked requests n m
  total : totalRemaining m.states + prefilled = totalPromptTokens requests
  within : ∀ s ∈ m.states, s.prefillRemaining ≤ s.request.promptTokens

theorem Shortened.turn {requests : List SequenceRequest} {n i : Nat} {m : Machine} {prefilled : Int}
    {s : State} {r : SequenceResult} {o : Outcome} (h : Shortened requests (n + 1) m prefilled)
    (hslot : m.Slot i s r) (ho : Turn n m.allocator s r o) :
    Shortened requests (n + 1) (m.put i o) (prefilled + o.prefilled) := by
  obtain ⟨hshorter, hnonneg⟩ := ho.prefilled
  have hleft := hnonneg (h.tracked.told i s r hslot).remaining
  have hi : (m.states.map State.prefillRemaining)[i]? = some s.prefillRemaining := by
    rw [List.getElem?_map, hslot.state, Option.map_some]
  have htotal := h.total
  refine ⟨h.tracked.turn hslot ho, ?_, fun t ht => ?_⟩
  · simp only [totalRemaining] at htotal
    simp only [totalRemaining, Machine.put, List.map_set, Sums.sum_set hi]
    omega
  · obtain ⟨j, hj⟩ := List.getElem?_of_mem ht
    rcases Machine.put_states hj with ⟨-, rfl⟩ | ⟨-, hold⟩
    · have hwithin := h.within s (List.mem_of_getElem? hslot.state)
      rw [ho.request]
      omega
    · exact h.within t (List.mem_of_getElem? hold)

theorem machineAt_shortened (config : ContinuousBatcherConfig) (requests : List SequenceRequest)
    (n : Nat) : Shortened requests n (machineAt config requests n)
      (((List.range n).map (stepAt config requests)).map SchedulerStep.prefillTokens).sum := by
  induction n with
  | zero =>
    refine ⟨start_tracked _ requests, ?_, fun s hs => ?_⟩
    · have hremaining : (Machine.start (continuousBatcher config) requests).states.map
          State.prefillRemaining = requests.map fun q => q.clamped.promptTokens := by
        simp only [Machine.start, List.map_map]
        have hfst := congrArg (List.map SequenceRequest.promptTokens)
          (List.zipIdx_map_fst 0 (requests.map SequenceRequest.clamped))
        simp only [List.map_map] at hfst
        exact hfst
      simp only [List.range_zero, List.map_nil, List.sum_nil, Int.add_zero]
      exact congrArg List.sum hremaining
    · obtain ⟨i, hi⟩ := List.getElem?_of_mem hs
      obtain ⟨q, rfl⟩ := start_states _ requests i s hi
      exact le_rfl
  | succ n ih =>
    obtain ⟨ha, -⟩ := machineAt_tracked config requests n
    set sofar := (((List.range n).map (stepAt config requests)).map
      SchedulerStep.prefillTokens).sum with hsofar
    have hstep := (step_turns (continuousBatcher config) n ha (motive := fun m step =>
      Shortened requests (n + 1) m (sofar + step.prefillTokens)) ?_ ?_).2
    · rw [List.range_succ, List.map_append, List.map_append, List.sum_append, ← hsofar]
      simp only [List.map_cons, List.map_nil, List.sum_singleton, machineAt_succ]
      exact hstep
    · intro m step i s r o h _ hslot ho
      have hnext := h.turn hslot ho
      rwa [Int.add_assoc] at hnext
    · simp only [Int.add_zero]
      exact ⟨ih.tracked.next, ih.total, ih.within⟩

theorem record_counts (steps : List SchedulerStep) (stats : ContinuousBatchingStats) :
    (steps.foldl ContinuousBatchingStats.record stats).prefillSteps =
        stats.prefillSteps + steps.countP (fun step => step.prefillTokens > 0) ∧
      (steps.foldl ContinuousBatchingStats.record stats).decodeSteps =
        stats.decodeSteps + steps.countP (fun step => step.decodedTokens > 0) ∧
      (steps.foldl ContinuousBatchingStats.record stats).totalPromptTokens =
        stats.totalPromptTokens := by
  induction steps generalizing stats with
  | nil => simp
  | cons step rest ih =>
    obtain ⟨hprefill, hdecode, htotal⟩ := ih (stats.record step)
    rw [List.foldl_cons, hprefill, hdecode, htotal, List.countP_cons, List.countP_cons]
    unfold ContinuousBatchingStats.record
    by_cases hp : step.prefillTokens > 0 <;> by_cases hd : step.decodedTokens > 0 <;>
      simp [hp, hd] <;> omega

/-- What a step counts is not negative, and within the limits of the scheduler. -/
theorem stepAt_between (config : ContinuousBatcherConfig) (requests : List SequenceRequest)
    (n : Nat) :
    (0 ≤ (stepAt config requests n).prefillTokens ∧ (stepAt config requests n).prefillTokens ≤
      (continuousBatcher config).maxPrefillTokensPerStep) ∧
    (0 ≤ (stepAt config requests n).decodedTokens ∧ (stepAt config requests n).decodedTokens ≤
      (continuousBatcher config).maxDecodeSequencesPerStep) := by
  obtain ⟨ha, htracked⟩ := machineAt_tracked config requests n
  have hgreedy := step_greedy (n := n) ha htracked (continuousBatcher_positive config)
  have hprefilled := (step_turns (continuousBatcher config) n ha (motive := fun m step =>
    Tracked requests (n + 1) m ∧ 0 ≤ step.prefillTokens) (fun m step i s r o h _ hslot ho =>
      ⟨h.1.turn hslot ho, Int.add_nonneg h.2 (ho.prefilled.2 (h.1.told i s r hslot).remaining)⟩)
    ⟨htracked.next, le_rfl⟩).2.2
  have hdecoded := (step_generated (continuousBatcher config) n ha).2
  have hslots := hgreedy.slots
  exact ⟨⟨hprefilled, hgreedy.budget⟩, by simp only [stepAt]; omega,
    by simp only [stepAt]; omega⟩

def SequenceResult.completedBefore (k : Nat) (r : SequenceResult) : Bool :=
  decide (r.status = .completed) && decide (r.completionStep < k)

def SequenceResult.isRejected (r : SequenceResult) : Bool := decide (r.status = .rejected)

section
variable {config : ContinuousBatcherConfig} {requests : List SequenceRequest}
  {isCancelled : Nat → Bool} {n : Nat}
  {out : Machine × List SchedulerStep × ContinuousBatchingStats}

/-- A sequence that is queued at step `k` did not complete before it, and one that is not has
completed before it or was rejected. -/
theorem Ended.queued {k d : Nat} (h : Ended config requests isCancelled (k + d) out) :
    List.Forall₂ (fun (s : State) (r : SequenceResult) =>
        (s.done = false → r.completedBefore k = false) ∧
        (s.done = true → r.completedBefore k = true ∨ r.isRejected = true))
      (machineAt config requests k).states out.1.results := by
  obtain ⟨ha, htracked⟩ := machineAt_tracked config requests k
  obtain ⟨ha', htracked'⟩ := machineAt_tracked config requests (k + d)
  obtain ⟨haligned, hlength⟩ := h.aligned
  refine List.forall₂_iff_get.mpr ⟨?_, fun i hi hi' => ?_⟩
  · rw [htracked.length, haligned.length, hlength]
  obtain ⟨r, hslot⟩ := ha.slot (List.getElem?_eq_getElem hi)
  have hlt : i < (machineAt config requests (k + d)).states.length := by
    rw [htracked'.length, ← htracked.length]
    exact hi
  obtain ⟨r', hslot'⟩ := ha'.slot (List.getElem?_eq_getElem hlt)
  have hsince := machineAt_since config k d hslot hslot'
  obtain ⟨u, hu, hend⟩ := h.slot hslot'
  obtain ⟨_, hget⟩ := List.getElem?_eq_some_iff.mp hu.result
  simp only [List.get_eq_getElem, hget, SequenceResult.completedBefore, SequenceResult.isRejected,
    Bool.and_eq_false_iff, Bool.and_eq_true, decide_eq_false_iff_not, decide_eq_true_eq]
  generalize (machineAt config requests k).states[i] = s at hslot hsince ⊢
  generalize (machineAt config requests (k + d)).states[i] = s' at hslot' hsince hend
  obtain ⟨hd', rfl⟩ | ⟨hd', -, rfl⟩ := hend
  · refine ⟨fun hd => ?_, fun hd => ?_⟩
    · by_cases hc : u.status = .completed
      · have hlate := hsince.completed hd hc
        exact Or.inr (by omega)
      · exact Or.inl hc
    · obtain ⟨rfl, rfl⟩ := hsince.done hd
      have htold := htracked.told i s' u hslot
      cases hstatus : u.status with
      | completed => exact Or.inl ⟨rfl, (htold.steps hstatus).2.1⟩
      | rejected => exact Or.inr rfl
      | cancelled => exact absurd hstatus (htold.finished hd).1
  · refine ⟨fun _ => Or.inl (by simp [SequenceResult.cancel]), fun hd => ?_⟩
    obtain ⟨rfl, -⟩ := hsince.done hd
    exact absurd (hd'.symm.trans hd) Bool.false_ne_true

/-- The prompts of the requests that completed, and no more than all prompts, were prefilled. -/
theorem Ended.prompts (h : Ended config requests isCancelled n out) :
    ((requests.zip out.1.results).map fun p =>
      if p.2.status = .completed then p.1.clamped.promptTokens else 0).sum ≤
      (out.2.1.map SchedulerStep.prefillTokens).sum ∧
    (out.2.1.map SchedulerStep.prefillTokens).sum ≤ totalPromptTokens requests := by
  obtain ⟨htracked, htotal, hwithin⟩ := machineAt_shortened config requests n
  obtain ⟨haligned, hlength⟩ := h.aligned
  rw [← h.steps] at htotal
  set m := machineAt config requests n with hm
  have hremaining : ∀ s ∈ m.states, 0 ≤ s.prefillRemaining := by
    intro s hs
    obtain ⟨i, hi⟩ := List.getElem?_of_mem hs
    obtain ⟨r, hslot⟩ := (machineAt_tracked config requests n).1.slot hi
    exact (htracked.told i s r hslot).remaining
  have hleft : 0 ≤ totalRemaining m.states := List.sum_nonneg (by simpa using hremaining)
  refine ⟨?_, by omega⟩
  have hspent : (m.states.map fun s => s.request.promptTokens - s.prefillRemaining).sum =
      totalPromptTokens requests - totalRemaining m.states := by
    have hprompts : (m.states.map fun s => s.request.promptTokens).sum =
        totalPromptTokens requests := by
      have hmap := congrArg (List.map SequenceRequest.promptTokens) htracked.serves
      rw [List.map_map, List.map_map] at hmap
      exact congrArg List.sum hmap
    have hsplit : (m.states.map fun s => s.request.promptTokens - s.prefillRemaining +
        s.prefillRemaining).sum = _ := List.sum_map_add
    simp only [Int.sub_add_cancel, hprompts] at hsplit
    exact eq_sub_of_add_eq hsplit.symm
  refine le_trans (List.Forall₂.sum_le_sum (List.forall₂_iff_get.mpr ⟨?_, fun i hi hi' => ?_⟩))
    (hspent.trans (by omega)).le
  · simp only [List.length_map, List.length_zip]
    rw [haligned.length, hlength, htracked.length, min_self]
  · simp only [List.length_map, List.length_zip] at hi hi'
    have hlt : i < requests.length := by omega
    obtain ⟨s, r, hslot, hsq⟩ := machineAt_slot config (List.getElem?_eq_getElem hlt) n
    obtain ⟨u, hu, hend⟩ := h.slot hslot
    obtain ⟨_, hs⟩ := List.getElem?_eq_some_iff.mp hslot.state
    obtain ⟨_, hr⟩ := List.getElem?_eq_some_iff.mp hu.result
    have hle := hwithin s (List.mem_of_getElem? hslot.state)
    have htold := htracked.told i s r hslot
    simp only [List.get_eq_getElem, List.getElem_map, List.getElem_zip, hr, hm, hs]
    split_ifs with hcompleted
    · obtain ⟨hd, rfl⟩ | ⟨-, -, rfl⟩ := hend
      · have hready := ((htold.finished hd).2.mp hcompleted).1
        rw [(htold.ready.mp hready).2, hsq, Int.sub_zero]
      · exact absurd hcompleted (by simp [SequenceResult.cancel])
    · exact Int.sub_nonneg_of_le hle

theorem Ended.stepAt (h : Ended config requests isCancelled n out) {k : Nat} {step : SchedulerStep}
    (hstep : out.2.1[k]? = some step) : k < n ∧ step = Scheduler.stepAt config requests k := by
  rw [h.steps, List.getElem?_map, Option.map_eq_some_iff] at hstep
  obtain ⟨j, hj, rfl⟩ := hstep
  obtain ⟨hlt, heq⟩ := List.getElem?_eq_some_iff.mp hj
  rw [List.getElem_range] at heq
  rw [List.length_range] at hlt
  exact ⟨hlt, by rw [heq]⟩

end

/-- The log of a run: each step in its place, counts that agree with it, prompt tokens and decoded
tokens within the limits of the scheduler, and a queue that only the ends of sequences shorten. -/
structure StepLog (config : ContinuousBatcherConfig) (requests : List SequenceRequest)
    (r : ContinuousBatchingRun) : Prop where
  places : ∀ (k : Nat) (step : SchedulerStep), r.steps[k]? = some step → step.stepIndex = k
  counts : r.stats.totalSteps = r.steps.length ∧
    r.stats.prefillSteps = r.steps.countP (fun step => step.prefillTokens > 0) ∧
    r.stats.decodeSteps = r.steps.countP (fun step => step.decodedTokens > 0)
  prompts : ((requests.zip r.results).map fun p =>
      if p.2.status = .completed then p.1.clamped.promptTokens else 0).sum ≤
      (r.steps.map SchedulerStep.prefillTokens).sum ∧
    (r.steps.map SchedulerStep.prefillTokens).sum ≤ r.stats.totalPromptTokens ∧
    r.stats.totalPromptTokens = totalPromptTokens requests
  prefill : r.stats.prefillSteps ≤ (r.steps.map SchedulerStep.prefillTokens).sum ∧
    (r.steps.map SchedulerStep.prefillTokens).sum ≤
      (continuousBatcher config).maxPrefillTokensPerStep * r.stats.prefillSteps
  decode : r.stats.decodeSteps ≤ r.stats.totalGeneratedTokens ∧ r.stats.totalGeneratedTokens ≤
    (continuousBatcher config).maxDecodeSequencesPerStep * r.stats.decodeSteps
  queue : ∀ (k : Nat) (step : SchedulerStep), r.steps[k]? = some step →
    step.queuedSequences + r.results.countP (SequenceResult.completedBefore k) ≤ requests.length ∧
    requests.length ≤ step.queuedSequences + r.results.countP (SequenceResult.completedBefore k) +
      r.results.countP SequenceResult.isRejected
  shrinks : ∀ (k : Nat) (step next : SchedulerStep), r.steps[k]? = some step →
    r.steps[k + 1]? = some next →
      step.activeSequences ≤ next.queuedSequences ∧ next.queuedSequences ≤ step.queuedSequences

theorem stepAt_queued (config : ContinuousBatcherConfig) (requests : List SequenceRequest)
    (n : Nat) : (stepAt config requests n).stepIndex = n ∧
      (stepAt config requests n).queuedSequences =
        (machineAt config requests n).unfinishedCount := by
  obtain ⟨ha, -⟩ := machineAt_tracked config requests n
  exact (step_turns (continuousBatcher config) n ha (motive := fun _ step => step.stepIndex = n ∧
    step.queuedSequences = (machineAt config requests n).unfinishedCount)
    (fun _ _ _ _ _ _ h _ _ _ => h) ⟨rfl, rfl⟩).2

theorem unfinished_shrinks (config : ContinuousBatcherConfig) (requests : List SequenceRequest)
    (n : Nat) : (machineAt config requests (n + 1)).unfinishedCount ≤
      (machineAt config requests n).unfinishedCount := by
  obtain ⟨ha, htracked⟩ := machineAt_tracked config requests n
  obtain ⟨ha', htracked'⟩ := machineAt_tracked config requests (n + 1)
  refine Sums.countP_le_countP (List.forall₂_iff_get.mpr ⟨?_, fun i hi hi' => ?_⟩)
  · rw [htracked.length, htracked'.length]
  obtain ⟨r, hslot⟩ := ha.slot (List.getElem?_eq_getElem hi)
  obtain ⟨r', hslot'⟩ := ha'.slot (List.getElem?_eq_getElem hi')
  have hsince := machineAt_since config n 1 hslot hslot'
  simp only [List.get_eq_getElem, Bool.not_eq_true']
  intro hd
  by_contra hdone
  have hsame := (hsince.done (by simpa using hdone)).1
  rw [hsame] at hd
  exact hdone hd

theorem Ended.stepLog {config : ContinuousBatcherConfig} {requests : List SequenceRequest}
    {isCancelled : Nat → Bool} {n : Nat}
    {out : Machine × List SchedulerStep × ContinuousBatchingStats}
    (h : Ended config requests isCancelled n out) : StepLog config requests (finish out) := by
  obtain ⟨hprefills, hdecodes, htotal⟩ := record_counts out.2.1
    { totalPromptTokens := totalPromptTokens requests }
  rw [← h.stats] at hprefills hdecodes htotal
  have hbetween : ∀ step ∈ out.2.1, (0 ≤ step.prefillTokens ∧ step.prefillTokens ≤
      (continuousBatcher config).maxPrefillTokensPerStep) ∧ (0 ≤ step.decodedTokens ∧
        step.decodedTokens ≤ (continuousBatcher config).maxDecodeSequencesPerStep) := by
    intro step hmem
    rw [h.steps] at hmem
    obtain ⟨k, -, rfl⟩ := List.mem_map.mp hmem
    exact stepAt_between config requests k
  obtain ⟨hcompleted, hall⟩ := h.prompts
  obtain ⟨hgenerated, hdecoded, -⟩ := h.totals
  have hprefill : ∀ x ∈ out.2.1.map SchedulerStep.prefillTokens, 0 ≤ x ∧
      x ≤ (continuousBatcher config).maxPrefillTokensPerStep := by
    simpa using fun step hmem => (hbetween step hmem).1
  have hdecode : ∀ x ∈ out.2.1.map SchedulerStep.decodedTokens, 0 ≤ x ∧
      x ≤ (continuousBatcher config).maxDecodeSequencesPerStep := by
    simpa using fun step hmem => (hbetween step hmem).2
  obtain ⟨hplow, hphigh⟩ := Sums.sum_between hprefill
  obtain ⟨hdlow, hdhigh⟩ := Sums.sum_between hdecode
  rw [List.countP_map] at hplow hphigh hdlow hdhigh
  have hpsteps : out.2.2.prefillSteps =
      (out.2.1.countP fun step => step.prefillTokens > 0 : Nat) := by
    rw [hprefills, Int.zero_add]
  have hdsteps : out.2.2.decodeSteps =
      (out.2.1.countP fun step => step.decodedTokens > 0 : Nat) := by
    rw [hdecodes, Int.zero_add]
  refine ⟨fun k step hstep => ?_, ⟨rfl, hpsteps, hdsteps⟩, ⟨hcompleted, ?_, htotal⟩, ?_, ?_,
    fun k step hstep => ?_, fun k step next hstep hnext => ?_⟩
  · obtain ⟨-, rfl⟩ := h.stepAt hstep
    exact (stepAt_queued config requests k).1
  · exact hall.trans htotal.ge
  · simp only [finish, hpsteps]
    exact ⟨hplow, hphigh⟩
  · rw [hgenerated, ← hdecoded]
    simp only [finish, hdsteps]
    exact ⟨hdlow, hdhigh⟩
  · obtain ⟨hk, rfl⟩ := h.stepAt hstep
    obtain ⟨d, rfl⟩ := Nat.exists_eq_add_of_le hk.le
    have hlength := (machineAt_tracked config requests k).2.length
    have hmost := Sums.countP_add_le (p := fun s : State => !s.done)
      (h.queued.imp fun s r hsr hd => hsr.1 (by simpa using hd))
    have hleast := Sums.length_le_countP (p := fun s : State => !s.done)
      (h.queued.imp fun s r hsr hd => hsr.2 (by simpa using hd))
    rw [hlength] at hmost hleast
    rw [(stepAt_queued config requests k).2]
    constructor
    · exact_mod_cast hmost
    · exact_mod_cast hleast
  · obtain ⟨-, rfl⟩ := h.stepAt hstep
    obtain ⟨-, rfl⟩ := h.stepAt hnext
    rw [(stepAt_queued config requests k).2, (stepAt_queued config requests (k + 1)).2]
    refine ⟨?_, by exact_mod_cast unfinished_shrinks config requests k⟩
    have hactive : (machineAt config requests (k + 1)).states.countP
        (fun s => !s.done && s.promptReady) ≤
          (machineAt config requests (k + 1)).unfinishedCount :=
      List.countP_mono_left fun s _ hs => (Bool.and_eq_true _ _ ▸ hs).1
    exact Int.ofNat_le.mpr hactive

/-- A run of the scheduler ends, and its step log adds up, whatever it was asked for and whenever it
was cancelled. -/
theorem run_stepLog (config : ContinuousBatcherConfig) (requests : List SequenceRequest)
    (isCancelled : Nat → Bool) :
    ∃ r, (∀ fuel, workBound requests ≤ fuel → run config requests isCancelled fuel = some r) ∧
      StepLog config requests r := by
  obtain ⟨n, out, hended, hout⟩ := loop_terminates config requests isCancelled
  refine ⟨finish out, fun fuel hfuel => ?_, hended.stepLog⟩
  rw [run_eq, hout fuel hfuel, Option.map_some]

end Laminar.Scheduler
