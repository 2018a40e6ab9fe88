import Laminar.Scheduler.Priority
import Laminar.Scheduler.Tokens

/-! Every step of a run spends what it may: the prefill budget while prompts are left, and the
decode slots on the sequences that outrank the others. -/
namespace Laminar.Scheduler
open Laminar.Kv

/-- Step `n` on machine `m` spends what it may, in its prefill phase and in its decode phase. -/
structure Greedy (config : ContinuousBatcherConfig) (n : Nat) (m : Machine) : Prop where
  budget : (m.step config n).2.prefillTokens ≤ config.maxPrefillTokensPerStep
  spent : (m.step config n).2.prefillTokens < config.maxPrefillTokensPerStep →
    ∀ s ∈ (m.prefilled config n).1.states, s.done = false → s.promptReady = true
  slots : (m.step config n).2.decodedTokens +
      ((List.range m.states.length).countP
        ((m.prefilled config n).1.rejectedAt (m.decoded config n).1) : Nat) =
    min config.maxDecodeSequencesPerStep
      ((m.prefilled config n).1.states.countP decodeCandidate : Nat)
  served : ∀ i : Nat, (m.decoded config n).1.states[i]? ≠ (m.prefilled config n).1.states[i]? ↔
    ∃ s, (m.prefilled config n).1.states[i]? = some s ∧ decodeCandidate s = true ∧
      ((m.prefilled config n).1.states.countP
        (fun t => decodeCandidate t && decide (byPriority t s)) : Int) <
        config.maxDecodeSequencesPerStep
  outcome : ∀ (i : Nat) (s t : State), (m.prefilled config n).1.states[i]? = some s →
    (m.decoded config n).1.states[i]? = some t → t ≠ s →
      ((m.prefilled config n).1.rejectedAt (m.decoded config n).1 i = true ∧
        t.generated = s.generated) ∨
      ((m.prefilled config n).1.rejectedAt (m.decoded config n).1 i = false ∧
        t.generated = s.generated + 1 ∧
        s.request.id ∈ (m.step config n).2.decodedSequenceIds)
  distinct : (m.step config n).2.decodedSequenceIds.Nodup

section
variable {m : Machine}

theorem PrefillTurn.prefilled_le {budget : Int} {a : Impl} {s : State} {r : SequenceResult}
    {o : Outcome} (h : PrefillTurn budget a s r o) (hb : 0 < budget) : o.prefilled ≤ budget := by
  cases h with
  | refuse ha hok => exact hb.le
  | accept ha hok => exact min_le_left _ _
  | consume ha => exact min_le_left _ _

theorem prefillLoop_spent {ids : List Nat} {budget : Int} {step : SchedulerStep}
    (hb : budget ≤ 0) : prefillLoop ids budget m step = (m, step) := by
  cases ids with
  | nil => rfl
  | cons i rest => rw [prefillLoop, if_pos hb]

theorem prefillLoop_budget (ids : List Nat) {budget : Int} (step : SchedulerStep)
    (ha : m.Aligned) (hc : m.Candidates prefillCandidate ids) (hb : 0 ≤ budget) :
    (prefillLoop ids budget m step).2.prefillTokens ≤ step.prefillTokens + budget := by
  induction ids generalizing budget m step with
  | nil => exact Int.le_add_of_nonneg_right hb
  | cons i rest ih =>
    by_cases hzero : budget ≤ 0
    · rw [prefillLoop_spent hzero]
      exact Int.le_add_of_nonneg_right hb
    have hpos := Int.not_le.mp hzero
    obtain ⟨s, hs, -⟩ := hc.candidate i List.mem_cons_self
    obtain ⟨r, o, -, ho, hloop⟩ := prefillLoop_turn ha hs rest hpos step
    have hle := ho.prefilled_le hpos
    have hrest := ih (step.add o) (ha.put hs ho.index) (hc.put o) (Int.sub_nonneg.mpr hle)
    have hadd : (step.add o).prefillTokens = step.prefillTokens + o.prefilled := rfl
    rw [hloop]
    omega

/-- While budget is left, whoever is not through with its prompt is still to be served; so if budget
is left in the end, nobody is. -/
theorem prefillLoop_ready (ids : List Nat) {budget : Int} (step : SchedulerStep)
    (ha : m.Aligned) (hc : m.Candidates prefillCandidate ids)
    (hahead : ∀ (i : Nat) (s : State), m.states[i]? = some s → s.done = false →
      s.promptReady = false → i ∈ ids)
    (hleft : (prefillLoop ids budget m step).2.prefillTokens < step.prefillTokens + budget)
    {i : Nat} {s : State} (hs : (prefillLoop ids budget m step).1.states[i]? = some s)
    (hd : s.done = false) : s.promptReady = true := by
  induction ids generalizing budget m step with
  | nil =>
    by_contra hready
    exact absurd (hahead i s hs hd (by simpa using hready)) (by simp)
  | cons j rest ih =>
    have hpos : 0 < budget := by
      by_contra hb
      rw [prefillLoop_spent (Int.not_lt.mp hb)] at hleft
      have hspent : step.prefillTokens < step.prefillTokens + budget := hleft
      omega
    obtain ⟨u, hu, -⟩ := hc.candidate j List.mem_cons_self
    obtain ⟨r, o, -, ho, hloop⟩ := prefillLoop_turn ha hu rest hpos step
    rw [hloop] at hleft hs
    have hadd : (step.add o).prefillTokens = step.prefillTokens + o.prefilled := rfl
    have hmore : 0 < budget - o.prefilled := by
      by_contra hb
      rw [prefillLoop_spent (Int.not_lt.mp hb)] at hleft
      have hspent : (step.add o).prefillTokens < step.prefillTokens + budget := hleft
      omega
    refine ih (step.add o) (ha.put hu ho.index) (hc.put o) (fun k t ht htd htr => ?_)
      (by omega) hs
    rcases Machine.put_states ht with ⟨rfl, rfl⟩ | ⟨hne, ht⟩
    · rcases ho.through hmore with hdone | hready
      · exact absurd (htd.symm.trans hdone) Bool.false_ne_true
      · exact absurd (htr.symm.trans hready) Bool.false_ne_true
    · exact (List.mem_cons.mp (hahead k t ht htd htr)).resolve_left hne

end

section
variable {requests : List SequenceRequest} {config : ContinuousBatcherConfig} {n : Nat}
  {m : Machine} (ha : m.Aligned)
include ha

theorem step_budget (hpos : 0 ≤ config.maxPrefillTokensPerStep) :
    (m.prefilled config n).2.prefillTokens ≤ config.maxPrefillTokensPerStep := by
  have hle := prefillLoop_budget (m.ranked prefillCandidate)
    { stepIndex := n, queuedSequences := m.unfinishedCount } ha
    (ranked_candidates ha prefillCandidate) hpos
  rwa [Int.zero_add] at hle

theorem step_spent
    (hleft : (m.prefilled config n).2.prefillTokens < config.maxPrefillTokensPerStep) :
    ∀ s ∈ (m.prefilled config n).1.states, s.done = false → s.promptReady = true := by
  intro s hs hd
  obtain ⟨i, hi⟩ := List.getElem?_of_mem hs
  refine prefillLoop_ready (m.ranked prefillCandidate)
    { stepIndex := n, queuedSequences := m.unfinishedCount } ha
    (ranked_candidates ha prefillCandidate) (fun j t ht htd htr => ?_)
    (by rwa [Int.zero_add]) hi hd
  exact (mem_ranked ha.index _ j).mpr ⟨t, ht, (prefillCandidate_iff t).mpr ⟨htd, htr⟩⟩

theorem step_prefillTokens :
    (m.step config n).2.prefillTokens = (m.prefilled config n).2.prefillTokens :=
  decodeLoop_prefillTokens n _ _ (prefilled_aligned config n ha)
    (decodeOrder_candidates config n ha)

theorem decodeLoop_decodedTokens : (m.decoded config n).2.decodedTokens =
    ((m.decodeOrder config n).countP
      (fun i => !(m.prefilled config n).1.rejectedAt (m.decoded config n).1 i) : Nat) := by
  have hlength := (step_generated config n ha).2
  rw [step_names config n ha (fun i =>
    ((m.prefilled config n).1.states[i]?.map (fun s => s.request.id)).getD [])
    (fun i s hs => by simp [hs]), List.length_map, ← List.countP_eq_length_filter] at hlength
  exact hlength

/-- The sequences that the decode loop changes are those it serves. -/
theorem decoded_changed (i : Nat) :
    (m.decoded config n).1.states[i]? ≠ (m.prefilled config n).1.states[i]? ↔
      i ∈ m.decodeOrder config n := by
  have hpa := prefilled_aligned config n ha
  have hc := decodeOrder_candidates config n ha
  constructor
  · intro hne
    by_contra hi
    exact hne (decodeLoop_others n _ _ hpa hc hi).1
  · intro hi
    obtain ⟨s, hs, hcand⟩ := hc.candidate i hi
    obtain ⟨t, u, hslot, hend⟩ := decodeLoop_outcome n _ (m.prefilled config n).2 hpa hc hi hs
    rw [hs]
    intro hsame
    obtain rfl := Option.some.inj (hslot.state.symm.trans hsame)
    obtain ⟨⟨hdone, -⟩, -⟩ | ⟨-, hone⟩ := hend
    · exact Bool.false_ne_true (((decodeCandidate_iff t).mp hcand).1.symm.trans hdone)
    · omega

theorem rejectedAt_served {i : Nat}
    (h : (m.prefilled config n).1.rejectedAt (m.decoded config n).1 i = true) :
    i ∈ m.decodeOrder config n := by
  refine (decoded_changed ha i).mp fun hsame => ?_
  simp only [Machine.rejectedAt, hsame, Bool.and_eq_true] at h
  cases hs : (m.prefilled config n).1.states[i]? with
  | none => simp [hs] at h
  | some s => simp [hs] at h

theorem step_slots (hpos : 0 ≤ config.maxDecodeSequencesPerStep) (hlength :
    (m.prefilled config n).1.states.length = m.states.length) :
    (m.decoded config n).2.decodedTokens + ((List.range m.states.length).countP
        ((m.prefilled config n).1.rejectedAt (m.decoded config n).1) : Nat) =
      min config.maxDecodeSequencesPerStep
        ((m.prefilled config n).1.states.countP decodeCandidate : Nat) := by
  have hpa := prefilled_aligned config n ha
  have hc := decodeOrder_candidates config n ha
  -- whoever is rejected was served
  have hsame : (List.range m.states.length).countP
      ((m.prefilled config n).1.rejectedAt (m.decoded config n).1) =
        (m.decodeOrder config n).countP
          ((m.prefilled config n).1.rejectedAt (m.decoded config n).1) := by
    rw [List.countP_eq_length_filter, List.countP_eq_length_filter]
    refine List.Perm.length_eq ((List.perm_ext_iff_of_nodup (List.nodup_range.filter _)
      (hc.nodup.filter _)).mpr fun i => ?_)
    rw [List.mem_filter, List.mem_filter]
    refine and_congr_left fun hrej => ⟨fun _ => rejectedAt_served ha hrej, fun hi => ?_⟩
    obtain ⟨s, hs, -⟩ := hc.candidate i hi
    obtain ⟨hlt, -⟩ := List.getElem?_eq_some_iff.mp hs
    exact List.mem_range.mpr (hlength ▸ hlt)
  have hcount : (m.decodeOrder config n).length =
      min config.maxDecodeSequencesPerStep.toNat
        ((m.prefilled config n).1.states.countP decodeCandidate) := by
    rw [Machine.decodeOrder, List.length_take, Machine.ranked, List.length_map,
      List.length_insertionSort, ← List.countP_eq_length_filter]
  have hparts := List.length_eq_countP_add_countP
    ((m.prefilled config n).1.rejectedAt (m.decoded config n).1) (l := m.decodeOrder config n)
  rw [decodeLoop_decodedTokens ha, hsame]
  simp only [Bool.not_eq_true, Bool.decide_eq_false] at hparts
  omega

theorem step_greedy (h : Tracked requests n m) (hpositive : Positive config) :
    Greedy config n m := by
  have hpa := prefilled_aligned config n ha
  have hc := decodeOrder_candidates config n ha
  have htracked := h.prefilled config ha
  refine ⟨step_prefillTokens ha ▸ step_budget ha hpositive.prefill.le,
    step_prefillTokens ha ▸ step_spent ha, step_slots ha hpositive.decode.le
      (htracked.length.trans h.length.symm), fun i => ?_,
    fun i s t hs ht hne => ?_, step_names_once config n ha h⟩
  · rw [decoded_changed ha, Machine.decodeOrder, mem_take_ranked hpa]
    have hbound : ∀ k : Nat, k < config.maxDecodeSequencesPerStep.toNat ↔
        (k : Int) < config.maxDecodeSequencesPerStep := fun k => Int.lt_toNat
    simp only [hbound]
  · have hi : i ∈ m.decodeOrder config n := (decoded_changed ha i).mp fun hsame =>
      hne (Option.some.inj (ht.symm.trans (hsame.trans hs)))
    obtain ⟨s', hs', hcand⟩ := hc.candidate i hi
    obtain rfl := Option.some.inj (hs.symm.trans hs')
    obtain ⟨t', u, hslot, hend⟩ := decodeLoop_outcome n _ (m.prefilled config n).2 hpa hc hi hs
    obtain rfl := Option.some.inj (ht.symm.trans hslot.state)
    have hiff := rejectedAt_iff hs ((decodeCandidate_iff s).mp hcand).1 hslot
    obtain ⟨hrej, hsame⟩ | ⟨hnot, hone⟩ := hend
    · exact Or.inl ⟨hiff.mpr hrej, hsame⟩
    · have hno : (m.prefilled config n).1.rejectedAt (m.decoded config n).1 i = false :=
        Bool.eq_false_iff.mpr (mt hiff.mp hnot)
      refine Or.inr ⟨hno, hone, ?_⟩
      rw [step_names config n ha (fun i =>
        ((m.prefilled config n).1.states[i]?.map (fun s => s.request.id)).getD [])
        (fun i s hs => by simp [hs])]
      exact List.mem_map.mpr ⟨i, List.mem_filter.mpr ⟨hi, by rw [hno]; rfl⟩, by simp [hs]⟩

end

/-- Every step of every run is greedy on the machine it starts from, and the run returns. -/
theorem run_greedy (config : ContinuousBatcherConfig) (requests : List SequenceRequest)
    (isCancelled : Nat → Bool) :
    (∀ fuel, workBound requests ≤ fuel → ∃ r, run config requests isCancelled fuel = some r) ∧
    ∀ fuel r, run config requests isCancelled fuel = some r →
      ∀ (n : Nat) (step : SchedulerStep), r.steps[n]? = some step →
        step = ((machineAt config requests n).step (continuousBatcher config) n).2 ∧
          Greedy (continuousBatcher config) n (machineAt config requests n) := by
  constructor
  · obtain ⟨n, out, -, hout⟩ := loop_terminates config requests isCancelled
    intro fuel hfuel
    exact ⟨finish out, by rw [run_eq, hout fuel hfuel, Option.map_some]⟩
  · intro fuel r hr n step hstep
    obtain ⟨k, out, hended, rfl⟩ := run_ended hr
    obtain ⟨ha, htracked⟩ := machineAt_tracked config requests n
    refine ⟨?_, step_greedy ha htracked (continuousBatcher_positive config)⟩
    have hsteps : (out.2.1)[n]? = some step := hstep
    rw [hended.steps, List.getElem?_map, Option.map_eq_some_iff] at hsteps
    obtain ⟨j, hj, rfl⟩ := hsteps
    obtain ⟨hlt, heq⟩ := List.getElem?_eq_some_iff.mp hj
    rw [← heq, List.getElem_range]
    rfl

end Laminar.Scheduler
