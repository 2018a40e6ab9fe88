import Laminar.Library.Sums
import Laminar.Scheduler.DecodePhase

/-! The counts of generated tokens: by step, by run and by result. They agree unless a
cancellation meets a sequence that has produced tokens. -/
namespace Laminar.Scheduler
open Laminar.Kv

def totalGenerated (states : List State) : Int := (states.map State.generated).sum

theorem Turn.generated {n : Nat} {a : Impl} {s : State} {r : SequenceResult} {o : Outcome}
    (h : Turn n a s r o) : o.state.generated = s.generated + o.decoded.length := by
  cases h with
  | prefill budget hb hc h => cases h <;> simp [State.consume]
  | decode hc h => cases h <;> simp
  | complete hd hr hm ho => simp [ho, completeTurn]

/-- A step decodes as many tokens as its sequences gain. -/
theorem step_generated (config : ContinuousBatcherConfig) (n : Nat) {m : Machine}
    (ha : m.Aligned) :
    totalGenerated (m.step config n).1.states =
        totalGenerated m.states + (m.step config n).2.decodedTokens ∧
      (m.step config n).2.decodedTokens = (m.step config n).2.decodedSequenceIds.length := by
  refine (step_turns config n ha (motive := fun m' step =>
    totalGenerated m'.states = totalGenerated m.states + step.decodedTokens ∧
      step.decodedTokens = step.decodedSequenceIds.length) ?_ (by simp)).2
  rintro m' step i s r o ⟨htotal, hlength⟩ - hslot ho
  have hi : (m'.states.map State.generated)[i]? = some s.generated := by
    rw [List.getElem?_map, hslot.state, Option.map_some]
  have hgenerated := ho.generated
  refine ⟨?_, ?_⟩
  · have hset := Sums.sum_set hi o.state.generated
    simp only [totalGenerated] at htotal
    simp only [totalGenerated, Machine.put, List.map_set, SchedulerStep.add, hset]
    omega
  · simp only [SchedulerStep.add, List.length_append]
    omega

theorem start_generated (config : ContinuousBatcherConfig) (requests : List SequenceRequest) :
    totalGenerated (Machine.start config requests).states = 0 := by
  refine List.sum_eq_zero fun x hx => ?_
  obtain ⟨s, hs, rfl⟩ := List.mem_map.mp hx
  obtain ⟨i, hi⟩ := List.getElem?_of_mem hs
  obtain ⟨r, rfl⟩ := start_states config requests i s hi
  rfl

/-- Before step `n` the sequences have the tokens that the steps so far decoded. -/
theorem machineAt_generated (config : ContinuousBatcherConfig) (requests : List SequenceRequest)
    (n : Nat) : totalGenerated (machineAt config requests n).states =
      (((List.range n).map (stepAt config requests)).map SchedulerStep.decodedTokens).sum := by
  induction n with
  | zero => exact start_generated _ requests
  | succ n ih =>
    obtain ⟨ha, -⟩ := machineAt_tracked config requests n
    rw [machineAt_succ, (step_generated _ n ha).1, ih, List.range_succ, List.map_append,
      List.map_append, List.sum_append]
    simp [stepAt]

theorem record_generated (stats : ContinuousBatchingStats) (step : SchedulerStep)
    (h : 0 ≤ step.decodedTokens) : (stats.record step).totalGeneratedTokens =
      stats.totalGeneratedTokens + step.decodedTokens := by
  have hprefill : (if step.prefillTokens > 0 then
      { stats with prefillSteps := stats.prefillSteps + 1 } else stats).totalGeneratedTokens =
        stats.totalGeneratedTokens := by
    split_ifs <;> rfl
  unfold ContinuousBatchingStats.record
  simp only
  by_cases hpos : step.decodedTokens > 0
  · rw [if_pos hpos, hprefill]
  · rw [if_neg hpos, hprefill]
    omega

theorem foldl_record_generated (steps : List SchedulerStep)
    (h : ∀ step ∈ steps, 0 ≤ step.decodedTokens) (stats : ContinuousBatchingStats) :
    (steps.foldl ContinuousBatchingStats.record stats).totalGeneratedTokens =
      stats.totalGeneratedTokens + (steps.map SchedulerStep.decodedTokens).sum := by
  induction steps generalizing stats with
  | nil => simp
  | cons step steps ih =>
    rw [List.foldl_cons, ih (fun s hs => h s (List.mem_cons_of_mem _ hs)),
      record_generated _ _ (h step List.mem_cons_self), List.map_cons, List.sum_cons]
    omega

theorem Turn.decoded {n : Nat} {a : Impl} {s : State} {r : SequenceResult} {o : Outcome}
    (h : Turn n a s r o) : o.decoded = [] ∨ o.decoded = [s.request.id] := by
  cases h with
  | prefill budget hb hc h => cases h <;> exact Or.inl rfl
  | decode hc h =>
    cases h with
    | refuse hok => exact Or.inl rfl
    | token hok hne => exact Or.inr rfl
    | last hok heq => exact Or.inr rfl
  | complete hd hr hm ho => exact Or.inl (by rw [ho]; rfl)

theorem prefillLoop_decoded (ids : List Nat) (budget : Int) {m : Machine} (step : SchedulerStep)
    (ha : m.Aligned) (hc : m.Candidates prefillCandidate ids) :
    (prefillLoop ids budget m step).2.decodedSequenceIds = step.decodedSequenceIds := by
  induction ids generalizing budget m step with
  | nil => rfl
  | cons i rest ih =>
    by_cases hb : budget ≤ 0
    · rw [prefillLoop, if_pos hb]
    obtain ⟨s, hs, -⟩ := hc.candidate i List.mem_cons_self
    obtain ⟨r, o, -, ho, hloop⟩ := prefillLoop_turn ha hs rest (Int.not_le.mp hb) step
    rw [hloop, ih _ _ (ha.put hs ho.index) (hc.put o)]
    cases ho <;> simp [SchedulerStep.add]

/-- Within a step a sequence gains as many tokens as the step names its id. -/
theorem step_named (config : ContinuousBatcherConfig) {requests : List SequenceRequest}
    (hdistinct : DistinctIds requests) (n : Nat) {m : Machine} (ha : m.Aligned)
    (h : Tracked requests n m) {i : Nat} {s s' : State} (hs : m.states[i]? = some s)
    (hs' : (m.step config n).1.states[i]? = some s') :
    s'.generated = s.generated + (m.step config n).2.decodedSequenceIds.count s'.request.id := by
  have hkept := (step_turns config n ha (motive := fun m' step => Tracked requests (n + 1) m' ∧
    ∀ (j : Nat) (t t' : State), m.states[j]? = some t → m'.states[j]? = some t' →
      t'.generated = t.generated + step.decodedSequenceIds.count t'.request.id) ?_ ?_).2
  · exact hkept.2 i s s' hs hs'
  · rintro m' step j u r o ⟨htracked, hcount⟩ - hslot ho
    refine ⟨htracked.turn hslot ho, fun k t t' ht ht' => ?_⟩
    simp only [SchedulerStep.add, List.count_append]
    simp only [Machine.put, List.getElem?_set] at ht'
    split_ifs at ht' with hjk
    · obtain rfl := Option.some.inj ht'
      have hold := hcount k t u ht (hjk ▸ hslot.state)
      have hown := ho.generated
      rw [ho.request]
      rcases ho.decoded with hnone | hone
      · simp only [hnone, List.length_nil, List.count_nil] at hown ⊢
        omega
      · simp only [hone, List.length_singleton, List.count_singleton_self] at hown ⊢
        omega
    · have hold := hcount k t t' ht ht'
      have hne : u.request.id ≠ t'.request.id :=
        fun hid => hjk (htracked.apart hdistinct hslot.state ht' hid)
      have hzero : o.decoded.count t'.request.id = 0 := by
        rcases ho.decoded with hnone | hone
        · rw [hnone, List.count_nil]
        · rw [hone, List.count_singleton]
          simp [hne]
      omega
  · refine ⟨h.next, fun j t t' ht ht' => ?_⟩
    obtain rfl := Option.some.inj (ht.symm.trans ht')
    simp

theorem step_names (config : ContinuousBatcherConfig) (n : Nat) {m : Machine} (ha : m.Aligned)
    (f : Nat → Bytes) (hf : ∀ (i : Nat) (s : State),
      (m.prefilled config n).1.states[i]? = some s → s.request.id = f i) :
    (m.step config n).2.decodedSequenceIds = ((m.decodeOrder config n).filter
      (fun i => !(m.prefilled config n).1.rejectedAt (m.decoded config n).1 i)).map f := by
  have hnone : (m.prefilled config n).2.decodedSequenceIds = [] :=
    prefillLoop_decoded _ _ _ ha (ranked_candidates ha prefillCandidate)
  have hnamed := decodeLoop_named n f (m.decodeOrder config n) (m.prefilled config n).2
    (prefilled_aligned config n ha) (decodeOrder_candidates config n ha) hf
  rw [hnone, List.nil_append] at hnamed
  exact hnamed

/-- A step names an id once at most: of two sequences with one id one at most is live. -/
theorem step_names_once (config : ContinuousBatcherConfig) {requests : List SequenceRequest}
    (n : Nat) {m : Machine} (ha : m.Aligned) (h : Tracked requests n m) :
    (m.step config n).2.decodedSequenceIds.Nodup := by
  have hpa := prefilled_aligned config n ha
  have hc := decodeOrder_candidates config n ha
  have htracked := h.prefilled config ha
  set p := (m.prefilled config n).1 with hp
  let f : Nat → Bytes := fun i => ((p.states[i]?).map (fun s => s.request.id)).getD []
  have hf : ∀ (i : Nat) (s : State), p.states[i]? = some s → s.request.id = f i :=
    fun i s hs => by simp [f, hs]
  have hlive : ∀ i ∈ m.decodeOrder config n, ∃ s, p.states[i]? = some s ∧ s.Live := by
    intro i hi
    obtain ⟨s, hs, hcand⟩ := hc.candidate i hi
    obtain ⟨hd, hready, -⟩ := (decodeCandidate_iff s).mp hcand
    obtain ⟨r, hslot⟩ := hpa.slot hs
    exact ⟨s, hs, ((htracked.told i s r hslot).ready.mp hready).1, hd⟩
  rw [step_names config n ha f hf]
  refine List.Nodup.map_on (fun i hi j hj hij => ?_) (hc.nodup.filter _)
  obtain ⟨s, hs, hsl⟩ := hlive i (List.mem_of_mem_filter hi)
  obtain ⟨t, ht, htl⟩ := hlive j (List.mem_of_mem_filter hj)
  exact htracked.owned.unique i j s t hs ht hsl htl (by rw [hf i s hs, hf j t ht, hij])

/-- With distinct ids a sequence has as many tokens as steps so far named its id. -/
theorem machineAt_named (config : ContinuousBatcherConfig) {requests : List SequenceRequest}
    (hdistinct : DistinctIds requests) (n : Nat) {i : Nat} {s : State}
    (hs : (machineAt config requests n).states[i]? = some s) :
    s.generated = ((List.range n).map (stepAt config requests)).countP
      (fun step => decide (s.request.id ∈ step.decodedSequenceIds)) := by
  induction n generalizing s with
  | zero =>
    obtain ⟨r, rfl⟩ := start_states _ requests i s hs
    rfl
  | succ n ih =>
    obtain ⟨ha, htracked⟩ := machineAt_tracked config requests n
    obtain ⟨-, htracked'⟩ := machineAt_tracked config requests (n + 1)
    have hlt : i < (machineAt config requests n).states.length := by
      obtain ⟨hlt, -⟩ := List.getElem?_eq_some_iff.mp hs
      rwa [htracked.length, ← htracked'.length]
    obtain ⟨t, ht⟩ : ∃ t, (machineAt config requests n).states[i]? = some t :=
      ⟨_, List.getElem?_eq_getElem hlt⟩
    have hrequest : t.request.id = s.request.id :=
      Option.some.inj ((htracked.id ht).symm.trans (htracked'.id hs))
    have hgain := step_named (continuousBatcher config) hdistinct n ha htracked ht hs
    have honce := step_names_once (continuousBatcher config) n ha htracked
    rw [List.range_succ, List.map_append, List.countP_append, List.map_singleton,
      List.countP_singleton, hgain, ih ht, hrequest, Nat.cast_add]
    congr 2
    by_cases hmem : s.request.id ∈ (stepAt config requests n).decodedSequenceIds
    · rw [if_pos (by simpa using hmem)]
      exact List.count_eq_one_of_mem honce hmem
    · rw [if_neg (by simpa using hmem)]
      exact List.count_eq_zero.mpr hmem

/-- The counts of a run agree: over the run, by steps, by named ids and by results; and with
distinct ids each result counts the steps that name its id. -/
def TokensAgree (requests : List SequenceRequest) (r : ContinuousBatchingRun) : Prop :=
  r.stats.totalGeneratedTokens = (r.steps.map SchedulerStep.decodedTokens).sum ∧
  r.stats.totalGeneratedTokens =
    (r.steps.map (fun step => (step.decodedSequenceIds.length : Int))).sum ∧
  r.stats.totalGeneratedTokens = (r.results.map SequenceResult.generatedTokens).sum ∧
  (DistinctIds requests → ∀ (i : Nat) (result : SequenceResult), r.results[i]? = some result →
    result.generatedTokens =
      r.steps.countP (fun step => decide (result.id ∈ step.decodedSequenceIds)))

/-- The poll that cancels the run finds no unfinished sequence with tokens. -/
def NothingLost (config : ContinuousBatcherConfig) (requests : List SequenceRequest)
    (isCancelled : Nat → Bool) : Prop :=
  ∀ n, (∀ k < n, isCancelled k = false) →
    (∀ k ≤ n, 0 < (machineAt config requests k).unfinishedCount) →
    isCancelled n = true →
      ∀ s ∈ (machineAt config requests n).states, s.done = false → s.generated = 0

def State.toldTokens (s : State) : Int := if s.done then s.generated else 0

/-- The results tell of every token exactly when no unfinished sequence has any. -/
theorem toldTokens_eq_iff {states : List State} (h : ∀ s ∈ states, 0 ≤ s.generated) :
    (states.map State.toldTokens).sum ≤ totalGenerated states ∧
      ((states.map State.toldTokens).sum = totalGenerated states ↔
        ∀ s ∈ states, s.done = false → s.generated = 0) := by
  induction states with
  | nil => simp [totalGenerated]
  | cons s states ih =>
    obtain ⟨hle, hiff⟩ := ih fun t ht => h t (List.mem_cons_of_mem s ht)
    have hs := h s List.mem_cons_self
    simp only [totalGenerated, List.map_cons, List.sum_cons, List.forall_mem_cons] at hle hiff ⊢
    rw [← hiff]
    cases hd : s.done with
    | true =>
      simp only [State.toldTokens, hd, if_true, Bool.true_eq_false, false_implies, true_and]
      omega
    | false =>
      simp only [State.toldTokens, hd, Bool.false_eq_true, if_false, forall_const]
      omega

theorem Ended.results {config : ContinuousBatcherConfig} {requests : List SequenceRequest}
    {isCancelled : Nat → Bool} {n : Nat}
    {out : Machine × List SchedulerStep × ContinuousBatchingStats}
    (h : Ended config requests isCancelled n out) :
    out.1.results.map SequenceResult.generatedTokens =
      (machineAt config requests n).states.map State.toldTokens := by
  obtain ⟨ha, htracked⟩ := machineAt_tracked config requests n
  obtain ⟨haligned, hlength⟩ := h.aligned
  refine List.ext_getElem? fun i => ?_
  rw [List.getElem?_map, List.getElem?_map]
  cases hs : (machineAt config requests n).states[i]? with
  | none =>
    have hle := List.getElem?_eq_none_iff.mp hs
    rw [htracked.length, ← hlength, ← haligned.length] at hle
    rw [List.getElem?_eq_none_iff.mpr hle]
    rfl
  | some s =>
    obtain ⟨r, hslot⟩ := ha.slot hs
    have htokens := (htracked.told i s r hslot).tokens
    obtain ⟨r', hslot', ⟨-, rfl⟩ | ⟨-, -, rfl⟩⟩ := h.slot hslot
    · rw [hslot'.result]
      exact congrArg some htokens
    · rw [hslot'.result]
      exact congrArg some htokens

theorem Ended.entry {config : ContinuousBatcherConfig} {requests : List SequenceRequest}
    {isCancelled : Nat → Bool} {n : Nat}
    {out : Machine × List SchedulerStep × ContinuousBatchingStats}
    (h : Ended config requests isCancelled n out) {i : Nat} {r : SequenceResult}
    (hr : out.1.results[i]? = some r) :
    ∃ s, (machineAt config requests n).states[i]? = some s ∧ r.id = s.request.id ∧
      r.generatedTokens = s.toldTokens := by
  obtain ⟨ha, htracked⟩ := machineAt_tracked config requests n
  have htold : (out.1.results.map SequenceResult.generatedTokens)[i]? = some r.generatedTokens := by
    rw [List.getElem?_map, hr, Option.map_some]
  rw [h.results, List.getElem?_map, Option.map_eq_some_iff] at htold
  obtain ⟨s, hs, hst⟩ := htold
  obtain ⟨u, hslot⟩ := ha.slot hs
  refine ⟨s, hs, ?_, hst.symm⟩
  have hid := (htracked.told i s u hslot).id
  obtain ⟨r', hslot', ⟨-, rfl⟩ | ⟨-, -, rfl⟩⟩ := h.slot hslot
  · obtain rfl := Option.some.inj (hr.symm.trans hslot'.result)
    exact hid
  · obtain rfl := Option.some.inj (hr.symm.trans hslot'.result)
    exact hid

theorem machineAt_range (config : ContinuousBatcherConfig) (requests : List SequenceRequest)
    (n : Nat) : ∀ s ∈ (machineAt config requests n).states, 0 ≤ s.generated := by
  intro s hs
  obtain ⟨i, hi⟩ := List.getElem?_of_mem hs
  obtain ⟨ha, htracked⟩ := machineAt_tracked config requests n
  obtain ⟨r, hslot⟩ := ha.slot hi
  exact (htracked.told i s r hslot).range.1

theorem Ended.nothingLost_iff {config : ContinuousBatcherConfig} {requests : List SequenceRequest}
    {isCancelled : Nat → Bool} {n : Nat}
    {out : Machine × List SchedulerStep × ContinuousBatchingStats}
    (h : Ended config requests isCancelled n out) :
    NothingLost config requests isCancelled ↔
      ∀ s ∈ (machineAt config requests n).states, s.done = false → s.generated = 0 := by
  constructor
  · intro hlost s hs hd
    obtain ⟨hidle, -⟩ | ⟨hpos, hcancel, -⟩ := h.last
    · obtain ⟨i, hi⟩ := List.getElem?_of_mem hs
      exact absurd (hd.symm.trans (done_of_idle hidle hi)) Bool.false_ne_true
    · refine hlost n (fun k hk => (h.polls k hk).1) (fun k hk => ?_) hcancel s hs hd
      rcases Nat.lt_or_eq_of_le hk with hk | rfl
      · exact (h.polls k hk).2
      · exact hpos
  · intro hnone k hpolls hbusy hcancel s hs hd
    rcases Nat.lt_trichotomy k n with hk | rfl | hk
    · exact absurd ((h.polls k hk).1.symm.trans hcancel) Bool.false_ne_true
    · exact hnone s hs hd
    · obtain ⟨hidle, -⟩ | ⟨-, hearlier, -⟩ := h.last
      · exact absurd hidle (hbusy n (Nat.le_of_lt hk)).ne'
      · exact absurd ((hpolls n hk).symm.trans hearlier) Bool.false_ne_true

theorem Ended.totals {config : ContinuousBatcherConfig} {requests : List SequenceRequest}
    {isCancelled : Nat → Bool} {n : Nat}
    {out : Machine × List SchedulerStep × ContinuousBatchingStats}
    (h : Ended config requests isCancelled n out) :
    (finish out).stats.totalGeneratedTokens =
        totalGenerated (machineAt config requests n).states ∧
      (out.2.1.map SchedulerStep.decodedTokens).sum =
        totalGenerated (machineAt config requests n).states ∧
      (out.2.1.map (fun step => (step.decodedSequenceIds.length : Int))).sum =
        totalGenerated (machineAt config requests n).states := by
  have hlengths : ∀ step ∈ out.2.1,
      step.decodedTokens = (step.decodedSequenceIds.length : Int) := by
    intro step hstep
    rw [h.steps] at hstep
    obtain ⟨k, -, rfl⟩ := List.mem_map.mp hstep
    exact (step_generated _ k (machineAt_tracked config requests k).1).2
  have hsum : (out.2.1.map SchedulerStep.decodedTokens).sum =
      totalGenerated (machineAt config requests n).states := by
    rw [h.steps, machineAt_generated]
  refine ⟨?_, hsum, ?_⟩
  · show out.2.2.totalGeneratedTokens = _
    rw [h.stats, foldl_record_generated, hsum]
    · simp
    · intro step hstep
      rw [hlengths step hstep]
      exact Int.natCast_nonneg _
  · rw [← hsum, List.map_congr_left hlengths]

/-- The four counts of a run agree exactly when its cancellation, if any, finds no unfinished
sequence that has produced tokens. -/
theorem tokens_agree_iff (config : ContinuousBatcherConfig) (requests : List SequenceRequest)
    (isCancelled : Nat → Bool) :
    ∃ r, (∀ fuel, workBound requests ≤ fuel → run config requests isCancelled fuel = some r) ∧
      (TokensAgree requests r ↔ NothingLost config requests isCancelled) := by
  obtain ⟨n, out, hended, hout⟩ := loop_terminates config requests isCancelled
  refine ⟨finish out, fun fuel hfuel => by rw [run_eq, hout fuel hfuel, Option.map_some], ?_⟩
  obtain ⟨hstats, hsteps, hnames⟩ := hended.totals
  obtain ⟨-, htold⟩ := toldTokens_eq_iff (machineAt_range config requests n)
  have hresults : ((finish out).results.map SequenceResult.generatedTokens).sum =
      ((machineAt config requests n).states.map State.toldTokens).sum :=
    congrArg List.sum hended.results
  rw [hended.nothingLost_iff, ← htold]
  constructor
  · rintro ⟨-, -, hagree, -⟩
    rw [← hresults, ← hagree, hstats]
  · intro hagree
    refine ⟨hstats.trans hsteps.symm, hstats.trans hnames.symm, ?_, fun hdistinct i r hr => ?_⟩
    · rw [hresults, hagree, hstats]
    obtain ⟨s, hs, hid, htokens⟩ := hended.entry hr
    have hgenerated : s.toldTokens = s.generated := by
      cases hd : s.done with
      | true => simp [State.toldTokens, hd]
      | false => simp [State.toldTokens, hd, htold.mp hagree s (List.mem_of_getElem? hs) hd]
    show _ = ((out.2.1.countP _ : Nat) : Int)
    rw [htokens, hgenerated, machineAt_named config hdistinct n hs, hended.steps, hid]

/-- A request for two tokens; its client goes away after the first. -/
def hungUp : SequenceRequest := { id := [97], promptTokens := 1, maxGeneratedTokens := 2 }

/-- The token is in the counts of step and run, and not in its result. -/
theorem hungUp_undercounted :
    ∃ r, run {} [hungUp] (fun n => n == 1) 5 = some r ∧ ¬ TokensAgree [hungUp] r ∧
      r.stats.totalGeneratedTokens = 1 ∧ r.results.map SequenceResult.generatedTokens = [0] := by
  have hrun : (run {} [hungUp] (fun n => n == 1) 5).map (fun r =>
      (r.stats.totalGeneratedTokens, r.results.map SequenceResult.generatedTokens)) =
        some (1, [0]) := by decide +kernel
  obtain ⟨r, hr, hcounts⟩ := Option.map_eq_some_iff.mp hrun
  obtain ⟨hstats, hresults⟩ := Prod.mk.inj hcounts
  refine ⟨r, hr, ?_, hstats, hresults⟩
  rintro ⟨-, -, hagree, -⟩
  rw [hstats, hresults] at hagree
  exact absurd hagree (by decide)

end Laminar.Scheduler
