import Laminar.Scheduler.Renamed

/-! With distinct priorities the place of a request does not matter: a run of the same requests in
another order goes through the same steps, with the results in that order. -/
namespace Laminar.Scheduler
open Laminar.Kv

def DistinctPriorities (requests : List SequenceRequest) : Prop :=
  (requests.map SequenceRequest.priority).Nodup

section
variable {σ : Equiv.Perm Nat} {m m' : Machine} {requests requests' : List SequenceRequest}
  {config : ContinuousBatcherConfig} {n : Nat}

theorem Tracked.ranked (h : Tracked requests n m) (hdistinct : DistinctPriorities requests) :
    m.Ranked := by
  have hpriority : ∀ (i : Nat) (s : State), m.states[i]? = some s →
      (requests.map SequenceRequest.priority)[i]? = some s.request.priority := by
    intro i s hs
    obtain ⟨q, hq, hsq⟩ := h.request hs
    rw [List.getElem?_map, hq, Option.map_some, hsq]
    rfl
  intro i j s t hs ht heq
  obtain ⟨hlt, -⟩ := List.getElem?_eq_some_iff.mp (hpriority i s hs)
  exact (List.getElem?_inj hlt hdistinct).mp (by rw [hpriority i s hs, hpriority j t ht, heq])

/-- Of two ready sequences with one id one at most is live. -/
theorem Tracked.apart_ready (h : Tracked requests n m) (ha : m.Aligned) :
    m.Apart readyEmpty (fun s t => s.request.id ≠ t.request.id) := by
  have hlive : ∀ (i : Nat) (s : State), m.states[i]? = some s → readyEmpty s → s.Live := by
    intro i s hs hempty
    obtain ⟨r, hslot⟩ := ha.slot hs
    exact ⟨((h.told i s r hslot).ready.mp hempty.1.2).1, hempty.1.1⟩
  exact ⟨ha, fun i j s t hij hs ht hks hkt hid =>
    hij (h.owned.unique i j s t hs ht (hlive i s hs hks) (hlive j t ht hkt) hid)⟩

section
variable (config) (h : Renamed σ m m') (ha : m.Aligned) (ht : Tracked requests n m)
  (hdistinct : DistinctPriorities requests)
include h ha ht hdistinct

theorem Renamed.prefilled : Renamed σ (m.prefilled config n).1 (m'.prefilled config n).1 ∧
    (m'.prefilled config n).2 = (m.prefilled config n).2 := by
  have hcount : m'.unfinishedCount = m.unfinishedCount := h.countP fun _ _ => rfl
  unfold Machine.prefilled
  rw [hcount, h.ranked ha (ht.ranked hdistinct) fun _ _ => rfl]
  exact prefillLoop_renamed _ _ _ h ha (ranked_candidates (h.aligned ha) prefillCandidate)

theorem Renamed.decoded : Renamed σ (m.decoded config n).1 (m'.decoded config n).1 ∧
    (m'.decoded config n).2 = (m.decoded config n).2 := by
  obtain ⟨hp, hstep⟩ := h.prefilled config ha ht hdistinct
  have hpa := prefilled_aligned config n ha
  unfold Machine.decoded Machine.decodeOrder
  rw [hstep, hp.ranked hpa ((ht.prefilled config ha).ranked hdistinct) fun _ _ => rfl,
    ← List.map_take]
  exact decodeLoop_renamed n _ _ hp hpa
    ((ranked_candidates (hp.aligned hpa) decodeCandidate).take _)

theorem Renamed.step : Renamed σ (m.step config n).1 (m'.step config n).1 ∧
    (m'.step config n).2 = (m.step config n).2 := by
  obtain ⟨hd, hstep⟩ := h.decoded config ha ht hdistinct
  have hda := decoded_aligned config n ha
  have hc : Renamed σ (m.step config n).1 (m'.step config n).1 := by
    rw [step_fst, step_fst, ← (completeLoop_sweep n).perm ((ht.decoded config ha).apart_ready hda)
      hd.range_perm]
    exact (completeLoop_sweep n).renamed (fun _ _ => Iff.rfl) (fun _ _ _ _ => rfl) _ hd hda
  have hactive : (m'.step config n).2.activeSequences = (m.step config n).2.activeSequences :=
    congrArg Nat.cast (hc.countP (p := fun s => !s.done && s.promptReady) fun _ _ => rfl)
  have hused : (m'.step config n).2.kvBlocksUsed = (m.step config n).2.kvBlocksUsed := by
    show (m'.step config n).1.allocator.snapshotStats.usedBlocks = _
    rw [hc.allocator]
    rfl
  refine ⟨hc, ?_⟩
  rw [step_snd config n m', step_snd config n m, hstep, hactive, hused]

end

theorem cancel_renamed (h : Renamed σ m m') (ha : m.Aligned) : Renamed σ m.cancel m'.cancel := by
  have hapart : m.Apart (fun s => s.done = false) (fun _ _ => True) :=
    ⟨ha, fun _ _ _ _ _ _ _ _ _ => trivial⟩
  rw [Machine.cancel, Machine.cancel, ← cancelLoop_sweep.perm hapart h.range_perm]
  exact cancelLoop_sweep.renamed (fun _ _ => Iff.rfl) (fun _ _ _ _ => rfl) _ h ha

theorem start_renamed (hperm : ∀ j : Nat, requests'[j]? = requests[σ j]?) :
    Renamed σ (Machine.start config requests) (Machine.start config requests') := by
  refine ⟨fun j => ?_, fun j => ?_, rfl⟩
  · simp only [Machine.start, List.getElem?_map, List.getElem?_zipIdx, hperm, Nat.zero_add]
    cases requests[σ j]? <;> rfl
  · simp only [Machine.start, List.getElem?_map, hperm]

section
variable (hperm : ∀ j : Nat, requests'[j]? = requests[σ j]?)
  (hdistinct : DistinctPriorities requests)
include hperm hdistinct

theorem machineAt_renamed (config : ContinuousBatcherConfig) (n : Nat) :
    Renamed σ (machineAt config requests n) (machineAt config requests' n) := by
  induction n with
  | zero => exact start_renamed hperm
  | succ n ih =>
    obtain ⟨ha, ht⟩ := machineAt_tracked config requests n
    rw [machineAt_succ, machineAt_succ]
    exact (ih.step (continuousBatcher config) ha ht hdistinct).1

theorem stepAt_renamed (config : ContinuousBatcherConfig) (n : Nat) :
    stepAt config requests' n = stepAt config requests n := by
  obtain ⟨ha, ht⟩ := machineAt_tracked config requests n
  exact ((machineAt_renamed hperm hdistinct config n).step (continuousBatcher config) ha ht
    hdistinct).2

theorem Ended.renamed {isCancelled : Nat → Bool} {k : Nat}
    {out out' : Machine × List SchedulerStep × ContinuousBatchingStats}
    (h : Ended config requests isCancelled n out)
    (h' : Ended config requests' isCancelled k out') :
    Renamed σ out.1 out'.1 ∧ out'.2 = out.2 := by
  have hrenamed := machineAt_renamed hperm hdistinct config
  have hcount : ∀ n, (machineAt config requests' n).unfinishedCount =
      (machineAt config requests n).unfinishedCount :=
    fun n => (hrenamed n).countP fun _ _ => rfl
  have hlast : ∀ n, Ended config requests isCancelled n out →
      (machineAt config requests n).unfinishedCount = 0 ∨ isCancelled n = true :=
    fun n h => h.last.imp And.left fun hcancelled => hcancelled.2.1
  have hn : n = k := by
    rcases Nat.lt_trichotomy n k with hlt | heq | hlt
    · obtain ⟨hpoll, hbusy⟩ := h'.polls n hlt
      rw [hcount] at hbusy
      obtain ⟨hidle, -⟩ | ⟨-, hcancelled, -⟩ := h.last
      · exact absurd hidle hbusy.ne'
      · exact absurd (hpoll.symm.trans hcancelled) Bool.false_ne_true
    · exact heq
    · obtain ⟨hpoll, hbusy⟩ := h.polls k hlt
      obtain ⟨hidle, -⟩ | ⟨-, hcancelled, -⟩ := h'.last
      · rw [hcount] at hidle
        exact absurd hidle hbusy.ne'
      · exact absurd (hpoll.symm.trans hcancelled) Bool.false_ne_true
  subst hn
  have hsteps : out'.2.1 = out.2.1 := by
    rw [h'.steps, h.steps]
    exact List.map_congr_left fun n _ => stepAt_renamed hperm hdistinct config n
  have htotal : totalPromptTokens requests' = totalPromptTokens requests :=
    ((Reindex.perm_of_places σ hperm).map _).sum_eq
  have hstats : out'.2.2 = out.2.2 := by rw [h'.stats, h.stats, hsteps, htotal]
  refine ⟨?_, Prod.ext hsteps hstats⟩
  obtain ⟨hidle, hout⟩ | ⟨hbusy, -, hout⟩ := h.last
  · obtain ⟨-, hout'⟩ | ⟨hbusy', -⟩ := h'.last
    · rw [hout, hout']
      exact hrenamed n
    · rw [hcount] at hbusy'
      exact absurd hidle hbusy'.ne'
  · obtain ⟨hidle', -⟩ | ⟨-, -, hout'⟩ := h'.last
    · rw [hcount] at hidle'
      exact absurd hidle' hbusy.ne'
    · rw [hout, hout']
      exact cancel_renamed (hrenamed n) (machineAt_tracked config requests n).1

end

end

def permuted (requests : List SequenceRequest) (σ : Equiv.Perm (Fin requests.length)) :
    List SequenceRequest :=
  List.ofFn fun j => requests.get (σ j)

/-- With distinct priorities the order of the requests does not matter: the steps and the statistics
are the same, and the results are in the order of the requests. -/
theorem run_permuted (config : ContinuousBatcherConfig) (requests : List SequenceRequest)
    (hdistinct : DistinctPriorities requests) (σ : Equiv.Perm (Fin requests.length))
    (isCancelled : Nat → Bool) :
    ∃ r r', (∀ fuel, max (workBound requests) (workBound (permuted requests σ)) ≤ fuel →
        run config requests isCancelled fuel = some r ∧
          run config (permuted requests σ) isCancelled fuel = some r') ∧
      r'.steps = r.steps ∧ r'.stats = r.stats ∧
      r.results.length = requests.length ∧ r'.results.length = requests.length ∧
      ∀ j : Fin requests.length, r'.results[j.val]? = r.results[(σ j).val]? := by
  obtain ⟨τ, hperm, hτ⟩ := Reindex.exists_places requests σ
  obtain ⟨n, out, hended, hout⟩ := loop_terminates config requests isCancelled
  obtain ⟨k, out', hended', hout'⟩ := loop_terminates config (permuted requests σ) isCancelled
  obtain ⟨hrenamed, hsame⟩ := hended.renamed hperm hdistinct hended'
  obtain ⟨ha, hlength⟩ := hended.aligned
  obtain ⟨ha', hlength'⟩ := hended'.aligned
  refine ⟨finish out, finish out', fun fuel hfuel => ?_, congrArg Prod.fst hsame, ?_,
    ha.length.trans hlength, ?_, fun j => ?_⟩
  · rw [run_eq, run_eq, hout fuel (le_trans (le_max_left _ _) hfuel),
      hout' fuel (le_trans (le_max_right _ _) hfuel)]
    exact ⟨rfl, rfl⟩
  · show ({ out'.2.2 with
      totalSteps := out'.2.1.length, kvCache := out'.1.allocator.snapshotStats } :
        ContinuousBatchingStats) = _
    rw [hsame, hrenamed.allocator]
    rfl
  · exact (ha'.length.trans hlength').trans (List.length_ofFn)
  · rw [← hτ]
    exact hrenamed.results j

/-- Two requests under one id, the less urgent one first. -/
def patientFirst : List SequenceRequest :=
  [{ id := [97], promptTokens := 1, maxGeneratedTokens := 1 },
    { id := [97], promptTokens := 1, maxGeneratedTokens := 1, priority := 1 }]

theorem run_patientFirst :
    ∃ r r', (∀ fuel, max (workBound patientFirst)
          (workBound (permuted patientFirst Fin.revPerm)) ≤ fuel →
        run {} patientFirst (fun _ => false) fuel = some r ∧
          run {} (permuted patientFirst Fin.revPerm) (fun _ => false) fuel = some r') ∧
      r'.steps = r.steps ∧ r'.stats = r.stats ∧
      r.results.length = patientFirst.length ∧ r'.results.length = patientFirst.length ∧
      ∀ j : Fin patientFirst.length, r'.results[j.val]? = r.results[(Fin.revPerm j).val]? :=
  run_permuted {} patientFirst (by simp [DistinctPriorities, patientFirst]) Fin.revPerm
    (fun _ => false)

end Laminar.Scheduler
