import Laminar.Scheduler.Moves

/-! The step loop ends: every step lowers the work that the unfinished sequences have left. -/
namespace Laminar.Scheduler
open Laminar.Kv Laminar.ListUpdate

/-- Prefill tokens left, tokens left to generate, and one for being unfinished. -/
def State.work (s : State) : Nat :=
  if s.done then 0
  else 1 + s.prefillRemaining.toNat + (s.request.maxGeneratedTokens - s.generated).toNat

def totalWork (states : List State) : Nat := (states.map State.work).sum

theorem totalWork_set {states : List State} {i : Nat} {s t : State} (h : states[i]? = some s) :
    totalWork (states.set i t) + s.work = totalWork states + t.work :=
  sum_map_set State.work states i s t h

theorem Consistent.set {states : List State} (h : Consistent states) {i : Nat} {s t : State}
    (hs : states[i]? = some s) (hi : t.index = s.index) (ht : t.Sane) :
    Consistent (states.set i t) := by
  have hcase : ∀ (j : Nat) (u : State), (states.set i t)[j]? = some u →
      (j = i ∧ u = t) ∨ states[j]? = some u := by
    intro j u hu
    rw [List.getElem?_set] at hu
    split_ifs at hu with hij hlt
    · exact Or.inl ⟨hij.symm, (Option.some.inj hu).symm⟩
    · exact Or.inr hu
  refine ⟨fun j u hu => ?_, fun j u hu => ?_⟩
  · rcases hcase j u hu with ⟨rfl, rfl⟩ | hu
    · exact hi.trans (h.index j s hs)
    · exact h.index j u hu
  · rcases hcase j u hu with ⟨rfl, rfl⟩ | hu
    · exact ht
    · exact h.sane j u hu

theorem PrefillMove.keeps {s t : State} (h : PrefillMove s t) (hs : s.Sane) :
    t.index = s.index ∧ t.Sane ∧ t.work ≤ s.work := by
  obtain ⟨hp, hl, ht⟩ := hs
  cases h with
  | reject ha => exact ⟨rfl, ⟨hp, hl, fun hd => absurd hd (by simp)⟩, by simp [State.work]⟩
  | consume budget hb =>
    refine ⟨rfl, ⟨?_, hl, ht⟩, ?_⟩
    · simp only [State.consume]
      omega
    · simp only [State.work, State.consume]
      split_ifs
      · exact Nat.le_refl 0
      · omega

theorem DecodeMove.keeps {s t : State} (h : DecodeMove s t) (hs : s.Sane) :
    t.index = s.index ∧ t.Sane ∧ t.work ≤ s.work := by
  obtain ⟨hp, hl, ht⟩ := hs
  cases h with
  | reject => exact ⟨rfl, ⟨hp, hl, fun hd => absurd hd (by simp)⟩, by simp [State.work]⟩
  | token hne =>
    refine ⟨rfl, ⟨hp, hl, fun hd hpos => ?_⟩, ?_⟩
    · have hlt := ht hd hpos
      simp only
      omega
    · simp only [State.work]
      split_ifs
      · exact Nat.le_refl 0
      · omega
  | last heq => exact ⟨rfl, ⟨hp, hl, fun hd => absurd hd (by simp)⟩, by simp [State.work]⟩

theorem CompleteMove.keeps {s t : State} (h : CompleteMove s t) (hs : s.Sane) :
    t.index = s.index ∧ t.Sane ∧ t.work < s.work := by
  obtain ⟨hp, hl, ht⟩ := hs
  cases h with
  | complete hd hr hm =>
    refine ⟨rfl, ⟨hp, hl, fun hd => absurd hd (by simp)⟩, ?_⟩
    simp only [State.work, hd, if_true, Bool.false_eq_true, if_false]
    omega

/-- A prefill move on an unfinished sequence does work or makes it ready. -/
theorem PrefillMove.progress {s t : State} (h : PrefillMove s t) (hs : s.Sane)
    (hd : s.done = false) : t.work < s.work ∨ (t.done = false ∧ t.promptReady = true) := by
  have hp := hs.prefill
  cases h with
  | reject ha =>
    left
    simp only [State.work, hd, if_true, Bool.false_eq_true, if_false]
    omega
  | consume budget hb =>
    by_cases h0 : s.prefillRemaining = 0
    · right
      have hmin : min budget s.prefillRemaining = 0 := by omega
      simp [State.consume, hd, h0]
      omega
    · left
      simp only [State.work, State.consume, hd, Bool.false_eq_true, if_false]
      omega

theorem PrefillMove.ready {s t : State} (h : PrefillMove s t) (hd : s.done = false)
    (hr : s.promptReady = true) : t.work < s.work ∨ (t.done = false ∧ t.promptReady = true) := by
  cases h with
  | reject ha =>
    left
    simp only [State.work, hd, if_true, Bool.false_eq_true, if_false]
    omega
  | consume budget hb =>
    right
    simp [State.consume, hd, hr]

/-- Serving a sequence with tokens left does work. -/
theorem DecodeMove.progress {s t : State} (h : DecodeMove s t) (hd : s.done = false)
    (hlt : s.generated < s.request.maxGeneratedTokens) : t.work < s.work := by
  cases h with
  | reject =>
    simp only [State.work, hd, if_true, Bool.false_eq_true, if_false]
    omega
  | token hne =>
    simp only [State.work, hd, Bool.false_eq_true, if_false]
    omega
  | last heq =>
    simp only [State.work, hd, if_true, Bool.false_eq_true, if_false]
    omega

structure Underway (total : Nat) (p : State → Prop) (states : List State) : Prop where
  consistent : Consistent states
  bound : totalWork states ≤ total
  progress : totalWork states < total ∨ ∃ (i : Nat) (s : State), states[i]? = some s ∧ p s

theorem Underway.index {total : Nat} {p : State → Prop} (states : List State)
    (h : Underway total p states) (i : Nat) (s : State) (hs : states[i]? = some s) :
    s.index = i := h.consistent.index i s hs

/-- A move that does no harm, and does work whenever it takes `p` away. -/
theorem Underway.set {total : Nat} {p : State → Prop} {states : List State}
    (h : Underway total p states) {i : Nat} {s t : State} (hs : states[i]? = some s)
    (ht : t.index = s.index ∧ t.Sane ∧ t.work ≤ s.work) (hp : p s → t.work < s.work ∨ p t) :
    Underway total p (states.set i t) := by
  have hsum := totalWork_set (t := t) hs
  have hb := h.bound
  obtain ⟨hi, hsane, hle⟩ := ht
  refine ⟨h.consistent.set hs hi hsane, by omega, ?_⟩
  rcases h.progress with hlt | ⟨j, u, hu, hpu⟩
  · exact Or.inl (by omega)
  by_cases hij : i = j
  · subst hij
    obtain rfl := Option.some.inj (hs.symm.trans hu)
    rcases hp hpu with hlt | hpt
    · exact Or.inl (by omega)
    · refine Or.inr ⟨i, t, ?_, hpt⟩
      obtain ⟨hlt, -⟩ := List.getElem?_eq_some_iff.mp hs
      simp [hlt]
  · exact Or.inr ⟨j, u, by rw [List.getElem?_set_ne hij]; exact hu, hpu⟩

def ready (s : State) : Prop := s.done = false ∧ s.promptReady = true

def readyEmpty (s : State) : Prop := ready s ∧ s.request.maxGeneratedTokens = 0

theorem mem_ranked {m : Machine} (h : ∀ (i : Nat) (s : State), m.states[i]? = some s → s.index = i)
    (candidate : State → Bool) (i : Nat) :
    i ∈ m.ranked candidate ↔ ∃ s, m.states[i]? = some s ∧ candidate s = true := by
  simp only [Machine.ranked, List.mem_map, List.mem_insertionSort, List.mem_filter]
  refine ⟨?_, ?_⟩
  · rintro ⟨s, ⟨hs, hc⟩, rfl⟩
    obtain ⟨j, hj⟩ := List.getElem?_of_mem hs
    obtain rfl := h j s hj
    exact ⟨s, hj, hc⟩
  · rintro ⟨s, hs, hc⟩
    exact ⟨s, ⟨List.mem_of_getElem? hs, hc⟩, h i s hs⟩

theorem exists_unfinished {m : Machine} (h : 0 < m.unfinishedCount) :
    ∃ (i : Nat) (s : State), m.states[i]? = some s ∧ s.done = false := by
  obtain ⟨s, hs, hd⟩ := List.countP_pos_iff.mp h
  obtain ⟨i, hi⟩ := List.getElem?_of_mem hs
  exact ⟨i, s, hi, by simpa using hd⟩

theorem prefill_underway {m : Machine} (h : Consistent m.states) (hpos : 0 < m.unfinishedCount)
    {budget : Int} (hb : 0 < budget) (step : SchedulerStep) :
    Underway (totalWork m.states) ready
      (prefillLoop (m.ranked prefillCandidate) budget m step).1.states := by
  have hkeep : ∀ ids budget' m' step', Underway (totalWork m.states) ready m'.states →
      Underway (totalWork m.states) ready (prefillLoop ids budget' m' step').1.states := by
    intro ids budget' m' step' hm'
    refine prefillLoop_induct Underway.index ?_ ids budget' m' step' hm'
    intro states i s t hu hs ht
    exact hu.set hs (ht.keeps (hu.consistent.sane i s hs)) (fun hr => ht.ready hr.1 hr.2)
  obtain ⟨i, s, hs, hd⟩ := exists_unfinished hpos
  by_cases hr : s.promptReady = true
  · exact hkeep _ _ _ _ ⟨h, Nat.le_refl _, Or.inr ⟨i, s, hs, hd, hr⟩⟩
  -- the first candidate makes the difference
  have hi : i ∈ m.ranked prefillCandidate :=
    (mem_ranked h.index _ i).mpr ⟨s, hs, by simp [prefillCandidate, hd, hr]⟩
  cases hids : m.ranked prefillCandidate with
  | nil => simp [hids] at hi
  | cons j rest =>
    obtain ⟨u, hu, hc⟩ := (mem_ranked h.index prefillCandidate j).mp (by simp [hids])
    have hdu : u.done = false := by
      simp only [prefillCandidate, Bool.and_eq_true, Bool.not_eq_true'] at hc
      exact hc.1
    obtain ⟨t, budget', m', step', ht, hset, hloop⟩ :=
      prefillLoop_cons hu (h.index j u hu) rest hb step
    rw [hloop]
    refine hkeep _ _ _ _ ?_
    rw [hset]
    have hsum := totalWork_set (t := t) hu
    obtain ⟨hi', hsane, hle⟩ := ht.keeps (h.sane j u hu)
    refine ⟨h.set hu hi' hsane, by omega, ?_⟩
    rcases ht.progress (h.sane j u hu) hdu with hlt | hready
    · exact Or.inl (by omega)
    · refine Or.inr ⟨j, t, ?_, hready⟩
      obtain ⟨hlt, -⟩ := List.getElem?_eq_some_iff.mp hu
      simp [hlt]

theorem DecodeMove.readyEmpty {s t : State} (h : DecodeMove s t) (hr : readyEmpty s) :
    t.work < s.work ∨ readyEmpty t := by
  obtain ⟨⟨hd, hr⟩, hm⟩ := hr
  cases h with
  | reject =>
    left
    simp only [State.work, hd, if_true, Bool.false_eq_true, if_false]
    omega
  | token hne => exact Or.inr ⟨⟨hd, hr⟩, hm⟩
  | last heq =>
    left
    simp only [State.work, hd, if_true, Bool.false_eq_true, if_false]
    omega

theorem decode_underway {total : Nat} {m : Machine} (h : Underway total ready m.states)
    (stepIndex : Nat) {limit : Nat} (hlimit : 0 < limit) (step : SchedulerStep) :
    Underway total readyEmpty
      (decodeLoop stepIndex ((m.ranked decodeCandidate).take limit) m step).1.states := by
  have hkeep : ∀ ids m' step', Underway total readyEmpty m'.states →
      Underway total readyEmpty (decodeLoop stepIndex ids m' step').1.states := by
    intro ids m' step' hm'
    refine decodeLoop_induct Underway.index ?_ stepIndex ids m' step' hm'
    intro states i s t hu hs ht
    exact hu.set hs (ht.keeps (hu.consistent.sane i s hs)) ht.readyEmpty
  have hc := h.consistent
  rcases h.progress with hlt | ⟨i, s, hs, hd, hr⟩
  · exact hkeep _ _ _ ⟨hc, h.bound, Or.inl hlt⟩
  by_cases hm : s.request.maxGeneratedTokens = 0
  · exact hkeep _ _ _ ⟨hc, h.bound, Or.inr ⟨i, s, hs, ⟨hd, hr⟩, hm⟩⟩
  -- some sequence has tokens left, so the first candidate does work
  have hsane := hc.sane i s hs
  have hlen := hsane.length
  have htok := hsane.tokens hd (by omega)
  have hi : i ∈ m.ranked decodeCandidate :=
    (mem_ranked hc.index _ i).mpr ⟨s, hs, by simp [decodeCandidate, hd, hr, htok]⟩
  cases hids : m.ranked decodeCandidate with
  | nil => simp [hids] at hi
  | cons j rest =>
    obtain ⟨u, hu, hcand⟩ := (mem_ranked hc.index decodeCandidate j).mp (by simp [hids])
    simp only [decodeCandidate, Bool.and_eq_true, Bool.not_eq_true', decide_eq_true_eq] at hcand
    obtain ⟨⟨hdu, -⟩, hlt⟩ := hcand
    obtain ⟨n, rfl⟩ : ∃ n, limit = n + 1 := ⟨limit - 1, by omega⟩
    rw [List.take_succ_cons]
    obtain ⟨t, m', step', ht, hset, hloop⟩ :=
      decodeLoop_cons stepIndex hu (hc.index j u hu) (rest.take n) step
    rw [hloop]
    refine hkeep _ _ _ ?_
    rw [hset]
    have hsum := totalWork_set (t := t) hu
    have hbound := h.bound
    have hless := ht.progress hdu hlt
    obtain ⟨hi', hsane', -⟩ := ht.keeps (hc.sane j u hu)
    exact ⟨hc.set hu hi' hsane', by omega, Or.inl (by omega)⟩

theorem completeLoop_consistent {m : Machine} (h : Consistent m.states) (stepIndex : Nat)
    (ids : List Nat) : Consistent (completeLoop stepIndex ids m).states := by
  refine completeLoop_induct (motive := Consistent) (fun _ h => h.index) ?_ stepIndex ids m h
  intro states i s t hc hs ht
  obtain ⟨hi, hsane, -⟩ := ht.keeps (hc.sane i s hs)
  exact hc.set hs hi hsane

theorem completeLoop_work {total : Nat} (stepIndex : Nat) (ids : List Nat) (m : Machine)
    (hc : Consistent m.states) (hb : totalWork m.states ≤ total)
    (hp : totalWork m.states < total ∨
      ∃ i ∈ ids, ∃ s, m.states[i]? = some s ∧ readyEmpty s) :
    totalWork (completeLoop stepIndex ids m).states < total := by
  induction ids generalizing m with
  | nil =>
    rcases hp with hlt | ⟨i, hi, -⟩
    · exact hlt
    · simp at hi
  | cons j rest ih =>
    have hskip : (∀ u, m.states[j]? = some u → ¬ readyEmpty u) →
        totalWork m.states < total ∨ ∃ i ∈ rest, ∃ s, m.states[i]? = some s ∧ readyEmpty s := by
      intro hno
      rcases hp with hlt | ⟨i, hi, s, hs, hr⟩
      · exact Or.inl hlt
      rcases List.mem_cons.mp hi with rfl | hi
      · exact absurd hr (hno s hs)
      · exact Or.inr ⟨i, hi, s, hs, hr⟩
    rw [completeLoop]
    split
    · rename_i hnone
      exact ih m hc hb (hskip (by simp [hnone]))
    rename_i u hu
    obtain rfl := hc.index j u hu
    split_ifs with hcond
    · simp only [Bool.and_eq_true, Bool.not_eq_true', beq_iff_eq] at hcond
      obtain ⟨⟨hd, hr⟩, hm⟩ := hcond
      obtain ⟨hi, hsane, hlt⟩ := (CompleteMove.complete hd hr hm).keeps (hc.sane _ u hu)
      have hsum := totalWork_set (t := { u with done := true }) hu
      exact ih _ (hc.set hu hi hsane) (by rw [complete_states]; omega)
        (Or.inl (by rw [complete_states]; omega))
    · refine ih m hc hb (hskip ?_)
      rintro u' hu' ⟨⟨hd, hr⟩, hm⟩
      obtain rfl := Option.some.inj (hu.symm.trans hu')
      simp [hd, hr, hm] at hcond

structure Positive (config : ContinuousBatcherConfig) : Prop where
  prefill : 0 < config.maxPrefillTokensPerStep
  decode : 0 < config.maxDecodeSequencesPerStep

theorem clampPositive_pos (value fallback : Int) (h : 0 < fallback) :
    0 < clampPositive value fallback := by
  unfold clampPositive
  split_ifs <;> omega

theorem continuousBatcher_positive (config : ContinuousBatcherConfig) :
    Positive (continuousBatcher config) :=
  ⟨clampPositive_pos _ _ (by omega), clampPositive_pos _ _ (by omega)⟩

theorem step_consistent (config : ContinuousBatcherConfig) (stepIndex : Nat) {m : Machine}
    (h : Consistent m.states) : Consistent (m.step config stepIndex).1.states := by
  refine completeLoop_consistent ?_ stepIndex _
  refine decodeLoop_induct (motive := Consistent) (fun _ h => h.index) ?_ stepIndex _ _ _ ?_
  · intro states i s t hc hs ht
    obtain ⟨hi, hsane, -⟩ := ht.keeps (hc.sane i s hs)
    exact hc.set hs hi hsane
  refine prefillLoop_induct (motive := Consistent) (fun _ h => h.index) ?_ _ _ m _ h
  intro states i s t hc hs ht
  obtain ⟨hi, hsane, -⟩ := ht.keeps (hc.sane i s hs)
  exact hc.set hs hi hsane

/-- One step of the loop does work whenever a sequence is unfinished. -/
theorem step_work {config : ContinuousBatcherConfig} (hconf : Positive config) (stepIndex : Nat)
    {m : Machine} (h : Consistent m.states) (hpos : 0 < m.unfinishedCount) :
    totalWork (m.step config stepIndex).1.states < totalWork m.states := by
  have hdec := hconf.decode
  have hp := prefill_underway h hpos hconf.prefill
    { stepIndex := stepIndex, queuedSequences := m.unfinishedCount }
  have hd := decode_underway hp stepIndex
    (show 0 < config.maxDecodeSequencesPerStep.toNat by omega)
    (prefillLoop (m.ranked prefillCandidate) config.maxPrefillTokensPerStep m
      { stepIndex := stepIndex, queuedSequences := m.unfinishedCount }).2
  refine completeLoop_work stepIndex _ _ hd.consistent hd.bound ?_
  rcases hd.progress with hlt | ⟨i, s, hs, hr⟩
  · exact Or.inl hlt
  · obtain ⟨hlt, -⟩ := List.getElem?_eq_some_iff.mp hs
    exact Or.inr ⟨i, List.mem_range.mpr hlt, s, hs, hr⟩

/-- The bound on the steps of a run: one unit for each request and each of its tokens. -/
def workBound (requests : List SequenceRequest) : Nat :=
  (requests.map (fun r => 1 + r.promptTokens.toNat + r.maxGeneratedTokens.toNat)).sum

theorem start_states (config : ContinuousBatcherConfig) (requests : List SequenceRequest) (i : Nat)
    (s : State) (hs : (Machine.start config requests).states[i]? = some s) :
    ∃ r, s = queuedState (SequenceRequest.clamped r) i := by
  simp only [Machine.start, List.getElem?_map, Option.map_eq_some_iff, List.getElem?_zipIdx,
    Nat.zero_add] at hs
  obtain ⟨-, ⟨-, ⟨r, -, rfl⟩, rfl⟩, rfl⟩ := hs
  exact ⟨r, rfl⟩

theorem start_consistent (config : ContinuousBatcherConfig) (requests : List SequenceRequest) :
    Consistent (Machine.start config requests).states := by
  refine ⟨fun i s hs => ?_, fun i s hs => ?_⟩ <;>
    obtain ⟨r, rfl⟩ := start_states config requests i s hs
  · rfl
  · refine ⟨?_, ?_, fun _ hpos => hpos⟩
    · simp [queuedState, SequenceRequest.clamped]
    · simp [queuedState, SequenceRequest.clamped]

theorem start_work (config : ContinuousBatcherConfig) (requests : List SequenceRequest) :
    totalWork (Machine.start config requests).states = workBound requests := by
  have hwork : ∀ (r : SequenceRequest) i, (queuedState r.clamped i).work =
      1 + r.promptTokens.toNat + r.maxGeneratedTokens.toNat := by
    intro r i
    simp only [State.work, queuedState, SequenceRequest.clamped, Bool.false_eq_true, if_false]
    omega
  have hmap : ∀ (rs : List SequenceRequest) n,
      ((rs.map SequenceRequest.clamped).zipIdx n).map (fun r => (queuedState r.1 r.2).work) =
        rs.map (fun r => 1 + r.promptTokens.toNat + r.maxGeneratedTokens.toNat) := by
    intro rs
    induction rs with
    | nil => simp
    | cons r rs ih =>
      intro n
      simp only [List.map_cons, List.zipIdx_cons, hwork, ih]
  simp only [totalWork, workBound, Machine.start, List.map_map]
  exact congrArg List.sum (hmap requests 0)

theorem unfinishedCount_of_idle {m : Machine} (h : totalWork m.states = 0) :
    m.unfinishedCount = 0 := by
  by_contra hne
  obtain ⟨i, s, hs, hd⟩ := exists_unfinished (Nat.pos_of_ne_zero hne)
  have hsum := totalWork_set (t := { s with done := true }) hs
  simp only [State.work, hd, if_true, Bool.false_eq_true, if_false] at hsum
  omega

/-- The loop ends within the work left, and more fuel makes no difference. -/
theorem stepLoop_ends {config : ContinuousBatcherConfig} (hconf : Positive config)
    (isCancelled : Nat → Bool) (work stepIndex : Nat) (m : Machine) (hc : Consistent m.states)
    (hw : totalWork m.states ≤ work) (steps : List SchedulerStep)
    (stats : ContinuousBatchingStats) :
    ∃ r, r.2.1.length ≤ steps.length + work ∧
      ∀ fuel, work ≤ fuel → stepLoop config isCancelled fuel stepIndex m steps stats = some r := by
  induction work generalizing stepIndex m steps stats with
  | zero =>
    have hidle := unfinishedCount_of_idle (Nat.le_zero.mp hw)
    refine ⟨(m, steps, stats), by simp, fun fuel _ => ?_⟩
    cases fuel <;> simp [stepLoop, hidle]
  | succ work ih =>
    by_cases hidle : m.unfinishedCount = 0
    · refine ⟨(m, steps, stats), by simp, fun fuel _ => ?_⟩
      cases fuel <;> simp [stepLoop, hidle]
    by_cases hcancel : isCancelled stepIndex = true
    · refine ⟨(m.cancel, steps, stats), by simp, fun fuel hfuel => ?_⟩
      obtain ⟨f, rfl⟩ : ∃ f, fuel = f + 1 := ⟨fuel - 1, by omega⟩
      simp [stepLoop, hidle, hcancel]
    have hc' := step_consistent config stepIndex hc
    have hlt := step_work hconf stepIndex hc (Nat.pos_of_ne_zero hidle)
    set r := m.step config stepIndex
    obtain ⟨out, hlen, hout⟩ := ih (stepIndex + 1) r.1 hc' (by omega) (steps ++ [r.2])
      (stats.record r.2)
    refine ⟨out, ?_, fun fuel hfuel => ?_⟩
    · simp only [List.length_append, List.length_singleton] at hlen
      omega
    obtain ⟨f, rfl⟩ : ∃ f, fuel = f + 1 := ⟨fuel - 1, by omega⟩
    simp only [stepLoop, if_neg hidle, if_neg hcancel]
    exact hout f (by omega)

/-- The machine at the head of iteration `n` while no poll has answered true. -/
def Machine.after (config : ContinuousBatcherConfig) (m : Machine) : Nat → Machine
  | 0 => m
  | n + 1 => ((m.after config n).step config n).1

theorem after_consistent (config : ContinuousBatcherConfig) {m : Machine}
    (h : Consistent m.states) (n : Nat) : Consistent (m.after config n).states := by
  induction n with
  | zero => exact h
  | succ n ih => exact step_consistent config n ih

theorem after_finishes {config : ContinuousBatcherConfig} (hconf : Positive config) {m : Machine}
    (h : Consistent m.states) (work n : Nat) (hw : totalWork (m.after config n).states ≤ work) :
    ∃ k ≤ work, (m.after config (n + k)).unfinishedCount = 0 := by
  induction work generalizing n with
  | zero => exact ⟨0, Nat.le_refl 0, unfinishedCount_of_idle (Nat.le_zero.mp hw)⟩
  | succ work ih =>
    by_cases hidle : (m.after config n).unfinishedCount = 0
    · exact ⟨0, Nat.zero_le _, hidle⟩
    have hlt := step_work hconf n (after_consistent config h n) (Nat.pos_of_ne_zero hidle)
    obtain ⟨k, hk, hdone⟩ := ih (n + 1) (by rw [Machine.after]; omega)
    refine ⟨k + 1, by omega, ?_⟩
    rw [show n + (k + 1) = n + 1 + k by omega]
    exact hdone

/-- The state of the loop of `Run` before its step `n`, as long as no poll answered true. -/
def machineAt (config : ContinuousBatcherConfig) (requests : List SequenceRequest) (n : Nat) :
    Machine :=
  (Machine.start (continuousBatcher config) requests).after (continuousBatcher config) n

/-- `Run` returns whatever the polls answer, within the bound on its steps; each step lowers the
work left, and no state is stuck with an unfinished sequence. -/
theorem run_terminates (config : ContinuousBatcherConfig) (requests : List SequenceRequest)
    (isCancelled : Nat → Bool) :
    (∃ r, r.steps.length ≤ workBound requests ∧
      ∀ fuel, workBound requests ≤ fuel → run config requests isCancelled fuel = some r) ∧
    ∀ n,
      (0 < (machineAt config requests n).unfinishedCount →
        totalWork (machineAt config requests (n + 1)).states <
          totalWork (machineAt config requests n).states) ∧
      ∃ k ≤ totalWork (machineAt config requests n).states,
        (machineAt config requests (n + k)).unfinishedCount = 0 := by
  have hconf := continuousBatcher_positive config
  have hstart := start_consistent (continuousBatcher config) requests
  refine ⟨?_, fun n => ⟨fun hpos => ?_, ?_⟩⟩
  · obtain ⟨out, hlen, hout⟩ := stepLoop_ends hconf isCancelled (workBound requests) 0 _ hstart
      (start_work _ requests).le [] { totalPromptTokens := totalPromptTokens requests }
    refine ⟨finish out, by simpa [finish] using hlen, fun fuel hfuel => ?_⟩
    rw [run, hout fuel hfuel, Option.map_some]
  · exact step_work hconf n (after_consistent _ hstart n) hpos
  · exact after_finishes hconf hstart _ n (Nat.le_refl _)

end Laminar.Scheduler
