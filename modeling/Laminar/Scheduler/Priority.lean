import Laminar.Library.Sorting
import Laminar.Scheduler.Lifecycle

/-! A sequence is never ahead of one that outranks it: not in prefill, not in tokens, and
so not in the steps at which tokens come. -/
namespace Laminar.Scheduler
open Laminar.Kv

def Outranks (requests : List SequenceRequest) (i j : Nat) : Prop :=
  ∃ p q, requests[i]? = some p ∧ requests[j]? = some q ∧
    (p.priority > q.priority ∨ p.priority = q.priority ∧ i < j)

variable {requests : List SequenceRequest}

theorem Outranks.asymm {i j : Nat} (h : Outranks requests i j) : ¬ Outranks requests j i := by
  obtain ⟨p, q, hp, hq, hpq⟩ := h
  rintro ⟨q', p', hq', hp', hqp⟩
  obtain rfl := Option.some.inj (hp.symm.trans hp')
  obtain rfl := Option.some.inj (hq.symm.trans hq')
  omega

theorem Outranks.ne {i j : Nat} (h : Outranks requests i j) : i ≠ j := by
  rintro rfl
  exact h.asymm h

theorem byPriority_iff (s t : State) : byPriority s t ↔ s.request.priority > t.request.priority ∨
    s.request.priority = t.request.priority ∧ s.index < t.index := by
  unfold byPriority
  split_ifs <;> omega

theorem byPriority_trans (s t u : State) (h : byPriority s t) (h' : byPriority t u) :
    byPriority s u := by
  rw [byPriority_iff] at h h' ⊢
  omega

theorem byPriority_asymm (s t : State) (h : byPriority s t) : ¬ byPriority t s := by
  rw [byPriority_iff] at h ⊢
  omega

/-- The sorted candidates of a phase are in order. -/
theorem sorted_pairwise {m : Machine} (ha : m.Aligned) (candidate : State → Bool) :
    ((m.states.filter candidate).insertionSort byPriority).Pairwise byPriority := by
  have hdistinct : (m.states.filter candidate).Pairwise (fun s t => s.index ≠ t.index) := by
    have hplaces : (m.states.map State.index).Nodup := by
      rw [ha.places]
      exact List.nodup_range
    exact List.Pairwise.filter candidate (List.pairwise_map.mp hplaces)
  exact Sorting.pairwise_insertionSort byPriority_trans (hdistinct.imp fun hne => by
    rw [byPriority_iff, byPriority_iff]
    omega)

theorem mem_sorted {m : Machine} (ha : m.Aligned) {candidate : State → Bool} {s : State} :
    s ∈ (m.states.filter candidate).insertionSort byPriority ↔
      m.states[s.index]? = some s ∧ candidate s = true := by
  rw [List.mem_insertionSort, List.mem_filter]
  refine and_congr_left fun _ => ⟨fun hs => ?_, List.mem_of_getElem?⟩
  obtain ⟨i, hi⟩ := List.getElem?_of_mem hs
  rwa [ha.index i s hi]

/-- The candidates of a phase are served in the order of their rank. -/
theorem ranked_pairwise {n : Nat} {m : Machine} (ha : m.Aligned) (h : Tracked requests n m)
    (candidate : State → Bool) : (m.ranked candidate).Pairwise (Outranks requests) := by
  rw [Machine.ranked, List.pairwise_map]
  refine (sorted_pairwise ha candidate).imp_of_mem fun {s t} hs ht hst => ?_
  obtain ⟨p, hp, hsp⟩ := h.request ((mem_sorted ha).mp hs).1
  obtain ⟨q, hq, htq⟩ := h.request ((mem_sorted ha).mp ht).1
  rw [byPriority_iff, hsp, htq] at hst
  exact ⟨p, q, hp, hq, hst⟩

/-- The first `k` candidates of a phase are those that fewer than `k` candidates come before. -/
theorem mem_take_ranked {m : Machine} (ha : m.Aligned) (candidate : State → Bool) (k i : Nat) :
    i ∈ (m.ranked candidate).take k ↔ ∃ s, m.states[i]? = some s ∧ candidate s = true ∧
      m.states.countP (fun t => candidate t && decide (byPriority t s)) < k := by
  have hcount : ∀ s, ((m.states.filter candidate).insertionSort byPriority).countP
      (fun t => decide (byPriority t s)) =
        m.states.countP (fun t => candidate t && decide (byPriority t s)) := by
    intro s
    rw [(List.perm_insertionSort byPriority _).countP_eq, List.countP_filter]
    exact List.countP_congr fun t _ => by rw [Bool.and_comm]
  have htake : ∀ s, m.states[s.index]? = some s → candidate s = true →
      (s ∈ ((m.states.filter candidate).insertionSort byPriority).take k ↔
        m.states.countP (fun t => candidate t && decide (byPriority t s)) < k) := by
    intro s hs hc
    rw [← hcount]
    exact Sorting.mem_take_iff_countP (sorted_pairwise ha candidate) byPriority_asymm
      ((mem_sorted ha).mpr ⟨hs, hc⟩)
  rw [Machine.ranked, ← List.map_take, List.mem_map]
  constructor
  · rintro ⟨s, hs, rfl⟩
    obtain ⟨hstate, hc⟩ := (mem_sorted ha).mp (List.mem_of_mem_take hs)
    exact ⟨s, hstate, hc, (htake s hstate hc).mp hs⟩
  · rintro ⟨s, hs, hc, hlt⟩
    obtain rfl := ha.index i s hs
    exact ⟨s, (htake s hs hc).mpr hlt, rfl⟩

/-- No allocated sequence before one that outranks it is through with its prompt. -/
def PrefillOrdered (requests : List SequenceRequest) (m : Machine) : Prop :=
  ∀ (i j : Nat) (s t : State), Outranks requests i j → m.states[i]? = some s →
    m.states[j]? = some t → t.promptAllocated = true → s.promptReady = true ∨ s.done = true

/-- No sequence has more tokens than one that outranks it, unless that one was rejected or has
all it asked for. -/
def TokensOrdered (requests : List SequenceRequest) (m : Machine) : Prop :=
  ∀ (i j : Nat) (s t : State) (r : SequenceResult), Outranks requests i j → m.Slot i s r →
    m.states[j]? = some t → ¬ Rejected s r →
    min s.request.maxGeneratedTokens t.generated ≤ s.generated

/-- After a prefill turn with budget left the sequence is through with its prompt, or done. -/
theorem PrefillTurn.through {budget : Int} {a : Impl} {s : State} {r : SequenceResult}
    {o : Outcome} (h : PrefillTurn budget a s r o) (hleft : 0 < budget - o.prefilled) :
    o.state.done = true ∨ o.state.promptReady = true := by
  have hall : 0 < budget - min budget s.prefillRemaining →
      s.prefillRemaining - min budget s.prefillRemaining = 0 := by omega
  cases h with
  | refuse ha hok => exact Or.inl rfl
  | accept ha hok => exact Or.inr (if_pos (hall hleft))
  | consume ha => exact Or.inr (if_pos (hall hleft))

theorem PrefillTurn.keeps_ready {budget : Int} {a : Impl} {s : State} {r : SequenceResult}
    {o : Outcome} (h : PrefillTurn budget a s r o) (hs : s.promptReady = true ∨ s.done = true) :
    o.state.promptReady = true ∨ o.state.done = true := by
  cases h with
  | refuse ha hok => exact Or.inr rfl
  | accept ha hok => exact hs.imp_left fun hr => by simp [State.consume, hr]
  | consume ha => exact hs.imp_left fun hr => by simp [State.consume, hr]

theorem PrefillTurn.generated {budget : Int} {a : Impl} {s : State} {r : SequenceResult}
    {o : Outcome} (h : PrefillTurn budget a s r o) : o.state.generated = s.generated := by
  cases h <;> rfl

/-- A turn that brings no token leaves the order of tokens as it was. -/
theorem TokensOrdered.still {m : Machine} (h : TokensOrdered requests m) {i : Nat} {s : State}
    {r : SequenceResult} (hslot : m.Slot i s r) (hd : s.done = false) {o : Outcome}
    (hrequest : o.state.request = s.request) (hgenerated : o.state.generated = s.generated) :
    TokensOrdered requests (m.put i o) := by
  intro j k t u v hjk hj hk hrejected
  have hk' : ∃ u', m.states[k]? = some u' ∧ u.generated = u'.generated := by
    rcases Machine.put_states hk with ⟨rfl, rfl⟩ | ⟨-, hk⟩
    · exact ⟨s, hslot.state, hgenerated⟩
    · exact ⟨u, hk, rfl⟩
  obtain ⟨u', hu', hgen⟩ := hk'
  rw [hgen]
  rcases (hslot.put o).mp hj with ⟨rfl, rfl, rfl⟩ | ⟨-, hj⟩
  · rw [hrequest, hgenerated]
    exact h j k s u' r hjk hslot hu' fun hs => Bool.false_ne_true (hd.symm.trans hs.1)
  · exact h j k t u' v hjk hj hu' hrejected

/-- The prefill loop keeps the order: while budget is left, whoever is not through with its
prompt is still to be served. -/
theorem prefillLoop_ordered (ids : List Nat) (budget : Int) {m : Machine} (step : SchedulerStep)
    (ha : m.Aligned) (hc : m.Candidates prefillCandidate ids)
    (hids : ids.Pairwise (Outranks requests))
    (hahead : 0 < budget → ∀ (i : Nat) (s : State), m.states[i]? = some s → s.done = false →
      s.promptReady = false → i ∈ ids)
    (hp : PrefillOrdered requests m) (ht : TokensOrdered requests m) :
    PrefillOrdered requests (prefillLoop ids budget m step).1 ∧
      TokensOrdered requests (prefillLoop ids budget m step).1 := by
  induction ids generalizing budget m step with
  | nil => exact ⟨hp, ht⟩
  | cons j rest ih =>
    by_cases hb : budget ≤ 0
    · rw [prefillLoop, if_pos hb]
      exact ⟨hp, ht⟩
    have hpos := Int.not_le.mp hb
    obtain ⟨u, hu, hcand⟩ := hc.candidate j List.mem_cons_self
    obtain ⟨r, o, hslot, ho, hloop⟩ := prefillLoop_turn ha hu rest hpos step
    obtain ⟨hfirst, hrest⟩ := List.pairwise_cons.mp hids
    obtain ⟨hd, hr⟩ := (prefillCandidate_iff u).mp hcand
    have hturn : Turn 0 m.allocator u r o := .prefill budget hpos hcand ho
    rw [hloop]
    -- the sequences that outrank the head are through with their prompts
    have hbefore : ∀ (i : Nat) (s : State), Outranks requests i j → m.states[i]? = some s →
        s.promptReady = true ∨ s.done = true := by
      intro i s hij hs
      by_contra hno
      obtain ⟨hnr, hnd⟩ := not_or.mp hno
      rcases List.mem_cons.mp (hahead hpos i s hs (by simpa using hnd) (by simpa using hnr)) with
        hi | hi
      · exact hij.ne hi
      · exact hij.asymm (hfirst i hi)
    refine ih _ _ (ha.put hu ho.index) (hc.put o) hrest ?_ ?_
      (ht.still hslot hd hturn.request ho.generated)
    · intro hleft i s hs hsd hsr
      rcases Machine.put_states hs with ⟨rfl, rfl⟩ | ⟨hne, hs⟩
      · rcases ho.through hleft with hdone | hready
        · exact absurd (hsd.symm.trans hdone) Bool.false_ne_true
        · exact absurd (hsr.symm.trans hready) Bool.false_ne_true
      · exact (List.mem_cons.mp (hahead hpos i s hs hsd hsr)).resolve_left hne
    · intro i k s t hik hs ht hta
      have hk : ∃ t', m.states[k]? = some t' ∧ (k = j ∨ t'.promptAllocated = true) := by
        rcases Machine.put_states ht with ⟨hkj, -⟩ | ⟨-, ht⟩
        · exact ⟨u, hkj ▸ hu, Or.inl hkj⟩
        · exact ⟨t, ht, Or.inr hta⟩
      obtain ⟨t', ht', hwhich⟩ := hk
      have hold : ∀ s', m.states[i]? = some s' → s'.promptReady = true ∨ s'.done = true := by
        intro s' hs'
        rcases hwhich with rfl | hallocated
        · exact hbefore i s' hik hs'
        · exact hp i k s' t' hik hs' ht' hallocated
      rcases Machine.put_states hs with ⟨rfl, rfl⟩ | ⟨hne, hs⟩
      · exact ho.keeps_ready (hold u hu)
      · exact hold s hs

theorem PrefillOrdered.still {m : Machine} (h : PrefillOrdered requests m) {i : Nat} {s : State}
    (hs : m.states[i]? = some s) {o : Outcome}
    (hallocated : o.state.promptAllocated = s.promptAllocated)
    (hready : o.state.promptReady = s.promptReady) (hdone : s.done = true → o.state.done = true) :
    PrefillOrdered requests (m.put i o) := by
  intro j k t u hjk ht hu hua
  have hk : ∃ u', m.states[k]? = some u' ∧ u'.promptAllocated = true := by
    rcases Machine.put_states hu with ⟨rfl, rfl⟩ | ⟨-, hu⟩
    · exact ⟨s, hs, hallocated ▸ hua⟩
    · exact ⟨u, hu, hua⟩
  obtain ⟨u', hu', hua'⟩ := hk
  rcases Machine.put_states ht with ⟨rfl, rfl⟩ | ⟨-, ht⟩
  · rw [hready]
    exact (h j k s u' hjk hs hu' hua').imp_right hdone
  · exact h j k t u' hjk ht hu' hua'

/-- A decode turn rejects its sequence, or brings it one token. -/
theorem DecodeTurn.rejected_or_token {n : Nat} {a : Impl} {s : State} {r : SequenceResult}
    {o : Outcome} (h : DecodeTurn n a s r o) :
    (Rejected o.state o.result ∧ o.state.generated = s.generated) ∨
      o.state.generated = s.generated + 1 := by
  cases h with
  | refuse hok => exact Or.inl ⟨⟨rfl, rfl⟩, rfl⟩
  | token hok hne => exact Or.inr rfl
  | last hok heq => exact Or.inr rfl

theorem DecodeTurn.prompt {n : Nat} {a : Impl} {s : State} {r : SequenceResult} {o : Outcome}
    (h : DecodeTurn n a s r o) : o.state.promptAllocated = s.promptAllocated ∧
      o.state.promptReady = s.promptReady := by
  cases h <;> exact ⟨rfl, rfl⟩

/-- The decode loop keeps the order: who outranks a sequence still to be served is still to be
served as well, or one token ahead of what the order asks. -/
theorem decodeLoop_ordered (n : Nat) (ids : List Nat) {m : Machine} (step : SchedulerStep)
    (ha : m.Aligned) (hc : m.Candidates decodeCandidate ids)
    (hids : ids.Pairwise (Outranks requests)) (hp : PrefillOrdered requests m)
    (ht : TokensOrdered requests m)
    (hahead : ∀ (i j : Nat) (s t : State) (r : SequenceResult), Outranks requests i j → j ∈ ids →
      m.Slot i s r → m.states[j]? = some t → ¬ Rejected s r →
      i ∈ ids ∨ min s.request.maxGeneratedTokens (t.generated + 1) ≤ s.generated) :
    PrefillOrdered requests (decodeLoop n ids m step).1 ∧
      TokensOrdered requests (decodeLoop n ids m step).1 := by
  induction ids generalizing m step with
  | nil => exact ⟨hp, ht⟩
  | cons j rest ih =>
    obtain ⟨u, hu, hcand⟩ := hc.candidate j List.mem_cons_self
    obtain ⟨v, o, hslot, ho, hloop⟩ := decodeLoop_turn n ha hu rest step
    obtain ⟨hfirst, hrest⟩ := List.pairwise_cons.mp hids
    obtain ⟨hj, -⟩ := List.nodup_cons.mp hc.nodup
    obtain ⟨hd, -, -⟩ := (decodeCandidate_iff u).mp hcand
    have hturn : Turn n m.allocator u v o := .decode hcand ho
    have hnot : ¬ Rejected u v := fun hu => Bool.false_ne_true (hd.symm.trans hu.1)
    rw [hloop]
    refine ih _ (ha.put hu ho.index) (hc.put o) hrest
      (hp.still hu ho.prompt.1 ho.prompt.2 fun hdone => absurd (hd.symm.trans hdone) (by simp))
      ?_ ?_
    · rcases ho.rejected_or_token with ⟨-, hsame⟩ | hone
      · exact ht.still hslot hd hturn.request hsame
      intro i k s t r hik hs hk hrejected
      rcases Machine.put_states hk with ⟨rfl, rfl⟩ | ⟨-, hold⟩
      · rw [hone]
        obtain ⟨heq, -⟩ | ⟨-, hs⟩ := (hslot.put o).mp hs
        · exact absurd heq hik.ne
        rcases hahead i k s u r hik List.mem_cons_self hs hu hrejected with hi | hle
        · exact absurd (hfirst i ((List.mem_cons.mp hi).resolve_left hik.ne)) hik.asymm
        · exact hle
      · obtain ⟨rfl, rfl, rfl⟩ | ⟨-, hs⟩ := (hslot.put o).mp hs
        · have hle := ht i k u t v hik hslot hold hnot
          rw [hturn.request, hone]
          omega
        · exact ht i k s t r hik hs hold hrejected
    · intro i k s t r hik hmem hs hk hrejected
      have hkj : k ≠ j := fun hkj => hj (hkj ▸ hmem)
      have hold : m.states[k]? = some t :=
        ((Machine.put_states hk).resolve_left fun hself => hkj hself.1).2
      obtain ⟨rfl, rfl, rfl⟩ | ⟨hij, hs⟩ := (hslot.put o).mp hs
      · right
        rcases ho.rejected_or_token with ⟨hrej, -⟩ | hone
        · exact absurd hrej hrejected
        have hle := ht i k u t v hik hslot hold hnot
        rw [hturn.request, hone]
        omega
      · exact (hahead i k s t r hik (List.mem_cons_of_mem j hmem) hs hold hrejected).imp_left
          fun hi => (List.mem_cons.mp hi).resolve_left hij

theorem completeLoop_ordered (n : Nat) (ids : List Nat) {m : Machine} (ha : m.Aligned)
    (hp : PrefillOrdered requests m) (ht : TokensOrdered requests m) :
    PrefillOrdered requests (completeLoop n ids m) ∧
      TokensOrdered requests (completeLoop n ids m) := by
  induction ids generalizing m with
  | nil => exact ⟨hp, ht⟩
  | cons i rest ih =>
    cases hs : m.states[i]? with
    | none =>
      simp only [completeLoop, hs]
      exact ih ha hp ht
    | some s =>
      rcases completeLoop_turn n ha hs rest with ⟨hd, hr, hm, r, hslot, hloop⟩ | ⟨-, hloop⟩
      · rw [hloop]
        exact ih (ha.put hs rfl) (hp.still hs rfl rfl fun _ => rfl) (ht.still hslot hd rfl rfl)
      · rw [hloop]
        exact ih ha hp ht

theorem step_ordered (config : ContinuousBatcherConfig) (n : Nat) {m : Machine} (ha : m.Aligned)
    (h : Tracked requests n m) (hp : PrefillOrdered requests m) (ht : TokensOrdered requests m) :
    PrefillOrdered requests (m.step config n).1 ∧ TokensOrdered requests (m.step config n).1 := by
  have hpa := prefilled_aligned config n ha
  have htracked := h.prefilled config ha
  obtain ⟨hpp, hpt⟩ := prefillLoop_ordered (m.ranked prefillCandidate)
    config.maxPrefillTokensPerStep
    { stepIndex := n, queuedSequences := m.unfinishedCount } ha
    (ranked_candidates ha prefillCandidate) (ranked_pairwise ha h prefillCandidate)
    (fun _ i s hs hd hr =>
      (mem_ranked ha.index _ i).mpr ⟨s, hs, (prefillCandidate_iff s).mpr ⟨hd, hr⟩⟩) hp ht
  have hpp : PrefillOrdered requests (m.prefilled config n).1 := hpp
  have hpt : TokensOrdered requests (m.prefilled config n).1 := hpt
  have hranked := ranked_pairwise hpa htracked decodeCandidate
  have hc := decodeOrder_candidates config n ha
  have hda := decoded_aligned config n ha
  obtain ⟨hdp, hdt⟩ := decodeLoop_ordered n (m.decodeOrder config n) (m.prefilled config n).2 hpa hc
    (hranked.sublist (List.take_sublist _ _)) hpp hpt (by
      intro i j s t r hij hj hs htj hrejected
      obtain ⟨t', ht', hcand⟩ := hc.candidate j hj
      obtain rfl := Option.some.inj (htj.symm.trans ht')
      obtain ⟨-, hready, -⟩ := (decodeCandidate_iff t).mp hcand
      obtain ⟨u, htu⟩ := hpa.slot htj
      have htallocated := ((htracked.told j t u htu).ready.mp hready).1
      have htold := htracked.told i s r hs
      by_cases hi : decodeCandidate s = true
      · exact Or.inl (Sorting.mem_take_of_pairwise hranked (fun _ _ h => h.asymm)
          ((mem_ranked hpa.index decodeCandidate i).mpr ⟨s, hs.state, hi⟩) hj hij)
      right
      rw [decodeCandidate_iff] at hi
      cases hd : s.done with
      | true =>
        obtain ⟨hnot, hcompleted⟩ := htold.finished hd
        have hstatus : r.status = .completed := by
          cases hstatus : r.status with
          | completed => rfl
          | rejected => exact absurd ⟨hd, hstatus⟩ hrejected
          | cancelled => exact absurd hstatus hnot
        have hall := (hcompleted.mp hstatus).2
        omega
      | false =>
        have hsready : s.promptReady = true := by
          have hor := hpp i j s t hij hs.state htj htallocated
          simpa [hd] using hor
        have hle : ¬ s.generated < s.request.maxGeneratedTokens := fun hlt => hi ⟨hd, hsready, hlt⟩
        omega)
  exact completeLoop_ordered n _ hda hdp hdt

theorem machineAt_ordered (config : ContinuousBatcherConfig) (requests : List SequenceRequest)
    (n : Nat) : PrefillOrdered requests (machineAt config requests n) ∧
      TokensOrdered requests (machineAt config requests n) := by
  induction n with
  | zero =>
    refine ⟨fun i j s t hij hs ht hta => ?_, fun i j s t r hij hs ht hrejected => ?_⟩
    · obtain ⟨q, rfl⟩ := start_states _ requests j t ht
      exact absurd hta Bool.false_ne_true
    · obtain ⟨q, rfl⟩ := start_states _ requests j t ht
      obtain ⟨p, rfl⟩ := start_states _ requests i s hs.state
      exact min_le_right _ _
  | succ n ih =>
    obtain ⟨ha, htracked⟩ := machineAt_tracked config requests n
    exact step_ordered _ n ha htracked ih.1 ih.2

structure Since (k : Nat) (s : State) (r : SequenceResult) (s' : State) (r' : SequenceResult) :
    Prop where
  first : r'.firstTokenStep = r.firstTokenStep ∨ r.firstTokenStep < 0 ∧ k ≤ r'.firstTokenStep
  done : s.done = true → s' = s ∧ r' = r
  completed : s.done = false → r'.status = .completed → k ≤ r'.completionStep

theorem Turn.unfinished {n : Nat} {a : Impl} {s : State} {r : SequenceResult} {o : Outcome}
    (h : Turn n a s r o) : s.done = false := by
  cases h with
  | prefill budget hb hc h => exact ((prefillCandidate_iff s).mp hc).1
  | decode hc h => exact ((decodeCandidate_iff s).mp hc).1
  | complete hd hr hm ho => exact hd

/-- A turn of step `n` touches the first token of its result only when there was none, and
completes it only with `n`. -/
theorem Turn.result {n : Nat} {a : Impl} {s : State} {r : SequenceResult} {o : Outcome}
    (h : Turn n a s r o) :
    (o.result.firstTokenStep = r.firstTokenStep ∨
      r.firstTokenStep < 0 ∧ o.result.firstTokenStep = n) ∧
    (o.result.status = .completed → o.result.completionStep = n ∨
      r.status = .completed ∧ o.result.completionStep = r.completionStep) := by
  have htoken : (r.token n).firstTokenStep = r.firstTokenStep ∨
      r.firstTokenStep < 0 ∧ (r.token n).firstTokenStep = n := by
    unfold SequenceResult.token
    split_ifs with hfirst
    · exact Or.inr ⟨hfirst, rfl⟩
    · exact Or.inl rfl
  have hkept : (r.token n).status = r.status ∧ (r.token n).completionStep = r.completionStep := by
    unfold SequenceResult.token
    split_ifs <;> exact ⟨rfl, rfl⟩
  cases h with
  | prefill budget hb hc h =>
    cases h with
    | refuse ha hok => exact ⟨Or.inl rfl, nofun⟩
    | accept ha hok => exact ⟨Or.inl rfl, fun hc => Or.inr ⟨hc, rfl⟩⟩
    | consume ha => exact ⟨Or.inl rfl, fun hc => Or.inr ⟨hc, rfl⟩⟩
  | decode hc h =>
    cases h with
    | refuse hok => exact ⟨Or.inl rfl, nofun⟩
    | token hok hne => exact ⟨htoken, fun hc => Or.inr ⟨hkept.1.symm.trans hc, hkept.2⟩⟩
    | last hok heq => exact ⟨htoken, fun _ => Or.inl rfl⟩
  | complete hd hr hm ho =>
    subst ho
    exact ⟨Or.inl rfl, fun _ => Or.inl rfl⟩

theorem Turn.since {k n : Nat} (hk : k ≤ n) {a : Impl} {s s' : State} {r r' : SequenceResult}
    {o : Outcome} (ho : Turn n a s' r' o) (h : Since k s r s' r') :
    Since k s r o.state o.result := by
  obtain ⟨hfirst, hstatus⟩ := ho.result
  have hd : s.done = false := by
    by_contra hdone
    obtain ⟨rfl, -⟩ := h.done (by simpa using hdone)
    exact hdone ho.unfinished
  refine ⟨?_, fun hdone => absurd (hd.symm.trans hdone) Bool.false_ne_true, fun _ hc => ?_⟩
  · have hold := h.first
    omega
  · rcases hstatus hc with hn | ⟨hcompleted, hsame⟩
    · omega
    · exact hsame ▸ h.completed hd hcompleted

theorem Told.since {k : Nat} {s : State} {r : SequenceResult} (h : Told k s r) :
    Since k s r s r :=
  ⟨Or.inl rfl, fun _ => ⟨rfl, rfl⟩,
    fun hd hc => absurd ((h.unfinished hd).1.symm.trans hc) (by simp)⟩

theorem machineAt_since (config : ContinuousBatcherConfig) (k d : Nat) {i : Nat} {s : State}
    {r : SequenceResult} (hslot : (machineAt config requests k).Slot i s r) {s' : State}
    {r' : SequenceResult} (hslot' : (machineAt config requests (k + d)).Slot i s' r') :
    Since k s r s' r' := by
  induction d generalizing s' r' with
  | zero =>
    obtain ⟨rfl, rfl⟩ := hslot.unique hslot'
    exact ((machineAt_tracked config requests k).2.told i s r hslot).since
  | succ d ih =>
    obtain ⟨ha, -⟩ := machineAt_tracked config requests (k + d)
    refine (step_turns (continuousBatcher config) (k + d) ha (motive := fun m _ =>
      ∀ (t : State) (u : SequenceResult), m.Slot i t u → Since k s r t u) ?_ ?_).2 s' r' hslot'
    · intro m step j t u o h _ htu ho v w hvw
      rcases (htu.put o).mp hvw with ⟨rfl, rfl, rfl⟩ | ⟨-, hvw⟩
      · exact ho.since (Nat.le_add_right k d) (h t u htu)
      · exact h v w hvw
    · exact fun t u htu => ih htu

/-- The results of a run keep the order of rank: in first tokens, and in completions. -/
def ResultsOrdered (requests : List SequenceRequest) (r : ContinuousBatchingRun) : Prop :=
  ∀ (i j : Nat) (p q : SequenceRequest) (ri rj : SequenceResult), Outranks requests i j →
    requests[i]? = some p → requests[j]? = some q → r.results[i]? = some ri →
    r.results[j]? = some rj → ri.status ≠ .rejected → 0 < p.maxGeneratedTokens →
    0 ≤ rj.firstTokenStep →
      (0 ≤ ri.firstTokenStep ∧ ri.firstTokenStep ≤ rj.firstTokenStep) ∧
      (ri.status = .completed → rj.status = .completed →
        p.maxGeneratedTokens ≤ q.maxGeneratedTokens → ri.completionStep ≤ rj.completionStep)

theorem generated_after_first (config : ContinuousBatcherConfig) {n j : Nat} {t : State}
    {v : SequenceResult} (hslot : (machineAt config requests n).Slot j t v) {f : Nat}
    (hf : v.firstTokenStep = f) :
    f < n ∧ ∀ t' v', (machineAt config requests (f + 1)).Slot j t' v' → 0 < t'.generated := by
  have hfirst := ((machineAt_tracked config requests n).2.told j t v hslot).first
  have hlt : f < n := by
    split_ifs at hfirst <;> omega
  refine ⟨hlt, fun t' v' hslot' => ?_⟩
  have htold := (machineAt_tracked config requests (f + 1)).2.told j t' v' hslot'
  have hsince := (machineAt_since config (f + 1) (n - (f + 1)) hslot' (by
    rw [Nat.add_sub_cancel' hlt]
    exact hslot)).first
  by_contra hnone
  have hzero : t'.generated = 0 := by
    have hrange := htold.range
    omega
  have hfirst' := htold.first
  rw [if_pos hzero] at hfirst'
  omega

/-- From the step after its completion on a sequence stays as it is. -/
theorem same_after_completion (config : ContinuousBatcherConfig) {n j : Nat} {t : State}
    {v : SequenceResult} (hslot : (machineAt config requests n).Slot j t v)
    (hcompleted : v.status = .completed) {c : Nat} (hc : v.completionStep = c) :
    c < n ∧ ∀ t' v', (machineAt config requests (c + 1)).Slot j t' v' → t = t' ∧ v = v' := by
  have hsteps := ((machineAt_tracked config requests n).2.told j t v hslot).steps hcompleted
  have hlt : c < n := by omega
  refine ⟨hlt, fun t' v' hslot' => ?_⟩
  have hsince := machineAt_since config (c + 1) (n - (c + 1)) hslot' (by
    rw [Nat.add_sub_cancel' hlt]
    exact hslot)
  cases hd : t'.done with
  | true => exact hsince.done hd
  | false =>
    have hlate := hsince.completed hd hcompleted
    omega

theorem not_rejected_before (config : ContinuousBatcherConfig) {n k i : Nat} (hk : k ≤ n)
    {s s' : State} {r r' : SequenceResult} (hslot : (machineAt config requests n).Slot i s r)
    (hslot' : (machineAt config requests k).Slot i s' r') (h : ¬ Rejected s r) :
    ¬ Rejected s' r' := by
  rintro ⟨hd, hstatus⟩
  obtain ⟨rfl, rfl⟩ := (machineAt_since config k (n - k) hslot' (by
    rw [Nat.add_sub_cancel' hk]
    exact hslot)).done hd
  exact h ⟨hd, hstatus⟩

theorem machineAt_results_ordered (config : ContinuousBatcherConfig) {n i j : Nat}
    {p q : SequenceRequest} {s t : State} {r v : SequenceResult} (hij : Outranks requests i j)
    (hp : requests[i]? = some p) (hq : requests[j]? = some q)
    (hi : (machineAt config requests n).Slot i s r)
    (hj : (machineAt config requests n).Slot j t v) (hrejected : ¬ Rejected s r)
    (hpos : 0 < p.maxGeneratedTokens) (hfirst : 0 ≤ v.firstTokenStep) :
    (0 ≤ r.firstTokenStep ∧ r.firstTokenStep ≤ v.firstTokenStep) ∧
      (r.status = .completed → v.status = .completed →
        p.maxGeneratedTokens ≤ q.maxGeneratedTokens → r.completionStep ≤ v.completionStep) := by
  constructor
  · obtain ⟨f, hf⟩ := Int.eq_ofNat_of_zero_le hfirst
    obtain ⟨hlt, hgenerated⟩ := generated_after_first config hj hf
    obtain ⟨s', r', hi', hsp⟩ := machineAt_slot config hp (f + 1)
    obtain ⟨t', v', hj', -⟩ := machineAt_slot config hq (f + 1)
    have hle := (machineAt_ordered config requests (f + 1)).2 i j s' t' r' hij hi' hj'.state
      (not_rejected_before config hlt hi hi' hrejected)
    have hone := hgenerated t' v' hj'
    have hfirst' := ((machineAt_tracked config requests (f + 1)).2.told i s' r' hi').first
    have hmax : s'.request.maxGeneratedTokens = max 0 p.maxGeneratedTokens := by rw [hsp]; rfl
    rw [if_neg (by omega)] at hfirst'
    have hsince := (machineAt_since config (f + 1) (n - (f + 1)) hi' (by
      rw [Nat.add_sub_cancel' hlt]
      exact hi)).first
    omega
  · intro hrc hvc hmaxle
    have htold := (machineAt_tracked config requests n).2.told j t v hj
    obtain ⟨c, hc⟩ := Int.eq_ofNat_of_zero_le (htold.steps hvc).1
    obtain ⟨hlt, hsame⟩ := same_after_completion config hj hvc hc
    obtain ⟨s', r', hi', hsp⟩ := machineAt_slot config hp (c + 1)
    obtain ⟨t', v', hj', htq⟩ := machineAt_slot config hq (c + 1)
    obtain ⟨rfl, rfl⟩ := hsame t' v' hj'
    have htold' := (machineAt_tracked config requests (c + 1)).2.told i s' r' hi'
    have hdone : t.done = true := by
      by_contra hd
      have hwaits := htold.unfinished (by simpa using hd)
      exact absurd (hwaits.1.symm.trans hvc) (by simp)
    have hall := ((htold.finished hdone).2.mp hvc).2
    have hle := (machineAt_ordered config requests (c + 1)).2 i j s' t r' hij hi' hj'.state
      (not_rejected_before config hlt hi hi' hrejected)
    have hmaxs : s'.request.maxGeneratedTokens = max 0 p.maxGeneratedTokens := by rw [hsp]; rfl
    have hmaxt : t.request.maxGeneratedTokens = max 0 q.maxGeneratedTokens := by rw [htq]; rfl
    have hsdone : s'.done = true := by
      by_contra hd
      have hwaits := (htold'.unfinished (by simpa using hd)).2 (by omega)
      omega
    obtain ⟨rfl, rfl⟩ := (machineAt_since config (c + 1) (n - (c + 1)) hi' (by
      rw [Nat.add_sub_cancel' hlt]
      exact hi)).done hsdone
    have hsteps := htold'.steps hrc
    omega

/-- At every step who is outranked is behind, in prefill and in tokens; and so are its first
token and its completion in the results of the run. -/
theorem no_priority_inversion (config : ContinuousBatcherConfig)
    (requests : List SequenceRequest) (isCancelled : Nat → Bool) :
    (∀ (n i j : Nat) (s t : State) (r : SequenceResult), Outranks requests i j →
      (machineAt config requests n).Slot i s r →
      (machineAt config requests n).states[j]? = some t →
        (t.promptAllocated = true → s.promptReady = true ∨ s.done = true) ∧
        (¬ (s.done = true ∧ r.status = .rejected) →
          min s.request.maxGeneratedTokens t.generated ≤ s.generated)) ∧
    ∃ r, (∀ fuel, workBound requests ≤ fuel →
        run config requests isCancelled fuel = some r) ∧ ResultsOrdered requests r := by
  refine ⟨fun n i j s t r hij hs ht => ?_, ?_⟩
  · obtain ⟨hp, htokens⟩ := machineAt_ordered config requests n
    exact ⟨hp i j s t hij hs.state ht, htokens i j s t r hij hs ht⟩
  obtain ⟨n, out, hended, hout⟩ := loop_terminates config requests isCancelled
  refine ⟨finish out, fun fuel hfuel => by rw [run_eq, hout fuel hfuel, Option.map_some], ?_⟩
  intro i j p q ri rj hij hp hq hri hrj hrejected hpos hfirst
  obtain ⟨s, r, hi, -⟩ := machineAt_slot config hp n
  obtain ⟨t, v, hj, -⟩ := machineAt_slot config hq n
  obtain ⟨ri', hi', hri'⟩ := hended.slot hi
  obtain ⟨rj', hj', hrj'⟩ := hended.slot hj
  obtain rfl := Option.some.inj (hri.symm.trans hi'.result)
  obtain rfl := Option.some.inj (hrj.symm.trans hj'.result)
  have hnot : ¬ Rejected s r := by
    rintro ⟨hd, hstatus⟩
    rcases hri' with ⟨-, rfl⟩ | ⟨hd', -⟩
    · exact hrejected hstatus
    · exact Bool.false_ne_true (hd'.symm.trans hd)
  -- a cancellation changes neither steps nor whether a result is complete
  have hsame : ∀ (s : State) (r r' : SequenceResult), (s.done = true ∧ r' = r) ∨
      (s.done = false ∧ isCancelled n = true ∧ r' = r.cancel) →
      r'.firstTokenStep = r.firstTokenStep ∧ r'.completionStep = r.completionStep ∧
        (r'.status = .completed → r.status = .completed) := by
    rintro s r r' (⟨-, rfl⟩ | ⟨-, -, rfl⟩)
    · exact ⟨rfl, rfl, id⟩
    · exact ⟨rfl, rfl, nofun⟩
  obtain ⟨hifirst, histep, hicompleted⟩ := hsame s r ri hri'
  obtain ⟨hjfirst, hjstep, hjcompleted⟩ := hsame t v rj hrj'
  obtain ⟨hfirsts, hsteps⟩ := machineAt_results_ordered config hij hp hq hi hj hnot hpos
    (hjfirst ▸ hfirst)
  rw [hifirst, hjfirst, histep, hjstep]
  exact ⟨hfirsts, fun hic hjc => hsteps (hicompleted hic) (hjcompleted hjc)⟩

end Laminar.Scheduler
