import Laminar.Pool.InFlight

/-! Routing between concurrent calls. A call reads the endpoints one after the other and begins
later: what it begins on is least loaded as far as its reads still hold. -/
namespace Laminar.Pool
open Laminar.Gateway (Config Error StreamHandler StreamResponse)
open Laminar.Transition

theorem lessLoaded_trans {a b c : WorkerSelectionState} (hab : lessLoaded a b = true)
    (hbc : lessLoaded b c = true) : lessLoaded a c = true := by
  simp only [lessLoaded] at hab hbc ⊢
  split_ifs at hab hbc ⊢ <;> simp only [decide_eq_true_eq] at hab hbc ⊢ <;> omega

theorem lessLoaded_irrefl (a : WorkerSelectionState) : lessLoaded a a = false := by
  simp [lessLoaded]

theorem inFlight_le_of_not_lessLoaded {a b : WorkerSelectionState}
    (h : lessLoaded a b = false) : b.inFlight ≤ a.inFlight := by
  simp only [lessLoaded] at h
  split_ifs at h <;> simp only [decide_eq_false_iff_not] at h <;> omega

def Best (reads : List WorkerSelectionState) (best : WorkerSelectionState) : Prop :=
  best ∈ reads ∧ best.circuitOpen = false ∧
    ∀ r ∈ reads, r.circuitOpen = false → lessLoaded r best = false

def Found (reads : List WorkerSelectionState) : Option WorkerSelectionState → Prop
  | none => ∀ r ∈ reads, r.circuitOpen = true
  | some best => Best reads best

theorem Best.append_open {reads : List WorkerSelectionState} {best state : WorkerSelectionState}
    (h : Best reads best) (hstate : state.circuitOpen = false → lessLoaded state best = false) :
    Best (reads ++ [state]) best := by
  obtain ⟨hmem, hclosed, hleast⟩ := h
  refine ⟨List.mem_append_left _ hmem, hclosed, fun r hr hr' => ?_⟩
  obtain hr | hr := List.mem_append.mp hr
  · exact hleast r hr hr'
  · obtain rfl := List.mem_singleton.mp hr
    exact hstate hr'

theorem best_append_new {reads : List WorkerSelectionState} {state : WorkerSelectionState}
    (hclosed : state.circuitOpen = false)
    (hleast : ∀ r ∈ reads, r.circuitOpen = false → lessLoaded r state = false) :
    Best (reads ++ [state]) state := by
  refine ⟨by simp, hclosed, fun r hr hr' => ?_⟩
  obtain hr | hr := List.mem_append.mp hr
  · exact hleast r hr hr'
  · rw [List.mem_singleton.mp hr]
    exact lessLoaded_irrefl _

theorem Found.consider {reads : List WorkerSelectionState} {selected : Option WorkerSelectionState}
    (h : Found reads selected) (state : WorkerSelectionState) :
    Found (reads ++ [state]) (consider selected state) := by
  unfold Pool.consider
  split_ifs with hopen
  · cases selected with
    | none =>
      intro r hr
      obtain hr | hr := List.mem_append.mp hr
      · exact h r hr
      · rw [List.mem_singleton.mp hr]
        exact hopen
    | some best => exact Best.append_open h fun hclosed => by simp [hopen] at hclosed
  · have hclosed : state.circuitOpen = false := by simpa using hopen
    cases selected with
    | none =>
      refine best_append_new hclosed fun r hr hr' => ?_
      rw [h r hr] at hr'
      exact absurd hr' (by simp)
    | some best =>
      simp only
      split_ifs with hless
      · refine best_append_new hclosed fun r hr hr' => ?_
        by_contra hcontra
        have htrans := lessLoaded_trans (by simpa using hcontra) hless
        rw [h.2.2 r hr hr'] at htrans
        exact absurd htrans (by simp)
      · exact Best.append_open h fun _ => by simpa using hless

theorem found_foldl (reads : List WorkerSelectionState) :
    Found reads (reads.foldl consider none) := by
  induction reads using List.reverseRecOn with
  | nil => exact fun r hr => absurd hr (by simp)
  | append_singleton reads state ih =>
    rw [List.foldl_append]
    exact ih.consider state

def Ordered (reads : List WorkerSelectionState) : Prop :=
  ∀ (j : Nat) (r : WorkerSelectionState), reads[j]? = some r → r.index = j

def CallPC.Chose (size : Nat) : CallPC → Prop
  | .select _ i selected reads =>
    i ≤ size ∧ reads.length = i ∧ Ordered reads ∧ selected = reads.foldl consider none
  | .begin i reads =>
    reads.length = size ∧ Ordered reads ∧
      ∃ best, reads.foldl consider none = some best ∧ best.index = i
  | .metrics _ next => next.Chose size
  | .finish _ _ _ _ next => next.Chose size
  | _ => True

structure Serving.Routed (s : Serving) : Prop where
  index : ∀ i, (s.endpoints i).index = i
  chose : ∀ k, (s.calls k).pc.Chose s.size

variable {cfg : Config} {s s' : Serving}

theorem Serving.Routed.update (h : s.Routed) {k : Nat} {f : Call → Call}
    (hchose : (f (s.calls k)).pc.Chose s.size) : (s.update k f).Routed := by
  refine ⟨h.index, fun j => ?_⟩
  rw [update_calls]
  split_ifs
  · exact hchose
  · exact h.chose j

theorem Serving.Routed.atEndpoint (h : s.Routed) {i : Nat} {f : WorkerEndpoint → WorkerEndpoint}
    (hindex : (f (s.endpoints i)).index = (s.endpoints i).index) : (s.atEndpoint i f).Routed := by
  refine ⟨fun j => ?_, h.chose⟩
  rw [atEndpoint_endpoints]
  split_ifs with hj
  · subst hj
    exact hindex.trans (h.index j)
  · exact h.index j

theorem Serving.Routed.setMetric (h : s.Routed) (op : MetricOp) : (s.setMetric op).Routed := by
  cases op with
  | batches i => exact h.atEndpoint (f := fun e => { e with batchesMetric := _ }) rfl
  | failures i => exact h.atEndpoint (f := fun e => { e with failuresMetric := _ }) rfl
  | inFlight i value => exact h.atEndpoint (f := fun e => { e with inFlightMetric := value }) rfl
  | circuit i isOpen => exact h.atEndpoint (f := fun e => { e with circuitMetric := isOpen }) rfl

theorem ordered_append {reads : List WorkerSelectionState} {r : WorkerSelectionState}
    (h : Ordered reads) (hr : r.index = reads.length) : Ordered (reads ++ [r]) := by
  intro j r' hj
  rw [List.getElem?_append] at hj
  split_ifs at hj with hlt
  · exact h j r' hj
  · have hj' : j = reads.length := by
      by_contra hne
      rw [List.getElem?_eq_none (by simp; omega)] at hj
      exact absurd hj (by simp)
    subst hj'
    simp only [Nat.sub_self, List.getElem?_cons_zero, Option.some.injEq] at hj
    rw [← hj, hr]

theorem Serving.Routed.move (h : s.Routed) {a : Action} (hmove : s.Move cfg a s') :
    s'.Routed := by
  have hchose := h.chose
  cases hmove with
  | pass time => exact ⟨h.index, h.chose⟩
  | observe i now hnow => exact h.atEndpoint (refreshCircuitLocked_load _ now).1
  | call kind =>
    have hnew : Serving.Routed { s with started := s.started + 1 } := ⟨h.index, h.chose⟩
    exact hnew.update (f := fun _ => { kind := kind }) trivial
  | cancel k hk => exact h.update (h.chose k)
  | start k hk hpc =>
    exact h.update ⟨Nat.zero_le _, rfl, fun j r hj => by simp at hj, rfl⟩
  | read k hk now i selected reads hpc hi =>
    have hk' := hchose k
    rw [hpc] at hk'
    obtain ⟨-, hlength, hordered, hselected⟩ := hk'
    refine (h.atEndpoint (refreshCircuitLocked_load _ now).1).update ⟨hi, ?_, ?_, ?_⟩
    · rw [List.length_append, List.length_singleton, hlength]
    · refine ordered_append hordered ?_
      rw [selectionState_eq, hlength]
      exact h.index i
    · rw [List.foldl_append, ← hselected]
      rfl
  | choose k hk now i best reads hpc hi =>
    have hk' := hchose k
    rw [hpc] at hk'
    obtain ⟨hle, hlength, hordered, hselected⟩ := hk'
    exact h.update ⟨hlength.trans (Nat.le_antisymm hle hi), hordered, best, hselected.symm, rfl⟩
  | refuse k hk now i selected reads err hpc => exact h.update trivial
  | begin k hk i reads hpc => exact (h.atEndpoint rfl).update trivial
  | measured k hk next hpc =>
    have hk' := hchose k
    rw [hpc] at hk'
    exact h.update hk'
  | measure k hk op ops next hpc =>
    have hk' := hchose k
    rw [hpc] at hk'
    have hsize : (s.setMetric op).size = s.size := by cases op <;> rfl
    exact (h.setMetric op).update (by rw [hsize]; exact hk')
  | finish k hk i latency err now next ops hpc =>
    have hk' := hchose k
    rw [hpc] at hk'
    exact (h.atEndpoint (finish_load cfg _ latency err now).1).update hk'
  | fail k hk err hpc => exact h.update trivial
  | flushable k hk i handler hpc hkind => exact h.update trivial
  | unflushable k hk i handler hpc hkind => exact h.update trivial
  | answer k hk i err latency next hpc hnext =>
    refine h.update ?_
    obtain rfl | ⟨e, -, rfl⟩ := hnext <;> trivial
  | opened k hk i latency hpc => exact h.update trivial
  | event k hk i handler event latency hpc => exact h.update trivial
  | recvError k hk i handler err latency hpc honce => exact h.update trivial
  | recvAgain k hk i handler err latency hpc honce => exact h.update trivial
  | round k hk i handler h' event effects hpc => exact h.update trivial
  | lastRound k hk i handler result writeErr effects hpc hlast => exact h.update trivial

/-- A caller begins on an endpoint that holds no more calls than any other endpoint whose circuit
is closed. -/
def LeastLoaded (s : Serving) : Action → Prop
  | .advance k => ∀ i reads, (s.calls k).pc = .begin i reads → ∀ j < s.size,
    (s.endpoints j).circuitOpenLocked s.now = false →
      (s.endpoints i).inFlight ≤ (s.endpoints j).inFlight
  | _ => True

def CallPC.chosen : CallPC → Option (Nat × List WorkerSelectionState)
  | .begin i reads => some (i, reads)
  | _ => none

theorem CallPC.eq_of_chosen {pc : CallPC} {p : Nat × List WorkerSelectionState}
    (h : p ∈ pc.chosen) : pc = .begin p.1 p.2 := by
  cases pc with
  | begin i reads =>
    obtain rfl := Option.some.inj h
    rfl
  | _ => exact absurd h (by simp [chosen])

/-- A caller that begins has not been overtaken since its reads: no call was added to its endpoint,
and no other endpoint whose circuit is closed now has lost calls or had its circuit open. -/
def NotOvertaken (s : Serving) : Action → Prop
  | .advance k => ∀ i reads, (s.calls k).pc = .begin i reads →
    ∀ (j : Nat) (r : WorkerSelectionState), reads[j]? = some r →
    (j = i → (s.endpoints i).inFlight ≤ r.inFlight) ∧
    (j ≠ i → (s.endpoints j).circuitOpenLocked s.now = false →
      r.circuitOpen = false ∧ r.inFlight ≤ (s.endpoints j).inFlight)
  | _ => True

theorem notOvertaken_iff (s : Serving) (k : Nat) :
    (∀ p ∈ (s.calls k).pc.chosen, ∀ q ∈ p.2.zipIdx,
      (q.2 = p.1 → (s.endpoints p.1).inFlight ≤ q.1.inFlight) ∧
      (q.2 ≠ p.1 → (s.endpoints q.2).circuitOpenLocked s.now = false →
        q.1.circuitOpen = false ∧ q.1.inFlight ≤ (s.endpoints q.2).inFlight)) ↔
      NotOvertaken s (.advance k) := by
  constructor
  · intro h i reads hpc j r hr
    exact h (i, reads) (by rw [hpc]; rfl) (r, j) (List.mem_zipIdx_iff_getElem?.mpr hr)
  · intro h p hp q hq
    exact h p.1 p.2 (CallPC.eq_of_chosen hp) q.2 q.1 (List.mem_zipIdx_iff_getElem?.mp hq)

instance (s : Serving) (a : Action) : Decidable (NotOvertaken s a) :=
  match a with
  | .advance k => decidable_of_iff _ (notOvertaken_iff s k)
  | .pass _ => isTrue trivial
  | .call _ => isTrue trivial
  | .cancel _ => isTrue trivial
  | .answer .. => isTrue trivial
  | .recv .. => isTrue trivial
  | .deliver .. => isTrue trivial
  | .observe .. => isTrue trivial

theorem Serving.Routed.leastLoaded (h : s.Routed) {a : Action} (hreads : NotOvertaken s a) :
    LeastLoaded s a := by
  cases a with
  | advance k =>
    intro i reads hpc j hj hclosed
    have hchose := h.chose k
    rw [hpc] at hchose
    obtain ⟨hlength, hordered, best, hfold, hindex⟩ := hchose
    have hfound := found_foldl reads
    rw [hfold] at hfound
    obtain ⟨hmem, -, hleast⟩ := hfound
    obtain ⟨p, hp⟩ := List.mem_iff_getElem?.mp hmem
    have hpi : p = i := (hordered p best hp).symm.trans hindex
    have hbest := (hreads i reads hpc p best hp).1 hpi
    by_cases hji : j = i
    · rw [hji]
    · have hread : j < reads.length := hlength ▸ hj
      obtain ⟨r, hr⟩ : ∃ r, reads[j]? = some r := ⟨reads[j], List.getElem?_eq_getElem hread⟩
      obtain ⟨hopen, hle⟩ := (hreads i reads hpc j r hr).2 hji hclosed
      have hbound := inFlight_le_of_not_lessLoaded (hleast r (List.mem_of_getElem? hr) hopen)
      omega
  | _ => trivial

theorem newServing_routed (size : Nat) (streaming : Nat → Bool) :
    (newServing size streaming).Routed :=
  ⟨fun _ => rfl, fun _ => trivial⟩

/-- In every run in which no caller that begins was overtaken between its reads and its `begin`,
every caller begins on a least loaded endpoint. -/
theorem routing_leastLoaded (cfg : Config) (size : Nat) (streaming : Nat → Bool)
    (actions : List Action)
    (h : Along (step cfg.normalized) NotOvertaken (newServing size streaming) actions) :
    Along (step cfg.normalized) LeastLoaded (newServing size streaming) actions :=
  along_of_invariant h (newServing_routed size streaming)
    (fun _ _ _ hrouted hstep => hrouted.move (step_move hstep))
    (fun _ _ hrouted hreads => hrouted.leastLoaded hreads)

/-- Two calls that both read before either begins: both begin on the first of two idle workers. -/
theorem overtaken_bothOnOne :
    let cfg : Config := { promptTokens := fun n => n }
    let select : Nat → List Action := fun k => List.replicate 4 (.advance k)
    ∃ s s', run (step cfg.normalized) (newServing 2 fun _ => true)
        ([.call .batch, .call .batch] ++ select 0 ++ select 1 ++ [.advance 0]) = some s ∧
      ¬ LeastLoaded s (.advance 1) ∧ step cfg.normalized s (.advance 1) = some s' ∧
      (s'.calls 0).begun = some 0 ∧ (s'.calls 1).begun = some 0 ∧
      (s'.endpoints 1).inFlight = 0 := by
  intro cfg select
  refine ⟨_, _, rfl, fun hleast => ?_, rfl, rfl, rfl, rfl⟩
  exact absurd (hleast 0 _ rfl 1 (by decide) rfl) (by decide)

/-- Two overlapping calls, the second of which reads after the first has begun: they begin on
different workers. -/
theorem routing_overlapping :
    let cfg : Config := { promptTokens := fun n => n }
    let select : Nat → List Action := fun k => List.replicate 4 (.advance k)
    let actions : List Action :=
      [.call .batch, .call .batch] ++ select 0 ++ [.advance 0] ++ select 1 ++ [.advance 1]
    Along (step cfg.normalized) LeastLoaded (newServing 2 fun _ => true) actions ∧
      ∃ s, run (step cfg.normalized) (newServing 2 fun _ => true) actions = some s ∧
        (s.calls 0).begun = some 0 ∧ (s.calls 1).begun = some 1 := by
  intro cfg select actions
  exact ⟨routing_leastLoaded cfg 2 _ _ (by decide +kernel), _, rfl, rfl, rfl⟩

end Laminar.Pool
