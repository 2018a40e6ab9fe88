import Laminar.Scheduler.Lifecycle

/-! The decode loop, sequence by sequence: whoever it serves gets a token and is named, or is
rejected; the others stay as they were. -/
namespace Laminar.Scheduler
open Laminar.Kv

def Machine.rejectedAt (m m' : Machine) (i : Nat) : Bool :=
  m.states[i]?.any (fun s => !s.done) && m'.states[i]?.any (fun s => s.done) &&
    m'.results[i]?.any (fun r => r.status == .rejected)

variable {m : Machine}

theorem rejectedAt_iff {m' : Machine} {i : Nat} {s t : State} {u : SequenceResult}
    (hs : m.states[i]? = some s) (hd : s.done = false) (ht : m'.Slot i t u) :
    m.rejectedAt m' i = true ↔ Rejected t u := by
  simp [Machine.rejectedAt, hs, hd, ht.state, ht.result, Rejected]

/-- A decode turn rejects its sequence, or brings it a token and names it. -/
theorem DecodeTurn.served {n : Nat} {a : Impl} {s : State} {r : SequenceResult} {o : Outcome}
    (h : DecodeTurn n a s r o) (hd : s.done = false) :
    (Rejected o.state o.result ∧ o.state.generated = s.generated ∧ o.decoded = []) ∨
      (¬ Rejected o.state o.result ∧ o.state.generated = s.generated + 1 ∧
        o.decoded = [s.request.id]) := by
  cases h with
  | refuse hok => exact Or.inl ⟨⟨rfl, rfl⟩, rfl, rfl⟩
  | token hok hne =>
    exact Or.inr ⟨fun hrej => Bool.false_ne_true (hd.symm.trans hrej.1), rfl, rfl⟩
  | last hok heq => exact Or.inr ⟨fun hrej => absurd hrej.2 (by simp), rfl, rfl⟩

theorem decodeLoop_others (n : Nat) (ids : List Nat) (step : SchedulerStep) (ha : m.Aligned)
    (hc : m.Candidates decodeCandidate ids) {i : Nat} (hi : i ∉ ids) :
    (decodeLoop n ids m step).1.states[i]? = m.states[i]? ∧
      (decodeLoop n ids m step).1.results[i]? = m.results[i]? := by
  induction ids generalizing m step with
  | nil => exact ⟨rfl, rfl⟩
  | cons j rest ih =>
    obtain ⟨hij, hrest⟩ := List.ne_and_not_mem_of_not_mem_cons hi
    obtain ⟨u, hu, -⟩ := hc.candidate j List.mem_cons_self
    obtain ⟨r, o, -, ho, hloop⟩ := decodeLoop_turn n ha hu rest step
    rw [hloop]
    obtain ⟨hstate, hresult⟩ := ih (step.add o) (ha.put hu ho.index) (hc.put o) hrest
    exact ⟨hstate.trans (List.getElem?_set_ne (Ne.symm hij)),
      hresult.trans (List.getElem?_set_ne (Ne.symm hij))⟩

theorem decodeLoop_prefillTokens (n : Nat) (ids : List Nat) (step : SchedulerStep)
    (ha : m.Aligned) (hc : m.Candidates decodeCandidate ids) :
    (decodeLoop n ids m step).2.prefillTokens = step.prefillTokens := by
  induction ids generalizing m step with
  | nil => rfl
  | cons j rest ih =>
    obtain ⟨u, hu, -⟩ := hc.candidate j List.mem_cons_self
    obtain ⟨r, o, -, ho, hloop⟩ := decodeLoop_turn n ha hu rest step
    rw [hloop, ih (step.add o) (ha.put hu ho.index) (hc.put o)]
    cases ho <;> exact Int.add_zero _

theorem decodeLoop_head (n : Nat) {j : Nat} {rest : List Nat} (step : SchedulerStep)
    (ha : m.Aligned) (hc : m.Candidates decodeCandidate (j :: rest)) {s : State}
    {r : SequenceResult} (hslot : m.Slot j s r) {o : Outcome} (ho : o.state.index = s.index) :
    (decodeLoop n rest (m.put j o) step).1.Slot j o.state o.result := by
  obtain ⟨hj, -⟩ := List.nodup_cons.mp hc.nodup
  have hput := (hslot.put o).mpr (Or.inl ⟨rfl, rfl, rfl⟩)
  obtain ⟨hstate, hresult⟩ :=
    decodeLoop_others n rest step (ha.put hslot.state ho) (hc.put o) hj
  exact ⟨hstate.trans hput.state, hresult.trans hput.result⟩

/-- Every sequence that the decode loop serves is rejected or gets a token. -/
theorem decodeLoop_outcome (n : Nat) (ids : List Nat) (step : SchedulerStep) (ha : m.Aligned)
    (hc : m.Candidates decodeCandidate ids) {i : Nat} {s : State} (hi : i ∈ ids)
    (hs : m.states[i]? = some s) :
    ∃ t u, (decodeLoop n ids m step).1.Slot i t u ∧
      ((Rejected t u ∧ t.generated = s.generated) ∨
        (¬ Rejected t u ∧ t.generated = s.generated + 1)) := by
  induction ids generalizing m step with
  | nil => exact absurd hi (by simp)
  | cons j rest ih =>
    obtain ⟨hj, -⟩ := List.nodup_cons.mp hc.nodup
    obtain ⟨u, hu, hcand⟩ := hc.candidate j List.mem_cons_self
    obtain ⟨r, o, hslot, ho, hloop⟩ := decodeLoop_turn n ha hu rest step
    rw [hloop]
    rcases List.mem_cons.mp hi with rfl | hi
    · obtain rfl := Option.some.inj (hs.symm.trans hu)
      refine ⟨o.state, o.result, decodeLoop_head n (step.add o) ha hc hslot ho.index, ?_⟩
      rcases ho.served ((decodeCandidate_iff s).mp hcand).1 with ⟨hrej, hsame, -⟩ | ⟨hnot, hone, -⟩
      · exact Or.inl ⟨hrej, hsame⟩
      · exact Or.inr ⟨hnot, hone⟩
    · have hne : j ≠ i := fun hji => hj (hji ▸ hi)
      exact ih (step.add o) (ha.put hu ho.index) (hc.put o) hi
        ((List.getElem?_set_ne hne).trans hs)

/-- The decode loop names whom it serves and does not reject, in the order it serves them. -/
theorem decodeLoop_named (n : Nat) (f : Nat → Bytes) (ids : List Nat) (step : SchedulerStep)
    (ha : m.Aligned) (hc : m.Candidates decodeCandidate ids)
    (hf : ∀ (i : Nat) (s : State), m.states[i]? = some s → s.request.id = f i) :
    (decodeLoop n ids m step).2.decodedSequenceIds = step.decodedSequenceIds ++
      (ids.filter (fun i => !m.rejectedAt (decodeLoop n ids m step).1 i)).map f := by
  induction ids generalizing m step with
  | nil => simp [decodeLoop]
  | cons j rest ih =>
    obtain ⟨hj, -⟩ := List.nodup_cons.mp hc.nodup
    obtain ⟨u, hu, hcand⟩ := hc.candidate j List.mem_cons_self
    obtain ⟨r, o, hslot, ho, hloop⟩ := decodeLoop_turn n ha hu rest step
    have hd := ((decodeCandidate_iff u).mp hcand).1
    have hrequest : o.state.request = u.request := (Turn.decode hcand ho).request
    have hf' : ∀ (i : Nat) (s : State), (m.put j o).states[i]? = some s → s.request.id = f i := by
      intro i s hs
      rcases Machine.put_states hs with ⟨rfl, rfl⟩ | ⟨-, hs⟩
      · rw [hrequest]
        exact hf i u hu
      · exact hf i s hs
    have hrest := ih (step.add o) (ha.put hu ho.index) (hc.put o) hf'
    have hhead := rejectedAt_iff hu hd (decodeLoop_head n (step.add o) ha hc hslot ho.index)
    rw [hloop]
    set d := decodeLoop n rest (m.put j o) (step.add o)
    have hsame : rest.filter (fun i => !(m.put j o).rejectedAt d.1 i) =
        rest.filter (fun i => !m.rejectedAt d.1 i) := by
      refine List.filter_congr fun i hi => ?_
      have hne : j ≠ i := fun hji => hj (hji ▸ hi)
      simp only [Machine.rejectedAt, Machine.put, List.getElem?_set_ne hne]
    rw [hrest, hsame]
    rcases ho.served hd with ⟨hrej, -, hnone⟩ | ⟨hnot, -, hone⟩
    · simp [SchedulerStep.add, hnone, hhead.mpr hrej]
    · simp [SchedulerStep.add, hone, mt hhead.mp hnot, hf j u hu]

end Laminar.Scheduler
