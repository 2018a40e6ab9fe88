import Laminar.Gateway.Placement
import Laminar.Library.Sums

/-! The admission ledger over whole runs: every admitted token is subtracted once, by whichever
goroutine comes first, and before the call that was charged for it returns. -/
namespace Laminar.Gateway
open Laminar.Transition Laminar.Sums

/-- Nothing is left to subtract for this lease. -/
def AdmissionLease.Settled (l : AdmissionLease) : Prop := l.controller = true → l.done = true

theorem settled_spent (l : AdmissionLease) : l.spent.Settled := fun _ => rfl

structure AdmissionController.SameLimits (a a₀ : AdmissionController) : Prop where
  enabled : a.enabled = a₀.enabled
  maxInFlightTokens : a.maxInFlightTokens = a₀.maxInFlightTokens
  promptTokens : a.promptTokens = a₀.promptTokens
  estimatedOutputTokens : a.estimatedOutputTokens = a₀.estimatedOutputTokens

theorem AdmissionController.SameLimits.estimate {a a₀ : AdmissionController}
    (h : a.SameLimits a₀) (prompt : String) : a.estimate prompt = a₀.estimate prompt := by
  simp only [AdmissionController.estimate, h.promptTokens, h.estimatedOutputTokens]

theorem AdmissionController.SameLimits.release {a a₀ : AdmissionController}
    (h : a.SameLimits a₀) (tokens : Int) : (a.release tokens).SameLimits a₀ := by
  unfold AdmissionController.release
  split_ifs <;> exact ⟨h.enabled, h.maxInFlightTokens, h.promptTokens, h.estimatedOutputTokens⟩

def SubmitPC.Admitted : SubmitPC → Prop
  | .startSpan admitted => admitted = true
  | .enqueue => True
  | .queued => True
  | .wait => True
  | _ => False

structure Pipeline.Ledger (a₀ : AdmissionController) (p : Pipeline) : Prop where
  limits : p.admission.SameLimits a₀
  lease : ∀ k, (p.calls k).lease.controller = true → k < p.submitted ∧ 2 ≤ (p.calls k).pc.stage ∧
    (p.calls k).lease.tokens = a₀.estimate (p.calls k).prompt
  total : p.admission.inFlightTokens = ∑ k ∈ Finset.range p.submitted, (p.calls k).lease.held
  bound : 0 < a₀.maxInFlightTokens → p.admission.inFlightTokens ≤ a₀.maxInFlightTokens
  nodup : p.released.Nodup
  released : ∀ k, k ∈ p.released ↔
    (p.calls k).lease.controller = true ∧ (p.calls k).lease.done = true
  refused : ∀ k, (p.calls k).pc = .startSpan false → (p.calls k).lease.controller = false
  admitted : a₀.enabled = true → ∀ k, (p.calls k).pc.Admitted → (p.calls k).lease.controller = true
  leave : ∀ k todo resp, (p.calls k).pc = .leave todo resp →
    (p.calls k).lease.Settled ∨ .release k ∈ todo
  returned : ∀ k resp, (p.calls k).pc = .returned resp → (p.calls k).lease.Settled
  resp : ∀ k, (p.calls k).respChan ≠ none → (p.calls k).lease.Settled
  respond : ∀ k resp, .respond k resp ∈ p.todo → (p.calls k).lease.Settled

variable {a₀ : AdmissionController} {maxBatchSize : Int} {p p' : Pipeline}

theorem Pipeline.Ledger.held_nonneg (hout : 0 ≤ a₀.estimatedOutputTokens) (h : p.Ledger a₀)
    (k : Nat) : 0 ≤ (p.calls k).lease.held := by
  unfold AdmissionLease.held
  split_ifs with hheld
  · rw [(h.lease k hheld.1).2.2]
    exact (estimate_pos a₀ hout _).le
  · exact le_refl 0

/-- The tokens of a lease are part of the total, so that no release takes it below zero. -/
theorem Pipeline.Ledger.held_le (hout : 0 ≤ a₀.estimatedOutputTokens) (h : p.Ledger a₀) (k : Nat) :
    (p.calls k).lease.held ≤ p.admission.inFlightTokens := by
  by_cases hk : k < p.submitted
  · rw [h.total]
    exact Finset.single_le_sum (f := fun k => (p.calls k).lease.held)
      (fun j _ => h.held_nonneg hout j) (Finset.mem_range.mpr hk)
  · have hnone : (p.calls k).lease.held = 0 := by
      unfold AdmissionLease.held
      rw [if_neg]
      exact fun hheld => hk (h.lease k hheld.1).1
    rw [hnone, h.total]
    exact Finset.sum_nonneg fun j _ => h.held_nonneg hout j

theorem Pipeline.Ledger.update (h : p.Ledger a₀) {k : Nat} {f : Call → Call}
    (hlease : (f (p.calls k)).lease = (p.calls k).lease)
    (hprompt : (f (p.calls k)).prompt = (p.calls k).prompt)
    (hstage : (p.calls k).pc.stage ≤ (f (p.calls k)).pc.stage)
    (hrefused : (f (p.calls k)).pc = .startSpan false → (p.calls k).lease.controller = false)
    (hadmitted : (f (p.calls k)).pc.Admitted → (p.calls k).pc.Admitted)
    (hleave : ∀ todo resp, (f (p.calls k)).pc = .leave todo resp →
      (p.calls k).lease.Settled ∨ .release k ∈ todo)
    (hreturned : ∀ resp, (f (p.calls k)).pc = .returned resp → (p.calls k).lease.Settled)
    (hresp : (f (p.calls k)).respChan ≠ none → (p.calls k).lease.Settled) :
    (p.update k f).Ledger a₀ := by
  have hsame : ∀ j, ((p.update k f).calls j).lease = (p.calls j).lease := by
    intro j
    rw [update_calls]
    split_ifs with hj
    · rw [hlease, hj]
    · rfl
  refine ⟨h.limits, fun j hj => ?_, ?_, h.bound, h.nodup, fun j => ?_, fun j hj => ?_,
    fun hon j hj => ?_, fun j todo resp hj => ?_, fun j resp hj => ?_, fun j hj => ?_,
    fun j resp hj => ?_⟩
  · rw [hsame] at hj
    obtain ⟨hlt, hle, htokens⟩ := h.lease j hj
    rw [hsame, update_calls]
    split_ifs with hjk
    · subst hjk
      exact ⟨hlt, hle.trans hstage, by rw [hprompt]; exact htokens⟩
    · exact ⟨hlt, hle, htokens⟩
  · simp only [hsame]
    exact h.total
  · rw [hsame]
    exact h.released j
  · rw [hsame]
    rw [update_calls] at hj
    split_ifs at hj with hjk
    · rw [hjk]
      exact hrefused hj
    · exact h.refused j hj
  · rw [hsame]
    rw [update_calls] at hj
    split_ifs at hj with hjk
    · rw [hjk]
      exact h.admitted hon k (hadmitted hj)
    · exact h.admitted hon j hj
  · rw [hsame]
    rw [update_calls] at hj
    split_ifs at hj with hjk
    · rw [hjk]
      exact hleave todo resp hj
    · exact h.leave j todo resp hj
  · rw [hsame]
    rw [update_calls] at hj
    split_ifs at hj with hjk
    · rw [hjk]
      exact hreturned resp hj
    · exact h.returned j resp hj
  · rw [hsame]
    rw [update_calls] at hj
    split_ifs at hj with hjk
    · rw [hjk]
      exact hresp hj
    · exact h.resp j hj
  · rw [hsame]
    exact h.respond j resp hj

@[simp] theorem held_spent (l : AdmissionLease) : l.spent.held = 0 := by
  simp [AdmissionLease.held, AdmissionLease.spent]

@[simp] theorem held_unused : ({} : AdmissionLease).held = 0 := rfl

/-- The clamp at zero is never taken: a release subtracts what its lease still holds. -/
theorem Pipeline.Ledger.release_inFlight (hout : 0 ≤ a₀.estimatedOutputTokens) (h : p.Ledger a₀)
    (k : Nat) : (p.release k).admission.inFlightTokens =
      p.admission.inFlightTokens - (p.calls k).lease.held := by
  have hheld := h.held_le hout k
  simp only [Pipeline.release, AdmissionLease.release]
  cases hdone : (p.calls k).lease.done with
  | true => simp [AdmissionLease.held, hdone]
  | false =>
    cases hcontroller : (p.calls k).lease.controller with
    | false => simp [AdmissionLease.held, hcontroller]
    | true =>
      have htokens := (h.lease k hcontroller).2.2
      have hpos := estimate_pos a₀ hout (p.calls k).prompt
      have hsame : (p.calls k).lease.held = (p.calls k).lease.tokens := by
        simp [AdmissionLease.held, hdone, hcontroller]
      rw [hsame] at hheld ⊢
      simp only [Bool.false_eq_true, if_false, if_true, AdmissionController.release]
      rw [if_neg (by omega), if_neg (by omega)]

/-- A release, by whichever goroutine, keeps the books and settles its lease. -/
theorem Pipeline.Ledger.release (hout : 0 ≤ a₀.estimatedOutputTokens) (h : p.Ledger a₀) (k : Nat) :
    (p.release k).Ledger a₀ := by
  have hsettled : ∀ j, (p.calls j).lease.Settled → ((p.release k).calls j).lease.Settled := by
    intro j hj
    rw [release_calls]
    split_ifs
    · exact settled_spent _
    · exact hj
  have hpc : ∀ j, ((p.release k).calls j).pc = (p.calls j).pc := by
    intro j
    rw [release_calls]
    split_ifs with hj
    · rw [hj]
    · rfl
  refine ⟨?_, fun j hj => ?_, ?_, fun hpos => ?_, ?_, fun j => ?_, fun j hj => ?_,
    fun hon j hj => ?_, fun j todo resp hj => ?_, fun j resp hj => ?_, fun j hj => ?_,
    fun j resp hj => ?_⟩
  · simp only [Pipeline.release, AdmissionLease.release]
    split_ifs
    · exact h.limits
    · exact h.limits.release _
    · exact h.limits
  · rw [hpc]
    rw [release_calls] at hj ⊢
    split_ifs at hj ⊢ with hjk
    · rw [hjk]
      exact h.lease k hj
    · exact h.lease j hj
  · rw [h.release_inFlight hout, h.total]
    simp only [release_calls]
    by_cases hk : k < p.submitted
    · have hsum := sum_range_update (fun c : Call => c.lease.held) p.submitted k p.calls
        { p.calls k with lease := (p.calls k).lease.spent } hk
      rw [held_spent] at hsum
      rw [show (p.release k).submitted = p.submitted from rfl, hsum]
      omega
    · have hnone : (p.calls k).lease.held = 0 := by
        unfold AdmissionLease.held
        rw [if_neg]
        exact fun hheld => hk (h.lease k hheld.1).1
      rw [hnone, sub_zero]
      refine Finset.sum_congr rfl fun j hj => ?_
      rw [if_neg]
      rintro rfl
      exact hk (Finset.mem_range.mp hj)
  · have hle := h.bound hpos
    have hheld := h.held_nonneg hout k
    rw [h.release_inFlight hout]
    omega
  · simp only [Pipeline.release]
    split_ifs with hnew
    · have hk : k ∉ p.released := fun hk => by
        have hdone := ((h.released k).mp hk).2
        rw [hnew.2] at hdone
        exact Bool.false_ne_true hdone
      exact List.nodup_append.mpr ⟨h.nodup, List.nodup_singleton k, by
        rintro x hx y hy rfl
        exact hk (List.mem_singleton.mp hy ▸ hx)⟩
    · exact h.nodup
  · have hmem : j ∈ (p.release k).released ↔ j ∈ p.released ∨
        (j = k ∧ (p.calls k).lease.controller = true ∧ (p.calls k).lease.done = false) := by
      simp only [Pipeline.release]
      split_ifs with hnew
      · simp [hnew]
      · simp [hnew]
    rw [hmem, h.released, release_calls]
    split_ifs with hjk
    · subst hjk
      cases (p.calls j).lease.done <;> simp [AdmissionLease.spent]
    · simp [hjk]
  · rw [hpc] at hj
    rw [release_calls]
    split_ifs with hjk
    · rw [← hjk]
      exact h.refused j hj
    · exact h.refused j hj
  · rw [hpc] at hj
    rw [release_calls]
    split_ifs with hjk
    · rw [← hjk]
      exact h.admitted hon j hj
    · exact h.admitted hon j hj
  · rw [hpc] at hj
    exact (h.leave j todo resp hj).imp_left (hsettled j)
  · rw [hpc] at hj
    exact hsettled j (h.returned j resp hj)
  · refine hsettled j (h.resp j ?_)
    rw [release_calls] at hj
    split_ifs at hj with hjk
    · rw [hjk]
      exact hj
    · exact hj
  · exact hsettled j (h.respond j resp hj)

theorem Pipeline.Ledger.same (h : p.Ledger a₀) (hadmission : p'.admission = p.admission)
    (hcalls : p'.calls = p.calls) (hsubmitted : p'.submitted = p.submitted)
    (hreleased : p'.released = p.released)
    (hrespond : ∀ k resp, .respond k resp ∈ p'.todo → (p.calls k).lease.Settled) :
    p'.Ledger a₀ := by
  refine ⟨?_, ?_, ?_, ?_, ?_, ?_, ?_, ?_, ?_, ?_, ?_, ?_⟩ <;>
    simp only [hadmission, hcalls, hsubmitted, hreleased]
  · exact h.limits
  · exact h.lease
  · exact h.total
  · exact h.bound
  · exact h.nodup
  · exact h.released
  · exact h.refused
  · exact h.admitted
  · exact h.leave
  · exact h.returned
  · exact h.resp
  · exact hrespond

theorem Pipeline.Ledger.submit (h : p.Ledger a₀) {call : Call} (hpc : call.pc = .generateID)
    (hlease : call.lease = {}) :
    Pipeline.Ledger a₀
      ({ p with submitted := p.submitted + 1 }.update p.submitted (fun _ => call)) := by
  have hnone : (p.calls p.submitted).lease.controller = false := by
    by_contra hc
    exact Nat.lt_irrefl _ (h.lease _ (by simpa using hc)).1
  have hcalls : ∀ j, (Pipeline.update { p with submitted := p.submitted + 1 } p.submitted
      (fun _ => call)).calls j = if j = p.submitted then call else p.calls j :=
    fun j => update_calls _ _ j _
  have hsettled : call.lease.Settled := by
    rw [hlease]
    exact fun hc => absurd hc (by simp)
  have hstep : ∀ j, (p.calls j).lease.Settled →
      ((Pipeline.update { p with submitted := p.submitted + 1 } p.submitted
        (fun _ => call)).calls j).lease.Settled := by
    intro j hj
    rw [hcalls]
    split_ifs
    · exact hsettled
    · exact hj
  refine ⟨h.limits, fun j hj => ?_, ?_, h.bound, h.nodup, fun j => ?_, fun j hj => ?_,
    fun hon j hj => ?_, fun j todo resp hj => ?_, fun j resp hj => ?_, fun j hj => ?_,
    fun j resp hj => ?_⟩
  · rw [hcalls] at hj ⊢
    split_ifs at hj ⊢ with hjk
    · simp [hlease] at hj
    · exact ⟨Nat.lt_succ_of_lt (h.lease j hj).1, (h.lease j hj).2⟩
  · simp only [hcalls]
    rw [show (Pipeline.update { p with submitted := p.submitted + 1 } p.submitted
      (fun _ => call)).submitted = p.submitted + 1 from rfl, Finset.sum_range_succ, if_pos rfl,
      hlease]
    rw [sum_range_beyond (fun c : Call => c.lease.held) _ _ _ _ (Nat.le_refl _), held_unused,
      add_zero]
    exact h.total
  · rw [hcalls]
    split_ifs with hjk
    · rw [show (Pipeline.update { p with submitted := p.submitted + 1 } p.submitted
        (fun _ => call)).released = p.released from rfl, h.released, hjk, hnone, hlease]
      simp
    · exact h.released j
  · rw [hcalls] at hj ⊢
    split_ifs at hj ⊢ with hjk
    · rw [hlease]
    · exact h.refused j hj
  · rw [hcalls] at hj ⊢
    split_ifs at hj ⊢ with hjk
    · simp [hpc, SubmitPC.Admitted] at hj
    · exact h.admitted hon j hj
  · rw [hcalls] at hj ⊢
    split_ifs at hj ⊢ with hjk
    · simp [hpc] at hj
    · exact h.leave j todo resp hj
  · rw [hcalls] at hj ⊢
    split_ifs at hj ⊢ with hjk
    · simp [hpc] at hj
    · exact h.returned j resp hj
  · rw [hcalls] at hj ⊢
    split_ifs at hj ⊢ with hjk
    · exact hsettled
    · exact h.resp j hj
  · exact hstep j (h.respond j resp hj)

theorem Pipeline.Ledger.fresh (h : p.Ledger a₀) {k : Nat} (hpc : (p.calls k).pc.stage ≤ 1) :
    (p.calls k).lease.controller = false := by
  by_contra hc
  have hstage := (h.lease k (by simpa using hc)).2.1
  omega

structure Acquired (a : AdmissionController) (prompt : String)
    (r : AdmissionLease × Bool × AdmissionController) : Prop where
  limits : r.2.2.SameLimits a
  done : r.1.done = false
  tokens : r.1.controller = true → r.1.tokens = a.estimate prompt
  refused : r.2.1 = false → r.1.controller = false
  admitted : a.enabled = true → r.2.1 = true → r.1.controller = true
  inFlight : r.2.2.inFlightTokens = a.inFlightTokens + r.1.held
  bound : 0 < a.maxInFlightTokens → a.inFlightTokens ≤ a.maxInFlightTokens →
    r.2.2.inFlightTokens ≤ a.maxInFlightTokens

theorem tryAcquire_acquired (a : AdmissionController) (prompt : String) :
    Acquired a prompt (a.tryAcquire prompt) := by
  unfold AdmissionController.tryAcquire
  split
  · rename_i hoff
    exact ⟨⟨rfl, rfl, rfl, rfl⟩, rfl, by simp, by simp, fun hon => by simp [hon] at hoff, by simp,
      fun _ h => h⟩
  · simp only
    split
    · exact ⟨⟨rfl, rfl, rfl, rfl⟩, rfl, by simp, by simp, by simp, by simp, fun _ h => h⟩
    · rename_i hroom
      refine ⟨⟨rfl, rfl, rfl, rfl⟩, rfl, fun _ => rfl, by simp, by simp, ?_, fun hpos _ => ?_⟩
      · simp [AdmissionLease.held]
      · by_contra hover
        exact hroom ⟨hpos, by simpa using hover⟩

/-- `TryAcquire` charges the estimate and stays within the limit. -/
theorem Pipeline.Ledger.tryAcquire (h : p.Ledger a₀) (hplaced : p.Placed) {k : Nat}
    (hk : k < p.submitted) (hpc : (p.calls k).pc = .tryAcquire)
    {r : AdmissionLease × Bool × AdmissionController}
    (hr : Acquired p.admission (p.calls k).prompt r)
    (hflushed : ∀ j ∈ p.run.flushed.flatten, j ∈ p.run.received) :
    Pipeline.Ledger a₀ ({ p with admission := r.2.2 }.update k
      (fun c => { c with lease := r.1, pc := .startSpan r.2.1 })) := by
  have hstage : (p.calls k).pc.stage = 1 := by rw [hpc]; rfl
  have hnone := h.fresh (Nat.le_of_eq hstage)
  have hheld : (p.calls k).lease.held = 0 := by simp [AdmissionLease.held, hnone]
  have hnew : k ∉ p.run.flushed.flatten := by
    intro hmem
    have hlate := (hplaced.sent k (List.mem_append_left _ (hflushed k hmem))).2
    omega
  set q := Pipeline.update { p with admission := r.2.2 } k
    (fun c => { c with lease := r.1, pc := .startSpan r.2.1 }) with hq
  have hcalls : ∀ j, q.calls j =
      if j = k then { p.calls k with lease := r.1, pc := .startSpan r.2.1 } else p.calls j :=
    fun j => update_calls _ _ j _
  refine ⟨?_, fun j hj => ?_, ?_, fun hpos => ?_, h.nodup, fun j => ?_, fun j hj => ?_,
    fun hon j hj => ?_, fun j todo resp hj => ?_, fun j resp hj => ?_, fun j hj => ?_,
    fun j resp hj => ?_⟩
  · exact ⟨hr.limits.enabled.trans h.limits.enabled,
      hr.limits.maxInFlightTokens.trans h.limits.maxInFlightTokens,
      hr.limits.promptTokens.trans h.limits.promptTokens,
      hr.limits.estimatedOutputTokens.trans h.limits.estimatedOutputTokens⟩
  · rw [hcalls] at hj ⊢
    split_ifs at hj ⊢ with hjk
    · rw [hjk]
      exact ⟨hk, Nat.le_refl 2, (hr.tokens hj).trans (h.limits.estimate _)⟩
    · exact h.lease j hj
  · have hsum := sum_range_update (fun c : Call => c.lease.held) p.submitted k p.calls
      { p.calls k with lease := r.1, pc := .startSpan r.2.1 } hk
    simp only [hcalls]
    rw [show q.submitted = p.submitted from rfl, hsum, hheld, ← h.total, sub_zero]
    exact hr.inFlight
  · have hbound := hr.bound
    rw [h.limits.maxInFlightTokens] at hbound
    exact hbound hpos (h.bound hpos)
  · rw [hcalls, show q.released = p.released from rfl, h.released]
    split_ifs with hjk
    · rw [hjk, hnone]
      simp [hr.done]
    · rfl
  · rw [hcalls] at hj ⊢
    split_ifs at hj ⊢ with hjk
    · exact hr.refused (SubmitPC.startSpan.inj hj)
    · exact h.refused j hj
  · rw [hcalls] at hj ⊢
    split_ifs at hj ⊢ with hjk
    · exact hr.admitted (h.limits.enabled.trans hon) hj
    · exact h.admitted hon j hj
  · rw [hcalls] at hj ⊢
    split_ifs at hj ⊢ with hjk
    exact h.leave j todo resp hj
  · rw [hcalls] at hj ⊢
    split_ifs at hj ⊢ with hjk
    exact h.returned j resp hj
  · rw [hcalls] at hj ⊢
    split_ifs at hj ⊢ with hjk
    · exact absurd (hplaced.resp k hj) hnew
    · exact h.resp j hj
  · rw [hcalls]
    split_ifs with hjk
    · rw [hjk] at hj
      exact absurd (hplaced.ops _ hj k rfl) hnew
    · exact h.respond j resp hj

theorem Pipeline.Ledger.move (hout : 0 ≤ a₀.estimatedOutputTokens) (h : p.Ledger a₀)
    (hplaced : p.Placed) (hflushed : ∀ j ∈ p.run.flushed.flatten, j ∈ p.run.received)
    (hmove : p.Move maxBatchSize p') : p'.Ledger a₀ := by
  have htail : ∀ {o rest}, p.todo = o :: rest → ∀ k resp, .respond k resp ∈ rest →
      (p.calls k).lease.Settled := fun htodo k resp hmem =>
    h.respond k resp (by rw [htodo]; exact List.mem_cons_of_mem _ hmem)
  cases hmove with
  | stay => exact h
  | submit call hpc hlease hresp => exact h.submit hpc hlease
  | cancel k hk =>
    exact h.update rfl rfl (Nat.le_refl _) (h.refused k) id (h.leave k) (h.returned k) (h.resp k)
  | streamID => exact h.same rfl rfl rfl rfl h.respond
  | generateID k hk hpc =>
    have hbase : Pipeline.Ledger a₀ { p with nextID := p.nextID + 1 } :=
      h.same rfl rfl rfl rfl h.respond
    exact hbase.update rfl rfl (by simp [hpc, SubmitPC.stage]) (by simp)
      (by simp [SubmitPC.Admitted]) (by simp) (by simp) (h.resp k)
  | tryAcquire k hk hpc =>
    exact h.tryAcquire hplaced hk hpc (tryAcquire_acquired _ _) hflushed
  | startSpan k hk hpc s =>
    exact h.update rfl rfl (by simp [hpc, SubmitPC.stage]) (by simp)
      (by simp [hpc, SubmitPC.Admitted]) (by simp) (by simp) (h.resp k)
  | refuse k hk hpc s todo resp hrelease hresp =>
    have hnone := h.refused k hpc
    have hsettled : (p.calls k).lease.Settled := fun hc => absurd hc (by simp [hnone])
    exact h.update rfl rfl (by simp [hpc, SubmitPC.stage]) (by simp) (by simp [SubmitPC.Admitted])
      (fun _ _ _ => Or.inl hsettled) (by simp) (h.resp k)
  | send k hk hpc =>
    have hbase : Pipeline.Ledger a₀ { p with requestChan := p.requestChan ++ [k] } :=
      h.same rfl rfl rfl rfl h.respond
    exact hbase.update rfl rfl (by simp [hpc, SubmitPC.stage]) (by simp)
      (by simp [hpc, SubmitPC.Admitted]) (by simp) (by simp) (h.resp k)
  | handOver k hk hpc hrun =>
    have hbase : Pipeline.Ledger a₀ { p with run := p.run.receive k } :=
      h.same rfl rfl rfl rfl h.respond
    exact hbase.update rfl rfl (by simp [hpc, SubmitPC.stage]) (by simp)
      (by simp [hpc, SubmitPC.Admitted]) (by simp) (by simp) (h.resp k)
  | abandon k hk hpc todo resp hrelease hresp =>
    have hstage : (p.calls k).pc.stage ≤ 6 := by
      obtain hpc | hpc := hpc <;> simp [hpc, SubmitPC.stage]
    refine h.update rfl rfl hstage (by simp) (by simp [SubmitPC.Admitted])
      (fun todo' resp' hleave => ?_) (by simp) (h.resp k)
    obtain ⟨rfl, -⟩ := SubmitPC.leave.inj hleave
    exact Or.inr ((hrelease k).mpr rfl)
  | queued k hk hpc =>
    exact h.update rfl rfl (by simp [hpc, SubmitPC.stage]) (by simp)
      (by simp [hpc, SubmitPC.Admitted]) (by simp) (by simp) (h.resp k)
  | take k hk hpc todo resp hrelease hresp =>
    have hsettled := h.resp k (by simp [hresp])
    exact h.update rfl rfl (by simp [hpc, SubmitPC.stage]) (by simp) (by simp [SubmitPC.Admitted])
      (fun _ _ _ => Or.inl hsettled) (by simp) (by simp)
  | exit k hk o rest resp hpc ho =>
    refine h.update rfl rfl (by simp [hpc, SubmitPC.stage]) (by simp) (by simp [SubmitPC.Admitted])
      (fun todo' resp' hleave => ?_) (by simp) (h.resp k)
    obtain ⟨rfl, -⟩ := SubmitPC.leave.inj hleave
    obtain hsettled | hmem := h.leave k _ _ hpc
    · exact Or.inl hsettled
    · obtain rfl | hmem := List.mem_cons.mp hmem
      · exact absurd rfl (ho k)
      · exact Or.inr hmem
  | exitRelease k hk i rest resp hpc =>
    -- only the call itself has a release of it among its steps
    obtain rfl : i = k := hplaced.leaving k _ _ hpc i List.mem_cons_self
    have hrel := h.release hout i
    have hsettled : ((p.release i).calls i).lease.Settled := by
      rw [release_calls, if_pos rfl]
      exact settled_spent _
    have hstage : ((p.release i).calls i).pc.stage ≤ 6 := by
      rw [release_calls, if_pos rfl]
      simp [hpc, SubmitPC.stage]
    exact hrel.update rfl rfl hstage (by simp) (by simp [SubmitPC.Admitted])
      (fun _ _ _ => Or.inl hsettled) (by simp)
      (hrel.resp i)
  | «return» k hk resp hpc =>
    have hsettled : (p.calls k).lease.Settled := by
      obtain hsettled | hmem := h.leave k _ _ hpc
      · exact hsettled
      · simp at hmem
    exact h.update rfl rfl (by simp [hpc, SubmitPC.stage]) (by simp) (by simp [SubmitPC.Admitted])
      (by simp) (fun _ _ => hsettled) (h.resp k)
  | receive k rest hrun hchan => exact h.same rfl rfl rfl rfl h.respond
  | loop r hrmove hreceived hflushed hrun => exact h.same rfl rfl rfl rfl h.respond
  | startFlush r hrmove hbatch hreceived hflushed hrun =>
    exact h.same rfl rfl rfl rfl (by simp)
  | plain o rest hrun htodo ho => exact h.same rfl rfl rfl rfl (htail htodo)
  | release j rest hrun htodo =>
    have hbase : Pipeline.Ledger a₀ { p with todo := rest } := h.same rfl rfl rfl rfl (htail htodo)
    exact hbase.release hout j
  | deliver k resp rest hrun htodo =>
    have hbase : Pipeline.Ledger a₀ { p with todo := rest } := h.same rfl rfl rfl rfl (htail htodo)
    have hrel := hbase.release hout k
    refine hrel.same rfl rfl rfl rfl fun j resp' hmem => ?_
    obtain hmem | hmem := List.mem_append.mp hmem
    · obtain ⟨rfl, -⟩ := FlushOp.respond.inj (List.mem_singleton.mp hmem)
      rw [release_calls, if_pos rfl]
      exact settled_spent _
    · exact hrel.respond j resp' hmem
  | respond k resp rest hrun htodo =>
    have hbase : Pipeline.Ledger a₀ { p with todo := rest } := h.same rfl rfl rfl rfl (htail htodo)
    have hsettled := h.respond k resp (by simp [htodo])
    exact hbase.update rfl rfl (Nat.le_refl _) (h.refused k) id (h.leave k) (h.returned k)
      (fun _ => hsettled)
  | cancelled k rest hrun htodo hpc =>
    exact h.same rfl rfl rfl rfl (by simp [Pipeline.push, htodo])
  | active k rest hrun htodo hpc => exact h.same rfl rfl rfl rfl (by simp [Pipeline.push, htodo])
  | skip hrun htodo hpc hactive => exact h.same rfl rfl rfl rfl h.respond
  | reject hrun htodo hpc =>
    exact h.same rfl rfl rfl rfl (by simp [Pipeline.push, htodo, rejectOps])
  | dispatch hrun htodo hpc =>
    exact h.same rfl rfl rfl rfl (by simp [Pipeline.push, htodo, sendOps])
  | call hrun htodo hpc => exact h.same rfl rfl rfl rfl h.respond
  | reply answer latency order order' hrun htodo hpc horder horder' =>
    refine h.same rfl rfl rfl rfl fun k resp hmem => ?_
    simp only [Pipeline.push, htodo, List.append_nil] at hmem
    exact absurd (mem_settleOps hmem) Answers.not_respond
  | finish hrun htodo hpc => exact h.same rfl rfl rfl rfl h.respond

theorem Run.Inv.flushed_received {r : Run} (h : r.Inv maxBatchSize) :
    ∀ k ∈ r.flushed.flatten, k ∈ r.received := by
  intro k hk
  have hholds := h.holds
  unfold Run.Holds at hholds
  split at hholds <;> first
    | exact hholds.2 ▸ hk
    | (obtain ⟨-, -, hall⟩ := hholds
       rw [← hall]
       simp only [List.mem_append]
       tauto)
    | (obtain ⟨-, -, -, hall⟩ := hholds
       exact hall ▸ List.mem_append_left _ hk)

variable {randomHex : Nat → Nat → String}

theorem run_placed {cfg : Config} {actions : List Action} {g : Batcher}
    (h : run (step cfg.normalized randomHex) (newBatcher cfg) actions = some g) :
    g.toPipeline.Placed := by
  refine run_invariant (motive := fun g => g.toPipeline.Placed) h ?_ ?_
  · exact ⟨by simp [newBatcher], by simp [newBatcher], by simp [newBatcher], by simp [newBatcher],
      by simp [newBatcher], by simp [newBatcher, Pipeline.pending], by simp [newBatcher]⟩
  · exact fun g a g' hplaced hstep => hplaced.move (step_move hstep)

theorem newBatcher_ledger (cfg : Config) :
    (newBatcher cfg).toPipeline.Ledger (newAdmissionController cfg.normalized) := by
  refine ⟨⟨rfl, rfl, rfl, rfl⟩, by simp [newBatcher], by simp [newBatcher, newAdmissionController],
    fun hmax => ?_, by simp [newBatcher], by simp [newBatcher], by simp [newBatcher], ?_,
    by simp [newBatcher], by simp [newBatcher], by simp [newBatcher], by simp [newBatcher]⟩
  · simpa [newBatcher, newAdmissionController] using hmax.le
  · intro _ k hk
    exact absurd hk id

theorem run_ledger {cfg : Config} {actions : List Action} {g : Batcher}
    (h : run (step cfg.normalized randomHex) (newBatcher cfg) actions = some g) :
    g.toPipeline.Ledger (newAdmissionController cfg.normalized) := by
  have hout : 0 ≤ (newAdmissionController cfg.normalized).estimatedOutputTokens :=
    cfg.normalized.normalized_normal.outputTokens
  have hmax := cfg.normalized_normal.maxBatchSize
  have hall := run_invariant (motive := fun g : Batcher =>
    (g.run.Inv cfg.normalized.maxBatchSize ∧ g.toPipeline.Placed) ∧
      g.toPipeline.Ledger (newAdmissionController cfg.normalized)) h ?_ ?_
  · exact hall.2
  · have hstart : run (step cfg.normalized randomHex) (newBatcher cfg) [] = some (newBatcher cfg) :=
      rfl
    exact ⟨⟨run_inv hstart, run_placed hstart⟩, newBatcher_ledger cfg⟩
  · rintro g a g' ⟨⟨hinv, hplaced⟩, hledger⟩ hstep
    exact ⟨⟨hinv.move hmax (step_run hstep), hplaced.move (step_move hstep)⟩,
      hledger.move hout hplaced hinv.flushed_received (step_move hstep)⟩

/-- Once every call has returned, no lease holds tokens. -/
theorem Pipeline.Ledger.idle {p : Pipeline} (h : p.Ledger a₀)
    (hreturned : ∀ k < p.submitted, ∃ resp, (p.calls k).pc = .returned resp) :
    p.admission.inFlightTokens = 0 := by
  rw [h.total]
  refine Finset.sum_eq_zero fun k hk => ?_
  obtain ⟨resp, hpc⟩ := hreturned k (Finset.mem_range.mp hk)
  unfold AdmissionLease.held
  rw [if_neg]
  rintro ⟨hcontroller, hdone⟩
  simp [h.returned k resp hpc hcontroller] at hdone

/-- The admission ledger in every state of every run: the tokens in flight are those of the
admitted calls whose lease is not released, they respect the limit, no lease is subtracted twice
or from less than it holds, and a call that has returned has released its own. -/
theorem admission_ledger (cfg : Config) (randomHex : Nat → Nat → String)
    (actions : List Action) (g : Batcher)
    (h : run (step cfg.normalized randomHex) (newBatcher cfg) actions = some g) :
    (g.admission.inFlightTokens = ∑ k ∈ Finset.range g.submitted,
      if (g.calls k).lease.controller = true ∧ (g.calls k).lease.done = false then
        (newAdmissionController cfg.normalized).estimate (g.calls k).prompt else 0) ∧
    (0 < cfg.normalized.admissionMaxInFlightTokens →
      g.admission.inFlightTokens ≤ cfg.normalized.admissionMaxInFlightTokens) ∧
    (g.released.Nodup ∧ ∀ k, k ∈ g.released ↔
      (g.calls k).lease.controller = true ∧ (g.calls k).lease.done = true) ∧
    (∀ k, (g.calls k).lease.controller = true → (g.calls k).lease.done = false →
      0 < (g.calls k).lease.tokens ∧
      (g.calls k).lease.tokens ≤ g.admission.inFlightTokens ∧
      (g.release k).admission.inFlightTokens =
        g.admission.inFlightTokens - (g.calls k).lease.tokens) ∧
    (∀ k, (g.calls k).lease.done = true →
      (g.release k).admission.inFlightTokens = g.admission.inFlightTokens) ∧
    (cfg.normalized.admissionEnabled = true → ∀ k, (g.calls k).pc.Admitted →
      (g.calls k).lease.controller = true) ∧
    (∀ k resp, (g.calls k).pc = .returned resp → (g.calls k).lease.controller = true →
      k ∈ g.released) ∧
    ((∀ k < g.submitted, ∃ resp, (g.calls k).pc = .returned resp) →
      g.admission.inFlightTokens = 0) := by
  have hledger := run_ledger h
  have hout : 0 ≤ (newAdmissionController cfg.normalized).estimatedOutputTokens :=
    cfg.normalized.normalized_normal.outputTokens
  have hlimits : (newAdmissionController cfg.normalized).maxInFlightTokens =
      cfg.normalized.admissionMaxInFlightTokens := by
    simp only [newAdmissionController, Config.normalized]
    split_ifs <;> omega
  refine ⟨?_, ?_, ⟨hledger.nodup, hledger.released⟩, fun k hcontroller hdone => ?_,
    fun k hdone => ?_, fun hon => hledger.admitted ?_, fun k resp hpc hcontroller => ?_,
    hledger.idle⟩
  · rw [hledger.total]
    refine Finset.sum_congr rfl fun k _ => ?_
    unfold AdmissionLease.held
    split_ifs with hheld
    · exact (hledger.lease k hheld.1).2.2
    · rfl
  · rw [← hlimits]
    exact hledger.bound
  · have htokens := (hledger.lease k hcontroller).2.2
    have hpos := estimate_pos _ hout (g.calls k).prompt
    have hle := hledger.held_le hout k
    simp only [AdmissionLease.held, hcontroller, hdone, and_self, if_true] at hle
    refine ⟨by omega, hle, ?_⟩
    simp only [Pipeline.release, AdmissionLease.release, AdmissionController.release, hcontroller,
      hdone]
    rw [if_neg (by simp), if_pos trivial, if_neg (by omega)]
    simp only
    rw [if_neg (by omega)]
  · simp [Pipeline.release, Pipeline.update, AdmissionLease.release, hdone]
  · exact hon
  · exact (hledger.released k).mpr ⟨hcontroller, hledger.returned k resp hpc hcontroller⟩

/-- Three calls: the first is cancelled before it is queued and returns, the second is admitted
with the tokens of the first, the third finds the budget used up. -/
theorem admission_cancelledFirst :
    let cfg : Config :=
      { promptTokens := fun n => n, admissionEnabled := true, admissionMaxInFlightTokens := 70 }
    let submit : Nat → List Action := fun k =>
      .submit "prompt" "trace" "" :: List.replicate 3 (.advance k .channel)
    ∃ g, run (step cfg.normalized fun n _ => toString n) (newBatcher cfg)
        (submit 0 ++ [.cancel 0] ++ List.replicate 6 (.advance 0 .ctxDone) ++ submit 1 ++
          submit 2) = some g ∧
      g.admission.inFlightTokens ≤ cfg.normalized.admissionMaxInFlightTokens := by
  intro cfg submit
  obtain ⟨g, hg⟩ := Option.isSome_iff_exists.mp
    (show (run (step cfg.normalized fun n _ => toString n) (newBatcher cfg)
      (submit 0 ++ [.cancel 0] ++ List.replicate 6 (.advance 0 .ctxDone) ++ submit 1 ++
        submit 2)).isSome = true by decide +kernel)
  exact ⟨g, hg, (admission_ledger cfg _ _ g hg).2.1 (by decide)⟩

end Laminar.Gateway
