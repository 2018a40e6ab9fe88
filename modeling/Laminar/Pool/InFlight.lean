import Laminar.Library.Sums
import Laminar.Pool.Moves

/-! In-flight accounting: every `begin` is followed by one `finish` before its caller returns,
except on the two ways out of a stream handler that leave its stream unread. -/
namespace Laminar.Pool
open Laminar.Gateway (Config Error StreamHandler StreamResponse)
open Laminar.Transition Laminar.Sums

def CallPC.Fits : CallPC → Option Nat → Nat → Bool → Prop
  | .start, begun, finished, once => begun = none ∧ finished = 0 ∧ once = false
  | .select .., begun, finished, once => begun = none ∧ finished = 0 ∧ once = false
  | .begin .., begun, finished, once => begun = none ∧ finished = 0 ∧ once = false
  | .worker i, begun, finished, once => begun = some i ∧ finished = 0 ∧ once = false
  | .opened i, begun, finished, once => begun = some i ∧ finished = 0 ∧ once = false
  | .recv i _, begun, finished, once => begun = some i ∧ finished = 0 ∧ once = false
  | .deliver i _ (.ok _), begun, finished, once => begun = some i ∧ finished = 0 ∧ once = false
  | .deliver _ _ (.error _), begun, finished, _ => finished = if begun.isSome then 1 else 0
  | .finish i _ _ _ next, begun, finished, once =>
    begun = some i ∧ finished = 0 ∧ next.Fits begun 1 once
  | .metrics _ next, begun, finished, once =>
    next.Fits begun finished once ∧ (next = .returned → begun ≠ none → finished = 1)
  | .failed _, begun, finished, _ => finished = if begun.isSome then 1 else 0
  | .returned, begun, finished, _ => finished ≤ 1 ∧ (begun = none → finished = 0)

def Call.Fits (c : Call) : Prop := c.pc.Fits c.begun c.finished c.once

def Call.openOn (i : Nat) (c : Call) : Int :=
  if c.begun = some i ∧ c.finished = 0 then 1 else 0

structure Serving.Accounted (s : Serving) : Prop where
  fits : ∀ k, (s.calls k).Fits
  fresh : ∀ k, s.started ≤ k → (s.calls k).begun = none
  load : ∀ i, (s.endpoints i).inFlight = ∑ k ∈ Finset.range s.started, (s.calls k).openOn i

variable {cfg : Config} {s s' : Serving}

theorem openOn_nonneg (i : Nat) (c : Call) : 0 ≤ c.openOn i := by
  unfold Call.openOn
  split_ifs <;> omega

/-- A call that is begun and not finished is counted. -/
theorem Serving.Accounted.load_pos (h : s.Accounted) {k i : Nat} (hk : k < s.started)
    (hbegun : (s.calls k).begun = some i) (hfinished : (s.calls k).finished = 0) :
    0 < (s.endpoints i).inFlight := by
  have hone : (s.calls k).openOn i = 1 := by
    unfold Call.openOn
    rw [if_pos ⟨hbegun, hfinished⟩]
  have hle := Finset.single_le_sum (f := fun k => (s.calls k).openOn i)
    (fun j _ => openOn_nonneg i _) (Finset.mem_range.mpr hk)
  rw [h.load]
  simp only [hone] at hle
  omega

theorem Serving.Accounted.update (h : s.Accounted) {k : Nat} {f : Call → Call}
    (hbegun : (f (s.calls k)).begun = (s.calls k).begun)
    (hfinished : (f (s.calls k)).finished = (s.calls k).finished)
    (hfits : (f (s.calls k)).Fits) : (s.update k f).Accounted := by
  refine ⟨fun j => ?_, fun j hj => ?_,
    fun i => (h.load i).trans (Finset.sum_congr rfl fun j _ => ?_)⟩
  · rw [update_calls]
    split_ifs
    · exact hfits
    · exact h.fits j
  · rw [update_calls]
    split_ifs with hjk
    · rw [hbegun, ← hjk]
      exact h.fresh j hj
    · exact h.fresh j hj
  · rw [update_calls]
    split_ifs with hj
    · unfold Call.openOn
      rw [hbegun, hfinished, hj]
    · rfl

theorem Serving.Accounted.goto (h : s.Accounted) {k : Nat} {pc : CallPC}
    (hfits : pc.Fits (s.calls k).begun (s.calls k).finished (s.calls k).once) :
    (s.goto k pc).Accounted :=
  h.update rfl rfl hfits

theorem Serving.Accounted.atEndpoint (h : s.Accounted) {i : Nat}
    {f : WorkerEndpoint → WorkerEndpoint}
    (hload : (f (s.endpoints i)).inFlight = (s.endpoints i).inFlight) :
    (s.atEndpoint i f).Accounted := by
  refine ⟨h.fits, h.fresh, fun j => ?_⟩
  rw [atEndpoint_endpoints]
  split_ifs with hj
  · subst hj
    exact hload.trans (h.load j)
  · exact h.load j

theorem Serving.Accounted.setMetric (h : s.Accounted) (op : MetricOp) :
    (s.setMetric op).Accounted := by
  obtain ⟨hcalls, hstarted⟩ := setMetric_calls s op
  refine ⟨fun k => ?_, fun k hk => ?_, fun i => ?_⟩
  · rw [hcalls]
    exact h.fits k
  · rw [hcalls]
    exact h.fresh k (hstarted ▸ hk)
  · rw [hcalls, hstarted, (setMetric_agrees s op i).inFlight]
    exact h.load i

theorem Serving.Accounted.charge (h : s.Accounted) {k i : Nat} (hk : k < s.started)
    {f : Call → Call} {g : WorkerEndpoint → WorkerEndpoint}
    (hload : (g (s.endpoints i)).inFlight =
      (s.endpoints i).inFlight + ((f (s.calls k)).openOn i - (s.calls k).openOn i))
    (hother : ∀ j, j ≠ i → (f (s.calls k)).openOn j = (s.calls k).openOn j)
    (hfits : (f (s.calls k)).Fits) : ((s.atEndpoint i g).update k f).Accounted := by
  have hcalls : ∀ j, ((s.atEndpoint i g).update k f).calls j =
      if j = k then f (s.calls k) else s.calls j := fun j => update_calls _ k j f
  refine ⟨fun j => ?_, fun j hj => ?_, fun j => ?_⟩
  · rw [hcalls]
    split_ifs
    · exact hfits
    · exact h.fits j
  · have hjk : j ≠ k := Nat.ne_of_gt (Nat.lt_of_lt_of_le hk hj)
    rw [hcalls, if_neg hjk]
    exact h.fresh j hj
  · have hsum := sum_range_update (fun c : Call => c.openOn j) s.started k s.calls
      (f (s.calls k)) hk
    simp only [hcalls]
    refine Eq.trans ?_ hsum.symm
    rw [← h.load j]
    refine (congrArg WorkerEndpoint.inFlight (atEndpoint_endpoints s i j g)).trans ?_
    split_ifs with hj
    · rw [hj]
      exact hload
    · rw [hother j hj, sub_self, add_zero]

theorem Serving.Accounted.move (h : s.Accounted) {a : Action} (hmove : s.Move cfg a s') :
    s'.Accounted := by
  have hfits := h.fits
  cases hmove with
  | pass time => exact ⟨h.fits, h.fresh, h.load⟩
  | observe i now hnow => exact h.atEndpoint (refreshCircuitLocked_load _ now).2.1
  | call kind =>
    refine ⟨fun k => ?_, fun k hk => ?_, fun i => ?_⟩
    · rw [update_calls]
      split_ifs
      · exact ⟨rfl, rfl, rfl⟩
      · exact h.fits k
    · rw [update_calls]
      split_ifs
      · rfl
      · exact h.fresh k (Nat.le_of_succ_le hk)
    · have hnone : Call.openOn i { kind := kind } = 0 := rfl
      have hcalls := update_calls { s with started := s.started + 1 } s.started
        (f := fun _ => { kind := kind })
      simp only [hcalls]
      refine Eq.trans ?_ (Finset.sum_range_succ _ _).symm
      rw [if_pos rfl, hnone, add_zero,
        sum_range_beyond (Call.openOn i) _ _ _ _ (Nat.le_refl _)]
      exact h.load i
  | cancel k hk => exact h.update rfl rfl (h.fits k)
  | start k hk hpc =>
    have hk' := hfits k
    rw [Call.Fits, hpc] at hk'
    exact h.goto hk'
  | read k hk now i selected reads hpc hi =>
    have hk' := hfits k
    rw [Call.Fits, hpc] at hk'
    exact (h.atEndpoint (refreshCircuitLocked_load _ now).2.1).goto hk'
  | choose k hk now i best reads hpc hi =>
    have hk' := hfits k
    rw [Call.Fits, hpc] at hk'
    exact h.goto hk'
  | refuse k hk now i selected reads err hpc =>
    have hk' := hfits k
    rw [Call.Fits, hpc] at hk'
    obtain ⟨hbegun, hfinished, -⟩ := hk'
    exact h.goto (by simp [CallPC.Fits, hbegun, hfinished])
  | begin k hk i reads hpc =>
    have hk' := hfits k
    rw [Call.Fits, hpc] at hk'
    obtain ⟨hbegun, hfinished, honce⟩ := hk'
    refine h.charge hk ?_ (fun j hj => ?_) ⟨⟨rfl, hfinished, honce⟩, by simp⟩
    · simp [WorkerEndpoint.begin, Call.openOn, hbegun, hfinished]
    · simp [Call.openOn, hbegun, Ne.symm hj]
  | measured k hk next hpc =>
    have hk' := hfits k
    rw [Call.Fits, hpc] at hk'
    exact h.goto hk'.1
  | measure k hk op ops next hpc =>
    have hk' := hfits k
    rw [Call.Fits, hpc] at hk'
    refine (h.setMetric op).goto ?_
    rw [(setMetric_calls s op).1]
    exact hk'
  | finish k hk i latency err now next ops hpc =>
    have hk' := hfits k
    rw [Call.Fits, hpc] at hk'
    obtain ⟨hbegun, hfinished, hnext⟩ := hk'
    have hpos := h.load_pos hk hbegun hfinished
    refine h.charge hk ?_ (fun j hj => ?_) ?_
    · rw [(finish_load cfg _ latency err now).2.1, if_pos hpos]
      simp [Call.openOn, hbegun, hfinished, Int.sub_eq_add_neg]
    · simp [Call.openOn, hbegun, Ne.symm hj]
    · exact ⟨by simpa only [hfinished] using hnext, fun _ _ => by simp only [hfinished]⟩
  | fail k hk err hpc =>
    have hk' := hfits k
    rw [Call.Fits, hpc] at hk'
    refine h.update rfl rfl ?_
    have hsettled : (s.calls k).finished = if (s.calls k).begun.isSome then 1 else 0 := hk'
    refine ⟨?_, fun hnone => ?_⟩
    · simp only [hsettled]
      split_ifs <;> omega
    · simp only at hnone
      simp [hsettled, hnone]
  | flushable k hk i handler hpc hkind =>
    have hk' := hfits k
    rw [Call.Fits, hpc] at hk'
    exact h.goto hk'
  | unflushable k hk i handler hpc hkind =>
    have hk' := hfits k
    rw [Call.Fits, hpc] at hk'
    obtain ⟨hbegun, hfinished, -⟩ := hk'
    exact h.update rfl rfl ⟨by simp [hfinished], fun _ => hfinished⟩
  | answer k hk i err latency next hpc hnext =>
    have hk' := hfits k
    rw [Call.Fits, hpc] at hk'
    obtain ⟨hbegun, hfinished, -⟩ := hk'
    refine h.goto ⟨hbegun, hfinished, ?_⟩
    obtain rfl | ⟨e, -, rfl⟩ := hnext
    · exact ⟨Nat.le_refl 1, fun hnone => by simp [hbegun] at hnone⟩
    · simp [CallPC.Fits, hbegun]
  | opened k hk i latency hpc =>
    have hk' := hfits k
    rw [Call.Fits, hpc] at hk'
    exact h.goto hk'
  | event k hk i handler event latency hpc =>
    have hk' := hfits k
    rw [Call.Fits, hpc] at hk'
    exact h.goto hk'
  | recvError k hk i handler err latency hpc honce =>
    have hk' := hfits k
    rw [Call.Fits, hpc] at hk'
    obtain ⟨hbegun, hfinished, -⟩ := hk'
    exact h.update rfl rfl ⟨hbegun, hfinished, by simp [CallPC.Fits, hbegun]⟩
  | recvAgain k hk i handler err latency hpc honce =>
    have hk' := hfits k
    rw [Call.Fits, hpc] at hk'
    exact absurd (honce.symm.trans hk'.2.2) (by simp)
  | round k hk i handler h' event effects hpc =>
    have hk' := hfits k
    rw [Call.Fits, hpc] at hk'
    exact h.update rfl rfl hk'
  | lastRound k hk i handler result writeErr effects hpc hlast =>
    have hk' := hfits k
    rw [Call.Fits, hpc] at hk'
    refine h.update rfl rfl ?_
    cases result with
    | ok event => exact ⟨by simp [hk'.2.1], fun _ => hk'.2.1⟩
    | error err =>
      have hsettled : (s.calls k).finished = if (s.calls k).begun.isSome then 1 else 0 := hk'
      refine ⟨?_, fun hnone => ?_⟩
      · simp only [hsettled]
        split_ifs <;> omega
      · simp only at hnone
        simp [hsettled, hnone]

theorem run_accounted {size : Nat} {streaming : Nat → Bool} {actions : List Action}
    (h : run (step cfg) (newServing size streaming) actions = some s) : s.Accounted := by
  refine run_invariant (motive := Serving.Accounted) h ?_ fun s a s' hs hstep =>
    hs.move (step_move hstep)
  exact ⟨fun k => ⟨rfl, rfl, rfl⟩, fun k _ => rfl, fun i => rfl⟩

/-- No caller finishes twice, or finishes what it has not begun. -/
theorem CallPC.Fits.finished_le {pc : CallPC} {begun : Option Nat} {finished : Nat} {once : Bool}
    (h : pc.Fits begun finished once) : finished ≤ 1 ∧ (begun = none → finished = 0) := by
  have hunfinished : finished = 0 → finished ≤ 1 ∧ (begun = none → finished = 0) :=
    fun hzero => ⟨by omega, fun _ => hzero⟩
  have hsettled : finished = (if begun.isSome then 1 else 0) →
      finished ≤ 1 ∧ (begun = none → finished = 0) := by
    rintro rfl
    refine ⟨by split_ifs <;> omega, fun hnone => by simp [hnone]⟩
  induction pc with
  | metrics ops next ih => exact ih h.1
  | finish i latency err now next ih => exact hunfinished h.2.1
  | failed err => exact hsettled h
  | deliver i handler result =>
    cases result with
    | ok event => exact hunfinished h.2.1
    | error err => exact hsettled h
  | returned => exact h
  | _ => exact hunfinished h.2.1

/-- A caller that has returned while its endpoint still counts it. -/
def Call.Leaked (c : Call) : Prop := c.pc = .returned ∧ c.begun ≠ none ∧ c.finished = 0

/-- A handler does not leave its stream unread: its writer can be flushed, and takes what is
written to it. -/
def KeepsStream (s : Serving) : Action → Prop
  | .advance k => ∀ i h, (s.calls k).pc = .opened i → (s.calls k).kind ≠ .stream h false
  | .deliver k writeErr =>
    ∀ i h event, (s.calls k).pc = .deliver i h (.ok event) → writeErr = none
  | _ => True

/-- The caller is about to leave the stream that it has opened. -/
def Call.unflushable (c : Call) : Bool :=
  match c.pc, c.kind with
  | .opened _, .stream _ false => true
  | _, _ => false

def Call.writing (c : Call) : Bool :=
  match c.pc with
  | .deliver _ _ (.ok _) => true
  | _ => false

theorem keepsStream_advance (s : Serving) (k : Nat) :
    KeepsStream s (.advance k) ↔ (s.calls k).unflushable = false := by
  simp only [KeepsStream, Call.unflushable]
  split
  · rename_i i h hpc hkind
    simp [hpc, hkind]
  · rename_i hnot
    simp only [iff_true]
    exact fun i h hpc hkind => hnot i h hpc hkind

theorem keepsStream_deliver (s : Serving) (k : Nat) (writeErr : Option Error) :
    KeepsStream s (.deliver k writeErr) ↔ (s.calls k).writing = true → writeErr = none := by
  simp only [KeepsStream, Call.writing]
  split
  · rename_i i h event hpc
    simp [hpc]
  · rename_i hnot
    simp only [Bool.false_eq_true, false_imp_iff, iff_true]
    exact fun i h event hpc => absurd hpc (hnot i h event)

instance (s : Serving) (a : Action) : Decidable (KeepsStream s a) :=
  match a with
  | .advance k => decidable_of_iff _ (keepsStream_advance s k).symm
  | .deliver k writeErr => decidable_of_iff _ (keepsStream_deliver s k writeErr).symm
  | .pass _ => isTrue trivial
  | .call _ => isTrue trivial
  | .cancel _ => isTrue trivial
  | .answer .. => isTrue trivial
  | .recv .. => isTrue trivial
  | .observe .. => isTrue trivial

theorem Call.Leaked.update {k j : Nat} {f : Call → Call} (h : (s.calls j).Leaked)
    (hpc : (s.calls k).pc ≠ .returned) : ((s.update k f).calls j).Leaked := by
  rw [update_calls, if_neg]
  · exact h
  · rintro rfl
    exact hpc h.1

/-- A leak is for good. -/
theorem Call.Leaked.move (hacc : s.Accounted) {j : Nat} (h : (s.calls j).Leaked) {a : Action}
    (hmove : s.Move cfg a s') : (s'.calls j).Leaked := by
  have hj : j < s.started := by
    by_contra hj
    exact h.2.1 (hacc.fresh j (Nat.not_lt.mp hj))
  cases hmove with
  | pass time => exact h
  | observe i now hnow => exact h
  | call kind =>
    rw [update_calls, if_neg (Nat.ne_of_lt hj)]
    exact h
  | cancel k hk =>
    rw [update_calls]
    split_ifs with hjk
    · exact hjk ▸ h
    · exact h
  | measure k hk op ops next hpc =>
    refine Call.Leaked.update (s := s.setMetric op) ?_ ?_ <;> rw [(setMetric_calls s op).1]
    · exact h
    · simp [hpc]
  | read k hk now i selected reads hpc hi =>
    exact Call.Leaked.update (s := s.atEndpoint i _) h (by simp [Serving.atEndpoint, hpc])
  | begin k hk i reads hpc =>
    exact Call.Leaked.update (s := s.atEndpoint i _) h (by simp [Serving.atEndpoint, hpc])
  | finish k hk i latency err now next ops hpc =>
    exact Call.Leaked.update (s := s.atEndpoint i _) h (by simp [Serving.atEndpoint, hpc])
  | start k hk hpc => exact Call.Leaked.update h (by simp [hpc])
  | choose k hk now i best reads hpc hi => exact Call.Leaked.update h (by simp [hpc])
  | refuse k hk now i selected reads err hpc => exact Call.Leaked.update h (by simp [hpc])
  | measured k hk next hpc => exact Call.Leaked.update h (by simp [hpc])
  | fail k hk err hpc => exact Call.Leaked.update h (by simp [hpc])
  | flushable k hk i handler hpc hkind => exact Call.Leaked.update h (by simp [hpc])
  | unflushable k hk i handler hpc hkind => exact Call.Leaked.update h (by simp [hpc])
  | answer k hk i err latency next hpc hnext => exact Call.Leaked.update h (by simp [hpc])
  | opened k hk i latency hpc => exact Call.Leaked.update h (by simp [hpc])
  | event k hk i handler event latency hpc => exact Call.Leaked.update h (by simp [hpc])
  | recvError k hk i handler err latency hpc honce => exact Call.Leaked.update h (by simp [hpc])
  | recvAgain k hk i handler err latency hpc honce => exact Call.Leaked.update h (by simp [hpc])
  | round k hk i handler h' event effects hpc => exact Call.Leaked.update h (by simp [hpc])
  | lastRound k hk i handler result writeErr effects hpc hlast =>
    exact Call.Leaked.update h (by simp [hpc])

theorem not_leaked_update {k j : Nat} {f : Call → Call} (h : ¬ (s.calls j).Leaked)
    (hk : ¬ (f (s.calls k)).Leaked) : ¬ ((s.update k f).calls j).Leaked := by
  rw [update_calls]
  split_ifs
  · exact hk
  · exact h

/-- Handlers that keep to their streams leak nothing. -/
theorem not_leaked_move (hacc : s.Accounted) {j : Nat} (h : ¬ (s.calls j).Leaked) {a : Action}
    (hkeeps : KeepsStream s a) (hmove : s.Move cfg a s') : ¬ (s'.calls j).Leaked := by
  have hfits := hacc.fits
  cases hmove with
  | pass time => exact h
  | observe i now hnow => exact h
  | call kind => exact not_leaked_update h (fun hleak => hleak.2.1 rfl)
  | cancel k hk =>
    rw [update_calls]
    split_ifs with hjk
    · exact hjk ▸ h
    · exact h
  | measured k hk next hpc =>
    have hk' := hfits k
    rw [Call.Fits, hpc] at hk'
    refine not_leaked_update h fun ⟨hreturned, hbegun, hfinished⟩ => ?_
    have hone : (s.calls k).finished = 1 := hk'.2 hreturned hbegun
    simp only [hone] at hfinished
    omega
  | measure k hk op ops next hpc =>
    refine not_leaked_update (s := s.setMetric op) ?_ (fun hleak => by simp [Call.Leaked] at hleak)
    rw [(setMetric_calls s op).1]
    exact h
  | fail k hk err hpc =>
    have hk' := hfits k
    rw [Call.Fits, hpc] at hk'
    have hsettled : (s.calls k).finished = if (s.calls k).begun.isSome then 1 else 0 := hk'
    refine not_leaked_update h fun ⟨_, hbegun, hfinished⟩ => ?_
    have hsome : (s.calls k).begun.isSome = true := Option.isSome_iff_ne_none.mpr hbegun
    simp only [hsettled, hsome, if_true] at hfinished
    omega
  | unflushable k hk i handler hpc hkind => exact absurd hkind (hkeeps i handler hpc)
  | lastRound k hk i handler result writeErr effects hpc hlast =>
    have hk' := hfits k
    rw [Call.Fits, hpc] at hk'
    cases result with
    | ok event => exact absurd (hkeeps i handler event hpc) (hlast rfl)
    | error err =>
      have hsettled : (s.calls k).finished = if (s.calls k).begun.isSome then 1 else 0 := hk'
      refine not_leaked_update h fun ⟨_, hbegun, hfinished⟩ => ?_
      have hsome : (s.calls k).begun.isSome = true := Option.isSome_iff_ne_none.mpr hbegun
      simp only [hsettled, hsome, if_true] at hfinished
      omega
  | read k hk now i selected reads hpc hi =>
    exact not_leaked_update (s := s.atEndpoint i _) h (fun hleak => by simp [Call.Leaked] at hleak)
  | begin k hk i reads hpc =>
    exact not_leaked_update (s := s.atEndpoint i _) h (fun hleak => by simp [Call.Leaked] at hleak)
  | finish k hk i latency err now next ops hpc =>
    exact not_leaked_update (s := s.atEndpoint i _) h (fun hleak => by simp [Call.Leaked] at hleak)
  | start k hk hpc => exact not_leaked_update h (fun hleak => by simp [Call.Leaked] at hleak)
  | choose k hk now i best reads hpc hi =>
    exact not_leaked_update h (fun hleak => by simp [Call.Leaked] at hleak)
  | refuse k hk now i selected reads err hpc =>
    exact not_leaked_update h (fun hleak => by simp [Call.Leaked] at hleak)
  | flushable k hk i handler hpc hkind =>
    exact not_leaked_update h (fun hleak => by simp [Call.Leaked] at hleak)
  | answer k hk i err latency next hpc hnext =>
    exact not_leaked_update h (fun hleak => by simp [Call.Leaked] at hleak)
  | opened k hk i latency hpc =>
    exact not_leaked_update h (fun hleak => by simp [Call.Leaked] at hleak)
  | event k hk i handler event latency hpc =>
    exact not_leaked_update h (fun hleak => by simp [Call.Leaked] at hleak)
  | recvError k hk i handler err latency hpc honce =>
    exact not_leaked_update h (fun hleak => by simp [Call.Leaked] at hleak)
  | recvAgain k hk i handler err latency hpc honce =>
    exact not_leaked_update h (fun hleak => by simp [Call.Leaked] at hleak)
  | round k hk i handler h' event effects hpc =>
    exact not_leaked_update h (fun hleak => by simp [Call.Leaked] at hleak)

/-- A handler that leaves its stream unread leaks its call. -/
theorem leaks_of_not_keepsStream (hacc : s.Accounted) {a : Action} (hleaves : ¬ KeepsStream s a)
    (h : step cfg s a = some s') : ∃ k, (s'.calls k).Leaked := by
  cases a with
  | advance k =>
    simp only [KeepsStream, not_forall, not_not] at hleaves
    obtain ⟨i, handler, hpc, hkind⟩ := hleaves
    have hk' := hacc.fits k
    rw [Call.Fits, hpc] at hk'
    obtain ⟨hbegun, hfinished, -⟩ := hk'
    simp only [step, Serving.advance, hpc, hkind] at h
    split_ifs at h
    obtain rfl := Option.some.inj h
    refine ⟨k, ?_⟩
    rw [update_calls, if_pos rfl]
    exact ⟨rfl, by simp [hbegun], hfinished⟩
  | deliver k writeErr =>
    simp only [KeepsStream, not_forall] at hleaves
    obtain ⟨i, handler, event, hpc, herr⟩ := hleaves
    have hk' := hacc.fits k
    rw [Call.Fits, hpc] at hk'
    obtain ⟨hbegun, hfinished, -⟩ := hk'
    have hlast : (handler.receive (.ok event) writeErr).1 = none := by
      simp [StreamHandler.receive, Option.isSome_iff_ne_none.mpr herr]
    simp only [step, Serving.deliver, hpc, hlast] at h
    split_ifs at h
    obtain rfl := Option.some.inj h
    refine ⟨k, ?_⟩
    rw [update_calls, if_pos rfl]
    exact ⟨rfl, by simp [hbegun], hfinished⟩
  | _ => exact absurd trivial hleaves

theorem run_leaked {actions : List Action} (hacc : s.Accounted) {k : Nat}
    (hleak : (s.calls k).Leaked) (h : run (step cfg) s actions = some s') :
    (s'.calls k).Leaked := by
  have hboth := run_invariant
    (motive := fun t : Serving => t.Accounted ∧ (t.calls k).Leaked) h ⟨hacc, hleak⟩ ?_
  · exact hboth.2
  · rintro s a s' ⟨hs, hl⟩ hstep
    exact ⟨hs.move (step_move hstep), hl.move hs (step_move hstep)⟩

/-- In-flight accounting over whole runs. The counts are always those of the calls begun and not
finished, no count is ever taken below zero and no call finishes twice; every call is finished
when its caller returns, and all counts are zero when all callers have returned, exactly in the
runs in which no handler leaves its stream unread, for a writer that cannot be flushed or a failed
write. -/
theorem inFlight_settles_iff (cfg : Config) (size : Nat) (streaming : Nat → Bool)
    (actions : List Action) (s : Serving)
    (h : run (step cfg.normalized) (newServing size streaming) actions = some s) :
    ((∀ i, (s.endpoints i).inFlight = ((Finset.range s.started).filter fun k =>
        (s.calls k).begun = some i ∧ (s.calls k).finished = 0).card) ∧
      (∀ k i latency err now next, (s.calls k).pc = .finish i latency err now next →
        0 < (s.endpoints i).inFlight) ∧
      (∀ k, (s.calls k).finished ≤ 1 ∧ ((s.calls k).begun = none → (s.calls k).finished = 0)) ∧
      (∀ k, (s.calls k).pc = .returned → (s.calls k).begun ≠ none → (s.calls k).finished = 1) ∧
      ((∀ k < s.started, (s.calls k).pc = .returned) → ∀ i, (s.endpoints i).inFlight = 0)) ↔
    Along (step cfg.normalized) KeepsStream (newServing size streaming) actions := by
  have hacc := run_accounted h
  have hcount : ∀ i, (s.endpoints i).inFlight = ((Finset.range s.started).filter fun k =>
      (s.calls k).begun = some i ∧ (s.calls k).finished = 0).card := by
    intro i
    rw [hacc.load i]
    simp only [Call.openOn, Finset.sum_boole]
  constructor
  · rintro ⟨-, -, -, hreturned, -⟩
    refine along_of_prefixes fun first a second t hsplit hfirst => ?_
    by_contra hleaves
    obtain ⟨t', ht', hrest⟩ := (run_append first (a :: second)).mp (hsplit ▸ h)
    obtain rfl := Option.some.inj (hfirst.symm.trans ht')
    obtain ⟨u, hstep, hrest⟩ := run_cons.mp hrest
    have hacc' := run_accounted hfirst
    obtain ⟨k, hleak⟩ := leaks_of_not_keepsStream hacc' hleaves hstep
    obtain ⟨hpc, hbegun, hfinished⟩ := run_leaked (hacc'.move (step_move hstep)) hleak hrest
    have hone := hreturned k hpc hbegun
    omega
  · intro halong
    have hboth := run_along
      (motive := fun t : Serving => t.Accounted ∧ ∀ k, ¬ (t.calls k).Leaked) h halong ?_ ?_
    · have hreturned : ∀ k, (s.calls k).pc = .returned → (s.calls k).begun ≠ none →
          (s.calls k).finished = 1 := by
        intro k hpc hbegun
        have hle := (hacc.fits k).finished_le.1
        by_contra hnot
        exact hboth.2 k ⟨hpc, hbegun, by omega⟩
      refine ⟨hcount, fun k i latency err now next hpc => ?_, fun k => (hacc.fits k).finished_le,
        hreturned, fun hall i => ?_⟩
      · have hfits := hacc.fits k
        rw [Call.Fits, hpc] at hfits
        obtain ⟨hbegun, hfinished, -⟩ := hfits
        have hk : k < s.started := by
          by_contra hk
          simp [hacc.fresh k (Nat.not_lt.mp hk)] at hbegun
        exact hacc.load_pos hk hbegun hfinished
      · rw [hcount i, Finset.card_eq_zero.mpr]
        · rfl
        refine Finset.filter_eq_empty_iff.mpr fun k hk ⟨hbegun, hfinished⟩ => ?_
        have hone := hreturned k (hall k (Finset.mem_range.mp hk)) (by simp [hbegun])
        omega
    · exact ⟨⟨fun k => ⟨rfl, rfl, rfl⟩, fun k _ => rfl, fun i => rfl⟩, fun k hleak => hleak.2.1 rfl⟩
    · rintro t a t' hkeeps ⟨hacc', hnone⟩ hstep
      exact ⟨hacc'.move (step_move hstep),
        fun k => not_leaked_move hacc' (hnone k) hkeeps (step_move hstep)⟩

/-- A handler whose client stops reading after the first token, and a `flush` on the other
worker. -/
def abandonedStream : List Action :=
  let span : Gateway.ActiveSpan := ⟨0, "trace", "span", "", "http.predict.stream"⟩
  let h : StreamHandler :=
    { requestID := "req-1", httpSpan := span, workerSpan := span, backendSpan := span }
  let token : StreamResponse := { id := "req-1", eventType := "token", delta := "hi" }
  .call (.stream h true) :: List.replicate 8 (.advance 0) ++
    [.answer 0 none 1, .advance 0, .recv 0 (.ok token) 2,
      .deliver 0 (some (.status .unknown "broken pipe"))] ++
    .call .batch :: List.replicate 8 (.advance 1) ++
    .answer 1 none 1 :: List.replicate 4 (.advance 1)

theorem abandonedStream_run :
    let cfg : Config := { promptTokens := fun n => n }
    ∃ s, run (step cfg.normalized) (newServing 2 fun _ => true) abandonedStream = some s ∧
      (∀ k < s.started, (s.calls k).pc = .returned) ∧ (s.endpoints 0).inFlight = 1 := by
  intro cfg
  refine ⟨_, rfl, fun k hk => ?_, rfl⟩
  have hk' : k < 2 := hk
  interval_cases k <;> rfl

/-- Both callers have returned, and the first worker still counts one call. -/
theorem abandonedStream_leaks :
    let cfg : Config := { promptTokens := fun n => n }
    ∃ s, run (step cfg.normalized) (newServing 2 fun _ => true) abandonedStream = some s ∧
      ¬ ((∀ k < s.started, (s.calls k).pc = .returned) → ∀ i, (s.endpoints i).inFlight = 0) := by
  intro cfg
  obtain ⟨s, hrun, hreturned, hone⟩ := abandonedStream_run
  refine ⟨s, hrun, fun hzero => ?_⟩
  rw [hzero hreturned 0] at hone
  exact absurd hone (by decide)

/-- Seen from its steps, the run is one that leaves a stream unread. -/
theorem abandonedStream_unread :
    let cfg : Config := { promptTokens := fun n => n }
    ¬ Along (step cfg.normalized) KeepsStream (newServing 2 fun _ => true) abandonedStream := by
  intro cfg halong
  obtain ⟨s, hrun, hreturned, hone⟩ := abandonedStream_run
  have hzero := ((inFlight_settles_iff cfg 2 (fun _ => true) _ s hrun).mpr halong).2.2.2.2
  rw [hzero hreturned 0] at hone
  exact absurd hone (by decide)

end Laminar.Pool
