import Laminar.Gateway.Batcher
import Laminar.Pool.Balance

/-! `WorkersReady` and the batcher's circuit guard over the pool: the guard lets a batch through
exactly when the pool has an endpoint for it, an endpoint is shut out by its own failures only, and
comes back in time. -/
namespace Laminar.Pool
open Laminar.Gateway (Config Error StreamHandler StreamResponse Breaker)
open Laminar.Transition

/-- The loop of `WorkersReady`; `available` is a refresh, and the first closed circuit ends it. -/
def Serving.readyLoop (now : Int) (s : Serving) : List Nat → Bool × Serving
  | [] => (false, s)
  | i :: rest =>
    let r := (s.endpoints i).refreshCircuitLocked now
    let s := s.atEndpoint i fun _ => r.2
    if !r.1 then (true, s) else s.readyLoop now rest

def Serving.workersReady (s : Serving) (now : Int) : Bool × Serving :=
  s.readyLoop now (List.range s.size)

/-- The circuit of the endpoint was opened by failures of its own, and closes by a deadline. -/
structure WorkerEndpoint.Deserved (cfg : Config) (deadline : Int) (e : WorkerEndpoint) : Prop where
  counted : 0 ≤ e.consecutiveFailures ∧ e.consecutiveFailures ≤ e.totalFailures
  tripped : e.circuitOpenUntil ≠ none → cfg.circuitBreakerThreshold ≤ e.totalFailures
  closes : ∀ openUntil, e.circuitOpenUntil = some openUntil → openUntil ≤ deadline

def CallPC.Timely (time : Int) : CallPC → Prop
  | .finish _ _ _ now next => now ≤ time ∧ next.Timely time
  | .metrics _ next => next.Timely time
  | _ => True

structure Serving.Dated (cfg : Config) (deadline : Int) (s : Serving) : Prop where
  deserved : ∀ i, (s.endpoints i).Deserved cfg deadline
  timely : ∀ k, (s.calls k).pc.Timely s.now

def NoFailureRecorded (s : Serving) : Action → Prop
  | .advance k => ∀ i latency err now next,
    (s.calls k).pc ≠ .finish i latency (some err) now next
  | _ => True

variable {cfg : Config} {s s' : Serving} {deadline : Int}

theorem CallPC.Timely.later {pc : CallPC} {time time' : Int} (h : pc.Timely time)
    (hlater : time ≤ time') : pc.Timely time' := by
  induction pc with
  | finish i latency err now next ih => exact ⟨h.1.trans hlater, ih h.2⟩
  | metrics ops next ih => exact ih h
  | _ => trivial

theorem Serving.Move.frame {a : Action} (h : s.Move cfg a s') :
    s.now ≤ s'.now ∧ s'.size = s.size := by
  cases h with
  | pass time => exact ⟨Int.le_add_of_nonneg_right (Int.natCast_nonneg time), rfl⟩
  | measure k hk op ops next hpc => cases op <;> exact ⟨Int.le_refl _, rfl⟩
  | _ => exact ⟨Int.le_refl _, rfl⟩

theorem run_size {actions : List Action} (h : run (step cfg) s actions = some s') :
    s'.size = s.size :=
  run_invariant (motive := fun t : Serving => t.size = s.size) h rfl
    fun _ _ _ ht hstep => (step_move hstep).frame.2.trans ht

theorem setMetric_totalFailures (s : Serving) (op : MetricOp) (i : Nat) :
    ((s.setMetric op).endpoints i).totalFailures = (s.endpoints i).totalFailures := by
  cases op <;> simp only [Serving.setMetric, atEndpoint_endpoints] <;> split_ifs <;> rfl

section
variable {e : WorkerEndpoint} (h : e.Deserved cfg deadline)
include h

theorem WorkerEndpoint.Deserved.later {deadline' : Int} (hlater : deadline ≤ deadline') :
    e.Deserved cfg deadline' :=
  ⟨h.counted, h.tripped, fun openUntil ho => (h.closes openUntil ho).trans hlater⟩

theorem WorkerEndpoint.Deserved.refresh (now : Int) :
    (e.refreshCircuitLocked now).2.Deserved cfg deadline := by
  unfold WorkerEndpoint.refreshCircuitLocked
  split
  · exact ⟨h.counted, h.tripped, h.closes⟩
  · split_ifs
    · exact ⟨h.counted, h.tripped, h.closes⟩
    · exact ⟨⟨Int.le_refl 0, Int.natCast_nonneg _⟩, by simp, by simp⟩

theorem WorkerEndpoint.Deserved.finish (latency : Int) (err : Option Error) {now : Int}
    (hnow : err = none ∨ now + cfg.circuitBreakerResetAfter ≤ deadline) :
    (e.finish cfg latency err now).Deserved cfg deadline := by
  obtain ⟨hnonneg, hle⟩ := h.counted
  cases err with
  | none =>
    exact ⟨⟨Int.le_refl 0, Int.natCast_nonneg _⟩, by simp [WorkerEndpoint.finish],
      by simp [WorkerEndpoint.finish]⟩
  | some err =>
    have hreset := hnow.resolve_left (by simp)
    refine ⟨?_, fun hopen => ?_, fun openUntil ho => ?_⟩
    · simp only [WorkerEndpoint.finish]
      push_cast
      omega
    · simp only [WorkerEndpoint.finish] at hopen ⊢
      push_cast
      split_ifs at hopen with hcount
      · omega
      · have hbefore := h.tripped hopen
        omega
    · simp only [WorkerEndpoint.finish] at ho
      split_ifs at ho with hcount
      · obtain rfl := Option.some.inj ho
        exact hreset
      · exact h.closes openUntil ho

end

section
variable (h : s.Dated cfg deadline)
include h

theorem Serving.Dated.update {k : Nat} {f : Call → Call}
    (htimely : (f (s.calls k)).pc.Timely s.now) : (s.update k f).Dated cfg deadline := by
  refine ⟨h.deserved, fun j => ?_⟩
  rw [update_calls]
  split_ifs
  · exact htimely
  · exact h.timely j

theorem Serving.Dated.atEndpoint {i : Nat} {f : WorkerEndpoint → WorkerEndpoint}
    (hdeserved : (f (s.endpoints i)).Deserved cfg deadline) :
    (s.atEndpoint i f).Dated cfg deadline := by
  refine ⟨fun j => ?_, h.timely⟩
  rw [atEndpoint_endpoints]
  split_ifs with hj
  · exact hj ▸ hdeserved
  · exact h.deserved j

theorem Serving.Dated.setMetric (op : MetricOp) : (s.setMetric op).Dated cfg deadline := by
  refine ⟨fun i => ?_, fun k => ?_⟩
  · have hi := h.deserved i
    have hagrees := setMetric_agrees s op i
    have htotal := setMetric_totalFailures s op i
    refine ⟨?_, ?_, ?_⟩
    · rw [hagrees.consecutiveFailures, htotal]
      exact hi.counted
    · rw [hagrees.circuitOpenUntil, htotal]
      exact hi.tripped
    · rw [hagrees.circuitOpenUntil]
      exact hi.closes
  · cases op <;> exact h.timely k

/-- A step keeps a deadline unless it records a failure, and then if a reset from now is in time. -/
theorem Serving.Dated.move {a : Action} (hmove : s.Move cfg a s')
    (hrecorded : NoFailureRecorded s a ∨ s.now + cfg.circuitBreakerResetAfter ≤ deadline) :
    s'.Dated cfg deadline := by
  have htimely := h.timely
  cases hmove with
  | pass time =>
    have hlater : s.now ≤ s.now + time := Int.le_add_of_nonneg_right (Int.natCast_nonneg time)
    exact ⟨h.deserved, fun k => (h.timely k).later hlater⟩
  | observe i now hnow => exact h.atEndpoint ((h.deserved i).refresh now)
  | call kind =>
    have hnew : Serving.Dated cfg deadline { s with started := s.started + 1 } :=
      ⟨h.deserved, h.timely⟩
    exact hnew.update (f := fun _ => { kind := kind }) trivial
  | cancel k hk => exact h.update (h.timely k)
  | start k hk hpc => exact h.update trivial
  | read k hk now i selected reads hpc hi =>
    exact (h.atEndpoint ((h.deserved i).refresh now)).update trivial
  | choose k hk now i best reads hpc hi => exact h.update trivial
  | refuse k hk now i selected reads err hpc => exact h.update trivial
  | begin k hk i reads hpc =>
    have hi := h.deserved i
    exact (h.atEndpoint ⟨hi.counted, hi.tripped, hi.closes⟩).update trivial
  | measured k hk next hpc =>
    have hk' := htimely k
    rw [hpc] at hk'
    exact h.update hk'
  | measure k hk op ops next hpc =>
    have hk' := htimely k
    rw [hpc] at hk'
    refine (h.setMetric op).update ?_
    cases op <;> exact hk'
  | finish k hk i latency err now next ops hpc =>
    have hk' := htimely k
    rw [hpc] at hk'
    obtain ⟨hnow, hnext⟩ := hk'
    have hend : err = none ∨ now + cfg.circuitBreakerResetAfter ≤ deadline := by
      cases err with
      | none => exact Or.inl rfl
      | some err =>
        refine Or.inr ?_
        rcases hrecorded with hnone | hle
        · exact absurd hpc (hnone i latency err now next)
        · omega
    exact (h.atEndpoint ((h.deserved i).finish latency err hend)).update hnext
  | fail k hk err hpc => exact h.update trivial
  | flushable k hk i handler hpc hkind => exact h.update trivial
  | unflushable k hk i handler hpc hkind => exact h.update trivial
  | answer k hk i err latency next hpc hnext =>
    refine h.update ⟨Int.le_refl _, ?_⟩
    obtain rfl | ⟨e, -, rfl⟩ := hnext <;> trivial
  | opened k hk i latency hpc => exact h.update trivial
  | event k hk i handler event latency hpc => exact h.update trivial
  | recvError k hk i handler err latency hpc honce =>
    exact h.update ⟨Int.le_refl _, trivial⟩
  | recvAgain k hk i handler err latency hpc honce => exact h.update trivial
  | round k hk i handler h' event effects hpc => exact h.update trivial
  | lastRound k hk i handler result writeErr effects hpc hlast => exact h.update trivial

theorem Serving.Dated.later {deadline' : Int} (hlater : deadline ≤ deadline') :
    s.Dated cfg deadline' :=
  ⟨fun i => (h.deserved i).later hlater, h.timely⟩

/-- Past the deadline every circuit is closed. -/
theorem Serving.Dated.closed {now : Int} (hnow : deadline ≤ now) (i : Nat) :
    (s.endpoints i).circuitOpenLocked now = false := by
  unfold WorkerEndpoint.circuitOpenLocked
  split
  · rfl
  · rename_i openUntil hopen
    have hle := (h.deserved i).closes openUntil hopen
    exact decide_eq_false (by omega)

end

/-- At any time no circuit is open for longer than a reset from now. -/
theorem run_dated {size : Nat} {streaming : Nat → Bool} {actions : List Action}
    (h : run (step cfg) (newServing size streaming) actions = some s) :
    s.Dated cfg (s.now + cfg.circuitBreakerResetAfter) := by
  refine run_invariant (motive := fun s : Serving =>
    s.Dated cfg (s.now + cfg.circuitBreakerResetAfter)) h ?_ fun s a t hs hstep => ?_
  · exact ⟨fun i => ⟨⟨Int.le_refl 0, Int.le_refl 0⟩, by simp [newServing], by simp [newServing]⟩,
      fun k => trivial⟩
  · have hmove := step_move hstep
    have hle := hmove.frame.1
    exact (hs.move hmove (Or.inr (Int.le_refl _))).later (by omega)

/-- A refresh answers the same when it is made again. -/
theorem refresh_openLocked (e : WorkerEndpoint) (now : Int) :
    (e.refreshCircuitLocked now).2.circuitOpenLocked now = e.circuitOpenLocked now := by
  unfold WorkerEndpoint.refreshCircuitLocked
  split
  · simp only [WorkerEndpoint.circuitOpenLocked, *]
  · rename_i openUntil hopen
    split_ifs with hlt
    · simp only [WorkerEndpoint.circuitOpenLocked, hopen]
    · simp only [WorkerEndpoint.circuitOpenLocked, hopen]
      exact (decide_eq_false hlt).symm

/-- A circuit that is closed stays closed until a failure. -/
theorem openLocked_later {e : WorkerEndpoint} {now later : Int} (hlater : now ≤ later)
    (h : e.circuitOpenLocked now = false) : e.circuitOpenLocked later = false := by
  unfold WorkerEndpoint.circuitOpenLocked at h ⊢
  split
  · rfl
  · rename_i openUntil hopen
    rw [hopen] at h
    have hle := of_decide_eq_false h
    exact decide_eq_false (by omega)

theorem look_openLocked (s : Serving) (i j : Nat) (now : Int) :
    ((s.atEndpoint i fun _ => ((s.endpoints i).refreshCircuitLocked now).2).endpoints
      j).circuitOpenLocked now = (s.endpoints j).circuitOpenLocked now := by
  rw [atEndpoint_endpoints]
  split_ifs with hj
  · rw [hj, refresh_openLocked]
  · rfl

/-- `WorkersReady` opens and closes no circuit, and finds a closed one if there is one. -/
theorem readyLoop_answer (now : Int) (l : List Nat) (s : Serving) :
    (∀ i, ((s.readyLoop now l).2.endpoints i).circuitOpenLocked now =
      (s.endpoints i).circuitOpenLocked now) ∧
    ((s.readyLoop now l).1 = true ↔ ∃ i ∈ l, (s.endpoints i).circuitOpenLocked now = false) := by
  induction l generalizing s with
  | nil => exact ⟨fun i => rfl, by simp [Serving.readyLoop]⟩
  | cons i rest ih =>
    have hlook := fun j => look_openLocked s i j now
    have hanswer := refreshCircuitLocked_answer (s.endpoints i) now
    rw [Serving.readyLoop]
    generalize (s.endpoints i).refreshCircuitLocked now = r at hlook hanswer ⊢
    cases hopen : r.1 with
    | false =>
      exact ⟨hlook, iff_of_true rfl ⟨i, List.mem_cons_self, hanswer.symm.trans hopen⟩⟩
    | true =>
      obtain ⟨hkept, hready⟩ := ih (s.atEndpoint i fun _ => r.2)
      refine ⟨fun j => (hkept j).trans (hlook j), hready.trans ?_⟩
      simp only [hlook, List.mem_cons, exists_eq_or_imp, ← hanswer, hopen, Bool.true_eq_false,
        false_or]

theorem readyLoop_run (cfg : Config) {now : Int} (l : List Nat) (hnow : now ≤ s.now) :
    ∃ first, first <+: l ∧ run (step cfg) s (first.map fun i => .observe i now) =
      some (s.readyLoop now l).2 := by
  induction l generalizing s with
  | nil => exact ⟨[], List.prefix_refl _, rfl⟩
  | cons i rest ih =>
    have hlook : step cfg s (.observe i now) =
        some (s.atEndpoint i fun _ => ((s.endpoints i).refreshCircuitLocked now).2) :=
      if_pos hnow
    rw [Serving.readyLoop]
    generalize (s.endpoints i).refreshCircuitLocked now = r at hlook ⊢
    cases hopen : r.1 with
    | false => exact ⟨[i], ⟨rest, rfl⟩, run_cons.mpr ⟨_, hlook, rfl⟩⟩
    | true =>
      obtain ⟨first, hfirst, hrun⟩ := ih (s := s.atEndpoint i fun _ => r.2) hnow
      exact ⟨i :: first, List.cons_prefix_cons.mpr ⟨rfl, hfirst⟩,
        run_cons.mpr ⟨_, hlook, hrun⟩⟩

/-- `WorkersReady` finds what selection finds: a closed circuit. -/
theorem workersReady_iff (s : Serving) (now : Int) :
    (s.workersReady now).1 = true ↔
      ∃ i < s.size, (s.endpoints i).circuitOpenLocked now = false := by
  rw [Serving.workersReady, (readyLoop_answer now _ s).2]
  simp only [List.mem_range]

/-- The circuit guard of the batcher over a pool, in every run of the pool. The guard turns a batch
away exactly when the pool has no endpoint for it, whatever the batcher itself has counted; when it
lets the batch through, the pool has an endpoint for it then and at any later time, until another
caller does something. A circuit that is open has been opened by as many failures of its own
endpoint as the threshold says. And when no failure has been recorded for as long as a reset takes,
the guard is open again. -/
theorem guard_recovers (cfg : Config) (size : Nat) (streaming : Nat → Bool) :
    (∀ actions s, run (step cfg.normalized) (newServing size streaming) actions = some s →
      (∀ (b : Breaker) (now : Int),
        (b.isCircuitOpen cfg.normalized now (some (s.workersReady now).1)).1 = true ↔
          selectEndpoint s.endpoints s.size now =
            .error (.status .unavailable "no available workers")) ∧
      (∀ now ≤ s.now, (s.workersReady now).1 = true → ∀ later, now ≤ later →
        ∃ i, selectEndpoint (s.workersReady now).2.endpoints s.size later = .ok i ∧
          (s.workersReady now).2.Least later i) ∧
      (∀ i now, (s.endpoints i).circuitOpenLocked now = true →
        cfg.normalized.circuitBreakerThreshold ≤ (s.endpoints i).totalFailures)) ∧
    (0 < size → ∀ actions s more s',
      run (step cfg.normalized) (newServing size streaming) actions = some s →
      run (step cfg.normalized) s more = some s' →
      Along (step cfg.normalized) NoFailureRecorded s more →
      s.now + cfg.normalized.circuitBreakerResetAfter ≤ s'.now → ∀ b : Breaker,
        (b.isCircuitOpen cfg.normalized s'.now (some (s'.workersReady s'.now).1)).1 = false) := by
  have hguard : ∀ (b : Breaker) now ready,
      (b.isCircuitOpen cfg.normalized now (some ready)).1 = !ready := fun b now ready => by
    cases ready <;> rfl
  refine ⟨fun actions s hrun => ⟨fun b now => ?_, fun now hnow hready later hlater => ?_,
    fun i now hopen => ?_⟩, fun hsize actions s more s' hrun hmore halong hlate b => ?_⟩
  · rw [hguard, Bool.not_eq_true', ← Bool.not_eq_true, workersReady_iff, selectEndpoint_error]
    simp only [not_exists, not_and, Bool.not_eq_false]
  · obtain ⟨first, -, hlooks⟩ := readyLoop_run cfg.normalized (List.range s.size) hnow
    obtain ⟨i, hi, hclosed⟩ := (workersReady_iff s now).mp hready
    have hsize : (s.workersReady now).2.size = s.size := run_size hlooks
    have hrouted := run_routed ((run_append _ _).mpr ⟨s, hrun, hlooks⟩)
    have heligible : (s.workersReady now).2.Eligible later i :=
      ⟨hsize.symm ▸ hi, openLocked_later hlater
        (((readyLoop_answer now _ s).1 i).trans hclosed)⟩
    obtain ⟨best, hbest, hleast⟩ := selectEndpoint_least hrouted.index heligible
    exact ⟨best, hsize ▸ hbest, hleast⟩
  · refine ((run_dated hrun).deserved i).tripped fun hnone => ?_
    simp [WorkerEndpoint.circuitOpenLocked, hnone] at hopen
  · have hdated : s'.Dated cfg.normalized (s.now + cfg.normalized.circuitBreakerResetAfter) :=
      run_along hmore halong (run_dated hrun) fun s a t hnone h hstep =>
        h.move (step_move hstep) (Or.inl hnone)
    have hsize' : s'.size = size := (run_size hmore).trans (run_size hrun)
    have hready : (s'.workersReady s'.now).1 = true :=
      (workersReady_iff s' s'.now).mpr ⟨0, hsize' ▸ hsize, hdated.closed hlate 0⟩
    rw [hguard, hready]
    rfl

end Laminar.Pool
