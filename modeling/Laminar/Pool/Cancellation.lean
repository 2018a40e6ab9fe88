import Laminar.Pool.InFlight

/-! Clients that go away while the workers are well. `flush` calls the workers with a context of
the gateway, the stream handlers with that of their request. -/
namespace Laminar.Pool
open Laminar.Gateway (Config Error StreamHandler StreamResponse)
open Laminar.Transition

/-- No worker fails: the only errors from outside are the end of a stream and, for a handler whose
client has gone, the status with which its stream ends. -/
def NoWorkerFails (s : Serving) : Action → Prop
  | .answer k err _ => ∀ e, err = some e →
    (∃ message, e = .status .canceled message) ∧ (s.calls k).kind ≠ .batch ∧
      (s.calls k).ctxDone = true
  | .recv k (.error err) _ =>
    err = .eof ∨ ((∃ message, err = .status .canceled message) ∧ (s.calls k).ctxDone = true)
  | _ => True

/-- No cancellation comes back from a stream that is being opened or read. -/
def NotCancelled (_ : Serving) : Action → Prop
  | .answer _ err _ => ∀ message, err ≠ some (.status .canceled message)
  | .recv _ (.error err) _ => ∀ message, err ≠ .status .canceled message
  | _ => True

def CallPC.Clean : CallPC → Prop
  | .finish _ _ err _ next => err = none ∧ next.Clean
  | .metrics _ next => next.Clean
  | _ => True

def WorkerEndpoint.Healthy (e : WorkerEndpoint) : Prop :=
  e.consecutiveFailures = 0 ∧ e.circuitOpenUntil = none

structure Serving.Quiet (s : Serving) : Prop where
  healthy : ∀ i, (s.endpoints i).Healthy
  clean : ∀ k, (s.calls k).pc.Clean

variable {cfg : Config} {s s' : Serving}

theorem WorkerEndpoint.Healthy.refresh {e : WorkerEndpoint} (h : e.Healthy) (now : Int) :
    (e.refreshCircuitLocked now).2.Healthy := by
  simp only [WorkerEndpoint.refreshCircuitLocked, h.2]
  exact ⟨h.1, rfl⟩

theorem Serving.Quiet.update (h : s.Quiet) {k : Nat} {f : Call → Call}
    (hclean : (f (s.calls k)).pc.Clean) : (s.update k f).Quiet := by
  refine ⟨h.healthy, fun j => ?_⟩
  rw [update_calls]
  split_ifs
  · exact hclean
  · exact h.clean j

theorem Serving.Quiet.atEndpoint (h : s.Quiet) {i : Nat} {f : WorkerEndpoint → WorkerEndpoint}
    (hhealthy : (f (s.endpoints i)).Healthy) : (s.atEndpoint i f).Quiet := by
  refine ⟨fun j => ?_, h.clean⟩
  rw [atEndpoint_endpoints]
  split_ifs with hj
  · exact hj ▸ hhealthy
  · exact h.healthy j

theorem Serving.Quiet.setMetric (h : s.Quiet) (op : MetricOp) : (s.setMetric op).Quiet := by
  refine ⟨fun i => ?_, fun k => ?_⟩
  · have hagrees := setMetric_agrees s op i
    exact ⟨hagrees.consecutiveFailures.trans (h.healthy i).1,
      hagrees.circuitOpenUntil.trans (h.healthy i).2⟩
  · rw [(setMetric_calls s op).1]
    exact h.clean k

theorem Serving.Quiet.move (h : s.Quiet) {a : Action} (hworkers : NoWorkerFails s a)
    (hcancelled : NotCancelled s a) (hmove : s.Move cfg a s') : s'.Quiet := by
  have hclean := h.clean
  cases hmove with
  | pass time => exact ⟨h.healthy, h.clean⟩
  | observe i now hnow => exact h.atEndpoint ((h.healthy i).refresh now)
  | call kind =>
    have hnew : Serving.Quiet { s with started := s.started + 1 } := ⟨h.healthy, h.clean⟩
    exact hnew.update (f := fun _ => { kind := kind }) trivial
  | cancel k hk => exact h.update (h.clean k)
  | start k hk hpc => exact h.update trivial
  | read k hk now i selected reads hpc hi =>
    exact (h.atEndpoint ((h.healthy i).refresh now)).update trivial
  | choose k hk now i best reads hpc hi => exact h.update trivial
  | refuse k hk now i selected reads err hpc => exact h.update trivial
  | begin k hk i reads hpc =>
    refine (h.atEndpoint ?_).update trivial
    exact ⟨(h.healthy i).1, (h.healthy i).2⟩
  | measured k hk next hpc =>
    have hk' := hclean k
    rw [hpc] at hk'
    exact h.update hk'
  | measure k hk op ops next hpc =>
    have hk' := hclean k
    rw [hpc] at hk'
    exact (h.setMetric op).update hk'
  | finish k hk i latency err now next ops hpc =>
    have hk' := hclean k
    rw [hpc] at hk'
    obtain ⟨rfl, hnext⟩ := hk'
    exact (h.atEndpoint ⟨rfl, rfl⟩).update hnext
  | fail k hk err hpc => exact h.update trivial
  | flushable k hk i handler hpc hkind => exact h.update trivial
  | unflushable k hk i handler hpc hkind => exact h.update trivial
  | answer k hk i err latency next hpc hnext =>
    have hnone : err = none := by
      cases err with
      | none => rfl
      | some e =>
        obtain ⟨⟨message, rfl⟩, -⟩ := hworkers e rfl
        exact absurd rfl (hcancelled message)
    refine h.update ⟨hnone, ?_⟩
    obtain rfl | ⟨e, -, rfl⟩ := hnext <;> trivial
  | opened k hk i latency hpc => exact h.update trivial
  | event k hk i handler event latency hpc => exact h.update trivial
  | recvError k hk i handler err latency hpc honce =>
    obtain heof | ⟨⟨message, rfl⟩, -⟩ := hworkers
    · exact h.update ⟨if_pos heof, trivial⟩
    · exact absurd rfl (hcancelled message)
  | recvAgain k hk i handler err latency hpc honce => exact h.update trivial
  | round k hk i handler h' event effects hpc => exact h.update trivial
  | lastRound k hk i handler result writeErr effects hpc hlast => exact h.update trivial

theorem newServing_quiet (size : Nat) (streaming : Nat → Bool) :
    (newServing size streaming).Quiet :=
  ⟨fun _ => ⟨rfl, rfl⟩, fun _ => trivial⟩

/-- A failure about to be reported is counted in the next step of its caller. -/
theorem finish_counts (cfg : Config) {k i : Nat} {latency : Int} {err : Error}
    {now : Int} {next : CallPC}
    (hk : k < s.started) (hpc : (s.calls k).pc = .finish i latency (some err) now next)
    (hhealthy : (s.endpoints i).Healthy) :
    ∃ s', run (step cfg) s ([k].map .advance) = some s' ∧
      (s'.endpoints i).consecutiveFailures = 1 := by
  have hstep : step cfg s (.advance k) = s.advance cfg k := if_pos hk
  have hone : ((s.atEndpoint i fun _ =>
      (s.endpoints i).finish cfg latency (some err) now).endpoints i).consecutiveFailures = 1 := by
    rw [atEndpoint_endpoints, if_pos rfl]
    simp only [WorkerEndpoint.finish, hhealthy.1]
    rfl
  simp only [List.map_cons, List.map_nil, run, hstep, Serving.advance, hpc]
  exact ⟨_, rfl, hone⟩

theorem cancelled_reports (hacc : s.Accounted) {a : Action} (hcancelled : ¬ NotCancelled s a)
    (h : step cfg s a = some s') :
    ∃ k i latency err now next, k < s'.started ∧
      (s'.calls k).pc = .finish i latency (some err) now next ∧ s'.endpoints = s.endpoints := by
  have hmove := step_move h
  cases hmove with
  | answer k hk i err latency next hpc hnext =>
    simp only [NotCancelled, not_forall, not_not] at hcancelled
    obtain ⟨message, rfl⟩ := hcancelled
    exact ⟨k, i, latency, _, _, next, hk, by rw [Serving.goto, update_calls, if_pos rfl], rfl⟩
  | opened k hk i latency hpc => exact absurd (by simp [NotCancelled]) hcancelled
  | recvError k hk i handler err latency hpc honce =>
    simp only [NotCancelled, not_forall, not_not] at hcancelled
    obtain ⟨message, rfl⟩ := hcancelled
    exact ⟨k, i, latency, _, _, _, hk, by rw [update_calls, if_pos rfl, if_neg (by simp)], rfl⟩
  | recvAgain k hk i handler err latency hpc honce =>
    have hfits := hacc.fits k
    rw [Call.Fits, hpc] at hfits
    exact absurd (honce.symm.trans hfits.2.2) (by simp)
  | _ => exact absurd trivial hcancelled

/-- While no worker fails: in every state of a run, and wherever the goroutines go from there by
themselves, no failure is counted against a worker and no circuit is open, exactly when no
cancellation of a client comes back from a stream being opened or read. -/
theorem cancellation_blames_nobody_iff (cfg : Config) (size : Nat) (streaming : Nat → Bool)
    (actions : List Action) (s : Serving)
    (h : run (step cfg.normalized) (newServing size streaming) actions = some s)
    (hworkers : Along (step cfg.normalized) NoWorkerFails (newServing size streaming) actions) :
    (∀ first second t, actions = first ++ second →
      run (step cfg.normalized) (newServing size streaming) first = some t →
      ∀ ks t', run (step cfg.normalized) t (List.map .advance ks) = some t' →
        ∀ i, (t'.endpoints i).consecutiveFailures = 0 ∧
          (t'.endpoints i).circuitOpenUntil = none) ↔
    Along (step cfg.normalized) NotCancelled (newServing size streaming) actions := by
  constructor
  · intro hquiet
    refine along_of_prefixes fun first a second t hsplit hfirst => ?_
    by_contra hcancelled
    obtain ⟨u, hu, hrest⟩ := (run_append first (a :: second)).mp (hsplit ▸ h)
    obtain rfl := Option.some.inj (hfirst.symm.trans hu)
    obtain ⟨u, hstep, -⟩ := run_cons.mp hrest
    obtain ⟨k, i, latency, err, now, next, hk, hpc, hsame⟩ :=
      cancelled_reports (run_accounted hfirst) hcancelled hstep
    have hhealthy : (u.endpoints i).Healthy := by
      rw [hsame]
      exact hquiet first (a :: second) t hsplit hfirst [] t rfl i
    obtain ⟨u', hrun, hone⟩ := finish_counts cfg.normalized hk hpc hhealthy
    have hzero := (hquiet (first ++ [a]) second u (by simp [hsplit])
      ((run_append first [a]).mpr ⟨t, hfirst, run_cons.mpr ⟨u, hstep, rfl⟩⟩) [k] u' hrun i).1
    omega
  · rintro hcancelled first second t rfl hfirst ks t' hks
    have hquiet : t.Quiet := by
      have hboth : Along (step cfg.normalized) (fun s a => NoWorkerFails s a ∧ NotCancelled s a)
          (newServing size streaming) first :=
        along_and (along_append hworkers) (along_append hcancelled)
      exact run_along hfirst hboth (newServing_quiet size streaming)
        fun s a s' hboth hq hstep => hq.move hboth.1 hboth.2 (step_move hstep)
    have hinternal : ∀ a ∈ List.map Action.advance ks, ∃ k, a = .advance k := by
      intro a ha
      obtain ⟨k, -, rfl⟩ := List.mem_map.mp ha
      exact ⟨k, rfl⟩
    have hquiet' : t'.Quiet := by
      refine run_preserves hks hinternal hquiet ?_
      rintro s a s' ⟨k, rfl⟩ hq hstep
      exact hq.move (a := .advance k) trivial trivial (step_move hstep)
    exact hquiet'.healthy

/-- A client that goes away while its stream is read. -/
def openStream : List Action :=
  let span : Gateway.ActiveSpan := ⟨0, "trace", "span", "", "http.predict.stream"⟩
  let h : StreamHandler :=
    { requestID := "req-1", httpSpan := span, workerSpan := span, backendSpan := span }
  .call (.stream h true) :: List.replicate 7 (.advance 0) ++
    [.answer 0 none 1, .advance 0, .cancel 0]

def cancelledStream : List Action :=
  openStream ++ [.recv 0 (.error (.status .canceled "context canceled")) 2]

theorem cancelledStream_workers :
    let cfg : Config := { promptTokens := fun n => n, circuitBreakerThreshold := 1 }
    Along (step cfg.normalized) NoWorkerFails (newServing 1 fun _ => true) cancelledStream := by
  intro cfg
  refine along_of_append (t := _) rfl (along_of_forall fun a ha s => ?_)
    ⟨Or.inr ⟨⟨_, rfl⟩, rfl⟩, fun _ _ => trivial⟩
  simp only [openStream, List.replicate, List.cons_append, List.nil_append, List.mem_cons,
    List.not_mem_nil, or_false] at ha
  obtain rfl | rfl | rfl | rfl | rfl | rfl | rfl | rfl | rfl | rfl | rfl := ha <;>
    simp [NoWorkerFails]

/-- One cancelled client opens the circuit of the only worker. -/
theorem cancelledStream_opensCircuit :
    let cfg : Config := { promptTokens := fun n => n, circuitBreakerThreshold := 1 }
    Along (step cfg.normalized) NoWorkerFails (newServing 1 fun _ => true) cancelledStream ∧
      ∃ s, run (step cfg.normalized) (newServing 1 fun _ => true)
          (cancelledStream ++ [.advance 0]) = some s ∧
        (s.endpoints 0).consecutiveFailures = 1 ∧
        (s.endpoints 0).circuitOpenLocked s.now = true := by
  intro cfg
  exact ⟨cancelledStream_workers, _, rfl, rfl, rfl⟩

/-- Seen from its steps, the run is one in which a cancellation comes back. -/
theorem cancelledStream_comesBack :
    let cfg : Config := { promptTokens := fun n => n, circuitBreakerThreshold := 1 }
    ¬ Along (step cfg.normalized) NotCancelled (newServing 1 fun _ => true) cancelledStream := by
  intro cfg halong
  have hnobody := (cancellation_blames_nobody_iff cfg 1 (fun _ => true) cancelledStream _ rfl
    cancelledStream_workers).mpr halong cancelledStream [] _ (by simp) rfl [0] _ rfl 0
  exact absurd hnobody.1 (by decide)

end Laminar.Pool
