import Laminar.Pool.Serving

/-! What each action can do to the pool and to its callers. -/
namespace Laminar.Pool
open Laminar.Gateway (Config Error StreamHandler StreamResponse)
variable {cfg : Config} {s s' : Serving}

theorem update_calls (s : Serving) (k j : Nat) (f : Call → Call) :
    (s.update k f).calls j = if j = k then f (s.calls k) else s.calls j := by
  simp only [Serving.update, Function.update_apply]

theorem atEndpoint_endpoints (s : Serving) (i j : Nat) (f : WorkerEndpoint → WorkerEndpoint) :
    (s.atEndpoint i f).endpoints j = if j = i then f (s.endpoints j) else s.endpoints j := by
  simp only [Serving.atEndpoint, Function.update_apply]
  split_ifs with hj
  · rw [hj]
  · rfl

structure WorkerEndpoint.Agrees (e e' : WorkerEndpoint) : Prop where
  index : e'.index = e.index
  inFlight : e'.inFlight = e.inFlight
  totalBatches : e'.totalBatches = e.totalBatches
  consecutiveFailures : e'.consecutiveFailures = e.consecutiveFailures
  circuitOpenUntil : e'.circuitOpenUntil = e.circuitOpenUntil

theorem setMetric_agrees (s : Serving) (op : MetricOp) (i : Nat) :
    (s.endpoints i).Agrees ((s.setMetric op).endpoints i) := by
  cases op <;> simp only [Serving.setMetric, atEndpoint_endpoints] <;> split_ifs <;>
    exact ⟨rfl, rfl, rfl, rfl, rfl⟩

theorem setMetric_calls (s : Serving) (op : MetricOp) :
    (s.setMetric op).calls = s.calls ∧ (s.setMetric op).started = s.started := by
  cases op <;> exact ⟨rfl, rfl⟩

inductive Serving.Move (cfg : Config) (s : Serving) : Action → Serving → Prop where
  | pass (time : Nat) : Move cfg s (.pass time) { s with now := s.now + time }
  | observe (i : Nat) (now : Int) (hnow : now ≤ s.now) :
      Move cfg s (.observe i now) (s.atEndpoint i fun e => (e.refreshCircuitLocked now).2)
  | call (kind : CallKind) :
      Move cfg s (.call kind)
        ({ s with started := s.started + 1 }.update s.started (fun _ => { kind := kind }))
  | cancel (k : Nat) (hk : k < s.started) :
      Move cfg s (.cancel k) (s.update k (fun c => { c with ctxDone := true }))
  | start (k : Nat) (hk : k < s.started) (hpc : (s.calls k).pc = .start) :
      Move cfg s (.advance k) (s.goto k (.select s.now 0 none []))
  | read (k : Nat) (hk : k < s.started) (now : Int) (i : Nat)
      (selected : Option WorkerSelectionState) (reads : List WorkerSelectionState)
      (hpc : (s.calls k).pc = .select now i selected reads) (hi : i < s.size) :
      Move cfg s (.advance k)
        ((s.atEndpoint i fun e => (e.refreshCircuitLocked now).2).goto k
          (.select now (i + 1) (consider selected ((s.endpoints i).selectionState now).1)
            (reads ++ [((s.endpoints i).selectionState now).1])))
  | choose (k : Nat) (hk : k < s.started) (now : Int) (i : Nat) (best : WorkerSelectionState)
      (reads : List WorkerSelectionState)
      (hpc : (s.calls k).pc = .select now i (some best) reads) (hi : s.size ≤ i) :
      Move cfg s (.advance k) (s.goto k (.begin best.index reads))
  | refuse (k : Nat) (hk : k < s.started) (now : Int) (i : Nat)
      (selected : Option WorkerSelectionState) (reads : List WorkerSelectionState) (err : Error)
      (hpc : (s.calls k).pc = .select now i selected reads) :
      Move cfg s (.advance k) (s.goto k (.failed err))
  | begin (k : Nat) (hk : k < s.started) (i : Nat) (reads : List WorkerSelectionState)
      (hpc : (s.calls k).pc = .begin i reads) :
      Move cfg s (.advance k) ((s.atEndpoint i fun e => e.begin s.now).update k (fun c => { c with
        begun := some i
        pc := .metrics [.batches i, .inFlight i ((s.endpoints i).begin s.now).inFlight]
          (.worker i) }))
  | measured (k : Nat) (hk : k < s.started) (next : CallPC)
      (hpc : (s.calls k).pc = .metrics [] next) : Move cfg s (.advance k) (s.goto k next)
  | measure (k : Nat) (hk : k < s.started) (op : MetricOp) (ops : List MetricOp) (next : CallPC)
      (hpc : (s.calls k).pc = .metrics (op :: ops) next) :
      Move cfg s (.advance k) ((s.setMetric op).goto k (.metrics ops next))
  | finish (k : Nat) (hk : k < s.started) (i : Nat) (latency : Int) (err : Option Error)
      (now : Int) (next : CallPC) (ops : List MetricOp)
      (hpc : (s.calls k).pc = .finish i latency err now next) :
      Move cfg s (.advance k)
        ((s.atEndpoint i fun e => e.finish cfg latency err now).update k (fun c => { c with
          finished := c.finished + 1, pc := .metrics ops next }))
  | fail (k : Nat) (hk : k < s.started) (err : Error) (hpc : (s.calls k).pc = .failed err) :
      Move cfg s (.advance k) (s.fail k err)
  | flushable (k : Nat) (hk : k < s.started) (i : Nat) (h : StreamHandler)
      (hpc : (s.calls k).pc = .opened i) (hkind : (s.calls k).kind = .stream h true) :
      Move cfg s (.advance k) (s.goto k (.recv i h))
  | unflushable (k : Nat) (hk : k < s.started) (i : Nat) (h : StreamHandler)
      (hpc : (s.calls k).pc = .opened i) (hkind : (s.calls k).kind = .stream h false) :
      Move cfg s (.advance k)
        (s.update k (fun c => { c with pc := .returned, effects := c.effects ++ h.unflushable }))
  | answer (k : Nat) (hk : k < s.started) (i : Nat) (err : Option Error) (latency : Int)
      (next : CallPC) (hpc : (s.calls k).pc = .worker i)
      (hnext : next = .returned ∨ ∃ e, err = some e ∧ next = .failed e) :
      Move cfg s (.answer k err latency) (s.goto k (.finish i latency err s.now next))
  | opened (k : Nat) (hk : k < s.started) (i : Nat) (latency : Int)
      (hpc : (s.calls k).pc = .worker i) :
      Move cfg s (.answer k none latency) (s.goto k (.opened i))
  | event (k : Nat) (hk : k < s.started) (i : Nat) (h : StreamHandler) (event : StreamResponse)
      (latency : Int) (hpc : (s.calls k).pc = .recv i h) :
      Move cfg s (.recv k (.ok event) latency) (s.goto k (.deliver i h (.ok event)))
  | recvError (k : Nat) (hk : k < s.started) (i : Nat) (h : StreamHandler) (err : Error)
      (latency : Int) (hpc : (s.calls k).pc = .recv i h) (honce : (s.calls k).once = false) :
      Move cfg s (.recv k (.error err) latency) (s.update k (fun c => { c with
        once := true
        pc := .finish i latency (if err = .eof then none else some err) s.now
          (.deliver i h (.error err)) }))
  | recvAgain (k : Nat) (hk : k < s.started) (i : Nat) (h : StreamHandler) (err : Error)
      (latency : Int) (hpc : (s.calls k).pc = .recv i h) (honce : (s.calls k).once = true) :
      Move cfg s (.recv k (.error err) latency) (s.goto k (.deliver i h (.error err)))
  | round (k : Nat) (hk : k < s.started) (i : Nat) (h h' : StreamHandler) (event : StreamResponse)
      (effects : List Gateway.StreamEffect)
      (hpc : (s.calls k).pc = .deliver i h (.ok event)) :
      Move cfg s (.deliver k none)
        (s.update k (fun c => { c with pc := .recv i h', effects := c.effects ++ effects }))
  | lastRound (k : Nat) (hk : k < s.started) (i : Nat) (h : StreamHandler)
      (result : Except Error StreamResponse) (writeErr : Option Error)
      (effects : List Gateway.StreamEffect)
      (hpc : (s.calls k).pc = .deliver i h result)
      (hlast : result.isOk = true → writeErr ≠ none) :
      Move cfg s (.deliver k writeErr)
        (s.update k (fun c => { c with pc := .returned, effects := c.effects ++ effects }))

theorem receive_last {h : StreamHandler} {result : Except Error StreamResponse}
    {writeErr : Option Error} (hlast : (h.receive result writeErr).1 = none) :
    result.isOk = true → writeErr ≠ none := by
  intro hok hnone
  cases result with
  | error err => exact absurd hok (by simp [Except.isOk, Except.toBool])
  | ok event =>
    obtain ⟨h', effects, hround, -⟩ := h.receive_event event
    rw [hnone, hround] at hlast
    simp at hlast

theorem receive_next {h h' : StreamHandler} {result : Except Error StreamResponse}
    {writeErr : Option Error} (hnext : (h.receive result writeErr).1 = some h') :
    ∃ event, result = .ok event ∧ writeErr = none := by
  cases result with
  | error err => cases err <;> simp [StreamHandler.receive] at hnext
  | ok event =>
    refine ⟨event, rfl, ?_⟩
    by_contra hsome
    have hsome' : writeErr.isSome = true := Option.isSome_iff_ne_none.mpr hsome
    simp [StreamHandler.receive, hsome'] at hnext

theorem advance_move {k : Nat} (hk : k < s.started) (h : s.advance cfg k = some s') :
    s.Move cfg (.advance k) s' := by
  unfold Serving.advance at h
  cases hpc : (s.calls k).pc with
  | start =>
    simp only [hpc] at h
    obtain rfl := Option.some.inj h
    exact .start k hk hpc
  | select now i selected reads =>
    simp only [hpc] at h
    split_ifs at h with hi
    · obtain rfl := Option.some.inj h
      exact .read k hk now i selected reads hpc hi
    · obtain rfl := Option.some.inj h
      unfold Serving.selected
      split
      · exact .refuse k hk now i _ reads _ hpc
      · split_ifs
        · exact .refuse k hk now i _ reads _ hpc
        · exact .choose k hk now i _ reads hpc (Nat.not_lt.mp hi)
  | begin i reads =>
    simp only [hpc] at h
    obtain rfl := Option.some.inj h
    exact .begin k hk i reads hpc
  | metrics ops next =>
    cases ops with
    | nil =>
      simp only [hpc] at h
      obtain rfl := Option.some.inj h
      exact .measured k hk next hpc
    | cons op ops =>
      simp only [hpc] at h
      obtain rfl := Option.some.inj h
      exact .measure k hk op ops next hpc
  | finish i latency err now next =>
    simp only [hpc] at h
    obtain rfl := Option.some.inj h
    exact .finish k hk i latency err now next _ hpc
  | failed err =>
    simp only [hpc] at h
    obtain rfl := Option.some.inj h
    exact .fail k hk err hpc
  | opened i =>
    simp only [hpc] at h
    split at h
    · obtain rfl := Option.some.inj h
      exact .flushable k hk i _ hpc ‹_›
    · obtain rfl := Option.some.inj h
      exact .unflushable k hk i _ hpc ‹_›
    · exact absurd h (by simp)
  | _ => simp [hpc] at h

/-- The inversion lemma of the system. -/
theorem step_move {a : Action} (h : step cfg s a = some s') : s.Move cfg a s' := by
  cases a with
  | pass time =>
    obtain rfl := Option.some.inj h
    exact .pass time
  | call kind =>
    obtain rfl := Option.some.inj h
    exact .call kind
  | cancel k =>
    simp only [step] at h
    split_ifs at h with hk
    obtain rfl := Option.some.inj h
    exact .cancel k hk
  | advance k =>
    simp only [step] at h
    split_ifs at h with hk
    exact advance_move hk h
  | answer k err latency =>
    simp only [step, Serving.answer] at h
    split_ifs at h with hk
    split at h
    · obtain rfl := Option.some.inj h
      exact .answer k hk _ _ latency _ ‹_› (Or.inl rfl)
    · obtain rfl := Option.some.inj h
      exact .answer k hk _ _ latency _ ‹_› (Or.inr ⟨_, rfl, rfl⟩)
    · obtain rfl := Option.some.inj h
      exact .opened k hk _ latency ‹_›
    · exact absurd h (by simp)
  | recv k result latency =>
    have hk : k < s.started := by
      by_contra hk
      simp [step, hk] at h
    simp only [step, Serving.recv, if_pos hk] at h
    split at h
    · obtain rfl := Option.some.inj h
      exact .event k hk _ _ _ latency ‹_›
    · by_cases honce : (s.calls k).once = true
      · rw [if_pos honce] at h
        obtain rfl := Option.some.inj h
        exact .recvAgain k hk _ _ _ latency ‹_› honce
      · rw [if_neg honce] at h
        obtain rfl := Option.some.inj h
        exact .recvError k hk _ _ _ latency ‹_› (by simpa using honce)
    · exact absurd h (by simp)
  | deliver k writeErr =>
    simp only [step, Serving.deliver] at h
    split_ifs at h with hk
    split at h
    · rename_i i handler result hpc
      obtain rfl := Option.some.inj h
      cases hround : (handler.receive result writeErr).1 with
      | none => exact .lastRound k hk i handler result writeErr _ hpc (receive_last hround)
      | some h' =>
        obtain ⟨event, rfl, rfl⟩ := receive_next hround
        exact .round k hk i handler h' event _ hpc
    · exact absurd h (by simp)
  | observe i now =>
    simp only [step] at h
    split_ifs at h with hnow
    obtain rfl := Option.some.inj h
    exact .observe i now hnow

end Laminar.Pool
