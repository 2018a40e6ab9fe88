import Laminar.Gateway.Answers

/-! What the counters of `main.go` count of one request, by the steps of `submit` and of `flush`. -/
namespace Laminar.Gateway
open Laminar.Transition
variable {config : Config} {randomHex : Nat → Nat → String} {g g' : Batcher} {k : Nat}

def Metric.OfRequests : Metric → Prop
  | .requestsCancelled | .requestsRejected | .requestDuration => True
  | _ => False

def Metrics.total (m : Metrics) : Metric → Nat
  | .requestsCancelled => m.requestsCancelled
  | .requestsRejected => m.requestsRejected
  | .requestDuration => m.requestDuration
  | .batchSizeDistribution n => m.batchSizeDistribution.count n
  | .batchLatency => m.batchLatency
  | .workerErrors => m.workerErrors

theorem total_count (m : Metrics) (c c' : Metric) :
    (m.count c).total c' = m.total c' + if c = c' then 1 else 0 := by
  cases c <;> cases c' <;>
    simp [Metrics.count, Metrics.total, List.count_append, List.count_singleton]

def Batcher.counted (g : Batcher) : Action → Option (Metric × Nat)
  | .advance k _ =>
    match (g.calls k).pc with
    | .leave (.count m :: _) _ => some (m, k)
    | _ => none
  | .loop _ _ =>
    match g.run.pc, g.todo with
    | .flushing, .op (.count .requestsCancelled) :: .deliver k _ :: _ =>
        some (.requestsCancelled, k)
    | _, _ => none
  | _ => none

/-- The response of a call that does not wait any longer because its context is done. -/
def Response.left (resp : Response) : Bool :=
  resp.errorCode = some .requestCancelled ∧ resp.error ≠ "cancelled before batch processing"

def Response.turned (resp : Response) : Bool :=
  resp.errorCode = some .requestCancelled ∧ resp.error = "cancelled before batch processing"

/-- What `submit` counts of a call that it ends with this response. -/
def Response.due (resp : Response) : Metric → Nat
  | .requestsCancelled => resp.left.toNat
  | .requestsRejected =>
    if resp.errorCode = some .queueFull ∨ resp.errorCode = some .admissionRejected then 1 else 0
  | .requestDuration => 1
  | _ => 0

theorem left_turned {resp : Response} (h : resp.left = true) : resp.turned = false := by
  simp only [Response.left, decide_eq_true_eq] at h
  simp [Response.turned, h.2]

theorem errorResponse_turned (id : String) (code : ErrorCode) (message : String) :
    (errorResponse id code message).turned =
      decide (code = .requestCancelled ∧ message = "cancelled before batch processing") := by
  simp [Response.turned, errorResponse]

theorem errorResponse_left (id : String) (code : ErrorCode) (message : String) :
    (errorResponse id code message).left =
      decide (code = .requestCancelled ∧ message ≠ "cancelled before batch processing") := by
  simp [Response.left, errorResponse]

def SubmitPC.due (pc : SubmitPC) (m : Metric) : Nat :=
  match pc.response with
  | some resp => resp.due m
  | none => 0

def Op.counts (m : Metric) : Op → Bool
  | .count m' => m' = m
  | _ => false

/-- What a call has still to count of it. -/
def SubmitPC.uncounted (pc : SubmitPC) (m : Metric) : Nat :=
  match pc with
  | .leave todo _ => todo.countP (Op.counts m)
  | _ => 0

def cancelling : List FlushOp → List Nat
  | .op (.count .requestsCancelled) :: .deliver k _ :: rest => k :: cancelling rest
  | _ :: rest => cancelling rest
  | [] => []

def FlushOp.turns (k : Nat) : FlushOp → Bool
  | .deliver j resp => j = k ∧ resp.turned
  | .respond j resp => j = k ∧ resp.turned
  | _ => false

def Pipeline.found (p : Pipeline) (k : Nat) : Bool :=
  p.todo.any (FlushOp.turns k) || (p.calls k).respChan.any Response.turned ||
    (p.calls k).pc.response.any Response.turned

def Batcher.toll (g : Batcher) (m : Metric) (k : Nat) : Nat :=
  (g.calls k).pc.due m + if m = .requestsCancelled then (g.found k).toNat else 0

def Batcher.unpaid (g : Batcher) (m : Metric) (k : Nat) : Nat :=
  (g.calls k).pc.uncounted m + if m = .requestsCancelled then (cancelling g.todo).count k else 0

structure Batcher.Counts (g : Batcher) (counted : List (Metric × Nat)) : Prop where
  totals : ∀ m : Metric, m.OfRequests → g.metrics.total m = counted.countP (fun e => e.1 = m)
  each : ∀ m : Metric, m.OfRequests → ∀ k, counted.count (m, k) + g.unpaid m k = g.toll m k
  known : ∀ e ∈ counted, e.2 < g.submitted

theorem Batcher.Counts.step {counted : List (Metric × Nat)} (h : g.Counts counted)
    (c : Option (Metric × Nat)) (hsubmitted : g.submitted ≤ g'.submitted)
    (hknown : ∀ e ∈ c, e.2 < g.submitted)
    (htotal : ∀ m : Metric, m.OfRequests →
      g'.metrics.total m = g.metrics.total m + c.toList.countP (fun e => e.1 = m))
    (heach : ∀ m : Metric, m.OfRequests → ∀ k,
      c.toList.count (m, k) + g'.unpaid m k + g.toll m k = g'.toll m k + g.unpaid m k) :
    g'.Counts (counted ++ c.toList) := by
  refine ⟨fun m hm => ?_, fun m hm k => ?_, fun e he => ?_⟩
  · rw [htotal m hm, h.totals m hm, List.countP_append]
  · have hold := h.each m hm k
    have hnew := heach m hm k
    rw [List.count_append]
    omega
  · obtain he | he := List.mem_append.mp he
    · exact (h.known e he).trans_le hsubmitted
    · exact (hknown e (by simpa using he)).trans_le hsubmitted

inductive Call.Counting (c c' : Call) (case : SelectCase) : Option Metric → Prop where
  | on (hwait : c.pc ≠ .wait) (hbefore : c.pc.response = none) (hafter : c'.pc.response = none)
      (hchan : c'.respChan = c.respChan) : Counting c c' case none
  | leave (todo : List Op) (resp : Response) (hbefore : c.pc.response = none)
      (hpc : c'.pc = .leave todo resp) (hchan : c'.respChan = c.respChan)
      (htodo : ∀ m, todo.countP (Op.counts m) = resp.due m)
      (hturned : resp.turned = false) (herror : resp.error ≠ "")
      (hfrom : c.pc.stage ≤ 3 ∨ (c.pc = .wait ∧ case = .ctxDone ∧ resp.left = true)) :
      Counting c c' case none
  | take (resp : Response) (hwait : c.pc = .wait) (hcase : case = .channel)
      (hresp : c.respChan = some resp) (hchan : c'.respChan = none)
      (hpc : c'.pc = .leave [.count .requestDuration] resp) : Counting c c' case none
  | exec (o : Op) (todo : List Op) (resp : Response) (hbefore : c.pc = .leave (o :: todo) resp)
      (hpc : c'.pc = .leave todo resp) (hchan : c'.respChan = c.respChan)
      {m : Option Metric} (hm : ∀ m', o.counts m' = true ↔ m' ∈ m) : Counting c c' case m
  | return (resp : Response) (hbefore : c.pc = .leave [] resp) (hpc : c'.pc = .returned resp)
      (hchan : c'.respChan = c.respChan) : Counting c c' case none

section
variable {case : SelectCase}

theorem enqueue_counting (hpc : (g.calls k).pc = .enqueue) (h : g.enqueue config k case = some g') :
    (g.calls k).Counting (g'.calls k) case none ∧ g'.todo = g.todo ∧ g'.metrics = g.metrics := by
  have hnone : (g.calls k).pc.response = none := by rw [hpc]; rfl
  have hstage : (g.calls k).pc.stage ≤ 3 := by rw [hpc]; rfl
  cases case with
  | ctxDone =>
    simp only [Batcher.enqueue] at h
    split_ifs at h
    obtain rfl := Option.some.inj h
    simp only [Batcher.leave, Pipeline.leave, update_calls, if_true]
    refine ⟨.leave _ _ hnone rfl rfl (fun m => ?_) (by simp [errorResponse_turned])
      (by simp [errorResponse]) (Or.inl hstage), rfl, trivial⟩
    cases m <;> rfl
  | channel =>
    simp only [Batcher.enqueue] at h
    split_ifs at h
    · obtain rfl := Option.some.inj h
      simp only [Batcher.update, update_calls, if_true]
      exact ⟨.on (by simp [hpc]) hnone rfl rfl, rfl, trivial⟩
    · obtain rfl := Option.some.inj h
      simp only [Batcher.update, update_calls, if_true]
      exact ⟨.on (by simp [hpc]) hnone rfl rfl, rfl, trivial⟩
  | default =>
    simp only [Batcher.enqueue] at h
    split_ifs at h
    obtain rfl := Option.some.inj h
    simp only [Batcher.leave, Pipeline.leave, update_calls, if_true]
    refine ⟨.leave _ _ hnone rfl rfl (fun m => ?_) (by simp [errorResponse_turned])
      (by simp [errorResponse]) (Or.inl hstage), rfl, trivial⟩
    cases m <;> rfl

theorem wait_counting (hpc : (g.calls k).pc = .wait) (h : g.wait k case = some g') :
    (g.calls k).Counting (g'.calls k) case none ∧ g'.todo = g.todo ∧ g'.metrics = g.metrics := by
  have hnone : (g.calls k).pc.response = none := by rw [hpc]; rfl
  cases case with
  | ctxDone =>
    simp only [Batcher.wait] at h
    split_ifs at h
    obtain rfl := Option.some.inj h
    simp only [Batcher.leave, Pipeline.leave, update_calls, if_true]
    refine ⟨.leave _ _ hnone rfl rfl (fun m => ?_) (by simp [errorResponse_turned])
      (by simp [errorResponse]) (Or.inr ⟨hpc, rfl, by simp [errorResponse_left]⟩), rfl, trivial⟩
    cases m <;> rfl
  | channel =>
    simp only [Batcher.wait] at h
    cases hresp : (g.calls k).respChan with
    | none => simp [hresp] at h
    | some resp =>
      simp only [hresp] at h
      obtain rfl := Option.some.inj h
      simp only [Batcher.update, update_calls, if_true]
      exact ⟨.take resp hpc rfl hresp rfl rfl, rfl, trivial⟩
  | default => simp [Batcher.wait] at h

theorem advance_counting (h : g.advance config randomHex k case = some g') :
    (∃ m, (g.calls k).Counting (g'.calls k) case m ∧
      g.counted (.advance k case) = m.map fun m => (m, k)) ∧ g'.todo = g.todo ∧
    ∀ m, g'.metrics.total m =
      g.metrics.total m + (g.counted (.advance k case)).toList.countP (fun e => e.1 = m) := by
  unfold Batcher.advance at h
  have hsilent : (∀ o todo resp, (g.calls k).pc ≠ .leave (o :: todo) resp) →
      g.counted (.advance k case) = none := by
    intro hnot
    simp only [Batcher.counted]
    split
    · exact absurd ‹_› (hnot _ _ _)
    · rfl
  cases hpc : (g.calls k).pc with
  | generateID =>
    simp only [hpc] at h
    obtain rfl := Option.some.inj h
    simp only [Batcher.update, update_calls, if_true]
    rw [hsilent (by simp [hpc])]
    exact ⟨⟨none, .on (by simp [hpc]) (by rw [hpc]; rfl) rfl rfl, rfl⟩, rfl, by simp⟩
  | tryAcquire =>
    simp only [hpc] at h
    obtain rfl := Option.some.inj h
    simp only [Batcher.update, update_calls, if_true]
    rw [hsilent (by simp [hpc])]
    exact ⟨⟨none, .on (by simp [hpc]) (by rw [hpc]; rfl) rfl rfl, rfl⟩, rfl, by simp⟩
  | startSpan admitted =>
    simp only [hpc] at h
    obtain rfl := Option.some.inj h
    simp only [Batcher.update, update_calls, if_true]
    rw [hsilent (by simp [hpc])]
    cases admitted with
    | true => exact ⟨⟨none, .on (by simp [hpc]) (by rw [hpc]; rfl) rfl rfl, rfl⟩, rfl, by simp⟩
    | false =>
      refine ⟨⟨none, .leave _ _ (by rw [hpc]; rfl) rfl rfl (fun m => ?_)
        (by simp [errorResponse_turned]) (by simp [errorResponse]) (Or.inl (by rw [hpc]; decide)),
        rfl⟩, rfl, by simp⟩
      cases m <;> rfl
  | enqueue =>
    simp only [hpc] at h
    obtain ⟨hcounting, htodo, hmetrics⟩ := enqueue_counting hpc h
    rw [hsilent (by simp [hpc])]
    exact ⟨⟨none, hcounting, rfl⟩, htodo, by simp [hmetrics]⟩
  | queued =>
    simp only [hpc] at h
    obtain rfl := Option.some.inj h
    simp only [Batcher.update, update_calls, if_true]
    rw [hsilent (by simp [hpc])]
    refine ⟨⟨none, .on (by simp [hpc]) (by rw [hpc]; rfl) rfl rfl, rfl⟩, rfl, fun m => ?_⟩
    cases m <;> rfl
  | wait =>
    simp only [hpc] at h
    obtain ⟨hcounting, htodo, hmetrics⟩ := wait_counting hpc h
    rw [hsilent (by simp [hpc])]
    exact ⟨⟨none, hcounting, rfl⟩, htodo, by simp [hmetrics]⟩
  | leave todo resp =>
    cases todo with
    | nil =>
      simp only [hpc] at h
      obtain rfl := Option.some.inj h
      simp only [Batcher.update, update_calls, if_true]
      rw [hsilent (by simp [hpc])]
      exact ⟨⟨none, .return resp hpc rfl rfl, rfl⟩, rfl, by simp⟩
    | cons o rest =>
      simp only [hpc] at h
      obtain rfl := Option.some.inj h
      have hchan : ((g.exec o).calls k).respChan = (g.calls k).respChan := by
        cases o with
        | release j => exact release_respChan g.toPipeline j k
        | _ => rfl
      simp only [Batcher.leave, Pipeline.leave, update_calls, if_true, Batcher.counted, hpc]
      cases o with
      | release j =>
        refine ⟨⟨none, .exec _ rest resp hpc rfl (by exact hchan) (by simp [Op.counts]), rfl⟩,
          rfl, ?_⟩
        simp [Batcher.exec]
      | endSpan s status =>
        refine ⟨⟨none, .exec _ rest resp hpc rfl (by exact hchan) (by simp [Op.counts]), rfl⟩,
          rfl, ?_⟩
        simp [Batcher.exec]
      | count m =>
        refine ⟨⟨some m, .exec _ rest resp hpc rfl (by exact hchan) (by simp [Op.counts]), rfl⟩,
          rfl,
          fun m' => ?_⟩
        simp [Batcher.exec, total_count, List.countP_cons]
  | returned resp => simp [hpc] at h

end

end Laminar.Gateway
