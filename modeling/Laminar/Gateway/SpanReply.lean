import Laminar.Gateway.SpanRun

/-! What a successful response says of the spans of its request: `flush` answers before it ends its
own span, so they are complete only for a call that returns after that. -/
namespace Laminar.Gateway
open Laminar.Transition
variable {maxBatchSize : Int} {p p' : Pipeline} {k : Nat}

def Pipeline.Answered (p : Pipeline) (k : Nat) : Prop :=
  ∃ rpc ∈ p.rpcs, k ∈ rpc.calls ∧ rpc.reply ≠ none

theorem Pipeline.Justified.answered {resp : Response} (h : p.Justified k resp)
    (hok : resp.error = "") : p.Answered k := by
  obtain ⟨rpc, hmem, hk, items, item, hreply, -⟩ := h.result hok
  exact ⟨rpc, hmem, hk, by simp [hreply]⟩

theorem Pipeline.Placed.sending_nodup (hplaced : p.Placed) (hloop : p.run.Inv maxBatchSize) :
    (p.rpcs.flatMap Rpc.calls ++ p.pending).Nodup := by
  have hsub := hplaced.sending.trans hloop.flushed_sublist
  exact (hplaced.nodup.sublist (List.sublist_append_left _ _)).sublist hsub

section
variable (hanswered : p.Answered k) (hloop : p.run.Inv maxBatchSize) (hplaced : p.Placed)
include hanswered hloop hplaced

theorem Pipeline.Answered.flushed : p.Flushed k := by
  obtain ⟨rpc, hmem, hk, -⟩ := hanswered
  refine hplaced.flushed hloop (hplaced.sending.subset (List.mem_append_left _ ?_))
  exact List.mem_flatMap.mpr ⟨rpc, hmem, hk⟩

/-- An answered request goes to no worker again. -/
theorem Pipeline.Answered.not_pending : k ∉ p.pending := by
  obtain ⟨rpc, hmem, hk, -⟩ := hanswered
  intro hpending
  exact (List.nodup_append.mp (hplaced.sending_nodup hloop)).2.2 k
    (List.mem_flatMap.mpr ⟨rpc, hmem, hk⟩) k hpending rfl

/-- The batch that `flush` waits for holds no answered request. -/
theorem Pipeline.Answered.not_awaited (hcorresponds : p.Corresponds) (hpc : p.flushPC = .await) :
    k ∉ p.active := by
  obtain ⟨rpc, hmem, hk, hreply⟩ := hanswered
  obtain ⟨before, last, hrpcs, hcalls, hnone⟩ := hcorresponds.awaited hpc
  have hnodup := (List.nodup_append.mp (hplaced.sending_nodup hloop)).1
  rw [hrpcs, List.flatMap_append, List.flatMap_singleton, hcalls] at hnodup
  rw [hrpcs, List.mem_append, List.mem_singleton] at hmem
  intro hactive
  obtain hmem | rfl := hmem
  · exact (List.nodup_append.mp hnodup).2.2 k (List.mem_flatMap.mpr ⟨rpc, hmem, hk⟩) k hactive rfl
  · exact hreply hnone

/-- All spans of an answered request end in the steps that are listed. -/
theorem Pipeline.Answered.due (hcorresponds : p.Corresponds) {spans : List Bool}
    (hdue : p.Due k spans) : ∀ b ∈ spans, b = true := by
  have hflushed := hanswered.flushed hloop hplaced
  have hpending := hanswered.not_pending hloop hplaced
  cases hdue with
  | enqueue hpc =>
    have hstage := hflushed.stage
    rw [hpc] at hstage
    exact absurd hstage (by decide)
  | waiting hwait =>
    simp only [Pipeline.waiting, List.mem_append] at hwait
    obtain (hchan | hheld) | hrest := hwait
    · exact absurd hchan hflushed.chan
    · exact absurd hheld hflushed.held
    · cases hpc : p.flushPC with
      | filter rest =>
        rw [hpc] at hrest
        exact absurd (by simp only [Pipeline.pending, hpc]; exact List.mem_append_right _ hrest)
          hpending
      | _ => simp [hpc, FlushPC.rest] at hrest
  | passed rest hpc hactive =>
    exact absurd (by simp only [Pipeline.pending, hpc]; exact List.mem_append_left _ hactive)
      hpending
  | sending hpc hactive =>
    obtain hpc | hpc := hpc
    · exact absurd (by simp only [Pipeline.pending, hpc]; exact hactive) hpending
    · exact absurd hactive (hanswered.not_awaited hloop hplaced hcorresponds hpc)
  | settled hstage hwait hactive hne hall => exact hall

end

/-- `flush` lists steps on the spans of requests only that are not answered yet. -/
theorem Pipeline.Move.spanOf (h : p.Move maxBatchSize p') {o : FlushOp} (ho : o ∈ p'.todo)
    (hk : o.spanOf = some k) :
    o ∈ p.todo ∨ k ∈ p.pending ∨ (p.flushPC = .await ∧ k ∈ p.active) := by
  cases h with
  | startFlush r hmove hbatch hreceived hflushed hrun => simp at ho
  | plain o' rest hrun htodo hplain => exact Or.inl (htodo ▸ List.mem_cons_of_mem _ ho)
  | release j rest hrun htodo => exact Or.inl (htodo ▸ List.mem_cons_of_mem _ ho)
  | deliver j resp rest hrun htodo =>
    obtain rfl | ho := List.mem_cons.mp ho
    · simp [FlushOp.spanOf] at hk
    · exact Or.inl (htodo ▸ List.mem_cons_of_mem _ ho)
  | respond j resp rest hrun htodo => exact Or.inl (htodo ▸ List.mem_cons_of_mem _ ho)
  | cancelled j rest hrun htodo hpc =>
    simp only [Pipeline.push, htodo, List.append_nil, List.mem_cons, List.not_mem_nil,
      or_false] at ho
    obtain rfl | rfl | rfl := ho <;> simp [FlushOp.spanOf] at hk
  | active j rest hrun htodo hpc =>
    simp only [Pipeline.push, htodo, List.append_nil, List.mem_singleton] at ho
    simp [ho, FlushOp.spanOf] at hk
  | reject hrun htodo hpc =>
    simp only [Pipeline.push, htodo, List.append_nil] at ho
    refine Or.inr (Or.inl ?_)
    simpa [Pipeline.pending, hpc] using (spanOf_rejectOps ho).1 k hk
  | dispatch hrun htodo hpc =>
    simp only [Pipeline.push, htodo, List.append_nil] at ho
    refine Or.inr (Or.inl ?_)
    simpa [Pipeline.pending, hpc] using (spanOf_sendOps ho).1 k hk
  | reply answer latency order order' hrun htodo hpc horder horder' =>
    simp only [Pipeline.push, htodo, List.append_nil] at ho
    exact Or.inr (Or.inr ⟨hpc, (spanOf_settleOps horder horder' ho).1 k hk⟩)
  | _ => exact Or.inl ho

/-- `flush` is done with the spans of every call that has returned a result. -/
def Pipeline.Sealed (p : Pipeline) : Prop :=
  ∀ k resp, (p.calls k).pc = .returned resp → resp.error = "" → ∀ o ∈ p.todo, o.spanOf ≠ some k

theorem Pipeline.Sealed.move (h : p.Sealed) (hloop : p.run.Inv maxBatchSize) (hplaced : p.Placed)
    (hcorresponds : p.Corresponds) (hmove : p.Move maxBatchSize p')
    (hreturn : ∀ k resp, (p'.calls k).pc = .returned resp → resp.error = "" →
      (p.calls k).pc.response = some resp ∧
        ((p.calls k).pc = .returned resp ∨ ∀ o ∈ p.todo, o.spanOf ≠ some k)) : p'.Sealed := by
  intro k resp hpc hok o ho hspan
  obtain ⟨hresponse, hold⟩ := hreturn k resp hpc hok
  have hanswered := (hcorresponds.response k resp hresponse).answered hok
  obtain hmem | hpending | ⟨hawait, hactive⟩ := hmove.spanOf ho hspan
  · obtain hreturned | hnone := hold
    · exact h k resp hreturned hok o hmem hspan
    · exact hnone o hmem hspan
  · exact hanswered.not_pending hloop hplaced hpending
  · exact hanswered.not_awaited hloop hplaced hcorresponds hawait hactive

def SubmitPC.result : SubmitPC → Option Response
  | .leave [] resp => if resp.error = "" then some resp else none
  | _ => none

/-- A call returns a result only when `flush` has no step left on the spans of its request. -/
def Batcher.ReturnsSealed (g : Batcher) : Action → Prop
  | .advance k _ => ∀ resp ∈ (g.calls k).pc.result, ∀ o ∈ g.todo, o.spanOf ≠ some k
  | _ => True

instance Batcher.decidableReturnsSealed (g : Batcher) : (a : Action) → Decidable (g.ReturnsSealed a)
  | .advance k _ => inferInstanceAs
      (Decidable (∀ resp ∈ (g.calls k).pc.result, ∀ o ∈ g.todo, o.spanOf ≠ some k))
  | .submit .. | .cancel .. | .receive | .tick | .expire | .loop .. | .reply .. | .probe ..
  | .streamID => isTrue trivial

section
variable {config : Config} {randomHex : Nat → Nat → String} {g g' : Batcher} {resp : Response}

theorem advance_returned {case : SelectCase} (h : g.advance config randomHex k case = some g')
    (hpc' : (g'.calls k).pc = .returned resp) : (g.calls k).pc = .leave [] resp := by
  unfold Batcher.advance at h
  cases hpc : (g.calls k).pc with
  | startSpan admitted =>
    simp only [hpc] at h
    obtain rfl := Option.some.inj h
    cases admitted <;> simp [Batcher.update, update_calls] at hpc'
  | enqueue =>
    simp only [hpc] at h
    cases case <;> simp only [Batcher.enqueue] at h <;> split_ifs at h <;>
      (obtain rfl := Option.some.inj h; simp [Batcher.leave, Pipeline.leave, Batcher.update,
        update_calls] at hpc')
  | wait =>
    simp only [hpc] at h
    cases case with
    | ctxDone =>
      simp only [Batcher.wait] at h
      split_ifs at h
      obtain rfl := Option.some.inj h
      simp [Batcher.leave, Pipeline.leave, update_calls] at hpc'
    | channel =>
      simp only [Batcher.wait] at h
      split at h
      · obtain rfl := Option.some.inj h
        simp [Batcher.update, update_calls] at hpc'
      · exact absurd h (by simp)
    | default => simp [Batcher.wait] at h
  | leave todo resp' =>
    cases todo with
    | nil =>
      simp only [hpc] at h
      obtain rfl := Option.some.inj h
      simpa [Batcher.update, update_calls] using hpc'
    | cons o rest =>
      simp only [hpc] at h
      obtain rfl := Option.some.inj h
      simp [Batcher.leave, Pipeline.leave, update_calls] at hpc'
  | returned resp' => simp [hpc] at h
  | _ =>
    simp only [hpc] at h
    obtain rfl := Option.some.inj h
    simp [Batcher.update, update_calls] at hpc'

theorem step_returned {a : Action} (h : step config randomHex g a = some g')
    (hpc : (g'.calls k).pc = .returned resp) (hk : k < g.submitted) :
    (g.calls k).pc = .returned resp ∨
      ((∃ case, a = .advance k case) ∧ (g.calls k).pc = .leave [] resp) := by
  by_cases hown : ∃ case, a = .advance k case
  · obtain ⟨case, rfl⟩ := hown
    simp only [step, if_pos hk] at h
    exact Or.inr ⟨⟨case, rfl⟩, advance_returned h hpc⟩
  · rw [step_pc h hk (not_exists.mp hown)] at hpc
    exact Or.inl hpc

theorem Pipeline.Sealed.step {a : Action} (h : g.toPipeline.Sealed)
    (hkept : g.Kept config.maxBatchSize) (hreturns : g.ReturnsSealed a)
    (hstep : Gateway.step config randomHex g a = some g') : g'.toPipeline.Sealed := by
  have hmove := step_move hstep
  refine h.move hkept.loop hkept.placed hkept.corresponds hmove fun k resp hpc hok => ?_
  have hk : k < g.submitted := by
    by_contra hlt
    cases a with
    | submit prompt traceID parentSpanID =>
      obtain rfl := Option.some.inj hstep
      simp only [Batcher.update, update_calls] at hpc
      split_ifs at hpc
      exact hlt (hkept.identified.known k (by simp [hpc, SubmitPC.stage]))
    | _ =>
      have hknown := (hkept.identified.move hmove).known k (by simp [hpc, SubmitPC.stage])
      rw [step_submitted hstep (by simp)] at hknown
      exact hlt hknown
  obtain hold | ⟨⟨case, rfl⟩, hleave⟩ := step_returned hstep hpc hk
  · exact ⟨by rw [hold]; rfl, Or.inl hold⟩
  · refine ⟨by rw [hleave]; rfl, Or.inr (hreturns resp ?_)⟩
    rw [hleave]
    exact if_pos hok

end

theorem FlushOp.spanOp_of_other {o : FlushOp} {queueSpan : ActiveSpan} {op : SpanOp}
    (h : o.spanOp queueSpan k = some op) (hother : o.spanOf ≠ some k) : op = .endQueue := by
  cases o with
  | op o =>
    cases o with
    | endSpan s status =>
      simp only [FlushOp.spanOp, Op.spanOp] at h
      split_ifs at h
      exact (Option.some.inj h).symm
    | _ => simp [FlushOp.spanOp, Op.spanOp] at h
  | recordFailure => simp [FlushOp.spanOp] at h
  | recordSuccess => simp [FlushOp.spanOp] at h
  | observe batchSize workerLatency success => simp [FlushOp.spanOp] at h
  | deliver j resp => simp [FlushOp.spanOp] at h
  | respond j resp => simp [FlushOp.spanOp] at h
  | _ =>
    simp only [FlushOp.spanOp] at h
    split_ifs at h with hjk
    exact absurd (congrArg some hjk) hother

section
variable {g : Batcher} {t : Trail}

theorem Batcher.Fits.complete (hfit : g.Fits k t) (hkept : g.Kept maxBatchSize)
    (hsealed : g.toPipeline.Sealed) {resp : Response} (hpc : (g.calls k).pc = .returned resp)
    (hok : resp.error = "") :
    3 ≤ t.marks.length ∧ (∀ b ∈ t.ended, b = true) ∧ (g.Backed k → t.marks.length = 4) := by
  have hanswered : g.Answered k :=
    (hkept.corresponds.response k resp (by rw [hpc]; rfl)).answered hok
  have hsent : 3 ≤ t.marks.length := by
    obtain ⟨rpc, hmem, hk, -⟩ := hanswered
    exact hfit.sent rpc hmem hk
  obtain ⟨spans, hrun, hdue⟩ := hfit.due (by simp [hpc, SubmitPC.stage])
  have hscript : (g.calls k).script = [] := by simp [Call.script, hpc]
  -- a step for the queue span would find it open
  have hnone : g.flushScript k = [] := by
    cases hflush : g.flushScript k with
    | nil => rfl
    | cons op rest =>
      have hmem : op ∈ g.flushScript k := hflush ▸ List.mem_cons_self
      obtain ⟨o, ho, hop⟩ := List.mem_filterMap.mp hmem
      obtain rfl := FlushOp.spanOp_of_other hop (hsealed k resp hpc hok o ho)
      rw [hscript, hflush, List.nil_append] at hrun
      obtain ⟨u, hu, -⟩ := run_cons.mp hrun
      have hlength := congrArg List.length (spanStep_endQueue hu).1
      rw [ended_length, List.length_singleton] at hlength
      omega
  rw [hscript, hnone] at hrun
  refine ⟨hsent, ?_, fun hbacked => ?_⟩
  · rw [Option.some.inj hrun]
    exact hanswered.due hkept.loop hkept.placed hkept.corresponds hdue
  · obtain hmem | hlength := hfit.backed hbacked
    · rw [hnone] at hmem
      exact absurd hmem (by simp)
    · exact hlength

end

section
variable {cfg : Config} {randomHex : Nat → Nat → String} {capacity : Int} {actions : List Action}
  {g : Batcher}

theorem newBatcherWithTracer_kept (cfg : Config) (tracer : TraceRecorder) :
    (newBatcherWithTracer cfg tracer).Kept cfg.normalized.maxBatchSize := by
  have hkept := newBatcher_kept cfg
  exact ⟨hkept.loop, hkept.placed, hkept.identified, hkept.corresponds, hkept.tended⟩

theorem run_sealed
    (h : run (step cfg.normalized randomHex)
      (newBatcherWithTracer cfg (newTraceRecorder capacity)) actions = some g)
    (halong : Along (step cfg.normalized randomHex) Batcher.ReturnsSealed
      (newBatcherWithTracer cfg (newTraceRecorder capacity)) actions) :
    g.Kept cfg.normalized.maxBatchSize ∧ (∃ trails, g.Spans 0 (fun _ => False) trails) ∧
      g.toPipeline.Sealed := by
  have hmax := cfg.normalized_normal.maxBatchSize
  refine run_along (motive := fun g : Batcher => g.Kept cfg.normalized.maxBatchSize ∧
    (∃ trails, g.Spans 0 (fun _ => False) trails) ∧ g.toPipeline.Sealed) h halong
    ⟨newBatcherWithTracer_kept cfg _, ⟨_, newBatcher_spans cfg _⟩, fun k resp hpc => ?_⟩ ?_
  · simp [newBatcherWithTracer, newBatcher] at hpc
  · intro g a g' hreturns hg hstep
    obtain ⟨hkept, ⟨trails, hspans⟩, hsealed⟩ := hg
    exact ⟨hkept.step hmax hstep, hspans.step hkept hstep, hsealed.step hkept hreturns hstep⟩

/-- The recorder is given the spans of the requests, beside nothing else: when all calls return
their results only after `flush` has ended its spans, then those of every call that has returned a
result are all there, one below the other, and the one of the backend when its item asks for it. -/
theorem results_traced
    (h : run (step cfg.normalized randomHex)
      (newBatcherWithTracer cfg (newTraceRecorder capacity)) actions = some g)
    (halong : Along (step cfg.normalized randomHex) Batcher.ReturnsSealed
      (newBatcherWithTracer cfg (newTraceRecorder capacity)) actions) :
    ∃ chain : Nat → List TraceSpan,
      (∃ all : List TraceSpan, g.tracer.Stores all ∧
        (all.length ≤ g.tracer.capacity → g.tracer.spans = all) ∧
        (all : Multiset TraceSpan) =
          ∑ k ∈ Finset.range g.submitted, (chain k : Multiset TraceSpan)) ∧
      ∀ k resp, (g.calls k).pc = .returned resp → resp.error = "" →
        k < g.submitted ∧
        (∃ status, (chain k).head? = some ((g.calls k).queueSpan.record status)) ∧
        ["batch.queue_wait", "batch.flush", "worker.grpc"] <+: (chain k).map TraceSpan.name ∧
        (chain k).IsChain (fun parent child => child.parentSpanID = parent.spanID) ∧
        (g.Backed k → "backend.inference" ∈ (chain k).map TraceSpan.name) := by
  obtain ⟨hkept, ⟨trails, hspans⟩, hsealed⟩ := run_sealed h halong
  obtain ⟨all, hall, hsum⟩ := hspans.holds.stores
  refine ⟨fun k => (trails k).recorded, ⟨all, hall, fun hle => ?_, by rw [hsum, zero_add]⟩,
    fun k resp hpc hok => ?_⟩
  · rw [hall, Nat.sub_eq_zero_of_le hle, List.drop_zero]
  have hk := hkept.identified.known k (by simp [hpc, SubmitPC.stage])
  have hfit := hspans.fits k hk
  obtain ⟨hlength, hended, hbacked⟩ := hfit.complete hkept hsealed hpc hok
  have hrecorded := recorded_of_ended hended
  have hnames : (trails k).recorded.map TraceSpan.name =
      (trails k).marks.map fun m => m.span.name := by
    rw [hrecorded, List.map_map]
    rfl
  have htake : (trails k).recorded.map TraceSpan.name =
      chainNames.tail.take (trails k).marks.length := by
    rw [hnames, List.prefix_iff_eq_take.mp (trails k).named, List.length_map]
  beta_reduce
  refine ⟨hk, ?_, ?_, ?_, fun hb => ?_⟩
  · obtain ⟨m, hm⟩ : ∃ m, (trails k).marks[0]? = some m :=
      ⟨_, List.getElem?_eq_getElem (by omega)⟩
    refine ⟨m.status.getD "", ?_⟩
    rw [hrecorded, List.head?_map, List.head?_eq_getElem?, hm, ← (hfit.queue m hm).1]
    rfl
  · rw [htake]
    exact List.take_prefix_take_left (l := chainNames.tail) (i := 3) hlength
  · rw [hrecorded, List.isChain_map]
    exact (trails k).linked
  · rw [htake, hbacked hb]
    decide

end

/-- One request, answered by the backend; the call returns once `flush` has ended its span, or
`early`, before that. -/
def tracedReply (early : Bool) : List Action :=
  let loop : Nat → List Action := fun n => List.replicate n (.loop 0 none)
  let items : List ResponseItem := [{ id := "req-1", result := "done", backendName := "mock" }]
  .submit "hello" "trace" "" :: List.replicate 5 (.advance 0 .channel) ++ [.receive] ++ loop 10 ++
    [.reply (.ok items) 5 [0] [0]] ++ loop (if early then 7 else 8) ++
    List.replicate 3 (.advance 0 .channel)

/-- When the call returns late enough, its three spans are there, and that of the backend. -/
theorem tracedReply_complete :
    let cfg : Config := { promptTokens := fun n => n, maxBatchSize := 1 }
    ∃ g, run (step cfg.normalized fun n _ => toString n)
        (newBatcherWithTracer cfg (newTraceRecorder 16)) (tracedReply false) = some g ∧
      g.tracer.spans.length ≤ 16 ∧ ∃ chain : Nat → List TraceSpan, ∃ resp,
        (g.calls 0).pc = .returned resp ∧
        ["batch.queue_wait", "batch.flush", "worker.grpc"] <+: (chain 0).map TraceSpan.name ∧
        "backend.inference" ∈ (chain 0).map TraceSpan.name ∧
        (chain 0).IsChain (fun parent child => child.parentSpanID = parent.spanID) := by
  intro cfg
  let item : ResponseItem := { id := "req-1", result := "done", backendName := "mock" }
  have hend : (run (step cfg.normalized fun n _ => toString n)
      (newBatcherWithTracer cfg (newTraceRecorder 16)) (tracedReply false)).any
      (fun g => decide (g.tracer.spans.length ≤ 16 ∧ (g.calls 0).pc.stage = 7 ∧
        (g.calls 0).pc.response.any (fun resp => decide (resp.error = "")) = true ∧
        ∃ rpc ∈ g.rpcs, 0 ∈ rpc.calls ∧ rpc.reply = some (.ok [item]) ∧
          findResponse [item] (g.calls 0).id = some item)) = true := by
    decide +kernel
  have halong : Along (step cfg.normalized fun n _ => toString n) Batcher.ReturnsSealed
      (newBatcherWithTracer cfg (newTraceRecorder 16)) (tracedReply false) := by
    decide +kernel
  obtain ⟨g, hg, hlast⟩ := (Option.any_eq_true _ _).mp hend
  obtain ⟨hcapacity, hstage, hresponse, rpc, hrpc, hcall, hreply, hfound⟩ :=
    of_decide_eq_true hlast
  have hbacked : g.Backed 0 :=
    ⟨rpc, hrpc, hcall, [item], item, hreply, hfound, Or.inr (by decide)⟩
  obtain ⟨chain, -, hchain⟩ := results_traced hg halong
  cases hpc : (g.calls 0).pc with
  | returned resp =>
    have hok : resp.error = "" := by simpa [hpc, SubmitPC.response] using hresponse
    obtain ⟨-, -, hnames, hlinked, hbackend⟩ := hchain 0 resp hpc hok
    exact ⟨g, hg, hcapacity, chain, resp, hpc, hnames, hbackend hbacked, hlinked⟩
  | _ => simp [hpc, SubmitPC.stage] at hstage

/-- When the call returns before `flush` has ended its span, the recorder has none of that name. -/
theorem tracedReply_early :
    let cfg : Config := { promptTokens := fun n => n, maxBatchSize := 1 }
    ∃ g, run (step cfg.normalized fun n _ => toString n)
        (newBatcherWithTracer cfg (newTraceRecorder 16)) (tracedReply true) = some g ∧
      (∃ resp, (g.calls 0).pc = .returned resp ∧ resp.error = "") ∧
      g.tracer.spans.length < g.tracer.capacity ∧
      ∀ span ∈ g.tracer.spans, span.name ≠ "batch.flush" := by
  intro cfg
  have hend : (run (step cfg.normalized fun n _ => toString n)
      (newBatcherWithTracer cfg (newTraceRecorder 16)) (tracedReply true)).any
      (fun g => decide ((g.calls 0).pc.stage = 7 ∧
        (g.calls 0).pc.response.any (fun resp => decide (resp.error = "")) = true ∧
        g.tracer.spans.length < g.tracer.capacity ∧
        ∀ span ∈ g.tracer.spans, span.name ≠ "batch.flush")) = true := by
    decide +kernel
  obtain ⟨g, hg, hlast⟩ := (Option.any_eq_true _ _).mp hend
  obtain ⟨hstage, hresponse, hrest⟩ := of_decide_eq_true hlast
  cases hpc : (g.calls 0).pc with
  | returned resp =>
    have hok : resp.error = "" := by simpa [hpc, SubmitPC.response] using hresponse
    exact ⟨g, hg, ⟨resp, hpc, hok⟩, hrest⟩
  | _ => simp [hpc, SubmitPC.stage] at hstage

end Laminar.Gateway
