import Laminar.Gateway.SpanExec

/-! The spans of the requests over whole runs of the batcher. -/
namespace Laminar.Gateway
open Laminar.Transition
variable {config : Config} {randomHex : Nat → Nat → String} {g g' : Batcher}
  {k : Nat} {others : Multiset TraceSpan} {foreign : Nat → Prop} {trails : Nat → Trail}

section
variable (h : g.Spans others foreign trails) (hkept : g.Kept config.maxBatchSize)
include h hkept

theorem Batcher.Spans.looped (hmove : g.toPipeline.Move config.maxBatchSize g'.toPipeline)
    (hrmove : g.run.Move config.maxBatchSize g'.run) (hreceived : g'.run.received = g.run.received)
    (hflushed : g'.run.flushed = g.run.flushed)
    (hrun : g.run.pc = .flushing ↔ g'.run.pc = .flushing)
    (hsame : g'.toPipeline = { g.toPipeline with run := g'.run }) (htracer : g'.tracer = g.tracer)
    (htraces : g'.traceSpans = g.traceSpans) : g'.Spans others foreign trails := by
  have hheld := hrmove.held hreceived hflushed hrun
  refine h.still hkept hmove (by rw [hsame]) htracer htraces (by rw [hsame]) hflushed
    (by rw [hsame])
    (fun k _ => ?_) (fun k hk => Or.inl ?_) fun k hk spans hdue => ?_
  · rw [hsame]
    exact .refl _
  · rw [hreceived] at hk
    rwa [hsame] at hk
  · refine hdue.same (by rw [hsame]; exact fun hpc => hpc) (hmove.later hk).stage ?_ (by rw [hsame])
      (by rw [hsame])
    rw [Pipeline.waiting, hheld, hsame]
    rfl

/-- `flush` returns to `run`. -/
theorem Batcher.Spans.finish (hrun : g.run.pc = .flushing) (htodo : g.todo = [])
    (hpc : g.flushPC = .done) :
    Batcher.Spans { g with run := { g.run with pc := .select, batch := [] } }
      others foreign trails := by
  have hmove : g.toPipeline.Move config.maxBatchSize _ := .finish hrun htodo hpc
  refine h.still hkept hmove rfl rfl rfl rfl rfl rfl (fun k _ => .refl _) (fun k hk => Or.inl hk)
    fun k hk spans hdue => hdue.same (fun hpc => hpc) (Nat.le_refl _) ?_ Iff.rfl rfl
  simp [Pipeline.waiting, Run.held, hrun]

theorem Batcher.Spans.loop {now : Int} {ready : Option Bool}
    (hstep : g.loop config randomHex now ready = some g') :
    ∃ trails', g'.Spans others foreign trails' := by
  have hmove := loop_move hstep
  have hrmove := loop_run hstep
  unfold Batcher.loop at hstep
  cases hpc : g.run.pc with
  | select => simp [hpc] at hstep
  | received k =>
    simp only [hpc] at hstep
    obtain rfl := Option.some.inj hstep
    exact ⟨trails, h.looped hkept hmove hrmove rfl rfl (by simp [hpc]) rfl rfl rfl⟩
  | arm =>
    simp only [hpc] at hstep
    split_ifs at hstep
    · obtain rfl := Option.some.inj hstep
      exact ⟨trails, h.looped hkept hmove hrmove rfl rfl (by simp [hpc]) rfl rfl rfl⟩
    · obtain rfl := Option.some.inj hstep
      exact ⟨trails, h.looped hkept hmove hrmove rfl rfl (by simp [hpc]) rfl rfl rfl⟩
  | check =>
    simp only [hpc] at hstep
    split_ifs at hstep with hflush hactive
    · obtain rfl := Option.some.inj hstep
      exact ⟨trails, h.startFlush hkept hmove hrmove rfl rfl rfl (by simp [hpc])⟩
    · obtain rfl := Option.some.inj hstep
      exact ⟨trails, h.startFlush hkept hmove hrmove rfl rfl rfl (by simp [hpc])⟩
    · obtain rfl := Option.some.inj hstep
      exact ⟨trails, h.looped hkept hmove hrmove rfl rfl (by simp [hpc]) rfl rfl rfl⟩
  | flushing =>
    simp only [hpc] at hstep
    split at hstep
    · obtain rfl := Option.some.inj hstep
      exact h.execFlush hkept hpc ‹_›
    · obtain rfl := Option.some.inj hstep
      exact ⟨trails, h.filter hkept hpc ‹_› ‹_›⟩
    · obtain rfl := Option.some.inj hstep
      exact ⟨trails, h.dispatch hkept hpc ‹_› ‹_›⟩
    · obtain rfl := Option.some.inj hstep
      exact ⟨trails, h.call hkept hpc ‹_› ‹_›⟩
    · exact absurd hstep (by simp)
    · obtain rfl := Option.some.inj hstep
      exact ⟨trails, h.finish hkept hpc ‹_› ‹_›⟩

theorem Batcher.Spans.submit {c : Call} (hc : c.pc = .generateID)
    (hmove : g.toPipeline.Move config.maxBatchSize g'.toPipeline)
    (hsame : g'.toPipeline =
      Pipeline.update { g.toPipeline with submitted := g.submitted + 1 } g.submitted fun _ => c)
    (htracer : g'.tracer = g.tracer) (htraces : g'.traceSpans = g.traceSpans) :
    g'.Spans others foreign trails := by
  have hcalls : ∀ j, g'.calls j = if j = g.submitted then c else g.calls j := by
    intro j
    rw [hsame, update_calls]
  have hsubmitted : g'.submitted = g.submitted + 1 := by rw [hsame]; rfl
  have hrest : g'.todo = g.todo ∧ g'.flushPC = g.flushPC ∧ g'.active = g.active ∧
      g'.requestChan = g.requestChan ∧ g'.run = g.run ∧ g'.rpcs = g.rpcs := by
    rw [hsame]
    exact ⟨rfl, rfl, rfl, rfl, rfl, rfl⟩
  obtain ⟨htodo, hflushPC, hactive, hchan, hrun, hrpcs⟩ := hrest
  refine ⟨by rw [htracer, hsubmitted]; exact h.holds.grow, fun j hj => ?_, ?_⟩
  · rw [hsubmitted] at hj
    obtain hlt | rfl := Nat.lt_succ_iff_lt_or_eq.mp hj
    · have hcall : g'.calls j = g.calls j := by rw [hcalls, if_neg hlt.ne]
      refine h.around hkept hmove hlt (by rw [hcall]; exact .refl _) (fun _ => by rw [htraces])
        (fun _ => ?_) (fun hmem => Or.inl (by rwa [hrun, hchan] at hmem))
        (fun spans hdue => ?_) hrpcs
      · rw [Pipeline.flushScript, htodo, hcall]
        rfl
      · refine hdue.same (by rw [hcall]; exact fun hpc => hpc) (hmove.later hlt).stage ?_
          (by rw [hactive]) hflushPC
        simp only [Pipeline.waiting, hchan, hrun, hflushPC]
    · have hcall : g'.calls g.submitted = c := by rw [hcalls, if_pos rfl]
      have hnil := h.holds.beyond g.submitted (Nat.le_refl _)
      have hunsent : ∀ rpc ∈ g'.rpcs, g.submitted ∉ rpc.calls := by
        intro rpc hmem hk
        rw [hrpcs] at hmem
        have hknown := hkept.identified.known _ ((hkept.corresponds.requests rpc hmem).1 _ hk)
        omega
      refine ⟨fun m hm => ?_, fun m hm => ?_, fun _ => hnil, fun hstage => ?_, fun hne => ?_,
        fun todo resp hpc => ?_, fun rpc hmem hk => absurd hk (hunsent rpc hmem), fun hfour => ?_,
        fun hbacked => ?_⟩
      · simp [hnil] at hm
      · simp [hnil] at hm
      · rw [hcall, hc] at hstage
        exact absurd hstage (by decide)
      · rw [hcall, Call.script, hc] at hne
        exact absurd rfl hne
      · rw [hcall, hc] at hpc
        exact absurd hpc (by simp)
      · simp [hnil] at hfour
      · obtain ⟨rpc, hmem, hk, -⟩ := hbacked
        exact absurd hk (hunsent rpc hmem)
  · refine h.minds_move hkept hmove (by rw [hrun]; exact fun k hk => hk) (fun k hk => ?_)
      (by rw [htodo]; exact fun o ho => ho)
    rw [hcalls, if_neg (hkept.placed.flushed hkept.loop hk).known.ne]

theorem Batcher.Spans.submitStep {prompt traceID parentSpanID : String}
    (hstep : Gateway.step config randomHex g (.submit prompt traceID parentSpanID) = some g') :
    g'.Spans others foreign trails := by
  have hmove := step_move hstep
  obtain rfl := Option.some.inj hstep
  exact h.submit hkept rfl hmove rfl rfl rfl

theorem Batcher.Spans.step {a : Action} (hstep : step config randomHex g a = some g') :
    ∃ trails', g'.Spans others foreign trails' := by
  have hmove := step_move hstep
  have hrmove := step_run hstep
  cases a with
  | submit prompt traceID parentSpanID => exact ⟨trails, h.submitStep hkept hstep⟩
  | cancel k =>
    simp only [Gateway.step] at hstep
    split_ifs at hstep with hk
    obtain rfl := Option.some.inj hstep
    exact ⟨trails, h.byCall hkept hmove rfl (.of_pc rfl rfl rfl) rfl rfl rfl
      ⟨rfl, rfl, rfl, rfl⟩ rfl
      rfl fun hpc => hpc⟩
  | advance k case =>
    simp only [Gateway.step] at hstep
    split_ifs at hstep with hk
    exact h.advance hkept hk hstep
  | receive =>
    simp only [Gateway.step, Batcher.receive] at hstep
    split at hstep
    · obtain rfl := Option.some.inj hstep
      rename_i k rest hpc hchan
      refine ⟨trails, h.still hkept hmove rfl rfl rfl rfl rfl rfl (fun j _ => .refl _)
        (fun j hj => Or.inl ?_) fun j hj spans hdue => hdue.same (fun hpc => hpc) (Nat.le_refl _) ?_
          Iff.rfl rfl⟩
      · simpa [Run.receive, hchan] using hj
      · simp only [Pipeline.waiting, Run.receive, Run.held, hpc, hchan, List.mem_append,
          List.mem_cons, List.not_mem_nil, or_false]
        tauto
    · exact absurd hstep (by simp)
  | tick =>
    simp only [Gateway.step, Batcher.tick] at hstep
    split_ifs at hstep with hready hbatch
    · obtain rfl := Option.some.inj hstep
      exact ⟨trails, h.looped hkept hmove hrmove rfl rfl (by simp [hready.1]) rfl rfl rfl⟩
    · obtain rfl := Option.some.inj hstep
      exact ⟨trails, h.startFlush hkept hmove hrmove rfl rfl rfl (by simp [hready.1])⟩
  | expire =>
    simp only [Gateway.step, Batcher.expire] at hstep
    split at hstep
    · obtain rfl := Option.some.inj hstep
      exact ⟨trails, h.looped hkept hmove hrmove rfl rfl Iff.rfl rfl rfl rfl⟩
    · exact absurd hstep (by simp)
  | loop now ready => exact h.loop hkept hstep
  | reply answer latency order order' =>
    by_cases hready : g.run.pc = .flushing ∧ g.todo = [] ∧ g.flushPC = .await ∧
      order.Perm g.active ∧ order'.Perm g.active
    · obtain ⟨hrun, htodo, hpc, horder, horder'⟩ := hready
      exact ⟨trails, h.reply hkept hrun htodo hpc horder horder' hstep⟩
    · simp only [Gateway.step, Batcher.reply, if_neg hready] at hstep
      exact absurd hstep (by simp)
  | probe now ready =>
    obtain rfl := Option.some.inj hstep
    exact ⟨trails, h.looped hkept hmove hrmove rfl rfl Iff.rfl rfl rfl rfl⟩
  | streamID =>
    obtain rfl := Option.some.inj hstep
    exact ⟨trails, h.still hkept hmove rfl rfl rfl rfl rfl rfl (fun j _ => .refl _)
      (fun j hj => Or.inl hj) fun j hj spans hdue => hdue.same (fun hpc => hpc)
      (Nat.le_refl _) Iff.rfl
        Iff.rfl rfl⟩

end

theorem newBatcher_spans (cfg : Config) (capacity : Nat) :
    Batcher.Spans { newBatcher cfg with tracer := { capacity := capacity } } 0 (fun _ => False)
      fun _ => {} := by
  refine ⟨⟨⟨[], by simp [TraceRecorder.Stores], by simp [newBatcher]⟩, by simp, by simp, by
    simp, by simp,
    fun k _ => rfl, fun serial hs => hs.elim⟩, fun k hk => ?_, ⟨?_, ?_, ?_⟩⟩
  · simp [newBatcher] at hk
  all_goals simp [newBatcher]

/-- In every run of the batcher, the spans of all requests are in order. -/
theorem run_spans {cfg : Config} {actions : List Action}
    (h : run (step cfg.normalized randomHex) (newBatcher cfg) actions = some g) :
    ∃ trails, g.Spans 0 (fun _ => False) trails := by
  have hmax := cfg.normalized_normal.maxBatchSize
  refine (run_invariant (motive := fun g => g.Kept cfg.normalized.maxBatchSize ∧
    ∃ trails, g.Spans 0 (fun _ => False) trails) h
    ⟨newBatcher_kept cfg, _, newBatcher_spans cfg 2048⟩ ?_).2
  intro g a g' hg hstep
  obtain ⟨hkept, trails, hspans⟩ := hg
  exact ⟨hkept.step hmax hstep, hspans.step hkept hstep⟩

end Laminar.Gateway
