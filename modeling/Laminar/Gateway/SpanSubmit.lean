import Laminar.Gateway.SpanChain

/-! What `submit` does to the spans of its request. -/
namespace Laminar.Gateway
open Laminar.Transition
variable {maxBatchSize : Int} {config : Config} {randomHex : Nat → Nat → String} {g g' : Batcher}
  {k : Nat} {others : Multiset TraceSpan} {foreign : Nat → Prop} {trails : Nat → Trail}

theorem startSpan_started (randomHex : Nat → Nat → String) (r : TraceRecorder)
    (name parentSpanID traceID : String) :
    (r.startSpan randomHex name parentSpanID traceID).1.name = name ∧
    (r.startSpan randomHex name parentSpanID traceID).1.parentID = parentSpanID ∧
    r.draws ≤ (r.startSpan randomHex name parentSpanID traceID).1.serial ∧
    (r.startSpan randomHex name parentSpanID traceID).2 =
      { r with draws := (r.startSpan randomHex name parentSpanID traceID).1.serial + 1 } := by
  refine ⟨rfl, rfl, ?_, rfl⟩
  simp only [TraceRecorder.startSpan]
  split_ifs <;> omega

theorem TraceRecorder.Holds.start {r : TraceRecorder} {n : Nat}
    (h : r.Holds others foreign trails n) (hk : k < n) {name parentSpanID traceID : String}
    {t : Trail} (ht : t.marks = (trails k).marks ++
      [{ span := (r.startSpan randomHex name parentSpanID traceID).1 }]) :
    (r.startSpan randomHex name parentSpanID traceID).2.Holds others foreign
      (Function.update trails k t) n := by
  obtain ⟨-, -, hserial, hnew⟩ := startSpan_started randomHex r name parentSpanID traceID
  refine h.add hk ht hserial ?_ ?_ fun all hall => ?_
  · rw [hnew]
    exact Nat.lt_succ_self _
  · rw [hnew]
  · rw [hnew]
    simpa [Mark.recorded, TraceRecorder.Stores] using hall

theorem Pipeline.Minds.script_nil {p : Pipeline} {todo : List FlushOp} (h : p.Minds todo)
    {q : ActiveSpan} (hk : k ∉ p.run.flushed.flatten)
    (hq : ∀ j ∈ p.run.flushed.flatten, (p.calls j).queueSpan ≠ q) :
    todo.filterMap (FlushOp.spanOp q k) = [] := by
  have howned : ∀ o ∈ todo, o.spanOf ≠ some k := fun o ho hof => hk (h.owned o ho k hof)
  refine List.filterMap_eq_nil_iff.mpr fun o ho => ?_
  have hnot := howned o ho
  cases o with
  | op o =>
    cases o with
    | endSpan s status =>
      obtain ⟨j, hj, rfl⟩ := h.ends s status ho
      exact if_neg (hq j hj)
    | _ => rfl
  | recordFailure => rfl
  | recordSuccess => rfl
  | observe batchSize workerLatency success => rfl
  | deliver j resp => rfl
  | respond j resp => rfl
  | _ => exact if_neg fun hjk => hnot (congrArg some hjk)

section
variable (h : g.Spans others foreign trails) (hkept : g.Kept maxBatchSize)
include h hkept

theorem Batcher.Spans.flushScript_nil (hk : k < g.submitted) (hstage : 3 ≤ (g.calls k).pc.stage)
    (hplace : k ∉ g.run.received ++ g.requestChan) : g.flushScript k = [] := by
  have hflushed : k ∉ g.run.flushed.flatten := fun hmem =>
    hplace (List.mem_append_left _ (hkept.loop.flushed_received k hmem))
  refine h.minds.script_nil hflushed fun j hj hsame => ?_
  have hj' := hkept.placed.flushed hkept.loop hj
  obtain rfl := h.queue_apart hj'.known hk ((by decide : 3 ≤ 4).trans hj'.stage) hstage hsame
  exact hflushed hj

theorem Batcher.Spans.ownSpan (tracer : TraceRecorder) (f : Call → Call)
    (hmove : g.toPipeline.Move maxBatchSize (g.toPipeline.update k f))
    (hqueue : k ∈ g.run.flushed.flatten → (f (g.calls k)).queueSpan = (g.calls k).queueSpan)
    {t' : Trail} (hholds : tracer.Holds others foreign (Function.update trails k t') g.submitted)
    (hfit : (Batcher.update { g with tracer := tracer } k f).Fits k t') :
    (Batcher.update { g with tracer := tracer } k f).Spans others foreign
      (Function.update trails k t') := by
  have hcalls : ∀ j, j ≠ k → (g.toPipeline.update k f).calls j = g.calls j := by
    intro j hjk
    rw [update_calls, if_neg hjk]
  refine Batcher.Spans.touch rfl hholds hfit (fun j hj hjk => ?_) ?_
  · refine h.around hkept hmove hj ?_ (fun _ => rfl) (fun _ => ?_) Or.inl (fun spans hdue => ?_) rfl
    · exact (hcalls j hjk).symm ▸ .refl _
    · show List.filterMap (FlushOp.spanOp ((g.toPipeline.update k f).calls j).queueSpan j)
        g.todo = _
      rw [hcalls j hjk]
      rfl
    · exact hdue.same (fun hpc => by rw [← hpc]; exact congrArg Call.pc (hcalls j hjk))
        (hmove.later hj).stage Iff.rfl Iff.rfl rfl
  · refine h.minds_move hkept hmove (fun k hk => hk) (fun j hj => ?_) fun o ho => ho
    show ((g.toPipeline.update k f).calls j).queueSpan = _
    rw [update_calls]
    split_ifs with hjk
    · rw [hjk]
      exact hqueue (hjk ▸ hj)
    · rfl

end

/-- A request that was not sent is in none of the lists of `run` and `flush`. -/
theorem Batcher.Kept.unflushed (hkept : g.Kept maxBatchSize) (hstage : (g.calls k).pc.stage ≤ 3) :
    k ∉ g.run.received ++ g.requestChan ∧ k ∉ g.run.flushed.flatten ∧ k ∉ g.waiting ∧
      k ∉ g.active ∧ ∀ rpc ∈ g.rpcs, k ∉ rpc.calls := by
  have hplace : k ∉ g.run.received ++ g.requestChan := by
    intro hk
    have hfour := (hkept.placed.sent k hk).2
    omega
  have hflushed : k ∉ g.run.flushed.flatten := by
    intro hk
    have hfour := (hkept.placed.flushed hkept.loop hk).stage
    omega
  refine ⟨hplace, hflushed, fun hk => ?_, fun hk => hflushed (hkept.placed.active k hk),
    fun rpc hmem hk => ?_⟩
  · have hfour := hkept.placed.waiting_stage hkept.loop hk
    omega
  · have hsent : k ∈ g.rpcs.flatMap Rpc.calls ++ g.pending :=
      List.mem_append_left _ (List.mem_flatMap.mpr ⟨rpc, hmem, hk⟩)
    exact hflushed (hkept.placed.sending.subset hsent)

theorem update_flushScript {p : Pipeline} {f : Call → Call}
    (hqueue : (f (p.calls k)).queueSpan = (p.calls k).queueSpan) :
    (p.update k f).flushScript k = p.flushScript k := by
  simp only [Pipeline.flushScript, update_calls, if_true, hqueue]
  rfl

theorem Batcher.Spans.first (h : g.Spans others foreign trails) (hkept : g.Kept maxBatchSize)
    (hk : k < g.submitted) (hpc : (g.calls k).pc.stage = 2) {f : Call → Call} {traceID : String}
    (hmove : g.toPipeline.Move maxBatchSize (g.toPipeline.update k f))
    (hqueue : (f (g.calls k)).queueSpan =
      (g.tracer.startSpan randomHex "batch.queue_wait" (g.calls k).parentSpanID traceID).1)
    (hparent : (f (g.calls k)).parentSpanID = (g.calls k).parentSpanID)
    (hstage : 3 ≤ (f (g.calls k)).pc.stage) (hleaves : (f (g.calls k)).Leaves)
    (hdue : ∃ spans, run spanStep [false] (f (g.calls k)).script = some spans ∧
      (g.toPipeline.update k f).Due k spans) :
    ∃ trails', (Batcher.update { g with tracer := (g.tracer.startSpan randomHex "batch.queue_wait"
      (g.calls k).parentSpanID traceID).2 } k f).Spans others foreign trails' := by
  obtain ⟨hname, hspanParent, hserial, -⟩ := startSpan_started randomHex g.tracer
    "batch.queue_wait" (g.calls k).parentSpanID traceID
  obtain ⟨hplace, hflushed, hwaiting, hactive, hrpcs⟩ := hkept.unflushed (k := k) (by omega)
  have hnil := (h.fits k hk).fresh (by omega)
  generalize hspan : (g.tracer.startSpan randomHex "batch.queue_wait" (g.calls k).parentSpanID
    traceID).1 = s at *
  let t' : Trail := (trails k).add { span := s } (by simp [hnil, chainNames, hname])
    (by simp [hnil])
  have hmarks : t'.marks = [{ span := s }] := by simp [t', Trail.add, hnil]
  have hcall : (g.toPipeline.update k f).calls k = f (g.calls k) := by rw [update_calls, if_pos rfl]
  -- the new span is nobody's in `flush`
  have hscript : (g.toPipeline.update k f).flushScript k = [] := by
    have hnone := h.minds.script_nil (q := s) hflushed fun j hj hsame => by
      have hj' := hkept.placed.flushed hkept.loop hj
      obtain ⟨m, hm, hmspan⟩ := h.queued hj'.known ((by decide : 3 ≤ 4).trans hj'.stage)
      have hlt := h.holds.drawn j m (List.mem_of_getElem? hm)
      rw [hmspan, hsame] at hlt
      omega
    show g.todo.filterMap (FlushOp.spanOp ((g.toPipeline.update k f).calls k).queueSpan k) = []
    rw [hcall, hqueue]
    exact hnone
  refine ⟨Function.update trails k t', h.ownSpan hkept _ f hmove
    (fun hk => absurd hk hflushed) ?_ ?_⟩
  · exact h.holds.start hk (by rw [hmarks, hnil, hspan]; rfl)
  · refine ⟨fun m hm => ?_, fun m hm => ?_, fun hle => ?_, fun _ => ?_, fun _ => hplace, ?_,
      fun rpc hmem hcalls => absurd hcalls (hrpcs rpc hmem), fun hfour => ?_, fun hbacked => ?_⟩
    · obtain rfl : { span := s } = m := by simpa [hmarks] using hm
      show s = ((g.toPipeline.update k f).calls k).queueSpan ∧
        s.parentID = ((g.toPipeline.update k f).calls k).parentSpanID
      rw [hcall, hqueue, hparent]
      exact ⟨rfl, hspanParent⟩
    · simp [hmarks] at hm
    · have hnew : 3 ≤ ((g.toPipeline.update k f).calls k).pc.stage := hcall ▸ hstage
      exact absurd (hnew.trans hle) (by decide)
    · obtain ⟨spans, hrun, hd⟩ := hdue
      refine ⟨spans, ?_, hd⟩
      show run spanStep t'.ended (((g.toPipeline.update k f).calls k).script ++
        (g.toPipeline.update k f).flushScript k) = some spans
      rw [hscript, hcall, List.append_nil, Trail.ended, hmarks]
      exact hrun
    · exact hcall.symm ▸ hleaves
    · rw [hmarks] at hfour
      exact absurd hfour (by simp)
    · obtain ⟨rpc, hmem, hcalls, -⟩ := hbacked
      exact absurd hcalls (hrpcs rpc hmem)

/-- A call that gives up before the channel will end its queue span. -/
theorem Batcher.Spans.quit (h : g.Spans others foreign trails) (hkept : g.Kept maxBatchSize)
    (hk : k < g.submitted) (hpc : (g.calls k).pc = .enqueue) {todo : List Op} {status : String}
    {m : Metric} {resp : Response} (htodo : todo = [.release k,
      .endSpan (g.calls k).queueSpan status, .count m, .count .requestDuration])
    (hmove : g.toPipeline.Move maxBatchSize (g.toPipeline.leave k todo resp)) :
    (g.leave k todo resp).Spans others foreign trails := by
  have hscript : todo.filterMap (Op.spanOp (g.calls k).queueSpan) = [.endQueue] := by
    simp [htodo, Op.spanOp, List.filterMap_cons]
  have hstage : (g.calls k).pc.stage = 3 := by rw [hpc]; rfl
  obtain ⟨hplace, hflushed, hwaiting, hactive, hrpcs⟩ := hkept.unflushed (k := k) (by omega)
  have hfit := h.fits k hk
  have hcall : (g.toPipeline.leave k todo resp).calls k =
      { g.calls k with pc := .leave todo resp } := by rw [Pipeline.leave, update_calls, if_pos rfl]
  have hflush := h.flushScript_nil hkept hk (by omega) hplace
  have hended : (trails k).ended = [false] := by
    obtain ⟨spans, hrun, hdue⟩ := hfit.due (by omega)
    rw [hflush, Call.script, hpc] at hrun
    rw [Option.some.inj hrun]
    cases hdue with
    | enqueue hpc => rfl
    | waiting hk => exact absurd hk hwaiting
    | passed rest hpc hk => exact absurd hk hactive
    | sending hpc hk => exact absurd hk hactive
    | settled hfour => omega
  have hholds :
      g.tracer.Holds others foreign (Function.update trails k (trails k)) g.submitted := by
    rw [Function.update_eq_self]
    exact h.holds
  have hown := h.ownSpan hkept g.tracer (fun c => { c with pc := .leave todo resp }) hmove
    (fun _ => rfl) hholds ?_
  · rwa [Function.update_eq_self] at hown
  · refine ⟨fun m hm => ?_, fun m hm => ?_, fun hle => ?_, fun _ => ?_, fun _ => hplace, ?_,
      fun rpc hmem hcalls => absurd hcalls (hrpcs rpc hmem), fun hfour => ?_, fun hbacked => ?_⟩
    · show m.span = ((g.toPipeline.leave k todo resp).calls k).queueSpan ∧
        m.span.parentID = ((g.toPipeline.leave k todo resp).calls k).parentSpanID
      rw [hcall]
      exact hfit.queue m hm
    · have hlength : (trails k).marks.length = 1 := by rw [← ended_length, hended]; rfl
      have hlt := (List.getElem?_eq_some_iff.mp hm).1
      omega
    · have hnew : ((g.toPipeline.leave k todo resp).calls k).pc.stage = 6 := by rw [hcall]; rfl
      exact absurd (hnew.symm.le.trans hle) (by decide)
    · refine ⟨[true], ?_, .settled ?_ hwaiting (fun hk => absurd hk hactive) (by simp) (by simp)⟩
      · show run spanStep (trails k).ended (((g.toPipeline.leave k todo resp).calls k).script ++
          (g.toPipeline.leave k todo resp).flushScript k) = some [true]
        rw [hcall, Call.script]
        simp only
        rw [hscript, Pipeline.leave, update_flushScript rfl, hflush, hended]
        rfl
      · show 4 ≤ ((g.toPipeline.leave k todo resp).calls k).pc.stage
        rw [hcall]
        exact (by decide : 4 ≤ 6)
    · show ((g.toPipeline.leave k todo resp).calls k).Leaves
      rw [hcall]
      intro todo' resp' hleave s status hs
      obtain ⟨rfl, -⟩ := SubmitPC.leave.inj hleave
      simp only [htodo, List.mem_cons, Op.endSpan.injEq, reduceCtorEq, List.not_mem_nil, or_false,
        false_or] at hs
      exact hs.1
    · have hlength : (trails k).marks.length = 1 := by rw [← ended_length, hended]; rfl
      omega
    · obtain ⟨rpc, hmem, hcalls, -⟩ := hbacked
      exact absurd hcalls (hrpcs rpc hmem)

/-- A call that leaves ends its queue span. -/
theorem Batcher.Spans.exitSpan (h : g.Spans others foreign trails) (hkept : g.Kept maxBatchSize)
    (hk : k < g.submitted) {s : ActiveSpan} {status : String} {rest : List Op} {resp : Response}
    (hpc : (g.calls k).pc = .leave (.endSpan s status :: rest) resp)
    (hmove : g.toPipeline.Move maxBatchSize (g.toPipeline.leave k rest resp)) :
    ∃ trails', (Batcher.leave { g with tracer := g.tracer.endSpan s status } k rest resp).Spans
      others foreign trails' := by
  have hstage : (g.calls k).pc.stage = 6 := by rw [hpc]; rfl
  have hfit := h.fits k hk
  obtain rfl := hfit.leaves _ _ hpc s status List.mem_cons_self
  have hcall : (g.toPipeline.leave k rest resp).calls k =
      { g.calls k with pc := .leave rest resp } := by rw [Pipeline.leave, update_calls, if_pos rfl]
  have hscript : (g.calls k).script =
      .endQueue :: rest.filterMap (Op.spanOp (g.calls k).queueSpan) := by
    simp only [Call.script, hpc]
    exact List.filterMap_cons_some (if_pos rfl)
  have hplace := hfit.own (by simp [hscript])
  have hflush := h.flushScript_nil hkept hk (by omega) hplace
  obtain ⟨spans, hrun, hdue⟩ := hfit.due (by omega)
  rw [hscript, hflush, List.append_nil] at hrun
  obtain ⟨u, hu, hrest⟩ := run_cons.mp hrun
  obtain ⟨hended, rfl⟩ := spanStep_endQueue hu
  obtain ⟨m, hm, hopen⟩ := open_of_ended (t := trails k) (i := 0) (by rw [hended]; rfl)
  have hspan := (hfit.queue m hm).1
  have hlength : (trails k).marks.length = 1 := by rw [← ended_length, hended]; rfl
  have hlength' : ((trails k).close 0 m status hm).marks.length = 1 := by
    simp [Trail.close, hlength]
  have hholds := h.holds.close hk hm hopen status
  rw [hspan] at hholds
  have hown := h.ownSpan hkept _ (fun c => { c with pc := .leave rest resp }) hmove (fun _ => rfl)
    hholds ?_
  · exact ⟨_, hown⟩
  · refine ⟨fun m' hm' => ?_, fun m' hm' => ?_, fun hle => ?_, fun _ => ?_,
      fun _ => hplace, ?_, fun rpc hmem hcalls => ?_, fun hfour => ?_, fun hbacked => Or.inl ?_⟩
    · show m'.span = ((g.toPipeline.leave k rest resp).calls k).queueSpan ∧
        m'.span.parentID = ((g.toPipeline.leave k rest resp).calls k).parentSpanID
      rw [hcall]
      obtain rfl : { m with status := some status } = m' := by
        simpa [Trail.close, List.getElem?_set, hlength] using hm'
      exact hfit.queue m hm
    · have hlt := (List.getElem?_eq_some_iff.mp hm').1
      omega
    · have hnew : ((g.toPipeline.leave k rest resp).calls k).pc.stage = 6 := by rw [hcall]; rfl
      exact absurd (hnew.symm.le.trans hle) (by decide)
    · refine ⟨spans, ?_, hdue.same (fun hpc' => ?_) (hmove.later hk).stage Iff.rfl Iff.rfl rfl⟩
      · show run spanStep ((trails k).close 0 m status hm).ended
          (((g.toPipeline.leave k rest resp).calls k).script ++
          (g.toPipeline.leave k rest resp).flushScript k) = some spans
        rw [hcall, Pipeline.leave, update_flushScript rfl, hflush, List.append_nil, ended_close,
          hended]
        exact hrest
      · rw [hpc] at hpc'
        exact absurd hpc' (by simp)
    · show ((g.toPipeline.leave k rest resp).calls k).Leaves
      rw [hcall]
      intro todo' resp' hleave s' status' hs
      obtain ⟨rfl, -⟩ := SubmitPC.leave.inj hleave
      exact hfit.leaves _ _ hpc s' status' (List.mem_cons_of_mem _ hs)
    · have hlong := hfit.sent rpc hmem hcalls
      omega
    · omega
    · obtain ⟨rpc, hmem, hcalls, -⟩ := hbacked
      have hlong := hfit.sent rpc hmem hcalls
      omega

theorem Call.Keeps.of_script {c c' : Call} (hqueue : c'.queueSpan = c.queueSpan)
    (hparent : c'.parentSpanID = c.parentSpanID) (hscript : c'.script = c.script)
    (hstage : 3 ≤ c'.pc.stage ↔ 3 ≤ c.pc.stage)
    (hleaves : ∀ todo resp, c'.pc = .leave todo resp → ∀ s status, .endSpan s status ∈ todo →
      ∃ todo' resp', c.pc = .leave todo' resp' ∧ .endSpan s status ∈ todo') : c.Keeps c' := by
  refine ⟨hqueue, hparent, hscript, hstage, fun h todo resp hleave s status hs => ?_⟩
  obtain ⟨todo', resp', hpc, hmem⟩ := hleaves todo resp hleave s status hs
  rw [hqueue]
  exact h todo' resp' hpc s status hmem

theorem Call.Keeps.exit {c c' : Call} {o : Op} {rest : List Op} {resp : Response}
    (hpc : c.pc = .leave (o :: rest) resp) (ho : o.spanOp c.queueSpan = none)
    (hqueue : c'.queueSpan = c.queueSpan) (hparent : c'.parentSpanID = c.parentSpanID)
    (hpc' : c'.pc = .leave rest resp) : c.Keeps c' := by
  refine .of_script hqueue hparent ?_ (by simp [hpc, hpc', SubmitPC.stage])
    fun todo resp' hleave s status hs => ⟨_, _, hpc, ?_⟩
  · simp only [Call.script, hpc, hpc', hqueue, List.filterMap_cons_none ho]
  · obtain ⟨rfl, -⟩ := SubmitPC.leave.inj (hpc'.symm.trans hleave)
    exact List.mem_cons_of_mem _ hs

theorem Call.Keeps.go {c c' : Call} (hqueue : c'.queueSpan = c.queueSpan)
    (hparent : c'.parentSpanID = c.parentSpanID) (hscript : c.script = [])
    (hstage : 3 ≤ c'.pc.stage ↔ 3 ≤ c.pc.stage)
    (hpc : ∀ todo resp, c'.pc = .leave todo resp → ∀ s status, .endSpan s status ∉ todo) :
    c.Keeps c' := by
  refine .of_script hqueue hparent ?_ hstage fun todo resp hleave s status hs =>
    absurd hs (hpc todo resp hleave s status)
  rw [hscript, Call.script]
  split
  · refine List.filterMap_eq_nil_iff.mpr fun o ho => ?_
    cases o with
    | endSpan s status => exact absurd ho (hpc _ _ ‹_› s status)
    | _ => rfl
  · rfl

theorem Pipeline.Due.of_enqueue {p : Pipeline} {spans : List Bool} (h : p.Due k spans)
    (hpc : (p.calls k).pc = .enqueue) (hwaiting : k ∉ p.waiting) (hactive : k ∉ p.active) :
    spans = [false] := by
  cases h with
  | enqueue hpc => rfl
  | waiting hk => exact absurd hk hwaiting
  | passed rest hpc hk => exact absurd hk hactive
  | sending hpc hk => exact absurd hk hactive
  | settled hfour =>
    rw [hpc] at hfour
    exact absurd hfour (by decide)

theorem Batcher.Spans.handedOn (h : g.Spans others foreign trails)
    (hkept : g.Kept maxBatchSize) (hpc : (g.calls k).pc = .enqueue)
    (hmove : g.toPipeline.Move maxBatchSize g'.toPipeline)
    (hcalls : g'.calls = Function.update g.calls k { g.calls k with pc := .queued })
    (hsubmitted : g'.submitted = g.submitted) (htracer : g'.tracer = g.tracer)
    (htraces : g'.traceSpans = g.traceSpans) (hflushed : g'.run.flushed = g.run.flushed)
    (hflush : g'.todo = g.todo ∧ g'.flushPC = g.flushPC ∧ g'.active = g.active ∧ g'.rpcs = g.rpcs)
    (hplace : ∀ j ∈ g'.run.received ++ g'.requestChan, j ∈ g.run.received ++ g.requestChan ∨ j = k)
    (hwaits : ∀ j, j ∈ g'.waiting ↔ j ∈ g.waiting ∨ j = k) : g'.Spans others foreign trails := by
  obtain ⟨htodo, hflushPC, hactive, hrpcs⟩ := hflush
  have hstage : (g.calls k).pc.stage = 3 := by rw [hpc]; rfl
  obtain ⟨-, -, hnotWaiting, hnotActive, -⟩ := hkept.unflushed (k := k) (by omega)
  refine h.still hkept hmove hsubmitted htracer htraces htodo hflushed hrpcs (fun j _ => ?_)
    (fun j hj => ?_) fun j hj spans hdue => ?_
  · rw [hcalls, Function.update_apply]
    split_ifs with hjk
    · subst hjk
      exact .go rfl rfl (by simp [Call.script, hpc]) (by simp [hpc, SubmitPC.stage]) (by simp)
    · exact .refl _
  · obtain hold | rfl := hplace j hj
    · exact Or.inl hold
    · rw [hcalls, Function.update_self]
      exact Or.inr rfl
  · by_cases hjk : j = k
    · subst hjk
      exact (hdue.of_enqueue hpc hnotWaiting hnotActive).symm ▸ .waiting
        ((hwaits j).mpr (Or.inr rfl))
    · refine hdue.same (fun henqueue => ?_) (hmove.later hj).stage ?_ (by rw [hactive]) hflushPC
      · rw [hcalls, Function.update_of_ne hjk]
        exact henqueue
      · rw [hwaits, or_iff_left hjk]

theorem Batcher.Spans.enqueue (h : g.Spans others foreign trails)
    (hkept : g.Kept config.maxBatchSize)
    (hk : k < g.submitted) {case : SelectCase} (hpc : (g.calls k).pc = .enqueue)
    (hstep : g.enqueue config k case = some g') : g'.Spans others foreign trails := by
  have hmove := enqueue_move hk hpc hstep
  cases case with
  | ctxDone =>
    simp only [Batcher.enqueue] at hstep
    split_ifs at hstep
    obtain rfl := Option.some.inj hstep
    exact h.quit hkept hk hpc rfl hmove
  | default =>
    simp only [Batcher.enqueue] at hstep
    split_ifs at hstep
    obtain rfl := Option.some.inj hstep
    exact h.quit hkept hk hpc rfl hmove
  | channel =>
    simp only [Batcher.enqueue] at hstep
    split_ifs at hstep with hroom hready
    · obtain rfl := Option.some.inj hstep
      refine h.handedOn hkept hpc hmove rfl rfl rfl rfl rfl ⟨rfl, rfl, rfl, rfl⟩ (fun j hj => ?_)
        fun j => ?_
      · simp only [Batcher.update, Pipeline.update, List.mem_append, List.mem_singleton] at hj ⊢
        tauto
      · simp only [Pipeline.waiting, Batcher.update, Pipeline.update, List.mem_append,
          List.mem_singleton]
        tauto
    · obtain rfl := Option.some.inj hstep
      refine h.handedOn hkept hpc hmove rfl rfl rfl rfl rfl ⟨rfl, rfl, rfl, rfl⟩ (fun j hj => ?_)
        fun j => ?_
      · simp only [Batcher.update, Pipeline.update, Run.receive, List.mem_append,
          List.mem_singleton] at hj ⊢
        tauto
      · simp only [Pipeline.waiting, Batcher.update, Pipeline.update, Run.receive, Run.held,
          hready.2,
          List.mem_append, List.mem_singleton]
        tauto

theorem Batcher.Spans.wait (h : g.Spans others foreign trails) (hkept : g.Kept config.maxBatchSize)
    (hk : k < g.submitted) {case : SelectCase} (hpc : (g.calls k).pc = .wait)
    (hstep : g.wait k case = some g') : g'.Spans others foreign trails := by
  have hmove : g.toPipeline.Move config.maxBatchSize g'.toPipeline := wait_move hk hpc hstep
  have hne : ∀ pc : SubmitPC, (g.calls k).pc = .enqueue → pc = .enqueue := by simp [hpc]
  cases case with
  | ctxDone =>
    simp only [Batcher.wait] at hstep
    split_ifs at hstep
    obtain rfl := Option.some.inj hstep
    refine h.byCall hkept hmove rfl ?_ rfl rfl rfl ⟨rfl, rfl, rfl, rfl⟩ rfl rfl (hne _)
    refine .go rfl rfl (by simp [Call.script, hpc]) (by simp [hpc, SubmitPC.stage])
      fun todo resp hleave s status => ?_
    obtain ⟨rfl, -⟩ := SubmitPC.leave.inj hleave
    simp
  | channel =>
    simp only [Batcher.wait] at hstep
    cases hresp : (g.calls k).respChan with
    | none => simp [hresp] at hstep
    | some resp =>
      simp only [hresp] at hstep
      obtain rfl := Option.some.inj hstep
      refine h.byCall hkept hmove rfl ?_ rfl rfl rfl ⟨rfl, rfl, rfl, rfl⟩ rfl rfl (hne _)
      refine .go rfl rfl (by simp [Call.script, hpc]) (by simp [hpc, SubmitPC.stage])
        fun todo resp hleave s status => ?_
      obtain ⟨rfl, -⟩ := SubmitPC.leave.inj hleave
      simp
  | default => simp [Batcher.wait] at hstep

theorem Batcher.Spans.advance (h : g.Spans others foreign trails)
    (hkept : g.Kept config.maxBatchSize)
    (hk : k < g.submitted) {case : SelectCase}
    (hstep : g.advance config randomHex k case = some g') :
    ∃ trails', g'.Spans others foreign trails' := by
  have hmove := advance_move hk hstep
  unfold Batcher.advance at hstep
  cases hpc : (g.calls k).pc with
  | generateID =>
    simp only [hpc] at hstep
    obtain rfl := Option.some.inj hstep
    refine ⟨trails, h.byCall hkept hmove rfl ?_ rfl rfl rfl ⟨rfl, rfl, rfl, rfl⟩ rfl rfl
      (by simp [hpc])⟩
    exact .go rfl rfl (by simp [Call.script, hpc]) (by simp [hpc, SubmitPC.stage]) (by simp)
  | tryAcquire =>
    simp only [hpc] at hstep
    obtain rfl := Option.some.inj hstep
    refine ⟨trails, h.byCall hkept hmove rfl ?_ rfl rfl rfl ⟨rfl, rfl, rfl, rfl⟩ rfl rfl
      (by simp [hpc])⟩
    exact .go rfl rfl (by simp [Call.script, hpc]) (by simp [hpc, SubmitPC.stage]) (by simp)
  | startSpan admitted =>
    simp only [hpc] at hstep
    obtain rfl := Option.some.inj hstep
    have hstage : (g.calls k).pc.stage = 2 := by rw [hpc]; rfl
    obtain ⟨-, -, hwaiting, hactive, -⟩ := hkept.unflushed (k := k) (by omega)
    cases admitted with
    | true =>
      refine h.first hkept hk hstage hmove rfl rfl (by simp [SubmitPC.stage]) ?_
        ⟨[false], ?_, .enqueue ?_⟩
      · exact fun todo resp hleave => absurd hleave (by simp)
      · rfl
      · simp [update_calls]
    | false =>
      refine h.first hkept hk hstage hmove rfl rfl (by simp [SubmitPC.stage]) ?_ ⟨[true], ?_, ?_⟩
      · intro todo resp hleave s status hs
        obtain ⟨rfl, -⟩ := SubmitPC.leave.inj hleave
        simp only [List.mem_cons, Op.endSpan.injEq, reduceCtorEq, List.not_mem_nil, or_false] at hs
        exact hs.1
      · simp [Call.script, Op.spanOp, List.filterMap_cons, run, spanStep]
      · refine .settled ?_ hwaiting (fun hk => absurd hk hactive) (by simp) (by simp)
        simp [update_calls, SubmitPC.stage]
  | enqueue =>
    simp only [hpc] at hstep
    exact ⟨trails, h.enqueue hkept hk hpc hstep⟩
  | queued =>
    simp only [hpc] at hstep
    obtain rfl := Option.some.inj hstep
    refine ⟨trails, h.byCall hkept hmove rfl ?_ rfl rfl rfl ⟨rfl, rfl, rfl, rfl⟩ rfl rfl
      (by simp [hpc])⟩
    exact .go rfl rfl (by simp [Call.script, hpc]) (by simp [hpc, SubmitPC.stage]) (by simp)
  | wait =>
    simp only [hpc] at hstep
    exact ⟨trails, h.wait hkept hk hpc hstep⟩
  | leave todo resp =>
    cases todo with
    | nil =>
      simp only [hpc] at hstep
      obtain rfl := Option.some.inj hstep
      refine ⟨trails, h.byCall hkept hmove rfl ?_ rfl rfl rfl ⟨rfl, rfl, rfl, rfl⟩ rfl rfl
      (by simp [hpc])⟩
      exact .go rfl rfl (by simp [Call.script, hpc]) (by simp [hpc, SubmitPC.stage]) (by simp)
    | cons o rest =>
      simp only [hpc] at hstep
      obtain rfl := Option.some.inj hstep
      cases o with
      | release j =>
        obtain rfl := hkept.placed.leaving k _ _ hpc j List.mem_cons_self
        have hcall : (g.exec (.release j)).calls j =
            { g.calls j with lease := (g.calls j).lease.spent } :=
          (release_calls g.toPipeline j j).trans (if_pos rfl)
        refine ⟨trails, h.byCall hkept hmove (Function.update_idem _ _ _)
          (.exit hpc rfl ?_ ?_ rfl) rfl
          rfl rfl ⟨rfl, rfl, rfl, rfl⟩ rfl rfl (by simp [hpc])⟩
        · rw [hcall]
        · rw [hcall]
      | endSpan s status => exact h.exitSpan hkept hk hpc hmove
      | count m =>
        exact ⟨trails, h.byCall hkept hmove rfl (.exit hpc rfl rfl rfl rfl) rfl rfl rfl
          ⟨rfl, rfl, rfl, rfl⟩ rfl rfl (by simp [hpc])⟩
  | returned resp => simp [hpc] at hstep

end Laminar.Gateway
