import Laminar.Gateway.SpanFlush

/-! The steps of `flush` that start, end and record spans, one by one. -/
namespace Laminar.Gateway
open Laminar.Transition
variable {maxBatchSize : Int} {config : Config} {randomHex : Nat → Nat → String} {g g' : Batcher}
  {k : Nat} {others : Multiset TraceSpan} {foreign : Nat → Prop} {trails : Nat → Trail}

theorem close_getElem? (t : Trail) (i j : Nat) (m : Mark) (status : String)
    (hm : t.marks[i]? = some m) :
    (t.close i m status hm).marks[j]? =
      if i = j then some { m with status := some status } else t.marks[j]? := by
  have hlt := (List.getElem?_eq_some_iff.mp hm).1
  simp only [Trail.close, List.getElem?_set, hlt, if_true]

theorem close_span (t : Trail) (i j : Nat) (m : Mark) (status : String)
    (hm : t.marks[i]? = some m) :
    (t.close i m status hm).marks[j]?.map Mark.span = t.marks[j]?.map Mark.span := by
  rw [close_getElem?]
  split_ifs with hij
  · rw [← hij, hm]
    rfl
  · rfl

theorem close_length (t : Trail) (i : Nat) (m : Mark) (status : String)
    (hm : t.marks[i]? = some m) : (t.close i m status hm).marks.length = t.marks.length := by
  simp [Trail.close]

theorem exists_add (t : Trail) (m : Mark)
    (hname : chainNames[t.marks.length + 1]? = some m.span.name)
    (hparent : ∀ last ∈ t.marks.getLast?, m.span.parentID = last.span.spanID) :
    ∃ t' : Trail, t'.marks = t.marks ++ [m] := ⟨t.add m hname hparent, rfl⟩

theorem ended_of_marks {t t' : Trail} {m : Mark} (h : t'.marks = t.marks ++ [m]) :
    t'.ended = t.ended ++ [m.ended] := by
  simp [Trail.ended, h]

theorem release_same (p : Pipeline) (j k : Nat) :
    ((p.release j).calls k).pc = (p.calls k).pc ∧
    ((p.release j).calls k).queueSpan = (p.calls k).queueSpan ∧
    ((p.release j).calls k).parentSpanID = (p.calls k).parentSpanID := by
  rw [release_calls]
  split_ifs with hkj
  · rw [hkj]
    exact ⟨rfl, rfl, rfl⟩
  · exact ⟨rfl, rfl, rfl⟩

/-- The traces of other requests stand under other ids. -/
theorem Batcher.Kept.other_id (hkept : g.Kept maxBatchSize) (hk : k ∈ g.run.flushed.flatten)
    {j : Nat}
    (hjk : j ≠ k) (hstage : 3 ≤ (g.calls j).pc.stage) (spans : RequestTraceSpans) :
    Function.update g.traceSpans (g.calls k).id spans (g.calls j).id =
      g.traceSpans (g.calls j).id := by
  have hkstage := (hkept.placed.flushed hkept.loop hk).stage
  refine Function.update_of_ne (fun hid => hjk ?_) _ _
  exact hkept.identified.apart j k (by omega) (by omega) hid

section
variable (h : g.Spans others foreign trails) (hkept : g.Kept config.maxBatchSize)
  (hrun : g.run.pc = .flushing) {o : FlushOp} {rest : List FlushOp} (htodo : g.todo = o :: rest)
include h hkept htodo

theorem Batcher.Spans.head (hk : k ∈ g.run.flushed.flatten) {op : SpanOp}
    (ho : o.spanOp (g.calls k).queueSpan k = some op) :
    ∃ u, spanStep (trails k).ended op = some u := by
  have hflushed := hkept.placed.flushed hkept.loop hk
  obtain ⟨-, u, spans, hu, -⟩ := (h.fits k hflushed.known).next htodo
    ((by decide : 3 ≤ 4).trans hflushed.stage) (hkept.loop.flushed_received k hk) ho
  exact ⟨u, hu⟩

include hrun

theorem Batcher.Spans.endQueue {s : ActiveSpan} {status : String}
    (ho : o = .op (.endSpan s status)) :
    ∃ trails',
      (Batcher.execFlush randomHex { g with todo := rest } o).Spans others foreign trails' := by
  have hmove := execFlush_move config randomHex hrun htodo
  subst ho
  obtain ⟨k, hk, rfl⟩ := h.minds.ends s status (by rw [htodo]; exact List.mem_cons_self)
  have hflushed := hkept.placed.flushed hkept.loop hk
  have hstage : 3 ≤ (g.calls k).pc.stage := (by decide : 3 ≤ 4).trans hflushed.stage
  obtain ⟨u, hu⟩ := h.head hkept htodo hk (if_pos rfl)
  obtain ⟨hended, rfl⟩ := spanStep_endQueue hu
  obtain ⟨m, hm, hopen⟩ := open_of_ended (t := trails k) (i := 0) (by rw [hended]; rfl)
  have hlength : (trails k).marks.length = 1 := by rw [← ended_length, hended]; rfl
  have hholds := h.holds.close hflushed.known hm hopen status
  rw [((h.fits k hflushed.known).queue m hm).1] at hholds
  refine ⟨_, h.settle hkept hmove htodo rfl hk (if_pos rfl)
    (fun j hj hjk hjstage => ⟨if_neg ?_, rfl⟩)
    (by rw [ended_close, hended]; rfl) (close_span _ 0 0 m status hm) hholds (fun m' hm' => ?_)
    fun hfour => ?_⟩
  · exact fun hsame => hjk (h.queue_apart hflushed.known hj hstage hjstage hsame).symm
  · have hlt := (List.getElem?_eq_some_iff.mp hm').1
    rw [close_length, hlength] at hlt
    omega
  · rw [close_length, hlength] at hfour
    omega

theorem Batcher.Spans.startFlushSpan (ho : o = .startFlush k) :
    ∃ trails',
      (Batcher.execFlush randomHex { g with todo := rest } o).Spans others foreign trails' := by
  have hmove := execFlush_move config randomHex hrun htodo
  subst ho
  have hk := h.minds.owned (.startFlush k) (by rw [htodo]; exact List.mem_cons_self) k rfl
  have hflushed := hkept.placed.flushed hkept.loop hk
  obtain ⟨u, hu⟩ := h.head hkept htodo hk (if_pos rfl)
  obtain ⟨hended, rfl⟩ := spanStep_startFlush hu
  have hlength : (trails k).marks.length = 1 := by rw [← ended_length, hended]; rfl
  obtain ⟨m, hmarks⟩ := List.length_eq_one_iff.mp hlength
  have hqueue := ((h.fits k hflushed.known).queue m (by rw [hmarks]; rfl)).1
  obtain ⟨hname, hparent, -⟩ := startSpan_started randomHex g.tracer "batch.flush"
    (g.calls k).queueSpan.spanID (g.calls k).traceID
  obtain ⟨t', ht'⟩ := exists_add (trails k)
    { span := (g.tracer.startSpan randomHex "batch.flush" (g.calls k).queueSpan.spanID
        (g.calls k).traceID).1 }
    (by rw [hlength]; exact congrArg some hname.symm) (by simp [hmarks, hparent, hqueue])
  refine ⟨_, h.settle hkept hmove htodo rfl hk (if_pos rfl)
    (fun j hj hjk hjstage => ⟨if_neg hjk.symm, ?_⟩)
    (by rw [ended_of_marks ht', hended]; rfl) (by rw [ht', hmarks]; rfl)
    (h.holds.start hflushed.known ht') (fun m' hm' _ => ?_) fun hfour => ?_⟩
  · exact hkept.other_id hk hjk hjstage _
  · rw [ht', hmarks] at hm' ⊢
    obtain rfl := Option.some.inj hm'
    refine ⟨?_, fun m'' hm'' => by simp at hm''⟩
    simp only [Batcher.execFlush, Function.update_self]
  · rw [ht', hmarks] at hfour
    simp at hfour

theorem Batcher.Spans.startWorkerSpan (ho : o = .startWorker k) :
    ∃ trails',
      (Batcher.execFlush randomHex { g with todo := rest } o).Spans others foreign trails' := by
  have hmove := execFlush_move config randomHex hrun htodo
  subst ho
  have hk := h.minds.owned (.startWorker k) (by rw [htodo]; exact List.mem_cons_self) k rfl
  have hflushed := hkept.placed.flushed hkept.loop hk
  obtain ⟨u, hu⟩ := h.head hkept htodo hk (if_pos rfl)
  obtain ⟨hended, rfl⟩ := spanStep_startWorker hu
  have hlength : (trails k).marks.length = 2 := by rw [← ended_length, hended]; rfl
  obtain ⟨m, m₁, hmarks⟩ := List.length_eq_two.mp hlength
  obtain ⟨m₁', hm₁, hopen⟩ := open_of_ended (t := trails k) (i := 1) (by rw [hended]; rfl)
  obtain rfl : m₁ = m₁' := by simpa [hmarks] using hm₁
  have hflush := ((h.fits k hflushed.known).tied m₁ hm₁ hopen).1
  obtain ⟨hname, hparent, -⟩ := startSpan_started randomHex g.tracer "worker.grpc" m₁.span.spanID
    (g.calls k).traceID
  obtain ⟨t', ht'⟩ := exists_add (trails k)
    { span := (g.tracer.startSpan randomHex "worker.grpc" m₁.span.spanID (g.calls k).traceID).1 }
    (by rw [hlength]; exact congrArg some hname.symm) (by simp [hmarks, hparent])
  refine ⟨_, h.settle hkept hmove htodo rfl hk (if_pos rfl)
    (fun j hj hjk hjstage => ⟨if_neg hjk.symm, ?_⟩)
    (by rw [ended_of_marks ht', hended]; rfl) (by rw [ht', hmarks]; rfl) ?_
    (fun m' hm' _ => ?_) fun hfour => ?_⟩
  · exact hkept.other_id hk hjk hjstage _
  · simp only [Batcher.execFlush, hflush]
    exact h.holds.start hflushed.known ht'
  · rw [ht', hmarks] at hm' ⊢
    obtain rfl := Option.some.inj hm'
    simp only [Batcher.execFlush, Function.update_self, hflush]
    refine ⟨trivial, fun m'' hm'' => ?_⟩
    obtain rfl := Option.some.inj hm''
    rfl
  · rw [ht', hmarks] at hfour
    simp at hfour

theorem Batcher.Spans.endWorkerSpan {status : String} (ho : o = .endWorker k status) :
    ∃ trails',
      (Batcher.execFlush randomHex { g with todo := rest } o).Spans others foreign trails' := by
  have hmove := execFlush_move config randomHex hrun htodo
  subst ho
  have hk := h.minds.owned (.endWorker k status) (by rw [htodo]; exact List.mem_cons_self) k rfl
  have hflushed := hkept.placed.flushed hkept.loop hk
  obtain ⟨u, hu⟩ := h.head hkept htodo hk (if_pos rfl)
  obtain ⟨hended, rfl⟩ := spanStep_endWorker hu
  obtain ⟨m₁, hm₁, hopen₁⟩ := open_of_ended (t := trails k) (i := 1) (by rw [hended]; rfl)
  obtain ⟨m, hm, hopen⟩ := open_of_ended (t := trails k) (i := 2) (by rw [hended]; rfl)
  obtain ⟨hflush, hworker⟩ := (h.fits k hflushed.known).tied m₁ hm₁ hopen₁
  have hlength : (trails k).marks.length = 3 := by rw [← ended_length, hended]; rfl
  have hexec : Batcher.execFlush randomHex { g with todo := rest } (.endWorker k status) =
      { g with todo := rest, tracer := g.tracer.endSpan m.span status } := by
    simp only [Batcher.execFlush, hworker m hm]
  refine ⟨_, h.settle hkept hmove htodo (by rw [hexec]) hk (if_pos rfl)
    (fun j hj hjk hjstage => ⟨if_neg hjk.symm, by rw [hexec]⟩)
    (by rw [ended_close, hended]; rfl) (close_span _ 2 0 m status hm)
    (by rw [hexec]; exact h.holds.close hflushed.known hm hopen status) (fun m' hm' _ => ?_)
    fun hfour => ?_⟩
  · rw [hexec]
    rw [close_getElem?, if_neg (by decide), hm₁] at hm'
    obtain rfl := Option.some.inj hm'
    refine ⟨hflush, fun m'' hm'' => ?_⟩
    rw [close_getElem?, if_pos rfl] at hm''
    obtain rfl := Option.some.inj hm''
    exact hworker m hm
  · rw [close_length, hlength] at hfour
    omega

theorem Batcher.Spans.endFlushSpan {status : String} (ho : o = .endFlush k status) :
    ∃ trails',
      (Batcher.execFlush randomHex { g with todo := rest } o).Spans others foreign trails' := by
  have hmove := execFlush_move config randomHex hrun htodo
  subst ho
  have hk := h.minds.owned (.endFlush k status) (by rw [htodo]; exact List.mem_cons_self) k rfl
  have hflushed := hkept.placed.flushed hkept.loop hk
  obtain ⟨u, hu⟩ := h.head hkept htodo hk (if_pos rfl)
  obtain ⟨later, hended, rfl⟩ := spanStep_endFlush hu
  obtain ⟨m, hm, hopen⟩ := open_of_ended (t := trails k) (i := 1) (by rw [hended]; rfl)
  obtain ⟨hflush, -⟩ := (h.fits k hflushed.known).tied m hm hopen
  have hexec : Batcher.execFlush randomHex { g with todo := rest } (.endFlush k status) =
      { g with todo := rest, tracer := g.tracer.endSpan m.span status } := by
    simp only [Batcher.execFlush, hflush]
  refine ⟨_, h.settle hkept hmove htodo (by rw [hexec]) hk (if_pos rfl)
    (fun j hj hjk hjstage => ⟨if_neg hjk.symm, by rw [hexec]⟩)
    (by rw [ended_close, hended]; rw [hended] at hu; exact hu) (close_span _ 1 0 m status hm)
    (by rw [hexec]; exact h.holds.close hflushed.known hm hopen status) (fun m' hm' hopen' => ?_)
    fun hfour => ?_⟩
  · rw [close_getElem?, if_pos rfl] at hm'
    obtain rfl := Option.some.inj hm'
    exact absurd hopen' (by simp)
  · rw [close_length] at hfour
    exact (h.fits k hflushed.known).served hfour

theorem Batcher.Spans.recordBackendSpan (ho : o = .recordBackend k) :
    ∃ trails',
      (Batcher.execFlush randomHex { g with todo := rest } o).Spans others foreign trails' := by
  have hmove := execFlush_move config randomHex hrun htodo
  subst ho
  have hmem : .recordBackend k ∈ g.todo := by rw [htodo]; exact List.mem_cons_self
  have hk := h.minds.owned (.recordBackend k) hmem k rfl
  have hflushed := hkept.placed.flushed hkept.loop hk
  obtain ⟨u, hu⟩ := h.head hkept htodo hk (if_pos rfl)
  obtain ⟨hended, rfl⟩ := spanStep_recordBackend hu
  obtain ⟨m₁, hm₁, hopen₁⟩ := open_of_ended (t := trails k) (i := 1) (by rw [hended]; rfl)
  have hlength : (trails k).marks.length = 3 := by rw [← ended_length, hended]; rfl
  obtain ⟨m, m₁', m₂, hmarks⟩ := List.length_eq_three.mp hlength
  obtain rfl : m₁' = m₁ := by simpa [hmarks] using hm₁
  obtain ⟨hflush, hworker⟩ := (h.fits k hflushed.known).tied m₁' hm₁ hopen₁
  have hworker₂ := hworker m₂ (by rw [hmarks]; rfl)
  -- the span has its number, though nothing else is ever asked of it
  obtain ⟨span, hspan⟩ : ∃ span : ActiveSpan, span = ⟨g.tracer.draws, (g.calls k).traceID,
    randomHex g.tracer.draws 8, m₂.span.spanID, "backend.inference"⟩ := ⟨_, rfl⟩
  have hexec : Batcher.execFlush randomHex { g with todo := rest } (.recordBackend k) =
      { g with todo := rest, tracer :=
        { g.tracer.recordSpan (span.record "ok") with draws := g.tracer.draws + 1 } } := by
    simp only [Batcher.execFlush, hworker₂, hspan]
    rfl
  obtain ⟨t', ht'⟩ := exists_add (trails k) { span := span, status := some "ok" }
    (by rw [hlength, hspan]; rfl) (by simp [hmarks, hspan])
  refine ⟨_, h.settle hkept hmove htodo (by rw [hexec]) hk (if_pos rfl)
    (fun j hj hjk hjstage => ⟨if_neg hjk.symm, by rw [hexec]⟩)
    (by rw [ended_of_marks ht', hended]; rfl) (by rw [ht', hmarks]; rfl) ?_
    (fun m' hm' _ => ?_) fun _ => h.minds.served k hmem⟩
  · rw [hexec]
    refine h.holds.add hflushed.known ht' (by rw [hspan])
      (by rw [hspan]; exact Nat.lt_succ_self _) rfl
      fun all hall => ?_
    exact hall.recordSpan (span.record "ok")
  · rw [hexec]
    rw [ht', hmarks] at hm' ⊢
    obtain rfl := Option.some.inj hm'
    refine ⟨hflush, fun m'' hm'' => ?_⟩
    obtain rfl := Option.some.inj hm''
    exact hworker₂

theorem Batcher.Spans.execFlush :
    ∃ trails',
      (Batcher.execFlush randomHex { g with todo := rest } o).Spans others foreign trails' := by
  have hmove := execFlush_move config randomHex hrun htodo
  cases o with
  | op o =>
    cases o with
    | endSpan s status => exact h.endQueue hkept hrun htodo rfl
    | count m =>
      exact ⟨trails, h.silent hkept hmove htodo (fun _ _ => rfl) [] rfl (by simp)
        rfl rfl rfl rfl rfl rfl
        rfl rfl fun k => ⟨rfl, rfl, rfl⟩⟩
    | release j =>
      exact ⟨trails, h.silent hkept hmove htodo (fun _ _ => rfl) [] rfl (by simp)
        rfl rfl rfl rfl rfl rfl
        rfl rfl (release_same _ j)⟩
  | startFlush k => exact h.startFlushSpan hkept hrun htodo rfl
  | startWorker k => exact h.startWorkerSpan hkept hrun htodo rfl
  | endWorker k status => exact h.endWorkerSpan hkept hrun htodo rfl
  | endFlush k status => exact h.endFlushSpan hkept hrun htodo rfl
  | recordBackend k => exact h.recordBackendSpan hkept hrun htodo rfl
  | deliver k resp =>
    refine ⟨trails, h.silent hkept hmove htodo (fun _ _ => rfl) [.respond k resp] rfl
      (fun o ho => ?_)
      rfl rfl rfl rfl rfl rfl rfl rfl (release_same _ k)⟩
    obtain rfl := List.mem_singleton.mp ho
    exact fun _ _ => rfl
  | respond k resp =>
    have hcalls : ∀ j,
        (Batcher.execFlush randomHex { g with todo := rest } (.respond k resp)).calls j =
        if j = k then { g.calls k with respChan := (g.calls k).respChan.or (some resp) }
        else g.calls j := fun j => update_calls g.toPipeline k j fun c =>
      { c with respChan := c.respChan.or (some resp) }
    refine ⟨trails, h.silent hkept hmove htodo (fun _ _ => rfl) [] rfl (by simp)
      rfl rfl rfl rfl rfl rfl
      rfl rfl fun j => ?_⟩
    rw [hcalls]
    split_ifs with hjk
    · rw [hjk]
      exact ⟨rfl, rfl, rfl⟩
    · exact ⟨rfl, rfl, rfl⟩
  | _ =>
    exact ⟨trails, h.silent hkept hmove htodo (fun _ _ => rfl) [] rfl (by simp)
      rfl rfl rfl rfl rfl rfl
      rfl rfl fun k => ⟨rfl, rfl, rfl⟩⟩

end

end Laminar.Gateway
