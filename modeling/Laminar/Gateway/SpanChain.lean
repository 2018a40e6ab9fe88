import Laminar.Gateway.SpanLife

/-! The spans of the requests in every state: each request has the spans that its place calls for,
and what is left to do to them stands in the steps of its call and of `flush`. -/
namespace Laminar.Gateway
open Laminar.Transition
variable {maxBatchSize : Int} {randomHex : Nat → Nat → String} {g g' : Batcher} {k : Nat}

def Call.Leaves (c : Call) : Prop :=
  ∀ todo resp, c.pc = .leave todo resp → ∀ s status, Op.endSpan s status ∈ todo → s = c.queueSpan

def ResponseItem.Traced (item : ResponseItem) : Prop :=
  item.backendLatencyMicros > 0 ∨ item.backendName ≠ ""

def Pipeline.Backed (p : Pipeline) (k : Nat) : Prop :=
  ∃ rpc ∈ p.rpcs, k ∈ rpc.calls ∧ ∃ items item, rpc.reply = some (.ok items) ∧
    findResponse items (p.calls k).id = some item ∧ item.Traced

structure Batcher.Fits (g : Batcher) (k : Nat) (t : Trail) : Prop where
  queue : ∀ m, t.marks[0]? = some m →
    m.span = (g.calls k).queueSpan ∧ m.span.parentID = (g.calls k).parentSpanID
  tied : ∀ m, t.marks[1]? = some m → m.status = none →
    (g.traceSpans (g.calls k).id).flush = some m.span ∧
      ∀ m', t.marks[2]? = some m' → (g.traceSpans (g.calls k).id).worker = some m'.span
  fresh : (g.calls k).pc.stage ≤ 2 → t.marks = []
  due : 3 ≤ (g.calls k).pc.stage → ∃ spans,
    run spanStep t.ended ((g.calls k).script ++ g.flushScript k) = some spans ∧ g.Due k spans
  own : (g.calls k).script ≠ [] → k ∉ g.run.received ++ g.requestChan
  leaves : (g.calls k).Leaves
  sent : ∀ rpc ∈ g.rpcs, k ∈ rpc.calls → 3 ≤ t.marks.length
  served : t.marks.length = 4 → g.Served k
  backed : g.Backed k → .recordBackend ∈ g.flushScript k ∨ t.marks.length = 4

def FlushOp.spanOf : FlushOp → Option Nat
  | .startFlush k => some k
  | .startWorker k => some k
  | .endWorker k _ => some k
  | .endFlush k _ => some k
  | .recordBackend k => some k
  | _ => none

structure Pipeline.Minds (p : Pipeline) (todo : List FlushOp) : Prop where
  owned : ∀ o ∈ todo, ∀ k, o.spanOf = some k → k ∈ p.run.flushed.flatten
  ends : ∀ s status, .op (.endSpan s status) ∈ todo →
    ∃ j ∈ p.run.flushed.flatten, s = (p.calls j).queueSpan
  served : ∀ k, .recordBackend k ∈ todo → p.Served k

structure Batcher.Spans (g : Batcher) (others : Multiset TraceSpan) (foreign : Nat → Prop)
    (trails : Nat → Trail) : Prop where
  holds : g.tracer.Holds others foreign trails g.submitted
  fits : ∀ k < g.submitted, g.Fits k (trails k)
  minds : g.Minds g.todo

theorem ended_length (t : Trail) : t.ended.length = t.marks.length := List.length_map ..

theorem ended_getElem? (t : Trail) (i : Nat) : t.ended[i]? = t.marks[i]?.map Mark.ended :=
  List.getElem?_map ..

theorem open_of_ended {t : Trail} {i : Nat} (h : t.ended[i]? = some false) :
    ∃ m, t.marks[i]? = some m ∧ m.status = none := by
  rw [ended_getElem?] at h
  obtain ⟨m, hm, hended⟩ := Option.map_eq_some_iff.mp h
  exact ⟨m, hm, by simpa [Mark.ended] using hended⟩

theorem ended_close (t : Trail) (i : Nat) (m : Mark) (status : String)
    (hm : t.marks[i]? = some m) : (t.close i m status hm).ended = t.ended.set i true := by
  simp [Trail.ended, Trail.close, List.map_set, Mark.ended]

structure Call.Keeps (c c' : Call) : Prop where
  queueSpan : c'.queueSpan = c.queueSpan
  parent : c'.parentSpanID = c.parentSpanID
  script : c'.script = c.script
  stage : 3 ≤ c'.pc.stage ↔ 3 ≤ c.pc.stage
  leaves : c.Leaves → c'.Leaves

theorem Call.Keeps.of_pc {c c' : Call} (hqueue : c'.queueSpan = c.queueSpan)
    (hparent : c'.parentSpanID = c.parentSpanID) (hpc : c'.pc = c.pc) : c.Keeps c' := by
  refine ⟨hqueue, hparent, ?_, by rw [hpc], fun h => ?_⟩
  · simp only [Call.script, hpc, hqueue]
  · intro todo resp hleave
    rw [hqueue]
    exact h todo resp (hpc ▸ hleave)

theorem Call.Keeps.refl (c : Call) : c.Keeps c := .of_pc rfl rfl rfl

theorem Batcher.Fits.stage {t : Trail} (h : g.Fits k t) (hne : t.marks ≠ []) :
    3 ≤ (g.calls k).pc.stage := by
  by_contra hstage
  exact hne (h.fresh (by omega))

theorem Batcher.Fits.keep {t : Trail} (h : g.Fits k t) (hcall : (g.calls k).Keeps (g'.calls k))
    (htied : 3 ≤ (g.calls k).pc.stage → ∀ m, t.marks[1]? = some m → m.status = none →
      g'.traceSpans (g'.calls k).id = g.traceSpans (g.calls k).id)
    (hscript : 3 ≤ (g.calls k).pc.stage → g'.flushScript k = g.flushScript k)
    (hplace : k ∈ g'.run.received ++ g'.requestChan →
      k ∈ g.run.received ++ g.requestChan ∨ (g'.calls k).script = [])
    (hdue : ∀ spans, g.Due k spans → g'.Due k spans)
    (hsent : ∀ rpc ∈ g'.rpcs, k ∈ rpc.calls → rpc ∈ g.rpcs ∨ 3 ≤ t.marks.length)
    (hserved : g.Served k → g'.Served k)
    (hbacked : g'.Backed k → g.Backed k ∨ .recordBackend ∈ g'.flushScript k) :
    g'.Fits k t where
  queue m hm := by
    rw [hcall.queueSpan, hcall.parent]
    exact h.queue m hm
  tied m hm hopen := by
    have hstage := h.stage (List.ne_nil_of_mem (List.mem_of_getElem? hm))
    rw [htied hstage m hm hopen]
    exact h.tied m hm hopen
  fresh hstage := h.fresh (by have := hcall.stage; omega)
  due hstage := by
    obtain ⟨spans, hrun, hd⟩ := h.due (hcall.stage.mp hstage)
    exact ⟨spans, by rw [hcall.script, hscript (hcall.stage.mp hstage)]; exact hrun, hdue spans hd⟩
  own hne hmem := by
    obtain hold | hnil := hplace hmem
    · rw [hcall.script] at hne
      exact h.own hne hold
    · exact hne hnil
  leaves := hcall.leaves h.leaves
  sent rpc hmem hk := by
    obtain hold | hlength := hsent rpc hmem hk
    · exact h.sent rpc hold hk
    · exact hlength
  served hlength := hserved (h.served hlength)
  backed hb := by
    obtain hb | hscripted := hbacked hb
    · obtain hold | hlength := h.backed hb
      · obtain ⟨rpc, hmem, hk, -⟩ := hb
        have hlong := h.sent rpc hmem hk
        have hstage := h.stage (List.ne_nil_of_length_pos (by omega))
        exact Or.inl (hscript hstage ▸ hold)
      · exact Or.inr hlength
    · exact Or.inl hscripted

section
variable {others : Multiset TraceSpan} {foreign : Nat → Prop} {trails : Nat → Trail}

/-- A request that came as far as the channel has a queue span. -/
theorem Batcher.Spans.queued (h : g.Spans others foreign trails) (hk : k < g.submitted)
    (hstage : 3 ≤ (g.calls k).pc.stage) :
    ∃ m, (trails k).marks[0]? = some m ∧ m.span = (g.calls k).queueSpan := by
  have hfit := h.fits k hk
  obtain ⟨spans, hrun, hdue⟩ := hfit.due hstage
  have hne : (trails k).ended ≠ [] := by
    intro hnil
    rw [hnil] at hrun
    cases hscript : (g.calls k).script ++ g.flushScript k with
    | nil =>
      rw [hscript] at hrun
      exact hdue.ne_nil (Option.some.inj hrun).symm
    | cons o rest =>
      rw [hscript] at hrun
      obtain ⟨u, hu, -⟩ := run_cons.mp hrun
      cases o <;> exact absurd hu (by simp [spanStep])
  have hpos := List.length_pos_iff.mpr hne
  rw [ended_length] at hpos
  obtain ⟨m, hm⟩ : ∃ m, (trails k).marks[0]? = some m := ⟨_, List.getElem?_eq_getElem hpos⟩
  exact ⟨m, hm, (hfit.queue m hm).1⟩

/-- Two requests with queue spans have different ones. -/
theorem Batcher.Spans.queue_apart (h : g.Spans others foreign trails) {j : Nat}
    (hj : j < g.submitted) (hk : k < g.submitted) (hjstage : 3 ≤ (g.calls j).pc.stage)
    (hkstage : 3 ≤ (g.calls k).pc.stage)
    (hsame : (g.calls j).queueSpan = (g.calls k).queueSpan) : j = k := by
  obtain ⟨m, hm, hspan⟩ := h.queued hj hjstage
  obtain ⟨m', hm', hspan'⟩ := h.queued hk hkstage
  exact (h.holds.apart j k 0 0 m m' hm hm' (by rw [hspan, hspan', hsame])).1

theorem Batcher.Spans.minds_move (h : g.Spans others foreign trails) (hkept : g.Kept maxBatchSize)
    {p : Pipeline} (hmove : g.toPipeline.Move maxBatchSize p)
    (hflushed : ∀ k ∈ g.run.flushed.flatten, k ∈ p.run.flushed.flatten)
    (hqueue : ∀ k ∈ g.run.flushed.flatten, (p.calls k).queueSpan = (g.calls k).queueSpan)
    {todo : List FlushOp} (htodo : ∀ o ∈ todo, o ∈ g.todo) : p.Minds todo := by
  refine ⟨fun o ho k hk => hflushed k (h.minds.owned o (htodo o ho) k hk), fun s status hs => ?_,
    fun k hk => ?_⟩
  · obtain ⟨j, hj, rfl⟩ := h.minds.ends s status (htodo _ hs)
    exact ⟨j, hflushed j hj, (hqueue j hj).symm⟩
  · exact (h.minds.served k (htodo _ hk)).move hmove hkept.identified hkept.corresponds

end

section
variable {others : Multiset TraceSpan} {foreign : Nat → Prop} {trails : Nat → Trail}
  (h : g.Spans others foreign trails) (hkept : g.Kept maxBatchSize)
  (hmove : g.toPipeline.Move maxBatchSize g'.toPipeline)
include h hkept hmove

/-- What a step that neither sends nor hears anything has to leave alone of a request whose spans
it does not touch. -/
theorem Batcher.Spans.around (hk : k < g.submitted) (hcall : (g.calls k).Keeps (g'.calls k))
    (htraces : 3 ≤ (g.calls k).pc.stage →
      g'.traceSpans (g.calls k).id = g.traceSpans (g.calls k).id)
    (hscript : 3 ≤ (g.calls k).pc.stage → g'.flushScript k = g.flushScript k)
    (hplace : k ∈ g'.run.received ++ g'.requestChan →
      k ∈ g.run.received ++ g.requestChan ∨ (g'.calls k).script = [])
    (hdue : ∀ spans, g.Due k spans → g'.Due k spans) (hrpcs : g'.rpcs = g.rpcs) :
    g'.Fits k (trails k) := by
  have hlater := hmove.later hk
  refine (h.fits k hk).keep hcall (fun hstage m hm _ => ?_) hscript hplace hdue
    (fun rpc hmem _ => Or.inl (hrpcs ▸ hmem))
    (fun hserved => hserved.move hmove hkept.identified hkept.corresponds) fun hbacked => Or.inl ?_
  · rw [hlater.id (le_trans (by decide) hstage)]
    exact htraces hstage
  · obtain ⟨rpc, hmem, hcalls, items, item, hreply, hitem, htraced⟩ := hbacked
    rw [hrpcs] at hmem
    rw [hlater.id ((hkept.corresponds.requests rpc hmem).1 k hcalls)] at hitem
    exact ⟨rpc, hmem, hcalls, items, item, hreply, hitem, htraced⟩

theorem Batcher.Spans.quiet (hsubmitted : g'.submitted = g.submitted)
    (htracer : g'.tracer = g.tracer)
    (hcalls : ∀ k < g.submitted, (g.calls k).Keeps (g'.calls k))
    (htraces : ∀ k < g.submitted, 3 ≤ (g.calls k).pc.stage →
      g'.traceSpans (g.calls k).id = g.traceSpans (g.calls k).id)
    (hscript : ∀ k < g.submitted, 3 ≤ (g.calls k).pc.stage → g'.flushScript k = g.flushScript k)
    (hplace : ∀ k ∈ g'.run.received ++ g'.requestChan,
      k ∈ g.run.received ++ g.requestChan ∨ (g'.calls k).script = [])
    (hdue : ∀ k < g.submitted, ∀ spans, g.Due k spans → g'.Due k spans)
    (hrpcs : g'.rpcs = g.rpcs) (hminds : g'.Minds g'.todo) : g'.Spans others foreign trails := by
  refine ⟨by rw [htracer, hsubmitted]; exact h.holds, fun k hk => ?_, hminds⟩
  rw [hsubmitted] at hk
  exact h.around hkept hmove hk (hcalls k hk) (htraces k hk) (hscript k hk) (hplace k)
    (hdue k hk) hrpcs

theorem Batcher.Spans.still (hsubmitted : g'.submitted = g.submitted)
    (htracer : g'.tracer = g.tracer) (htraces : g'.traceSpans = g.traceSpans)
    (htodo : g'.todo = g.todo) (hflushed : g'.run.flushed = g.run.flushed)
    (hrpcs : g'.rpcs = g.rpcs) (hcalls : ∀ k < g.submitted, (g.calls k).Keeps (g'.calls k))
    (hplace : ∀ k ∈ g'.run.received ++ g'.requestChan,
      k ∈ g.run.received ++ g.requestChan ∨ (g'.calls k).script = [])
    (hdue : ∀ k < g.submitted, ∀ spans, g.Due k spans → g'.Due k spans) :
    g'.Spans others foreign trails := by
  refine h.quiet hkept hmove hsubmitted htracer hcalls (fun k _ _ => by rw [htraces])
    (fun k hk _ => ?_) hplace hdue hrpcs ?_
  · simp only [Pipeline.flushScript, htodo, (hcalls k hk).queueSpan]
  · rw [htodo]
    refine h.minds_move hkept hmove (by rw [hflushed]; exact fun k hk => hk) (fun k hk => ?_)
      fun o ho => ho
    exact (hcalls k (hkept.placed.flushed hkept.loop hk).known).queueSpan

end

theorem Batcher.Spans.byCall {others : Multiset TraceSpan} {foreign : Nat → Prop}
    {trails : Nat → Trail} (h : g.Spans others foreign trails) (hkept : g.Kept maxBatchSize)
    (hmove : g.toPipeline.Move maxBatchSize g'.toPipeline) {c : Call}
    (hcalls : g'.calls = Function.update g.calls k c) (hkeeps : (g.calls k).Keeps c)
    (hsubmitted : g'.submitted = g.submitted)
    (hrun : g'.run = g.run) (hchan : g'.requestChan = g.requestChan)
    (hflush : g'.todo = g.todo ∧ g'.flushPC = g.flushPC ∧ g'.active = g.active ∧ g'.rpcs = g.rpcs)
    (htracer : g'.tracer = g.tracer) (htraces : g'.traceSpans = g.traceSpans)
    (hpc : (g.calls k).pc = .enqueue → c.pc = .enqueue) :
    g'.Spans others foreign trails := by
  obtain ⟨htodo, hflushPC, hactive, hrpcs⟩ := hflush
  refine h.still hkept hmove hsubmitted htracer htraces htodo (by rw [hrun]) hrpcs
    (fun j hj => ?_) (fun j hj => Or.inl (by rwa [hrun, hchan] at hj)) fun j hj spans hdue => ?_
  · rw [hcalls, Function.update_apply]
    split_ifs with hjk
    · rw [hjk]
      exact hkeeps
    · exact .refl _
  · refine hdue.same (fun henqueue => ?_) (hmove.later hj).stage ?_ (by rw [hactive]) hflushPC
    · rw [hcalls, Function.update_apply]
      split_ifs with hjk
      · exact hpc (hjk ▸ henqueue)
      · exact henqueue
    · simp only [Pipeline.waiting, hchan, hrun, hflushPC]

theorem Batcher.Spans.touch {others : Multiset TraceSpan} {foreign : Nat → Prop}
    {trails : Nat → Trail} (hsubmitted : g'.submitted = g.submitted) {t' : Trail}
    (hholds : g'.tracer.Holds others foreign (Function.update trails k t') g.submitted)
    (hfit : g'.Fits k t') (hothers : ∀ j < g.submitted, j ≠ k → g'.Fits j (trails j))
    (hminds : g'.Minds g'.todo) : g'.Spans others foreign (Function.update trails k t') := by
  refine ⟨by rw [hsubmitted]; exact hholds, fun j hj => ?_, hminds⟩
  rw [hsubmitted] at hj
  rw [Function.update_apply]
  split_ifs with hjk
  · rw [hjk]
    exact hfit
  · exact hothers j hj hjk

theorem flushScript_pop {p : Pipeline} {o : FlushOp} {rest : List FlushOp}
    (htodo : p.todo = o :: rest)
    (ho : o.spanOp (p.calls k).queueSpan k = none) :
    Pipeline.flushScript { p with todo := rest } k = p.flushScript k := by
  simp only [Pipeline.flushScript, htodo, List.filterMap_cons_none ho]

/-- The next step of `flush` is the next one in the life of the spans. -/
theorem Batcher.Fits.next {t : Trail} (h : g.Fits k t) {o : FlushOp} {rest : List FlushOp}
    (htodo : g.todo = o :: rest) (hstage : 3 ≤ (g.calls k).pc.stage)
    (hreceived : k ∈ g.run.received) {op : SpanOp}
    (ho : o.spanOp (g.calls k).queueSpan k = some op) :
    (g.calls k).script = [] ∧ ∃ u spans, spanStep t.ended op = some u ∧
      run spanStep u (Pipeline.flushScript { g.toPipeline with todo := rest } k) = some spans ∧
      g.Due k spans := by
  have hscript : g.flushScript k =
      op :: Pipeline.flushScript { g.toPipeline with todo := rest } k := by
    simp only [Pipeline.flushScript, htodo, List.filterMap_cons_some ho]
  have hempty : (g.calls k).script = [] := by
    by_contra hne
    exact h.own hne (List.mem_append_left _ hreceived)
  obtain ⟨spans, hrun, hdue⟩ := h.due hstage
  rw [hempty, List.nil_append, hscript] at hrun
  obtain ⟨u, hu, hrest⟩ := run_cons.mp hrun
  exact ⟨hempty, u, spans, hu, hrest, hdue⟩

theorem spanStep_length {spans spans' : List Bool} {o : SpanOp}
    (h : spanStep spans o = some spans') :
    spans.length ≤ spans'.length ∧ (o = .recordBackend → spans'.length = 4) := by
  unfold spanStep at h
  split at h <;> first
    | (obtain rfl := Option.some.inj h
       simp)
    | exact absurd h (by simp)

theorem Batcher.Spans.settle {others : Multiset TraceSpan} {foreign : Nat → Prop}
    {trails : Nat → Trail} (h : g.Spans others foreign trails) (hkept : g.Kept maxBatchSize)
    (hmove : g.toPipeline.Move maxBatchSize g'.toPipeline) {o : FlushOp} {rest : List FlushOp}
    (htodo : g.todo = o :: rest) (hpop : g'.toPipeline = { g.toPipeline with todo := rest })
    (hk : k ∈ g.run.flushed.flatten) {op : SpanOp}
    (ho : o.spanOp (g.calls k).queueSpan k = some op)
    (hother : ∀ j < g.submitted, j ≠ k → 3 ≤ (g.calls j).pc.stage →
      o.spanOp (g.calls j).queueSpan j = none ∧
        g'.traceSpans (g.calls j).id = g.traceSpans (g.calls j).id)
    {t' : Trail} (ht' : spanStep (trails k).ended op = some t'.ended)
    (hqueue : t'.marks[0]?.map Mark.span = (trails k).marks[0]?.map Mark.span)
    (hholds : g'.tracer.Holds others foreign (Function.update trails k t') g.submitted)
    (htied : ∀ m, t'.marks[1]? = some m → m.status = none →
      (g'.traceSpans (g.calls k).id).flush = some m.span ∧
        ∀ m', t'.marks[2]? = some m' → (g'.traceSpans (g.calls k).id).worker = some m'.span)
    (hserved : t'.marks.length = 4 → g.Served k) :
    g'.Spans others foreign (Function.update trails k t') := by
  have hflushed := hkept.placed.flushed hkept.loop hk
  have hstage : 3 ≤ (g.calls k).pc.stage := (by decide : 3 ≤ 4).trans hflushed.stage
  have hfit := h.fits k hflushed.known
  have hcalls : g'.calls = g.calls := by rw [hpop]
  have hrun : g'.run = g.run := by rw [hpop]
  have hrpcs : g'.rpcs = g.rpcs := by rw [hpop]
  have hrest : g'.todo = rest := by rw [hpop]
  have hdue : ∀ j spans, g.Due j spans → g'.Due j spans := by
    intro j spans hdue
    rw [hpop]
    exact hdue.same (fun hpc => hpc) (Nat.le_refl _) Iff.rfl Iff.rfl rfl
  obtain ⟨hscript, u, spans, hu, hlast, hspans⟩ := hfit.next htodo hstage
    (hkept.loop.flushed_received k hk) ho
  obtain rfl : u = t'.ended := Option.some.inj (hu.symm.trans ht')
  have hlength := (spanStep_length ht').1
  rw [ended_length, ended_length] at hlength
  refine Batcher.Spans.touch (by rw [hpop]) hholds ?_ (fun j hj hjk => ?_) ?_
  · refine ⟨fun m hm => ?_, fun m hm hopen => ?_, fun hle => ?_,
      fun _ => ⟨spans, ?_, hdue k _ hspans⟩,
      fun hne => ?_, ?_, fun rpc hmem hcall => ?_, fun hfour => ?_, fun hbacked => ?_⟩
    · rw [hm, Option.map_some] at hqueue
      obtain ⟨m₀, hm₀, hspan⟩ := Option.map_eq_some_iff.mp hqueue.symm
      rw [hcalls, ← hspan]
      exact hfit.queue m₀ hm₀
    · rw [hcalls]
      exact htied m hm hopen
    · rw [hcalls] at hle
      omega
    · rw [hcalls, hscript, hpop]
      exact hlast
    · rw [hcalls] at hne
      exact absurd hscript hne
    · rw [hcalls]
      exact hfit.leaves
    · rw [hrpcs] at hmem
      exact (hfit.sent rpc hmem hcall).trans hlength
    · exact (hserved hfour).move hmove hkept.identified hkept.corresponds
    · rw [hpop] at hbacked ⊢
      obtain hold | hold := hfit.backed hbacked
      · simp only [Pipeline.flushScript, htodo, List.filterMap_cons_some ho, List.mem_cons] at hold
        obtain rfl | hold := hold
        · exact Or.inr (ended_length t' ▸ (spanStep_length ht').2 rfl)
        · exact Or.inl hold
      · have hle : t'.marks.length ≤ 4 := by simpa [chainNames] using t'.named.length_le
        exact Or.inr (by omega)
  · refine h.around hkept hmove hj (hcalls ▸ .refl _) (fun hjstage => (hother j hj hjk hjstage).2)
      (fun hjstage => ?_) (fun hmem => Or.inl (by rwa [hpop] at hmem)) (hdue j) hrpcs
    rw [hpop]
    exact flushScript_pop htodo (hother j hj hjk hjstage).1
  · rw [hrest]
    refine h.minds_move hkept hmove (by rw [hrun]; exact fun k hk => hk) (fun k _ => by rw [hcalls])
      fun o' ho' => ?_
    rw [htodo]
    exact List.mem_cons_of_mem o ho'

end Laminar.Gateway
