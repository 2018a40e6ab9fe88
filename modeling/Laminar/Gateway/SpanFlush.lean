import Laminar.Gateway.SpanSubmit

/-! What `run` and `flush` do to the spans of the requests. -/
namespace Laminar.Gateway
open Laminar.Transition
variable {maxBatchSize : Int} {config : Config} {randomHex : Nat → Nat → String} {g g' : Batcher}
  {k : Nat} {others : Multiset TraceSpan} {foreign : Nat → Prop} {trails : Nat → Trail}

theorem script_endQueue (c : Call) {o : SpanOp} (ho : o ∈ c.script) : o = .endQueue := by
  rw [Call.script] at ho
  split at ho
  · obtain ⟨op, -, hop⟩ := List.mem_filterMap.mp ho
    cases op with
    | endSpan s status =>
      rw [Op.spanOp] at hop
      split_ifs at hop
      exact (Option.some.inj hop).symm
    | _ => simp [Op.spanOp] at hop
  · simp at ho

/-- While `flush` rests, no span but the queue span can be open. -/
theorem Batcher.Fits.idle {t : Trail} (h : g.Fits k t) (hstage : 3 ≤ (g.calls k).pc.stage)
    (htodo : g.todo = []) (hpc : g.flushPC = .done) {m : Mark} (hm : t.marks[1]? = some m) :
    m.status ≠ none := by
  intro hopen
  have hended : t.ended[1]? = some false := by
    rw [ended_getElem?, hm]
    simp [Mark.ended, hopen]
  have hflush : g.flushScript k = [] := by
    simp only [Pipeline.flushScript, htodo, List.filterMap_nil]
  obtain ⟨spans, hrun, hdue⟩ := h.due hstage
  rw [hflush, List.append_nil] at hrun
  cases hscript : (g.calls k).script with
  | nil =>
    rw [hscript] at hrun
    rw [Option.some.inj hrun] at hended
    cases hdue with
    | settled hfour hwait hactive hne hall =>
      exact absurd (hall false (List.mem_of_getElem? hended)) (by simp)
    | passed rest hfilter => simp [hpc] at hfilter
    | sending hsend => simp [hpc] at hsend
    | _ => simp at hended
  | cons o rest =>
    obtain rfl := script_endQueue (g.calls k) (hscript ▸ List.mem_cons_self)
    rw [hscript] at hrun
    obtain ⟨u, hu, -⟩ := run_cons.mp hrun
    rw [(spanStep_endQueue hu).1] at hended
    simp at hended

theorem Batcher.Spans.startFlush (h : g.Spans others foreign trails) (hkept : g.Kept maxBatchSize)
    {r : Run} (hmove : g.toPipeline.Move maxBatchSize (g.startFlush r).toPipeline)
    (hrmove : g.run.Move maxBatchSize r.startFlush) (hbatch : r.batch = g.run.batch)
    (hreceived : r.received = g.run.received) (hflushed : r.flushed = g.run.flushed)
    (hrun : g.run.pc ≠ .flushing) : (g.startFlush r).Spans others foreign trails := by
  obtain ⟨htodo, hpc⟩ := hkept.tended.idle hrun
  have hheld : g.run.held = r.batch := by rw [hrmove.held_startFlush hflushed, hbatch]
  have hwaits : ∀ k, k ∈ (g.startFlush r).waiting ↔ k ∈ g.waiting := by
    intro k
    show k ∈ g.requestChan ++ [] ++ r.batch ↔ k ∈ g.requestChan ++ g.run.held ++ g.flushPC.rest
    rw [hheld, hpc]
    simp [FlushPC.rest]
  refine ⟨h.holds, fun k hk => ?_, ⟨by simp [Batcher.startFlush], by simp [Batcher.startFlush],
    by simp [Batcher.startFlush]⟩⟩
  have hfit := h.fits k hk
  refine hfit.keep (.refl _) (fun hstage m hm hopen => absurd hopen (hfit.idle hstage htodo hpc hm))
    (fun _ => ?_) (fun hmem => Or.inl ?_) (fun spans hdue => ?_) (fun rpc hmem _ => Or.inl hmem)
    (fun hserved => hserved.move hmove hkept.identified hkept.corresponds) Or.inl
  · simp only [Pipeline.flushScript, htodo, Batcher.startFlush]
  · simpa [Batcher.startFlush, Run.startFlush, hreceived] using hmem
  · cases hdue with
    | enqueue hpc => exact .enqueue hpc
    | waiting hk => exact .waiting ((hwaits k).mpr hk)
    | passed rest hfilter => simp [hpc] at hfilter
    | sending hsend => simp [hpc] at hsend
    | settled hstage hwait hactive hne hall =>
      exact .settled hstage (fun hk => hwait ((hwaits k).mp hk))
        (by simp [Batcher.startFlush]) hne hall

def FlushOp.Silent (o : FlushOp) : Prop := ∀ q k, o.spanOp q k = none

theorem FlushOp.Silent.spanOf {o : FlushOp} (h : o.Silent) : o.spanOf = none := by
  cases o with
  | startFlush k => simpa [FlushOp.spanOp] using h ⟨0, "", "", "", ""⟩ k
  | startWorker k => simpa [FlushOp.spanOp] using h ⟨0, "", "", "", ""⟩ k
  | endWorker k status => simpa [FlushOp.spanOp] using h ⟨0, "", "", "", ""⟩ k
  | endFlush k status => simpa [FlushOp.spanOp] using h ⟨0, "", "", "", ""⟩ k
  | recordBackend k => simpa [FlushOp.spanOp] using h ⟨0, "", "", "", ""⟩ k
  | _ => rfl

theorem FlushOp.Silent.endSpan {s : ActiveSpan} {status : String}
    (h : FlushOp.Silent (.op (.endSpan s status))) : False := by
  simpa [FlushOp.spanOp, Op.spanOp] using h s 0

/-- A step of `flush` that touches no spans. -/
theorem Batcher.Spans.silent (h : g.Spans others foreign trails) (hkept : g.Kept maxBatchSize)
    (hmove : g.toPipeline.Move maxBatchSize g'.toPipeline) {o : FlushOp} {rest : List FlushOp}
    (htodo : g.todo = o :: rest) (ho : o.Silent) (more : List FlushOp)
    (htodo' : g'.todo = more ++ rest)
    (hmore : ∀ o ∈ more, o.Silent) (hsubmitted : g'.submitted = g.submitted)
    (htracer : g'.tracer = g.tracer) (htraces : g'.traceSpans = g.traceSpans)
    (hrun : g'.run = g.run) (hchan : g'.requestChan = g.requestChan)
    (hflushPC : g'.flushPC = g.flushPC) (hactive : g'.active = g.active) (hrpcs : g'.rpcs = g.rpcs)
    (hcalls : ∀ k, (g'.calls k).pc = (g.calls k).pc ∧
      (g'.calls k).queueSpan = (g.calls k).queueSpan ∧
      (g'.calls k).parentSpanID = (g.calls k).parentSpanID) :
    g'.Spans others foreign trails := by
  have hkeeps : ∀ k, (g.calls k).Keeps (g'.calls k) := fun k =>
    .of_pc (hcalls k).2.1 (hcalls k).2.2 (hcalls k).1
  refine h.quiet hkept hmove hsubmitted htracer (fun k _ => hkeeps k) (fun k _ _ => by rw [htraces])
    (fun k _ _ => ?_) (fun k hk => Or.inl (by rwa [hrun, hchan] at hk)) (fun k hk spans hdue => ?_)
    hrpcs ?_
  · have hnil : more.filterMap (FlushOp.spanOp (g.calls k).queueSpan k) = [] :=
      List.filterMap_eq_nil_iff.mpr fun o' ho' => hmore o' ho' _ _
    simp only [Pipeline.flushScript, htodo, htodo', (hcalls k).2.1, List.filterMap_append, hnil,
      List.filterMap_cons_none (ho _ _), List.nil_append]
  · refine hdue.same (fun hpc => (hcalls k).1.trans hpc) (hmove.later hk).stage ?_ (by rw [hactive])
      hflushPC
    simp only [Pipeline.waiting, hchan, hrun, hflushPC]
  · rw [htodo']
    have hrest : g'.Minds rest := h.minds_move hkept hmove (by rw [hrun]; exact fun k hk => hk)
      (fun k _ => (hcalls k).2.1) (by rw [htodo]; exact fun o' ho' => List.mem_cons_of_mem o ho')
    refine ⟨fun o' ho' k hk => ?_, fun s status hs => ?_, fun k hk => ?_⟩
    · obtain ho' | ho' := List.mem_append.mp ho'
      · rw [(hmore o' ho').spanOf] at hk
        exact absurd hk (by simp)
      · exact hrest.owned o' ho' k hk
    · obtain hs | hs := List.mem_append.mp hs
      · exact (hmore _ hs).endSpan.elim
      · exact hrest.ends s status hs
    · obtain hk | hk := List.mem_append.mp hk
      · exact absurd (hmore _ hk).spanOf (by simp [FlushOp.spanOf])
      · exact hrest.served k hk

section
variable (h : g.Spans others foreign trails) (hkept : g.Kept maxBatchSize)
include h hkept

theorem Batcher.Spans.ended (htodo : g.todo = []) (hk : k ∈ g.run.flushed.flatten) :
    (g.calls k).script = [] ∧ g.Due k (trails k).ended := by
  have hk' := hkept.placed.flushed hkept.loop hk
  have hfit := h.fits k hk'.known
  have hscript : (g.calls k).script = [] := by
    by_contra hne
    exact hfit.own hne (List.mem_append_left _ (hkept.loop.flushed_received k hk))
  obtain ⟨spans, hrun, hdue⟩ := hfit.due ((by decide : 3 ≤ 4).trans hk'.stage)
  rw [hscript, Pipeline.flushScript, htodo] at hrun
  obtain rfl := Option.some.inj hrun
  exact ⟨hscript, hdue⟩

theorem Batcher.Spans.pushed (targets : List Nat)
    (hmove : g.toPipeline.Move maxBatchSize g'.toPipeline)
    (htodo : g.todo = []) (hsubmitted : g'.submitted = g.submitted) (htracer : g'.tracer = g.tracer)
    (htraces : g'.traceSpans = g.traceSpans) (hcalls : g'.calls = g.calls) (hrun : g'.run = g.run)
    (hchan : g'.requestChan = g.requestChan)
    (htarget : ∀ k ∈ targets, k ∈ g.run.flushed.flatten ∧ ∃ spans,
      run spanStep (trails k).ended (g'.flushScript k) = some spans ∧ g'.Due k spans)
    (hother : ∀ k < g.submitted, 3 ≤ (g.calls k).pc.stage → k ∉ targets →
      g'.flushScript k = [] ∧ ∀ spans, g.Due k spans → g'.Due k spans)
    (hsent : ∀ k < g.submitted, ∀ rpc ∈ g'.rpcs, k ∈ rpc.calls →
      rpc ∈ g.rpcs ∨ 3 ≤ (trails k).marks.length)
    (hbacked : ∀ k < g.submitted, g'.Backed k → g.Backed k ∨ .recordBackend ∈ g'.flushScript k)
    (hminds : g'.Minds g'.todo) : g'.Spans others foreign trails := by
  have hnil : ∀ k, g.flushScript k = [] := fun k => by
    simp only [Pipeline.flushScript, htodo, List.filterMap_nil]
  refine ⟨by rw [htracer, hsubmitted]; exact h.holds, fun k hk => ?_, hminds⟩
  rw [hsubmitted] at hk
  have hfit := h.fits k hk
  have hserved : g.Served k → g'.Served k := fun hserved =>
    hserved.move hmove hkept.identified hkept.corresponds
  have hcall : g'.calls k = g.calls k := by rw [hcalls]
  refine ⟨fun m hm => ?_, fun m hm hopen => ?_, fun hle => ?_, fun hstage => ?_, fun hne hmem => ?_,
    ?_, fun rpc hmem hk' => ?_, fun hfour => hserved (hfit.served hfour), fun hb => ?_⟩
  · rw [hcall]
    exact hfit.queue m hm
  · rw [hcall, htraces]
    exact hfit.tied m hm hopen
  · rw [hcall] at hle
    exact hfit.fresh hle
  · rw [hcall] at hstage ⊢
    by_cases htargets : k ∈ targets
    · obtain ⟨hflushed, hdue⟩ := htarget k htargets
      rw [(h.ended hkept htodo hflushed).1]
      exact hdue
    · obtain ⟨hscript, hkeep⟩ := hother k hk hstage htargets
      obtain ⟨spans, hold, hdue⟩ := hfit.due hstage
      rw [hnil] at hold
      exact ⟨spans, by rw [hscript]; exact hold, hkeep spans hdue⟩
  · rw [hcall] at hne
    rw [hrun, hchan] at hmem
    exact hfit.own hne hmem
  · rw [hcall]
    exact hfit.leaves
  · obtain hold | hlong := hsent k hk rpc hmem hk'
    · exact hfit.sent rpc hold hk'
    · exact hlong
  · obtain hold | hnew := hbacked k hk hb
    · obtain hscript | hfour := hfit.backed hold
      · rw [hnil] at hscript
        simp at hscript
      · exact Or.inr hfour
    · exact Or.inl hnew

end

theorem Pipeline.Due.onward {p p' : Pipeline} {spans : List Bool} (h : p.Due k spans)
    (hcalls : p'.calls = p.calls) (hwaits : k ∈ p'.waiting ↔ k ∈ p.waiting)
    (hpassed : ∀ rest, p.flushPC = .filter rest → k ∈ p.active →
      (∃ rest', p'.flushPC = .filter rest') ∧ k ∈ p'.active)
    (hsending : p.flushPC = .call ∨ p.flushPC = .await → k ∈ p.active →
      (p'.flushPC = .call ∨ p'.flushPC = .await) ∧ k ∈ p'.active)
    (hsettled : (k ∈ p.active → p.flushPC = .done) → k ∈ p'.active → p'.flushPC = .done) :
    p'.Due k spans := by
  cases h with
  | enqueue hpc => exact .enqueue (by rw [hcalls]; exact hpc)
  | waiting hk => exact .waiting (hwaits.mpr hk)
  | passed rest hpc hk =>
    obtain ⟨⟨rest', hpc'⟩, hk'⟩ := hpassed rest hpc hk
    exact .passed rest' hpc' hk'
  | sending hpc hk =>
    obtain ⟨hpc', hk'⟩ := hsending hpc hk
    exact .sending hpc' hk'
  | settled hstage hwait hactive hne hall =>
    exact .settled (by rw [hcalls]; exact hstage) (fun hk => hwait (hwaits.mp hk))
      (hsettled hactive)
      hne hall

section
variable (h : g.Spans others foreign trails) (hkept : g.Kept maxBatchSize)
include h hkept

theorem Batcher.Spans.looked (hmove : g.toPipeline.Move maxBatchSize g'.toPipeline)
    (htodo : g.todo = []) {rest : List Nat} (hpc : g.flushPC = .filter (k :: rest))
    (hpc' : g'.flushPC = .filter rest) {status : String} (more : List FlushOp)
    (htodo' : g'.todo = .op (.endSpan (g.calls k).queueSpan status) :: more)
    (hmore : ∀ o ∈ more, o.Silent) (hsubmitted : g'.submitted = g.submitted)
    (htracer : g'.tracer = g.tracer) (htraces : g'.traceSpans = g.traceSpans)
    (hcalls : g'.calls = g.calls) (hrun : g'.run = g.run) (hchan : g'.requestChan = g.requestChan)
    (hrpcs : g'.rpcs = g.rpcs) (hactive : ∀ j, j ≠ k → (j ∈ g'.active ↔ j ∈ g.active))
    (hdue : k ∉ g'.waiting → g'.Due k [true]) : g'.Spans others foreign trails := by
  obtain ⟨hk, hrest, hnotActive⟩ := hkept.placed.not_waiting hkept.loop hpc
  have hkstage : 3 ≤ (g.calls k).pc.stage := (by decide : 3 ≤ 4).trans hk.stage
  have hnil : ∀ j, more.filterMap (FlushOp.spanOp (g.calls j).queueSpan j) = [] := fun j =>
    List.filterMap_eq_nil_iff.mpr fun o ho => hmore o ho _ _
  have hself : g'.flushScript k = [.endQueue] := by
    have hhead : FlushOp.spanOp (g.calls k).queueSpan k
        (.op (.endSpan (g.calls k).queueSpan status)) = some .endQueue := if_pos rfl
    rw [Pipeline.flushScript, htodo', hcalls, List.filterMap_cons_some hhead, hnil]
  have hothers : ∀ j < g.submitted, 3 ≤ (g.calls j).pc.stage → j ≠ k → g'.flushScript j = [] := by
    intro j hj hstage hjk
    have hhead : FlushOp.spanOp (g.calls j).queueSpan j
        (.op (.endSpan (g.calls k).queueSpan status)) = none := if_neg fun hsame =>
      hjk (h.queue_apart hk.known hj hkstage hstage hsame).symm
    rw [Pipeline.flushScript, htodo', hcalls, List.filterMap_cons_none hhead, hnil]
  have hwaits : ∀ j, j ≠ k → (j ∈ g'.waiting ↔ j ∈ g.waiting) := by
    intro j hjk
    simp [Pipeline.waiting, hchan, hrun, hpc, hpc', FlushPC.rest, hjk]
  have hwait : k ∉ g'.waiting := by
    simp [Pipeline.waiting, hchan, hrun, hpc', FlushPC.rest, hk.chan, hk.held, hrest]
  refine h.pushed hkept [k] hmove htodo hsubmitted htracer htraces hcalls hrun hchan
    (fun j hj => ?_)
    (fun j hj hstage hjk => ⟨?_, fun spans hold => ?_⟩)
    (fun j _ rpc hmem _ => Or.inl (hrpcs ▸ hmem))
    (fun j _ hbacked => Or.inl ?_) ?_
  · obtain rfl := List.mem_singleton.mp hj
    have hopen := ((h.ended hkept htodo hk.mem).2).of_head hkept.loop hkept.placed hpc
    exact ⟨hk.mem, [true], by rw [hopen, hself]; rfl, hdue hwait⟩
  · exact hothers j hj hstage (by simpa using hjk)
  · replace hjk : j ≠ k := by simpa using hjk
    refine hold.onward hcalls (hwaits j hjk)
      (fun _ _ hmem => ⟨⟨rest, hpc'⟩, (hactive j hjk).mpr hmem⟩)
      (fun hsend => ?_) fun hdone hmem => ?_
    · simp [hpc] at hsend
    · have hfilter := hdone ((hactive j hjk).mp hmem)
      simp [hpc] at hfilter
  · obtain ⟨rpc, hmem, hj, items, item, hreply, hitem, htraced⟩ := hbacked
    exact ⟨rpc, hrpcs ▸ hmem, hj, items, item, hreply, hcalls ▸ hitem, htraced⟩
  · rw [htodo']
    refine ⟨fun o ho j hj => ?_, fun s status' hs => ?_, fun j hj => ?_⟩
    · obtain rfl | ho := List.mem_cons.mp ho
      · simp [FlushOp.spanOf] at hj
      · rw [(hmore o ho).spanOf] at hj
        exact absurd hj (by simp)
    · obtain heq | hs := List.mem_cons.mp hs
      · obtain ⟨rfl, -⟩ := Op.endSpan.inj (FlushOp.op.inj heq)
        exact ⟨k, by rw [hrun]; exact hk.mem, by rw [hcalls]⟩
      · exact (hmore _ hs).endSpan.elim
    · obtain heq | hj := List.mem_cons.mp hj
      · exact absurd heq (by simp)
      · exact absurd (hmore _ hj).spanOf (by simp [FlushOp.spanOf])

theorem Batcher.Spans.filter (hrun : g.run.pc = .flushing) (htodo : g.todo = []) {rest : List Nat}
    (hpc : g.flushPC = .filter (k :: rest)) : (g.filter k rest).Spans others foreign trails := by
  obtain ⟨hk, hrest, hnotActive⟩ := hkept.placed.not_waiting hkept.loop hpc
  by_cases hdone : (g.calls k).ctxDone = true
  · have hmove : g.toPipeline.Move maxBatchSize _ := .cancelled k rest hrun htodo hpc
    simp only [Batcher.filter, hdone, if_true]
    refine h.looked hkept hmove htodo hpc rfl [.op (.count .requestsCancelled), .deliver k _]
      (by simp only [Batcher.push, Pipeline.push, htodo]; rfl) ?_
      rfl rfl rfl rfl rfl rfl rfl (fun j _ => Iff.rfl) fun hwait => ?_
    · intro o ho
      simp only [List.mem_cons, List.not_mem_nil, or_false] at ho
      obtain rfl | rfl := ho <;> exact fun _ _ => rfl
    · exact .settled hk.stage hwait (fun hmem => absurd hmem hnotActive) (by simp) (by simp)
  · have hmove : g.toPipeline.Move maxBatchSize _ := .active k rest hrun htodo hpc
    simp only [Batcher.filter, hdone]
    refine h.looked hkept hmove htodo hpc rfl []
      (by simp only [Batcher.push, Pipeline.push, htodo]; rfl)
      (by simp) rfl rfl rfl rfl rfl rfl rfl (fun j hjk => ?_) fun hwait => ?_
    · simp [Batcher.push, Pipeline.push, hjk]
    · exact .passed rest rfl (by simp [Batcher.push, Pipeline.push])

end

/-- What an active request has come to, by where `flush` stands. -/
theorem Pipeline.Due.of_active {p : Pipeline} {spans : List Bool} (h : p.Due k spans)
    (hk : k ∈ p.active) (hflushed : p.Flushed k) (hrest : p.flushPC.rest = []) :
    (p.flushPC = .filter [] ∧ spans = [true]) ∨
      ((p.flushPC = .call ∨ p.flushPC = .await) ∧ spans = [true, false, false]) ∨
      p.flushPC = .done := by
  cases h with
  | enqueue hpc =>
    have hstage := hflushed.stage
    rw [hpc] at hstage
    exact absurd hstage (by decide)
  | waiting hwait =>
    simp [Pipeline.waiting, hrest, hflushed.chan, hflushed.held] at hwait
  | passed rest hpc hmem =>
    rw [hpc] at hrest
    exact Or.inl ⟨by rw [hpc, show rest = [] from hrest], rfl⟩
  | sending hpc hmem => exact Or.inr (Or.inl ⟨hpc, rfl⟩)
  | settled hstage hwait hactive hne hall => exact Or.inr (Or.inr (hactive hk))

theorem spanOf_rejectOps {calls : Nat → Call} {active : List Nat} {o : FlushOp}
    (ho : o ∈ rejectOps calls active) :
    (∀ k, o.spanOf = some k → k ∈ active) ∧ (∀ s status, o ≠ .op (.endSpan s status)) ∧
      ∀ k, o ≠ .recordBackend k := by
  obtain rfl | ho := List.mem_cons.mp ho
  · simp [FlushOp.spanOf]
  obtain ⟨j, hj, ho⟩ := List.mem_flatMap.mp ho
  simp only [List.mem_cons, List.not_mem_nil, or_false] at ho
  obtain rfl | rfl | rfl := ho <;> simp [FlushOp.spanOf, hj]

theorem spanOf_sendOps {active : List Nat} {o : FlushOp} (ho : o ∈ sendOps active) :
    (∀ k, o.spanOf = some k → k ∈ active) ∧ (∀ s status, o ≠ .op (.endSpan s status)) ∧
      ∀ k, o ≠ .recordBackend k := by
  simp only [sendOps, List.mem_cons, List.mem_append, List.mem_map] at ho
  obtain rfl | ⟨j, hj, rfl⟩ | ⟨j, hj, rfl⟩ := ho
  · simp [FlushOp.spanOf]
  · simp [FlushOp.spanOf, hj]
  · simp [FlushOp.spanOf, hj]

theorem spanOf_settleOps {calls : Nat → Call} {active order order' : List Nat} {answer : Reply}
    {latency : Int} {o : FlushOp} (horder : order.Perm active) (horder' : order'.Perm active)
    (ho : o ∈ settleOps calls active answer latency order order') :
    (∀ k, o.spanOf = some k → k ∈ active) ∧ (∀ s status, o ≠ .op (.endSpan s status)) ∧
      ∀ k, o = .recordBackend k → ∃ items item, answer = .ok items ∧
        findResponse items (calls k).id = some item := by
  obtain rfl | ho := List.mem_cons.mp ho
  · simp [FlushOp.spanOf]
  cases answer with
  | error err =>
    simp only [failureOps, List.mem_append, List.mem_flatMap, List.mem_map, List.mem_cons,
      List.not_mem_nil, or_false] at ho
    obtain (⟨j, hj, rfl | rfl⟩ | rfl | rfl | rfl) | ⟨j, hj, rfl⟩ := ho
    iterate 2 simpa [FlushOp.spanOf] using horder.mem_iff.mp hj
    iterate 4 simp [FlushOp.spanOf]
  | ok items =>
    simp only [successOps, List.mem_append, List.mem_flatMap, List.mem_map, List.mem_cons,
      List.not_mem_nil, or_false] at ho
    obtain ((⟨j, hj, rfl⟩ | rfl | rfl) | ⟨j, hj, ho⟩) | ⟨j, hj, rfl⟩ := ho
    · simpa [FlushOp.spanOf] using horder.mem_iff.mp hj
    · simp [FlushOp.spanOf]
    · simp [FlushOp.spanOf]
    · unfold answerOps at ho
      cases hfound : findResponse items (calls j).id with
      | none =>
        simp only [hfound, List.mem_singleton] at ho
        subst ho
        simp [FlushOp.spanOf]
      | some item =>
        simp only [hfound, List.mem_append, List.mem_singleton] at ho
        obtain ho | rfl := ho
        · split_ifs at ho
          · obtain rfl := List.mem_singleton.mp ho
            simp [FlushOp.spanOf, hj, hfound]
          · simp at ho
        · simp [FlushOp.spanOf]
    · simpa [FlushOp.spanOf] using horder'.mem_iff.mp hj

section
variable (h : g.Spans others foreign trails) (hkept : g.Kept maxBatchSize)
include h hkept

theorem Batcher.Spans.tasked (hmove : g.toPipeline.Move maxBatchSize g'.toPipeline)
    (htodo : g.todo = []) (hsubmitted : g'.submitted = g.submitted) (htracer : g'.tracer = g.tracer)
    (htraces : g'.traceSpans = g.traceSpans) (hcalls : g'.calls = g.calls) (hrun : g'.run = g.run)
    (hchan : g'.requestChan = g.requestChan) (hactive : g'.active = g.active)
    (hrest : g.flushPC.rest = []) (hrest' : g'.flushPC.rest = [])
    (hin : ∀ k ∈ g.active, g.Flushed k → k ∉ g'.waiting → g.Due k (trails k).ended → ∃ spans,
      run spanStep (trails k).ended (g'.flushScript k) = some spans ∧ g'.Due k spans)
    (hout : ∀ k, k ∉ g.active → g'.flushScript k = [])
    (hsent : ∀ rpc ∈ g'.rpcs, ∀ k ∈ rpc.calls, rpc ∈ g.rpcs ∨ 3 ≤ (trails k).marks.length)
    (hbacked : ∀ k, g'.Backed k → g.Backed k ∨ .recordBackend ∈ g'.flushScript k)
    (hminds : g'.Minds g'.todo) : g'.Spans others foreign trails := by
  have hwaits : ∀ k, k ∈ g'.waiting ↔ k ∈ g.waiting := by
    intro k
    simp only [Pipeline.waiting, hchan, hrun, hrest, hrest']
  refine h.pushed hkept g.active hmove htodo hsubmitted htracer htraces hcalls hrun hchan
    (fun k hk => ?_) (fun k hk hstage hk' => ⟨hout k hk', fun spans hdue => ?_⟩)
    (fun k _ rpc hmem hk => hsent rpc hmem k hk) (fun k _ => hbacked k) hminds
  · have hflushed := hkept.placed.flushed hkept.loop (hkept.placed.active k hk)
    refine ⟨hflushed.mem, hin k hk hflushed (fun hwait => ?_) (h.ended hkept htodo hflushed.mem).2⟩
    rw [hwaits] at hwait
    simp [Pipeline.waiting, hrest, hflushed.chan, hflushed.held] at hwait
  · exact hdue.onward hcalls (hwaits k) (fun _ _ hmem => absurd hmem hk')
      (fun _ hmem => absurd hmem hk') fun _ hmem => absurd (hactive ▸ hmem) hk'

end

theorem Batcher.Kept.minds_active (hkept : g.Kept maxBatchSize) (hrun : g'.run = g.run)
    (htodo : ∀ o ∈ g'.todo, (∀ k, o.spanOf = some k → k ∈ g.active) ∧
      (∀ s status, o ≠ .op (.endSpan s status)) ∧ ∀ k, o = .recordBackend k → g'.Served k) :
    g'.Minds g'.todo := by
  refine ⟨fun o ho k hk => ?_, fun s status hs => ?_, fun k hk => (htodo _ hk).2.2 k rfl⟩
  · rw [hrun]
    exact hkept.placed.active k ((htodo o ho).1 k hk)
  · exact absurd rfl ((htodo _ hs).2.1 s status)

section
variable (h : g.Spans others foreign trails) (hkept : g.Kept config.maxBatchSize)
  (hrun : g.run.pc = .flushing) (htodo : g.todo = [])
include h hkept hrun htodo

theorem Batcher.Spans.dispatch (hpc : g.flushPC = .filter []) {now : Int} {ready : Option Bool} :
    (g.dispatch config now ready).Spans others foreign trails := by
  have hmove : g.toPipeline.Move config.maxBatchSize (g.dispatch config now ready).toPipeline :=
    dispatch_move hrun htodo hpc
  have hnodup := hkept.placed.active_nodup hkept.loop (Or.inl hpc)
  have hrest : g.flushPC.rest = [] := by rw [hpc]; rfl
  have hopen : ∀ k ∈ g.active,
      g.Flushed k → g.Due k (trails k).ended → (trails k).ended = [true] := by
    intro k hk hflushed hdue
    obtain ⟨-, hended⟩ | ⟨hsend, -⟩ | hdone := hdue.of_active hk hflushed hrest
    · exact hended
    · simp [hpc] at hsend
    · simp [hpc] at hdone
  simp only [Batcher.dispatch] at hmove ⊢
  split_ifs at hmove ⊢ with hnone hopenCircuit
  · refine h.tasked hkept hmove htodo rfl rfl rfl rfl rfl rfl rfl hrest rfl ?_ (fun k _ => ?_)
      (fun rpc hmem k _ => Or.inl hmem) (fun k => Or.inl) ?_
    · simp [hnone]
    · simp only [Pipeline.flushScript, htodo, List.filterMap_nil]
    · exact hkept.minds_active rfl (by simp [htodo])
  · have hops : rejectOps g.calls g.active ++ g.todo = rejectOps g.calls g.active := by
      rw [htodo, List.append_nil]
    refine h.tasked hkept hmove htodo rfl rfl rfl rfl rfl rfl rfl hrest rfl
      (fun k hk hflushed hwait hdue => ?_) (fun k hk => ?_)
      (fun rpc hmem k _ => Or.inl hmem) (fun k => Or.inl) (hkept.minds_active rfl fun o ho => ?_)
    · refine ⟨[true, true], ?_, .settled hflushed.stage hwait (fun _ => rfl) (by simp) (by simp)⟩
      show run spanStep _ ((rejectOps g.calls g.active ++ g.todo).filterMap _) = _
      rw [hops, script_rejectOps _ _ _ hnodup, if_pos hk, hopen k hk hflushed hdue]
      rfl
    · show (rejectOps g.calls g.active ++ g.todo).filterMap _ = _
      rw [hops, script_rejectOps _ _ _ hnodup, if_neg hk]
    · have ho' : o ∈ rejectOps g.calls g.active ++ g.todo := ho
      rw [hops] at ho'
      obtain ⟨howned, hends, hback⟩ := spanOf_rejectOps ho'
      exact ⟨howned, hends, fun k hk => absurd hk (hback k)⟩
  · have hops : sendOps g.active ++ g.todo = sendOps g.active := by rw [htodo, List.append_nil]
    refine h.tasked hkept hmove htodo rfl rfl rfl rfl rfl rfl rfl hrest rfl
      (fun k hk hflushed hwait hdue => ?_) (fun k hk => ?_)
      (fun rpc hmem k _ => Or.inl hmem) (fun k => Or.inl) (hkept.minds_active rfl fun o ho => ?_)
    · refine ⟨[true, false, false], ?_, .sending (Or.inl rfl) hk⟩
      show run spanStep _ ((sendOps g.active ++ g.todo).filterMap _) = _
      rw [hops, script_sendOps _ _ hnodup, if_pos hk, hopen k hk hflushed hdue]
      rfl
    · show (sendOps g.active ++ g.todo).filterMap _ = _
      rw [hops, script_sendOps _ _ hnodup, if_neg hk]
    · have ho' : o ∈ sendOps g.active ++ g.todo := ho
      rw [hops] at ho'
      obtain ⟨howned, hends, hback⟩ := spanOf_sendOps ho'
      exact ⟨howned, hends, fun k hk => absurd hk (hback k)⟩

theorem Batcher.Spans.call (hpc : g.flushPC = .call) : g.call.Spans others foreign trails := by
  have hmove : g.toPipeline.Move config.maxBatchSize _ := .call hrun htodo hpc
  have hrest : g.flushPC.rest = [] := by rw [hpc]; rfl
  have hopen : ∀ k ∈ g.active, g.Flushed k → g.Due k (trails k).ended →
      (trails k).ended = [true, false, false] := by
    intro k hk hflushed hdue
    obtain ⟨hfilter, -⟩ | ⟨-, hended⟩ | hdone := hdue.of_active hk hflushed hrest
    · simp [hpc] at hfilter
    · exact hended
    · simp [hpc] at hdone
  have hnil : ∀ k, g.call.flushScript k = [] := fun k => by
    show g.todo.filterMap _ = _
    rw [htodo, List.filterMap_nil]
  refine h.tasked hkept hmove htodo rfl rfl rfl rfl rfl rfl rfl hrest rfl
    (fun k hk hflushed hwait hdue => ?_) (fun k _ => hnil k) (fun rpc hmem k hk => ?_)
    (fun k hbacked => Or.inl ?_) (hkept.minds_active rfl fun o ho => ?_)
  · exact ⟨[true, false, false], by rw [hnil, hopen k hk hflushed hdue]; rfl,
      .sending (Or.inr rfl) hk⟩
  · obtain hold | hnew := List.mem_append.mp hmem
    · exact Or.inl hold
    · obtain rfl := List.mem_singleton.mp hnew
      have hflushed := hkept.placed.flushed hkept.loop (hkept.placed.active k hk)
      have hended := hopen k hk hflushed (h.ended hkept htodo hflushed.mem).2
      exact Or.inr (by rw [← ended_length, hended]; decide)
  · obtain ⟨rpc, hmem, hk, items, item, hreply, hitem⟩ := hbacked
    obtain hold | hnew := List.mem_append.mp hmem
    · exact ⟨rpc, hold, hk, items, item, hreply, hitem⟩
    · obtain rfl := List.mem_singleton.mp hnew
      exact absurd hreply (by simp)
  · have ho' : o ∈ g.todo := ho
    rw [htodo] at ho'
    exact absurd ho' (by simp)

theorem Batcher.Spans.reply {answer : Reply} {latency : Int} {order order' : List Nat}
    (hpc : g.flushPC = .await) (horder : order.Perm g.active) (horder' : order'.Perm g.active)
    (hstep : g.reply answer latency order order' = some g') : g'.Spans others foreign trails := by
  have hmove : g.toPipeline.Move config.maxBatchSize _ :=
    .reply answer latency order order' hrun htodo hpc horder horder'
  rw [Batcher.reply, if_pos ⟨hrun, htodo, hpc, horder, horder'⟩] at hstep
  obtain rfl := Option.some.inj hstep
  have hrest : g.flushPC.rest = [] := by rw [hpc]; rfl
  have hnodup := hkept.placed.awaited_nodup hkept.loop hkept.corresponds hpc
  obtain ⟨before, last, hrpcs, hlastCalls, hnone⟩ := hkept.corresponds.awaited hpc
  have hlast : answerLast g.rpcs answer = before ++ [{ last with reply := some answer }] := by
    rw [hrpcs, answerLast_append]
  have hops : settleOps g.calls g.active answer latency order order' ++ g.todo =
      settleOps g.calls g.active answer latency order order' := by rw [htodo, List.append_nil]
  refine h.tasked hkept hmove htodo rfl rfl rfl rfl rfl rfl rfl hrest rfl
    (fun k hk hflushed hwait hdue => ?_) (fun k hk => ?_) (fun rpc hmem k hk => ?_)
    (fun k hbacked => ?_) (hkept.minds_active rfl fun o ho => ?_)
  · obtain ⟨spans, hspans, hne, hall⟩ := (script_settleOps g.calls (g.calls k).queueSpan k answer
      latency hnodup horder horder').2 hk
    refine ⟨spans, ?_, .settled hflushed.stage hwait (fun _ => rfl) hne hall⟩
    show run spanStep _
      ((settleOps g.calls g.active answer latency order order' ++ g.todo).filterMap _) = _
    obtain ⟨hfilter, -⟩ | ⟨-, hended⟩ | hdone := hdue.of_active hk hflushed hrest
    · simp [hpc] at hfilter
    · rw [hops, hended]
      exact hspans
    · simp [hpc] at hdone
  · show (settleOps g.calls g.active answer latency order order' ++ g.todo).filterMap _ = _
    rw [hops]
    exact (script_settleOps g.calls _ k answer latency hnodup horder horder').1 hk
  · have hmem' : rpc ∈ answerLast g.rpcs answer := hmem
    rw [hlast] at hmem'
    obtain hold | hnew := List.mem_append.mp hmem'
    · exact Or.inl (by rw [hrpcs]; exact List.mem_append_left _ hold)
    · obtain rfl := List.mem_singleton.mp hnew
      have hflushed := hkept.placed.flushed hkept.loop (hkept.placed.active k (hlastCalls ▸ hk))
      exact Or.inr ((h.fits k hflushed.known).sent last (by simp [hrpcs]) hk)
  · obtain ⟨rpc, hmem, hk, items, item, hreply, hitem, htraced⟩ := hbacked
    have hmem' : rpc ∈ answerLast g.rpcs answer := hmem
    rw [hlast] at hmem'
    obtain hold | hnew := List.mem_append.mp hmem'
    · refine Or.inl ⟨rpc, ?_, hk, items, item, hreply, hitem, htraced⟩
      rw [hrpcs]
      exact List.mem_append_left _ hold
    · obtain rfl := List.mem_singleton.mp hnew
      obtain rfl : answer = .ok items := Option.some.inj hreply
      refine Or.inr ?_
      show _ ∈ (settleOps g.calls g.active (.ok items) latency order order' ++ g.todo).filterMap _
      have hbackend : backendScript g.calls k items = [.recordBackend] := by
        have hfound : findResponse items (g.calls k).id = some item := hitem
        simp only [backendScript, hfound]
        exact if_pos htraced
      rw [hops, settleOps, List.filterMap_cons_none rfl, script_successOps _ _ _ _ _ hnodup horder
        horder', if_pos (hlastCalls ▸ hk), hbackend]
      simp
  · have ho' : o ∈ settleOps g.calls g.active answer latency order order' ++ g.todo := ho
    rw [hops] at ho'
    obtain ⟨howned, hends, hback⟩ := spanOf_settleOps horder horder' ho'
    refine ⟨howned, hends, fun k hk => ?_⟩
    obtain ⟨items, item, rfl, hfound⟩ := hback k hk
    obtain ⟨hitem, hid⟩ := findResponse_mem hfound
    refine ⟨{ last with reply := some (.ok items) }, ?_, item.result, ?_, items, item, rfl,
      hitem, hid,
      rfl⟩
    · show _ ∈ answerLast g.rpcs (.ok items)
      rw [hlast]
      simp
    · show k ∈ last.calls
      rw [hlastCalls]
      exact howned k (by rw [hk]; rfl)

end

end Laminar.Gateway
