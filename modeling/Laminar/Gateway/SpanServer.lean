import Laminar.Gateway.Predict
import Laminar.Gateway.SpanRun

/-! The spans of requests through `/predict` over whole runs: once the gateway rests, each request
has a chain of spans from its handler down. -/
namespace Laminar.Gateway
open Laminar.Transition Laminar.Sums
variable {config : Config} {randomHex : Nat → Nat → String} {maxPromptBytes : Int}

section
variable {maxBatchSize : Int} {p p' : Pipeline} {k : Nat}

/-- The parent of a call's spans is an argument of the call. -/
theorem Pipeline.Move.parent (h : p.Move maxBatchSize p') (hk : k < p.submitted) :
    (p'.calls k).parentSpanID = (p.calls k).parentSpanID := by
  have hupdate : ∀ (q : Pipeline) (j : Nat) (f : Call → Call), q.calls = p.calls →
      (f (q.calls j)).parentSpanID = (q.calls j).parentSpanID →
      ((q.update j f).calls k).parentSpanID = (p.calls k).parentSpanID := by
    intro q j f hq hf
    rw [update_calls]
    split_ifs with hkj
    · rw [hkj, hf, hq]
    · rw [hq]
  cases h with
  | submit call hpc hlease hresp => rw [update_calls, if_neg hk.ne]
  | exitRelease j hj i rest resp hpc =>
    show (((p.release i).update j _).calls k).parentSpanID = _
    rw [update_calls]
    split_ifs with hkj
    · rw [hkj]
      exact (release_same p i j).2.2
    · exact (release_same p i k).2.2
  | release j rest hrun htodo => exact (release_same _ j k).2.2
  | deliver j resp rest hrun htodo => exact (release_same _ j k).2.2
  | cancel j hj => exact hupdate p j _ rfl rfl
  | generateID j hj hpc => exact hupdate _ j _ rfl rfl
  | tryAcquire j hj hpc => exact hupdate _ j _ rfl rfl
  | startSpan j hj hpc s => exact hupdate _ j _ rfl rfl
  | refuse j hj hpc s todo resp hrelease hresp => exact hupdate _ j _ rfl rfl
  | send j hj hpc => exact hupdate _ j _ rfl rfl
  | handOver j hj hpc hrun => exact hupdate _ j _ rfl rfl
  | abandon j hj hpc todo resp hrelease hresp => exact hupdate _ j _ rfl rfl
  | queued j hj hpc => exact hupdate _ j _ rfl rfl
  | take j hj hpc todo resp hrelease hresp => exact hupdate _ j _ rfl rfl
  | exit j hj o rest resp hpc ho => exact hupdate _ j _ rfl rfl
  | «return» j hj resp hpc => exact hupdate _ j _ rfl rfl
  | respond j resp rest hrun htodo => exact hupdate _ j _ rfl rfl
  | _ => rfl

end

def Handler.recorded (h : Handler) : List TraceSpan :=
  (h.response.map fun response => h.span.record (spanStatus response.body)).toList

def recordedHandlers (handlers : Nat → Handler) (n : Nat) : Multiset TraceSpan :=
  ∑ k ∈ Finset.range n, ((handlers k).recorded : Multiset TraceSpan)

def OpenHandler (handlers : Nat → Handler) (n serial : Nat) : Prop :=
  ∃ k < n, (handlers k).response = none ∧ (handlers k).span.serial = serial

structure Server.Traced (s : Server) (trails : Nat → Trail) : Prop where
  spans : s.toBatcher.Spans (recordedHandlers s.handlers s.submitted)
    (OpenHandler s.handlers s.submitted) trails
  parent : ∀ k < s.submitted, (s.calls k).parentSpanID = (s.handlers k).span.spanID
  named : ∀ k < s.submitted, (s.handlers k).span.name = "http.predict"
  apart : ∀ j < s.submitted, ∀ k < s.submitted, (s.handlers j).response = none →
    (s.handlers k).response = none →
    (s.handlers j).span.serial = (s.handlers k).span.serial → j = k

section
variable {g : Batcher} {others others' : Multiset TraceSpan} {foreign foreign' : Nat → Prop}
  {trails : Nat → Trail} {k : Nat}

theorem Batcher.Spans.withTracer (h : g.Spans others foreign trails) {tracer : TraceRecorder}
    (hholds : tracer.Holds others' foreign' trails g.submitted) :
    Batcher.Spans { g with tracer := tracer } others' foreign' trails := by
  refine ⟨hholds, fun k hk => ?_, h.minds⟩
  have hfit := h.fits k hk
  exact ⟨hfit.queue, hfit.tied, hfit.fresh, hfit.due, hfit.own, hfit.leaves, hfit.sent, hfit.served,
    hfit.backed⟩

theorem Batcher.Spans.congr (h : g.Spans others foreign trails) (hothers : others' = others)
    (hforeign : ∀ serial, foreign' serial ↔ foreign serial) : g.Spans others' foreign' trails := by
  obtain rfl : foreign' = foreign := funext fun serial => propext (hforeign serial)
  exact hothers ▸ h

end

theorem newServer_traced (cfg : Config) : (newServer cfg).Traced fun _ => {} := by
  refine ⟨(newBatcher_spans cfg 2048).congr rfl fun serial => ⟨fun hs => ?_, fun hs => hs.elim⟩,
    fun k hk => ?_, fun k hk => ?_, fun j hj => ?_⟩
  · obtain ⟨k, hk, -⟩ := hs
    exact absurd hk (by simp [newServer, newBatcher])
  all_goals simp [newServer, newBatcher] at *

theorem traceContext_draws (randomHex : Nat → Nat → String) (t : TraceRecorder)
    (r : PredictRequest) :
    ∃ draws, t.draws ≤ draws ∧ (t.traceContext randomHex r).2 = { t with draws := draws } := by
  unfold TraceRecorder.traceContext
  split
  · exact ⟨t.draws, Nat.le_refl _, rfl⟩
  · simp only
    split_ifs
    · exact ⟨t.draws + 1, Nat.le_succ _, rfl⟩
    · exact ⟨t.draws, Nat.le_refl _, rfl⟩
    · exact ⟨t.draws, Nat.le_refl _, rfl⟩

section
variable {s s' : Server} {trails : Nat → Trail}

theorem Batcher.Kept.withTracer {g : Batcher} (hkept : g.Kept config.maxBatchSize)
    (tracer : TraceRecorder) : Batcher.Kept config.maxBatchSize { g with tracer := tracer } :=
  ⟨hkept.loop, hkept.placed, hkept.identified, hkept.corresponds, hkept.tended⟩

theorem step_submit {g g' : Batcher} {prompt traceID parentSpanID : String}
    (hstep : Gateway.step config randomHex g (.submit prompt traceID parentSpanID) = some g') :
    g'.submitted = g.submitted + 1 ∧ (g'.calls g.submitted).parentSpanID = parentSpanID ∧
      ∀ k < g.submitted, g'.calls k = g.calls k := by
  obtain rfl := Option.some.inj hstep
  have hcalls : ∀ j, (Pipeline.update { g.toPipeline with submitted := g.submitted + 1 } g.submitted
      (fun _ => { prompt := prompt, traceID := traceID, parentSpanID := parentSpanID })).calls j =
        if j = g.submitted then
          { prompt := prompt, traceID := traceID, parentSpanID := parentSpanID }
        else g.calls j := fun j => update_calls _ _ j _
  refine ⟨rfl, congrArg Call.parentSpanID ((hcalls g.submitted).trans (if_pos rfl)), fun k hk => ?_⟩
  exact (hcalls k).trans (if_neg hk.ne)

theorem Server.Traced.predict (h : s.Traced trails) (hkept : s.toBatcher.Kept config.maxBatchSize)
    {r : PredictRequest} (hstep : s.predict randomHex config maxPromptBytes r = some s') :
    s'.Traced trails := by
  unfold Server.predict at hstep
  split at hstep
  · obtain rfl := Option.some.inj hstep
    exact h
  rename_i prompt hcheck
  obtain ⟨draws, hdraws, hcontext⟩ := traceContext_draws randomHex s.tracer r
  obtain ⟨hname, -, hserial, htracer⟩ := startSpan_started randomHex
    (s.tracer.traceContext randomHex r).2 "http.predict"
    (s.tracer.traceContext randomHex r).1.parentSpanID (s.tracer.traceContext randomHex r).1.traceID
  simp only at hstep
  generalize hspan : (s.tracer.traceContext randomHex r).2.startSpan randomHex "http.predict"
    (s.tracer.traceContext randomHex r).1.parentSpanID
    (s.tracer.traceContext randomHex r).1.traceID = span at *
  rw [hcontext] at hserial htracer
  replace hserial : s.tracer.draws ≤ span.1.serial := hdraws.trans hserial
  have hfresh : ∀ k < s.submitted, (s.handlers k).response = none →
      (s.handlers k).span.serial ≠ span.1.serial := by
    intro k hk hopen
    have hlt := (h.spans.holds.foreign _ ⟨k, hk, hopen, rfl⟩).1
    omega
  have hholds : span.2.Holds (recordedHandlers s.handlers s.submitted)
      (fun serial => OpenHandler s.handlers s.submitted serial ∨ serial = span.1.serial) trails
      s.submitted := by
    rw [htracer]
    refine h.spans.holds.draw (by omega) fun serial hs => ?_
    obtain hs | rfl := hs
    · exact Or.inl hs
    · exact Or.inr ⟨hserial, Nat.lt_succ_self _⟩
  obtain ⟨g', hg', rfl⟩ := Option.map_eq_some_iff.mp hstep
  obtain ⟨hsubmitted, hparent, hcalls⟩ := step_submit hg'
  replace hsubmitted : g'.submitted = s.submitted + 1 := hsubmitted
  generalize hnew : (⟨span.1, _, _, none⟩ : Handler) = handler
  have hspanNew : handler.span = span.1 := by rw [← hnew]
  have hopenNew : handler.response = none := by rw [← hnew]
  have hold : ∀ k, k < s.submitted →
      Function.update s.handlers s.submitted handler k = s.handlers k :=
    fun k hk => Function.update_of_ne hk.ne _ _
  have hself : Function.update s.handlers s.submitted handler s.submitted = handler :=
    Function.update_self ..
  refine ⟨((h.spans.withTracer hholds).submitStep (hkept.withTracer _) hg').congr ?_
      fun serial => ?_,
    fun k hk => ?_, fun k hk => ?_, fun j hj k hk hjopen hkopen hsame => ?_⟩
  · show recordedHandlers (Function.update s.handlers s.submitted handler) g'.submitted = _
    rw [hsubmitted, recordedHandlers, Finset.sum_range_succ, hself, Handler.recorded, hopenNew]
    refine (add_zero _).trans (Finset.sum_congr rfl fun k hk => ?_)
    rw [hold k (Finset.mem_range.mp hk)]
  · show OpenHandler (Function.update s.handlers s.submitted handler) g'.submitted serial ↔ _
    rw [hsubmitted]
    constructor
    · intro hs
      obtain ⟨k, hk, hopen, hserial⟩ := hs
      obtain hlt | rfl := Nat.lt_succ_iff_lt_or_eq.mp hk
      · rw [hold k hlt] at hopen hserial
        exact Or.inl ⟨k, hlt, hopen, hserial⟩
      · rw [hself, hspanNew] at hserial
        exact Or.inr hserial.symm
    · intro hs
      obtain ⟨k, hk, hopen, hserial⟩ | rfl := hs
      · exact ⟨k, by omega, by rw [hold k hk]; exact hopen, by rw [hold k hk]; exact hserial⟩
      · exact ⟨s.submitted, by omega, by rw [hself]; exact hopenNew, by rw [hself, hspanNew]⟩
  · replace hk : k < s.submitted + 1 := hsubmitted ▸ hk
    obtain hlt | rfl := Nat.lt_succ_iff_lt_or_eq.mp hk
    · show (g'.calls k).parentSpanID =
        (Function.update s.handlers s.submitted handler k).span.spanID
      rw [hold k hlt, hcalls k hlt]
      exact h.parent k hlt
    · show (g'.calls s.submitted).parentSpanID =
        (Function.update s.handlers s.submitted handler s.submitted).span.spanID
      rw [hself, hspanNew]
      exact hparent
  · replace hk : k < s.submitted + 1 := hsubmitted ▸ hk
    obtain hlt | rfl := Nat.lt_succ_iff_lt_or_eq.mp hk
    · show (Function.update s.handlers s.submitted handler k).span.name = _
      rw [hold k hlt]
      exact h.named k hlt
    · show (Function.update s.handlers s.submitted handler s.submitted).span.name = _
      rw [hself, hspanNew]
      exact hname
  · replace hj : j < s.submitted + 1 := hsubmitted ▸ hj
    replace hk : k < s.submitted + 1 := hsubmitted ▸ hk
    replace hjopen : (Function.update s.handlers s.submitted handler j).response = none := hjopen
    replace hkopen : (Function.update s.handlers s.submitted handler k).response = none := hkopen
    replace hsame : (Function.update s.handlers s.submitted handler j).span.serial =
      (Function.update s.handlers s.submitted handler k).span.serial := hsame
    obtain hjlt | rfl := Nat.lt_succ_iff_lt_or_eq.mp hj
    · rw [hold j hjlt] at hjopen hsame
      obtain hklt | rfl := Nat.lt_succ_iff_lt_or_eq.mp hk
      · rw [hold k hklt] at hkopen hsame
        exact h.apart j hjlt k hklt hjopen hkopen hsame
      · rw [hself, hspanNew] at hsame
        exact absurd hsame (hfresh j hjlt hjopen)
    · obtain hklt | rfl := Nat.lt_succ_iff_lt_or_eq.mp hk
      · rw [hold k hklt] at hkopen hsame
        rw [hself, hspanNew] at hsame
        exact absurd hsame.symm (hfresh k hklt hkopen)
      · rfl

theorem Server.Traced.answer (h : s.Traced trails) {k : Nat} (hstep : s.answer k = some s') :
    s'.Traced trails := by
  unfold Server.answer at hstep
  split at hstep
  · rename_i resp hpc
    simp only at hstep
    split_ifs at hstep with hready
    obtain ⟨hk, hopen⟩ := hready
    generalize hnew : (⟨_, _, _, some _⟩ : Handler) = handler at hstep
    obtain rfl := Option.some.inj hstep
    have hspanNew : handler.span = (s.handlers k).span := by rw [← hnew]
    have hrecorded : handler.recorded = [(s.handlers k).span.record (spanStatus resp)] := by
      rw [← hnew]; rfl
    have hclosed : handler.response ≠ none := by rw [← hnew]; simp
    have hfree : (s.handlers k).recorded = [] := by rw [Handler.recorded, hopen]; rfl
    have hspan : ∀ j, (Function.update s.handlers k handler j).span = (s.handlers j).span := by
      intro j
      rw [Function.update_apply]
      split_ifs with hjk
      · rw [hspanNew, hjk]
      · rfl
    have hstill : ∀ j, (Function.update s.handlers k handler j).response = none →
        j ≠ k ∧ (s.handlers j).response = none := by
      intro j hj
      rw [Function.update_apply] at hj
      split_ifs at hj with hjk
      · exact absurd hj hclosed
      · exact ⟨hjk, hj⟩
    have hholds : (s.tracer.endSpan (s.handlers k).span (spanStatus resp)).Holds
        (recordedHandlers s.handlers s.submitted + {(s.handlers k).span.record (spanStatus resp)})
        (OpenHandler (Function.update s.handlers k handler) s.submitted) trails s.submitted := by
      refine h.spans.holds.endForeign ⟨k, hk, hopen, rfl⟩ (spanStatus resp) fun serial hs => ?_
      obtain ⟨j, hj, hjopen, rfl⟩ := hs
      obtain ⟨hjk, hjopen⟩ := hstill j hjopen
      rw [hspan]
      exact ⟨⟨j, hj, hjopen, rfl⟩, fun hsame => hjk (h.apart j hj k hk hjopen hopen hsame)⟩
    refine ⟨(h.spans.withTracer hholds).congr ?_ fun serial => Iff.rfl, fun j hj => ?_,
      fun j hj => ?_,
      fun i hi j hj hiopen hjopen hsame => ?_⟩
    · have hgrow := sum_range_grow (fun h : Handler => (h.recorded : Multiset TraceSpan))
        s.submitted k
        s.handlers handler ({(s.handlers k).span.record (spanStatus resp)} : Multiset TraceSpan) hk
        (by simp [hrecorded, hfree])
      simp only [recordedHandlers, Function.update_apply]
      exact hgrow
    · exact (h.parent j hj).trans (congrArg ActiveSpan.spanID (hspan j).symm)
    · exact (congrArg ActiveSpan.name (hspan j)).trans (h.named j hj)
    · refine h.apart i hi j hj (hstill i hiopen).2 (hstill j hjopen).2 ?_
      exact (congrArg ActiveSpan.serial (hspan i)).symm.trans
        (hsame.trans (congrArg ActiveSpan.serial (hspan j)))
  · exact absurd hstep (by simp)

theorem Server.Traced.gateway (h : s.Traced trails) (hkept : s.toBatcher.Kept config.maxBatchSize)
    {a : Gateway.Action} {g : Batcher}
    (hstep : Gateway.step config randomHex s.toBatcher a = some g)
    (hsubmitted : g.submitted = s.submitted) :
    ∃ trails', Server.Traced { s with toBatcher := g } trails' := by
  obtain ⟨trails', hspans⟩ := h.spans.step hkept hstep
  have hmove := step_move hstep
  refine ⟨trails', hspans.congr ?_ fun serial => ?_, fun k hk => ?_, fun k hk => ?_, ?_⟩
  · show recordedHandlers s.handlers g.submitted = _
    rw [hsubmitted]
  · show OpenHandler s.handlers g.submitted serial ↔ _
    rw [hsubmitted]
  · replace hk : k < s.submitted := hsubmitted ▸ hk
    exact (hmove.parent hk).trans (h.parent k hk)
  · exact h.named k (hsubmitted ▸ hk)
  · show ∀ j < g.submitted, ∀ k < g.submitted, _
    rw [hsubmitted]
    exact h.apart

theorem Server.step_traced (hmax : 0 < config.maxBatchSize)
    (h : ∃ trails, s.Traced trails) (hkept : s.toBatcher.Kept config.maxBatchSize)
    {a : Server.Action} (hstep : s.step randomHex config maxPromptBytes a = some s') :
    s'.toBatcher.Kept config.maxBatchSize ∧ ∃ trails', s'.Traced trails' := by
  obtain ⟨trails, h⟩ := h
  cases a with
  | predict r =>
    refine ⟨?_, trails, h.predict hkept hstep⟩
    simp only [Server.step, Server.predict] at hstep
    split at hstep
    · obtain rfl := Option.some.inj hstep
      exact hkept
    · obtain ⟨g', hg', rfl⟩ := Option.map_eq_some_iff.mp hstep
      exact (hkept.withTracer _).step hmax hg'
  | answer k =>
    refine ⟨?_, trails, h.answer hstep⟩
    simp only [Server.step, Server.answer] at hstep
    split at hstep
    · split_ifs at hstep
      obtain rfl := Option.some.inj hstep
      exact hkept.withTracer _
    · exact absurd hstep (by simp)
  | gateway a =>
    have hnot : ∀ prompt traceID parentSpanID, a ≠ .submit prompt traceID parentSpanID := by
      intro prompt traceID parentSpanID ha
      simp [ha, Server.step] at hstep
    have hsome : (Gateway.step config randomHex s.toBatcher a).map
        (fun g => ({ s with toBatcher := g } : Server)) = some s' := by
      cases a with
      | submit prompt traceID parentSpanID => exact absurd rfl (hnot prompt traceID parentSpanID)
      | _ => exact hstep
    obtain ⟨g', hg', rfl⟩ := Option.map_eq_some_iff.mp hsome
    exact ⟨hkept.step hmax hg', h.gateway hkept hg' (step_submitted hg' hnot)⟩

end

def Server.AtRest (config : Config) (randomHex : Nat → Nat → String) (s : Server) : Prop :=
  s.toBatcher.AtRest config randomHex ∧ ∀ k, s.answer k = none

theorem Server.atRest {s : Server} (hpc : s.run.pc = .select) (htimer : s.run.timer = .stopped)
    (hchan : s.requestChan = []) (hreturned : ∀ k < s.submitted, (s.calls k).pc.stage = 7)
    (hanswered : ∀ k < s.submitted, (s.handlers k).response ≠ none) :
    s.AtRest config randomHex := by
  refine ⟨Batcher.atRest hpc htimer hchan hreturned, fun k => ?_⟩
  unfold Server.answer
  split
  · exact if_neg fun hready => hanswered k hready.1 hready.2
  · rfl

/-- The span of the backend is the last of the four. -/
theorem length_of_backend (t : Trail)
    (h : "backend.inference" ∈ t.marks.map fun m => m.span.name) : t.marks.length = 4 := by
  have hle : t.marks.length ≤ 4 := by simpa [chainNames] using t.named.length_le
  have htake := List.prefix_iff_eq_take.mp t.named
  rw [List.length_map] at htake
  rw [htake] at h
  by_contra hne
  obtain hlength | hlength | hlength | hlength : t.marks.length = 0 ∨ t.marks.length = 1 ∨
      t.marks.length = 2 ∨ t.marks.length = 3 := by omega
  all_goals
    rw [hlength] at h
    simp [chainNames] at h

section
variable {s : Server} {trails : Nat → Trail} {k : Nat}

theorem Server.Traced.settled (h : s.Traced trails) (hkept : s.toBatcher.Kept config.maxBatchSize)
    (hrest : s.AtRest config randomHex) (hk : k < s.submitted) :
    ∀ b ∈ (trails k).ended, b = true := by
  obtain ⟨resp, hpc⟩ := hrest.1.returned hkept.loop hkept.tended hk
  obtain ⟨hselect, hbatch, hchan⟩ := hrest.1.run hkept.loop
  obtain ⟨htodo, hdone⟩ := hkept.tended.idle (by simp [hselect])
  obtain ⟨spans, hrun, hdue⟩ := (h.spans.fits k hk).due (by simp [hpc, SubmitPC.stage])
  rw [Pipeline.flushScript, htodo, Call.script, hpc] at hrun
  rw [Option.some.inj hrun]
  cases hdue with
  | enqueue henqueue => simp [hpc] at henqueue
  | waiting hwait =>
    simp [Pipeline.waiting, Run.held, hselect, hbatch, hchan, hdone, FlushPC.rest] at hwait
  | passed rest hfilter => simp [hdone] at hfilter
  | sending hsend => simp [hdone] at hsend
  | settled hstage hwait hactive hne hall => exact hall

theorem Server.AtRest.answered (hrest : s.AtRest config randomHex)
    (hkept : s.toBatcher.Kept config.maxBatchSize) (hk : k < s.submitted) :
    ∃ response, (s.handlers k).response = some response := by
  obtain ⟨resp, hpc⟩ := hrest.1.returned hkept.loop hkept.tended hk
  by_contra hnone
  have hnone : (s.handlers k).response = none := by
    by_contra hsome
    exact hnone (Option.ne_none_iff_exists'.mp hsome)
  have hanswer := hrest.2 k
  simp only [Server.answer, hpc, if_pos (And.intro hk hnone)] at hanswer
  exact absurd hanswer (by simp)

/-- Once the gateway rests, what its recorder was given is the chains of the requests, one for each:
from the handler's span down through the batcher and the worker as far as the request got, each a
child of the one before, and down to the backend only for a request that the worker answered. -/
theorem span_chains {cfg : Config} {actions : List Server.Action}
    (h : run (Server.step randomHex cfg.normalized maxPromptBytes) (newServer cfg) actions = some s)
    (hrest : s.AtRest cfg.normalized randomHex) :
    ∃ chain : Nat → List TraceSpan,
      (∃ all : List TraceSpan, s.tracer.Stores all ∧
        (all.length ≤ s.tracer.capacity → s.tracer.spans = all) ∧
        (all : Multiset TraceSpan) =
          ∑ k ∈ Finset.range s.submitted, (chain k : Multiset TraceSpan)) ∧
      ∀ k < s.submitted,
        (∃ status, (chain k).head? = some ((s.handlers k).span.record status)) ∧
        (chain k).map TraceSpan.name <+: chainNames ∧
        (chain k).IsChain (fun parent child => child.parentSpanID = parent.spanID) ∧
        ("backend.inference" ∈ (chain k).map TraceSpan.name →
          ∃ rpc ∈ s.rpcs, ∃ result, rpc.Gives k (s.calls k).id result) := by
  have hmax := cfg.normalized_normal.maxBatchSize
  obtain ⟨hkept, trails, htraced⟩ := run_invariant
    (motive := fun s : Server => s.toBatcher.Kept cfg.normalized.maxBatchSize ∧
      ∃ trails, s.Traced trails) h ⟨newBatcher_kept cfg, _, newServer_traced cfg⟩
    fun s a s' hs hstep => Server.step_traced hmax hs.2 hs.1 hstep
  obtain ⟨all, hall, hsum⟩ := htraced.spans.holds.stores
  refine ⟨fun k => (s.handlers k).recorded ++ (trails k).recorded, ⟨all, hall, fun hle => ?_, ?_⟩,
    fun k hk => ?_⟩
  · rw [hall, Nat.sub_eq_zero_of_le hle, List.drop_zero]
  · rw [hsum, recordedHandlers, ← Finset.sum_add_distrib]
    exact Finset.sum_congr rfl fun k _ => Multiset.coe_add _ _
  have hfit := htraced.spans.fits k hk
  obtain ⟨response, hresponse⟩ := hrest.answered hkept hk
  have hhandler : (s.handlers k).recorded =
      [(s.handlers k).span.record (spanStatus response.body)] := by
    rw [Handler.recorded, hresponse]
    rfl
  have hrecorded := recorded_of_ended (htraced.settled hkept hrest hk)
  have hnames : (trails k).recorded.map TraceSpan.name =
      (trails k).marks.map fun m => m.span.name := by
    rw [hrecorded, List.map_map]
    rfl
  simp only [hhandler, List.singleton_append, List.map_cons, List.head?_cons, hnames]
  refine ⟨⟨_, rfl⟩, ?_, ?_, fun hbackend => hfit.served ?_⟩
  · rw [show chainNames = "http.predict" :: chainNames.tail from rfl,
      show ((s.handlers k).span.record (spanStatus response.body)).name = "http.predict" from
        htraced.named k hk]
    exact List.cons_prefix_cons.mpr ⟨rfl, (trails k).named⟩
  · rw [hrecorded]
    refine List.isChain_cons.mpr ⟨fun next hnext => ?_, ?_⟩
    · rw [List.head?_map] at hnext
      obtain ⟨m, hm, rfl⟩ := Option.map_eq_some_iff.mp hnext
      rw [List.head?_eq_getElem?] at hm
      exact (hfit.queue m hm).2.trans (htraced.parent k hk)
    · rw [List.isChain_map]
      exact (trails k).linked
  · obtain heq | hmem := List.mem_cons.mp hbackend
    · rw [show ((s.handlers k).span.record (spanStatus response.body)).name = "http.predict" from
        htraced.named k hk] at heq
      exact absurd heq (by decide)
    · exact length_of_backend _ hmem

end

/-- Two requests: the first is answered by the backend, the second cancelled before the queue. -/
theorem span_chains_two :
    let cfg : Config := { promptTokens := fun n => n, maxBatchSize := 1 }
    let predict : Server.Action := .predict { prompt := some "hello", xTraceID := "trace" }
    let advance : Nat → SelectCase → Nat → List Server.Action := fun k case n =>
      List.replicate n (.gateway (.advance k case))
    let loop : Nat → List Server.Action := fun n => List.replicate n (.gateway (.loop 0 none))
    let items : List ResponseItem := [{ id := "req-1", result := "done", backendName := "mock" }]
    ∃ s, run (Server.step (fun n _ => toString n) cfg.normalized 1024) (newServer cfg)
        ([predict] ++ advance 0 .channel 5 ++ [predict] ++ advance 1 .channel 3 ++
          [.gateway (.cancel 1)] ++ advance 1 .ctxDone 6 ++ [.gateway .receive] ++ loop 10 ++
          [.gateway (.reply (.ok items) 5 [0] [0])] ++ loop 9 ++ advance 0 .channel 3 ++
          [.answer 1, .answer 0]) = some s ∧
      s.AtRest cfg.normalized (fun n _ => toString n) ∧ s.submitted = 2 ∧
      s.tracer.spans.length = 7 ∧
      ∃ chain : Nat → List TraceSpan, ∀ k < s.submitted,
        (chain k).map TraceSpan.name <+: chainNames ∧
        (chain k).IsChain (fun parent child => child.parentSpanID = parent.spanID) := by
  intro cfg predict advance loop items
  have hend : (run (Server.step (fun n _ => toString n) cfg.normalized 1024) (newServer cfg)
      ([predict] ++ advance 0 .channel 5 ++ [predict] ++ advance 1 .channel 3 ++
        [.gateway (.cancel 1)] ++ advance 1 .ctxDone 6 ++ [.gateway .receive] ++ loop 10 ++
        [.gateway (.reply (.ok items) 5 [0] [0])] ++ loop 9 ++ advance 0 .channel 3 ++
        [.answer 1, .answer 0])).any
        (fun s => decide (s.run.pc = .select ∧ s.run.timer = .stopped ∧ s.requestChan = [] ∧
          (∀ k < s.submitted, (s.calls k).pc.stage = 7) ∧
          (∀ k < s.submitted, (s.handlers k).response ≠ none) ∧ s.submitted = 2 ∧
          s.tracer.spans.length = 7)) = true := by
    decide +kernel
  obtain ⟨s, hs, hlast⟩ := (Option.any_eq_true _ _).mp hend
  obtain ⟨hpc, htimer, hchan, hreturned, hanswered, hsubmitted, hlength⟩ := of_decide_eq_true hlast
  have hrest : s.AtRest cfg.normalized (fun n _ => toString n) :=
    Server.atRest hpc htimer hchan hreturned hanswered
  obtain ⟨chain, -, hchain⟩ := span_chains hs hrest
  exact ⟨s, hs, hrest, hsubmitted, hlength, chain, fun k hk =>
    ⟨(hchain k hk).2.1, (hchain k hk).2.2.1⟩⟩

end Laminar.Gateway
