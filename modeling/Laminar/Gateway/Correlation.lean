import Laminar.Gateway.Progress
import Laminar.Worker.Service

/-! Requests and responses over whole runs: every call gets one response, under its own id, with a
result that the worker gave for it. -/
namespace Laminar.Gateway
open Laminar.Transition Laminar.Worker
variable {randomHex : Nat → Nat → String} {cfg : Config} {actions : List Action} {g : Batcher}

structure Batcher.Kept (maxBatchSize : Int) (g : Batcher) : Prop where
  loop : g.run.Inv maxBatchSize
  placed : g.toPipeline.Placed
  identified : g.toPipeline.Identified
  corresponds : g.toPipeline.Corresponds
  tended : g.toPipeline.Tended

theorem Batcher.Kept.step {config : Config} {g' : Batcher} {a : Action}
    (hmax : 0 < config.maxBatchSize)
    (hkept : g.Kept config.maxBatchSize) (hstep : step config randomHex g a = some g') :
    g'.Kept config.maxBatchSize := by
  have hmove := step_move hstep
  exact ⟨hkept.loop.move hmax (step_run hstep), hkept.placed.move hmove,
    hkept.identified.move hmove,
    hkept.corresponds.move hkept.placed hkept.identified hkept.loop.flushed_received hmove,
    hkept.tended.move hmove⟩

theorem newBatcher_kept (cfg : Config) : (newBatcher cfg).Kept cfg.normalized.maxBatchSize := by
  have hstart : run (Gateway.step cfg.normalized fun _ _ => "") (newBatcher cfg) [] =
      some (newBatcher cfg) := rfl
  refine ⟨run_inv hstart, run_placed hstart, ⟨?_, ?_, ?_⟩, ⟨?_, ?_, ?_, ?_, ?_⟩, ⟨?_, ?_⟩⟩ <;>
    simp [newBatcher, SubmitPC.stage, SubmitPC.response, SubmitPC.Listening]

theorem run_kept (h : run (step cfg.normalized randomHex) (newBatcher cfg) actions = some g) :
    g.Kept cfg.normalized.maxBatchSize := by
  have hmax := cfg.normalized_normal.maxBatchSize
  exact run_invariant (motive := fun g => g.Kept cfg.normalized.maxBatchSize) h
    (newBatcher_kept cfg)
    fun g a g' hkept hstep => hkept.step hmax hstep

/-- The steps of the gateway itself are paid for by the calls. -/
theorem run_steps (h : run (step cfg.normalized randomHex) (newBatcher cfg) actions = some g) :
    (actions.countP Action.internal : Int) ≤ 43 * g.submitted := by
  have hcount := run_counted (fun g : Batcher => g.balance) Action.internal h
    fun g a g' hstep => step_balance hstep
  have hstart : (newBatcher cfg).balance = 0 := by
    simp [Pipeline.balance, Pipeline.work, Pipeline.runWork, newBatcher, Timer.work]
  have hleft := g.work_nonneg
  rw [hstart, Pipeline.balance] at hcount
  omega

theorem run_returned {config : Config} {more : List Action} {g' : Batcher} {k : Nat}
    {resp : Response} (h : run (step config randomHex) g more = some g')
    (hknown : g.toPipeline.Identified) (hpc : (g.calls k).pc = .returned resp) :
    (g'.calls k).pc = .returned resp := by
  refine (run_invariant (motive := fun g : Batcher =>
    g.toPipeline.Identified ∧ (g.calls k).pc = .returned resp) h ⟨hknown, hpc⟩ ?_).2
  intro g a g' hg hstep
  obtain ⟨hknown, hpc⟩ := hg
  have hmove := step_move hstep
  have hk := hknown.known k (by simp [hpc, SubmitPC.stage])
  exact ⟨hknown.move hmove, (hmove.later hk).returned resp hpc⟩

theorem Run.Inv.flushed_sublist {maxBatchSize : Int} {r : Run} (h : r.Inv maxBatchSize) :
    r.flushed.flatten.Sublist r.received := by
  have hholds := h.holds
  cases hpc : r.pc with
  | select =>
    simp only [Run.Holds, hpc] at hholds
    exact hholds.2.2 ▸ List.sublist_append_left _ _
  | received k =>
    simp only [Run.Holds, hpc, List.append_assoc] at hholds
    exact hholds.2.2 ▸ List.sublist_append_left _ _
  | arm =>
    simp only [Run.Holds, hpc] at hholds
    exact hholds.2.2.2 ▸ List.sublist_append_left _ _
  | check =>
    simp only [Run.Holds, hpc] at hholds
    exact hholds.2.2.2 ▸ List.sublist_append_left _ _
  | flushing =>
    simp only [Run.Holds, hpc] at hholds
    exact hholds.2 ▸ List.Sublist.refl _

/-- A request is sent in one batch at most. -/
theorem Batcher.Kept.sent_once {maxBatchSize : Int} (h : g.Kept maxBatchSize) {rpc : Rpc} {k : Nat}
    (hrpc : rpc ∈ g.rpcs) (hk : k ∈ rpc.calls) : (g.rpcs.flatMap Rpc.calls).count k = 1 := by
  have hsent : (g.rpcs.flatMap Rpc.calls).Sublist g.run.received :=
    (List.sublist_append_left _ _).trans (h.placed.sending.trans h.loop.flushed_sublist)
  have hnodup : (g.rpcs.flatMap Rpc.calls).Nodup :=
    (h.placed.nodup.sublist (List.sublist_append_left _ _)).sublist hsent
  exact List.count_eq_one_of_mem hnodup (List.mem_flatMap.mpr ⟨rpc, hrpc, hk⟩)

def Call.backendRequest (c : Call) : BackendRequest :=
  { id := c.id, prompt := c.prompt, traceId := c.traceID }

/-- What the service of a worker computes for a request, at its place in the batch. -/
theorem Batcher.Kept.served {maxBatchSize : Int} (h : g.Kept maxBatchSize) {rpc : Rpc} {k : Nat}
    {result : String} (hrpc : rpc ∈ g.rpcs) (hgives : rpc.Gives k (g.calls k).id result)
    {name : String} {backend : List BackendRequest → BackendResult} {elapsedMicros : Int}
    (hreply : rpc.reply = some (processBatch name backend elapsedMicros rpc.requests)) :
    ∃ i : Nat, rpc.calls[i]? = some k ∧
      (backendRequests rpc.requests)[i]? = some (g.calls k).backendRequest ∧
      (backend (backendRequests rpc.requests)).outputs[i]? = some result := by
  obtain ⟨hk, items, item, hitems, hitem, hid, rfl⟩ := hgives
  obtain ⟨hstage, hrequests⟩ := h.corresponds.requests rpc hrpc
  obtain ⟨i, req, hreq, hreqid, houtput⟩ :=
    processBatch_item (Option.some.inj (hreply.symm.trans hitems)) hitem
  rw [hrequests, batchRequest, List.getElem?_map] at hreq
  obtain ⟨j, hj, rfl⟩ := Option.map_eq_some_iff.mp hreq
  -- ids tell the calls of a batch apart
  have hjk : j = k := by
    have hmem : j ∈ rpc.calls := List.mem_of_getElem? hj
    exact h.identified.apart j k (hstage j hmem) (hstage k hk) (hreqid.symm.trans hid)
  subst hjk
  refine ⟨i, hj, ?_, houtput⟩
  rw [backendRequests, hrequests, batchRequest, List.getElem?_map, List.getElem?_map, hj]
  rfl

/-- Requests and responses over every run. Each call has an id of its own; what a call returns
stays what it returned, carries its id and, without an error, the result of an item with this id
in the answer to the one batch its request was sent in; when that answer comes from the service of
a worker, this is what the backend computed for the call's prompt, at the place of its request. No
run takes more steps than the calls are worth, and when none is left, every call has returned. -/
theorem responses_correlate
    (h : run (step cfg.normalized randomHex) (newBatcher cfg) actions = some g) :
    (∀ k, 1 ≤ (g.calls k).pc.stage → (∃ n < g.nextID, (g.calls k).id = requestID n) ∧
      ∀ j, 1 ≤ (g.calls j).pc.stage → (g.calls j).id = (g.calls k).id → j = k) ∧
    (∀ k resp, (g.calls k).pc = .returned resp →
      (∀ more g', run (step cfg.normalized randomHex) g more = some g' →
        (g'.calls k).pc = .returned resp) ∧
      resp.id = (g.calls k).id ∧
      (resp.error = "" → ∃ rpc ∈ g.rpcs, rpc.Gives k (g.calls k).id resp.result ∧
        (g.rpcs.flatMap Rpc.calls).count k = 1 ∧
        ∀ (name : String) (backend : List BackendRequest → BackendResult) (elapsedMicros : Int),
          rpc.reply = some (processBatch name backend elapsedMicros rpc.requests) →
          ∃ i : Nat, rpc.calls[i]? = some k ∧
            (backendRequests rpc.requests)[i]? = some (g.calls k).backendRequest ∧
            (backend (backendRequests rpc.requests)).outputs[i]? = some resp.result)) ∧
    (actions.countP Action.internal : Int) ≤ 43 * g.submitted ∧
    (g.AtRest cfg.normalized randomHex →
      ∀ k < g.submitted, ∃ resp, (g.calls k).pc = .returned resp) := by
  have hkept := run_kept h
  refine ⟨fun k hk => ⟨hkept.identified.given k hk, fun j hj hid =>
    hkept.identified.apart j k hj hk hid⟩, fun k resp hpc => ⟨fun more g' hmore => ?_, ?_,
      fun hok => ?_⟩, run_steps h, fun hrest k hk => hrest.returned hkept.loop hkept.tended hk⟩
  · exact run_returned hmore hkept.identified hpc
  · exact (hkept.corresponds.response k resp (by rw [hpc]; rfl)).id
  · obtain ⟨rpc, hrpc, hgives⟩ :=
      (hkept.corresponds.response k resp (by rw [hpc]; rfl)).result hok
    exact ⟨rpc, hrpc, hgives, hkept.sent_once hrpc hgives.1,
      fun name backend elapsedMicros hreply =>
      hkept.served hrpc hgives hreply⟩

/-- Two calls in one batch; the worker answers in the other order, with a stray item between. -/
theorem responses_crossed :
    let cfg : Config := { promptTokens := fun n => n, maxBatchSize := 2 }
    let submit : String → Nat → List Action := fun prompt k =>
      .submit prompt "trace" "" :: List.replicate 5 (.advance k .channel)
    let loop : Nat → List Action := fun n => List.replicate n (.loop 0 none)
    let items : List ResponseItem := [{ id := "req-2", result := "second" },
      { id := "req-9", result := "stray" }, { id := "req-1", result := "first" }]
    ∃ g resp, run (step cfg.normalized fun n _ => toString n) (newBatcher cfg)
        (submit "one" 0 ++ submit "two" 1 ++ [.receive] ++ loop 3 ++ [.receive] ++ loop 14 ++
          [.reply (.ok items) 5 [0, 1] [1, 0]] ++ loop 12 ++
          List.replicate 3 (.advance 1 .channel)) = some g ∧
      (g.calls 1).pc = .returned resp ∧ resp.error = "" ∧ resp.id = (g.calls 1).id ∧
      ∃ rpc ∈ g.rpcs, rpc.Gives 1 (g.calls 1).id resp.result := by
  intro cfg submit loop items
  have hend : (run (step cfg.normalized fun n _ => toString n) (newBatcher cfg)
      (submit "one" 0 ++ submit "two" 1 ++ [.receive] ++ loop 3 ++ [.receive] ++ loop 14 ++
        [.reply (.ok items) 5 [0, 1] [1, 0]] ++ loop 12 ++
        List.replicate 3 (.advance 1 .channel))).any
        (fun g => decide ((g.calls 1).pc.stage = 7 ∧
          (g.calls 1).pc.response.any (fun resp => decide (resp.error = "")) = true)) = true := by
    decide +kernel
  obtain ⟨g, hg, hlast⟩ := (Option.any_eq_true _ _).mp hend
  obtain ⟨hstage, hresponse⟩ := of_decide_eq_true hlast
  cases hpc : (g.calls 1).pc with
  | returned resp =>
    have hok : resp.error = "" := by simpa [hpc, SubmitPC.response] using hresponse
    obtain ⟨-, hid, hresult⟩ := (responses_correlate hg).2.1 1 resp hpc
    obtain ⟨rpc, hrpc, hgives, -⟩ := hresult hok
    exact ⟨g, resp, hg, hpc, hok, hid, rpc, hrpc, hgives⟩
  | _ => simp [hpc, SubmitPC.stage] at hstage

end Laminar.Gateway
