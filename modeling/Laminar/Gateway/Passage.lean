import Laminar.Gateway.BatchLoop

/-! What one step of the gateway can do to the requests on their way, whatever it does to the
spans, the metrics, the circuit and the policy. -/
namespace Laminar.Gateway
variable {config : Config} {randomHex : Nat → Nat → String}

def SubmitPC.stage : SubmitPC → Nat
  | .generateID => 0
  | .tryAcquire => 1
  | .startSpan _ => 2
  | .enqueue => 3
  | .queued => 4
  | .wait => 5
  | .leave _ _ => 6
  | .returned _ => 7

def Call.Refusal (c : Call) (resp : Response) : Prop := resp.id = c.id ∧ resp.error ≠ ""

theorem errorResponse_refusal (c : Call) (code : ErrorCode) {message : String}
    (h : message ≠ "") : c.Refusal (errorResponse c.id code message) := ⟨rfl, h⟩

def FlushOp.Plain : FlushOp → Prop
  | .op (.release _) => False
  | .deliver _ _ => False
  | .respond _ _ => False
  | _ => True

inductive Pipeline.Move (maxBatchSize : Int) (p : Pipeline) : Pipeline → Prop where
  | stay : Move maxBatchSize p p
  | submit (call : Call) (hpc : call.pc = .generateID) (hlease : call.lease = {})
      (hresp : call.respChan = none) :
      Move maxBatchSize p
        ({ p with submitted := p.submitted + 1 }.update p.submitted (fun _ => call))
  | cancel (k : Nat) (hk : k < p.submitted) :
      Move maxBatchSize p (p.update k (fun c => { c with ctxDone := true }))
  | streamID : Move maxBatchSize p { p with nextID := p.nextID + 1 }
  | generateID (k : Nat) (hk : k < p.submitted) (hpc : (p.calls k).pc = .generateID) :
      Move maxBatchSize p ({ p with nextID := p.nextID + 1 }.update k
        (fun c => { c with id := requestID p.nextID, pc := .tryAcquire }))
  | tryAcquire (k : Nat) (hk : k < p.submitted) (hpc : (p.calls k).pc = .tryAcquire) :
      Move maxBatchSize p
        ({ p with admission := (p.admission.tryAcquire (p.calls k).prompt).2.2 }.update k
          (fun c => { c with
            lease := (p.admission.tryAcquire (p.calls k).prompt).1
            pc := .startSpan (p.admission.tryAcquire (p.calls k).prompt).2.1 }))
  | startSpan (k : Nat) (hk : k < p.submitted) (hpc : (p.calls k).pc = .startSpan true)
      (s : ActiveSpan) :
      Move maxBatchSize p (p.update k (fun c => { c with queueSpan := s, pc := .enqueue }))
  | refuse (k : Nat) (hk : k < p.submitted) (hpc : (p.calls k).pc = .startSpan false)
      (s : ActiveSpan) (todo : List Op) (resp : Response) (hrelease : ∀ j, .release j ∉ todo)
      (hresp : (p.calls k).Refusal resp) :
      Move maxBatchSize p
        (p.update k (fun c => { c with queueSpan := s, pc := .leave todo resp }))
  | send (k : Nat) (hk : k < p.submitted) (hpc : (p.calls k).pc = .enqueue) :
      Move maxBatchSize p ({ p with requestChan := p.requestChan ++ [k] }.update k
        (fun c => { c with pc := .queued }))
  | handOver (k : Nat) (hk : k < p.submitted) (hpc : (p.calls k).pc = .enqueue)
      (hrun : p.run.pc = .select) :
      Move maxBatchSize p ({ p with run := p.run.receive k }.update k
        (fun c => { c with pc := .queued }))
  | abandon (k : Nat) (hk : k < p.submitted)
      (hpc : (p.calls k).pc = .enqueue ∨ (p.calls k).pc = .wait) (todo : List Op)
      (resp : Response) (hrelease : ∀ j, .release j ∈ todo ↔ j = k)
      (hresp : (p.calls k).Refusal resp) :
      Move maxBatchSize p (p.leave k todo resp)
  | queued (k : Nat) (hk : k < p.submitted) (hpc : (p.calls k).pc = .queued) :
      Move maxBatchSize p (p.update k (fun c => { c with pc := .wait }))
  | take (k : Nat) (hk : k < p.submitted) (hpc : (p.calls k).pc = .wait) (todo : List Op)
      (resp : Response) (hrelease : ∀ j, .release j ∉ todo)
      (hresp : (p.calls k).respChan = some resp) :
      Move maxBatchSize p
        (p.update k (fun c => { c with respChan := none, pc := .leave todo resp }))
  | exit (k : Nat) (hk : k < p.submitted) (o : Op) (rest : List Op) (resp : Response)
      (hpc : (p.calls k).pc = .leave (o :: rest) resp) (ho : ∀ j, o ≠ .release j) :
      Move maxBatchSize p (p.leave k rest resp)
  | exitRelease (k : Nat) (hk : k < p.submitted) (j : Nat) (rest : List Op) (resp : Response)
      (hpc : (p.calls k).pc = .leave (.release j :: rest) resp) :
      Move maxBatchSize p ((p.release j).leave k rest resp)
  | return (k : Nat) (hk : k < p.submitted) (resp : Response)
      (hpc : (p.calls k).pc = .leave [] resp) :
      Move maxBatchSize p (p.update k (fun c => { c with pc := .returned resp }))
  | receive (k : Nat) (rest : List Nat) (hrun : p.run.pc = .select)
      (hchan : p.requestChan = k :: rest) :
      Move maxBatchSize p { p with requestChan := rest, run := p.run.receive k }
  | loop (r : Run) (hmove : p.run.Move maxBatchSize r) (hreceived : r.received = p.run.received)
      (hflushed : r.flushed = p.run.flushed)
      (hrun : p.run.pc = .flushing ↔ r.pc = .flushing) :
      Move maxBatchSize p { p with run := r }
  | startFlush (r : Run) (hmove : p.run.Move maxBatchSize r.startFlush)
      (hbatch : r.batch = p.run.batch) (hreceived : r.received = p.run.received)
      (hflushed : r.flushed = p.run.flushed) (hrun : p.run.pc ≠ .flushing) :
      Move maxBatchSize p { p with
        run := r.startFlush, todo := [], flushPC := .filter r.batch, active := [] }
  | plain (o : FlushOp) (rest : List FlushOp) (hrun : p.run.pc = .flushing)
      (htodo : p.todo = o :: rest) (ho : o.Plain) :
      Move maxBatchSize p { p with todo := rest }
  | release (j : Nat) (rest : List FlushOp) (hrun : p.run.pc = .flushing)
      (htodo : p.todo = .op (.release j) :: rest) :
      Move maxBatchSize p (Pipeline.release { p with todo := rest } j)
  | deliver (k : Nat) (resp : Response) (rest : List FlushOp) (hrun : p.run.pc = .flushing)
      (htodo : p.todo = .deliver k resp :: rest) :
      Move maxBatchSize p ((Pipeline.release { p with todo := rest } k).push [.respond k resp])
  | respond (k : Nat) (resp : Response) (rest : List FlushOp) (hrun : p.run.pc = .flushing)
      (htodo : p.todo = .respond k resp :: rest) :
      Move maxBatchSize p ({ p with todo := rest }.update k
        (fun c => { c with respChan := c.respChan.or (some resp) }))
  | cancelled (k : Nat) (rest : List Nat) (hrun : p.run.pc = .flushing) (htodo : p.todo = [])
      (hpc : p.flushPC = .filter (k :: rest)) :
      Move maxBatchSize p (Pipeline.push { p with flushPC := .filter rest }
        [.op (.endSpan (p.calls k).queueSpan "cancelled"), .op (.count .requestsCancelled),
          .deliver k (errorResponse (p.calls k).id .requestCancelled
            "cancelled before batch processing")])
  | active (k : Nat) (rest : List Nat) (hrun : p.run.pc = .flushing) (htodo : p.todo = [])
      (hpc : p.flushPC = .filter (k :: rest)) :
      Move maxBatchSize p
        (Pipeline.push { p with flushPC := .filter rest, active := p.active ++ [k] }
          [.op (.endSpan (p.calls k).queueSpan "ok")])
  | skip (hrun : p.run.pc = .flushing) (htodo : p.todo = []) (hpc : p.flushPC = .filter [])
      (hactive : p.active = []) :
      Move maxBatchSize p { p with flushPC := .done }
  | reject (hrun : p.run.pc = .flushing) (htodo : p.todo = []) (hpc : p.flushPC = .filter []) :
      Move maxBatchSize p
        (Pipeline.push { p with flushPC := .done } (rejectOps p.calls p.active))
  | dispatch (hrun : p.run.pc = .flushing) (htodo : p.todo = []) (hpc : p.flushPC = .filter []) :
      Move maxBatchSize p (Pipeline.push { p with flushPC := .call } (sendOps p.active))
  | call (hrun : p.run.pc = .flushing) (htodo : p.todo = []) (hpc : p.flushPC = .call) :
      Move maxBatchSize p { p with
        rpcs := p.rpcs ++ [{ calls := p.active, requests := batchRequest p.calls p.active }]
        flushPC := .await }
  | reply (answer : Reply) (latency : Int) (order order' : List Nat)
      (hrun : p.run.pc = .flushing) (htodo : p.todo = []) (hpc : p.flushPC = .await)
      (horder : order.Perm p.active) (horder' : order'.Perm p.active) :
      Move maxBatchSize p
        (Pipeline.push { p with rpcs := answerLast p.rpcs answer, flushPC := .done }
          (settleOps p.calls p.active answer latency order order'))
  | finish (hrun : p.run.pc = .flushing) (htodo : p.todo = []) (hpc : p.flushPC = .done) :
      Move maxBatchSize p { p with run := { p.run with pc := .select, batch := [] } }

theorem enqueue_move {g g' : Batcher} {k : Nat} {case : SelectCase} (hk : k < g.submitted)
    (hpc : (g.calls k).pc = .enqueue) (h : g.enqueue config k case = some g') :
    g.toPipeline.Move config.maxBatchSize g'.toPipeline := by
  cases case with
  | ctxDone =>
    simp only [Batcher.enqueue] at h
    split_ifs at h
    obtain rfl := Option.some.inj h
    exact .abandon k hk (Or.inl hpc) _ _ (by simp) (errorResponse_refusal _ _ (by decide))
  | channel =>
    simp only [Batcher.enqueue] at h
    split_ifs at h with hroom hwaits
    · obtain rfl := Option.some.inj h
      exact .send k hk hpc
    · obtain rfl := Option.some.inj h
      exact .handOver k hk hpc hwaits.2
  | default =>
    simp only [Batcher.enqueue] at h
    split_ifs at h
    obtain rfl := Option.some.inj h
    exact .abandon k hk (Or.inl hpc) _ _ (by simp) (errorResponse_refusal _ _ (by decide))

theorem wait_move {g g' : Batcher} {k : Nat} {case : SelectCase} (hk : k < g.submitted)
    (hpc : (g.calls k).pc = .wait) (h : g.wait k case = some g') :
    g.toPipeline.Move config.maxBatchSize g'.toPipeline := by
  cases case with
  | ctxDone =>
    simp only [Batcher.wait] at h
    split_ifs at h
    obtain rfl := Option.some.inj h
    exact .abandon k hk (Or.inr hpc) _ _ (by simp) (errorResponse_refusal _ _ (by decide))
  | channel =>
    simp only [Batcher.wait] at h
    cases hresp : (g.calls k).respChan with
    | none => simp [hresp] at h
    | some resp =>
      simp only [hresp] at h
      obtain rfl := Option.some.inj h
      exact .take k hk hpc _ resp (by simp) hresp
  | default => simp [Batcher.wait] at h

theorem advance_move {g g' : Batcher} {k : Nat} {case : SelectCase} (hk : k < g.submitted)
    (h : g.advance config randomHex k case = some g') :
    g.toPipeline.Move config.maxBatchSize g'.toPipeline := by
  unfold Batcher.advance at h
  cases hpc : (g.calls k).pc with
  | generateID =>
    simp only [hpc] at h
    obtain rfl := Option.some.inj h
    exact .generateID k hk hpc
  | tryAcquire =>
    simp only [hpc] at h
    obtain rfl := Option.some.inj h
    exact .tryAcquire k hk hpc
  | startSpan admitted =>
    simp only [hpc] at h
    obtain rfl := Option.some.inj h
    cases admitted with
    | true => exact .startSpan k hk hpc _
    | false => exact .refuse k hk hpc _ _ _ (by simp) (errorResponse_refusal _ _ (by decide))
  | enqueue =>
    simp only [hpc] at h
    exact enqueue_move hk hpc h
  | queued =>
    simp only [hpc] at h
    obtain rfl := Option.some.inj h
    exact .queued k hk hpc
  | wait =>
    simp only [hpc] at h
    exact wait_move hk hpc h
  | leave todo resp =>
    cases todo with
    | nil =>
      simp only [hpc] at h
      obtain rfl := Option.some.inj h
      exact .return k hk resp hpc
    | cons o rest =>
      simp only [hpc] at h
      obtain rfl := Option.some.inj h
      cases o with
      | release j => exact .exitRelease k hk j rest resp hpc
      | endSpan s status => exact .exit k hk _ rest resp hpc (by simp)
      | count m => exact .exit k hk _ rest resp hpc (by simp)
  | returned resp => simp [hpc] at h

theorem execFlush_move (config : Config) (randomHex : Nat → Nat → String)
    {g : Batcher} {o : FlushOp}
    {rest : List FlushOp} (hrun : g.run.pc = .flushing) (htodo : g.todo = o :: rest) :
    g.toPipeline.Move config.maxBatchSize
      (Batcher.execFlush randomHex { g with todo := rest } o).toPipeline := by
  have hplain : o.Plain → g.toPipeline.Move config.maxBatchSize
      { g.toPipeline with todo := rest } := .plain o rest hrun htodo
  cases o with
  | op o =>
    cases o with
    | release j => exact .release j rest hrun htodo
    | endSpan s status => exact hplain trivial
    | count m => exact hplain trivial
  | endWorker k status =>
    simp only [Batcher.execFlush]
    split <;> exact hplain trivial
  | endFlush k status =>
    simp only [Batcher.execFlush]
    split <;> exact hplain trivial
  | deliver k resp => exact .deliver k resp rest hrun htodo
  | respond k resp => exact .respond k resp rest hrun htodo
  | _ => exact hplain trivial

theorem dispatch_move {g : Batcher} {now : Int} {ready : Option Bool}
    (hrun : g.run.pc = .flushing) (htodo : g.todo = []) (hpc : g.flushPC = .filter []) :
    g.toPipeline.Move config.maxBatchSize (g.dispatch config now ready).toPipeline := by
  simp only [Batcher.dispatch]
  split
  · exact .skip hrun htodo hpc ‹_›
  · split
    · exact .reject hrun htodo hpc
    · exact .dispatch hrun htodo hpc

theorem loop_move {g g' : Batcher} {now : Int} {ready : Option Bool}
    (h : g.loop config randomHex now ready = some g') :
    g.toPipeline.Move config.maxBatchSize g'.toPipeline := by
  have hmove := loop_run h
  unfold Batcher.loop at h
  cases hpc : g.run.pc with
  | select => simp [hpc] at h
  | received k =>
    simp only [hpc] at h
    obtain rfl := Option.some.inj h
    exact .loop _ hmove rfl rfl (by simp [hpc])
  | arm =>
    simp only [hpc] at h
    split_ifs at h
    · obtain rfl := Option.some.inj h
      exact .loop _ hmove rfl rfl (by simp [hpc])
    · obtain rfl := Option.some.inj h
      exact .loop _ hmove rfl rfl (by simp [hpc])
  | check =>
    simp only [hpc] at h
    split_ifs at h with hflush hactive
    · obtain rfl := Option.some.inj h
      exact .startFlush _ hmove rfl rfl rfl (by simp [hpc])
    · obtain rfl := Option.some.inj h
      exact .startFlush _ hmove rfl rfl rfl (by simp [hpc])
    · obtain rfl := Option.some.inj h
      exact .loop _ hmove rfl rfl (by simp [hpc])
  | flushing =>
    simp only [hpc] at h
    split at h
    · obtain rfl := Option.some.inj h
      exact execFlush_move config randomHex hpc ‹_›
    · obtain rfl := Option.some.inj h
      rename_i k rest htodo hfilter
      simp only [Batcher.filter]
      split
      · exact .cancelled k rest hpc htodo hfilter
      · exact .active k rest hpc htodo hfilter
    · obtain rfl := Option.some.inj h
      exact dispatch_move hpc ‹_› ‹_›
    · obtain rfl := Option.some.inj h
      exact .call hpc ‹_› ‹_›
    · exact absurd h (by simp)
    · obtain rfl := Option.some.inj h
      exact .finish hpc ‹_› ‹_›

theorem step_move {g g' : Batcher} {a : Action} (h : step config randomHex g a = some g') :
    g.toPipeline.Move config.maxBatchSize g'.toPipeline := by
  have hmove := step_run h
  cases a with
  | submit prompt traceID parentSpanID =>
    obtain rfl := Option.some.inj h
    exact .submit _ rfl rfl rfl
  | cancel k =>
    simp only [step] at h
    split_ifs at h with hk
    obtain rfl := Option.some.inj h
    exact .cancel k hk.1
  | advance k case =>
    simp only [step] at h
    split_ifs at h with hk
    exact advance_move hk h
  | receive =>
    simp only [step, Batcher.receive] at h
    split at h
    · obtain rfl := Option.some.inj h
      exact .receive _ _ ‹_› ‹_›
    · exact absurd h (by simp)
  | tick =>
    simp only [step, Batcher.tick] at h
    split_ifs at h with hready hbatch
    · obtain rfl := Option.some.inj h
      exact .loop _ hmove rfl rfl (by simp [hready.1])
    · obtain rfl := Option.some.inj h
      exact .startFlush _ hmove rfl rfl rfl (by simp [hready.1])
  | expire =>
    simp only [step, Batcher.expire] at h
    split at h
    · obtain rfl := Option.some.inj h
      exact .loop _ hmove rfl rfl Iff.rfl
    · exact absurd h (by simp)
  | loop now ready => exact loop_move h
  | reply answer latency order order' =>
    simp only [step, Batcher.reply] at h
    split_ifs at h with hready
    obtain rfl := Option.some.inj h
    obtain ⟨hrun, htodo, hpc, horder, horder'⟩ := hready
    exact .reply answer latency order order' hrun htodo hpc horder horder'
  | probe now ready =>
    obtain rfl := Option.some.inj h
    exact .stay
  | streamID =>
    obtain rfl := Option.some.inj h
    exact .streamID

theorem execFlush_submitted (g : Batcher) (o : FlushOp) :
    (g.execFlush randomHex o).submitted = g.submitted := by
  cases o with
  | op o => cases o <;> rfl
  | endWorker k status => simp only [Batcher.execFlush]; split <;> rfl
  | endFlush k status => simp only [Batcher.execFlush]; split <;> rfl
  | _ => rfl

theorem advance_submitted {g g' : Batcher} {k : Nat} {case : SelectCase}
    (h : g.advance config randomHex k case = some g') : g'.submitted = g.submitted := by
  unfold Batcher.advance at h
  cases hpc : (g.calls k).pc with
  | enqueue =>
    simp only [hpc] at h
    cases case <;> simp only [Batcher.enqueue] at h <;> split_ifs at h <;>
      (obtain rfl := Option.some.inj h; rfl)
  | wait =>
    simp only [hpc] at h
    cases case with
    | ctxDone =>
      simp only [Batcher.wait] at h
      split_ifs at h
      obtain rfl := Option.some.inj h
      rfl
    | channel =>
      simp only [Batcher.wait] at h
      split at h
      · obtain rfl := Option.some.inj h
        rfl
      · exact absurd h (by simp)
    | default => simp [Batcher.wait] at h
  | leave todo resp =>
    cases todo with
    | nil =>
      simp only [hpc] at h
      obtain rfl := Option.some.inj h
      rfl
    | cons o rest =>
      simp only [hpc] at h
      obtain rfl := Option.some.inj h
      cases o <;> rfl
  | returned resp => simp [hpc] at h
  | _ =>
    simp only [hpc] at h
    obtain rfl := Option.some.inj h
    rfl

theorem loop_submitted {g g' : Batcher} {now : Int} {ready : Option Bool}
    (h : g.loop config randomHex now ready = some g') : g'.submitted = g.submitted := by
  unfold Batcher.loop at h
  cases hpc : g.run.pc with
  | select => simp [hpc] at h
  | flushing =>
    simp only [hpc] at h
    split at h
    · obtain rfl := Option.some.inj h
      exact execFlush_submitted _ _
    · obtain rfl := Option.some.inj h
      simp only [Batcher.filter]
      split <;> rfl
    · obtain rfl := Option.some.inj h
      simp only [Batcher.dispatch]
      split
      · rfl
      · split <;> rfl
    · obtain rfl := Option.some.inj h
      rfl
    · exact absurd h (by simp)
    · obtain rfl := Option.some.inj h
      rfl
  | _ =>
    simp only [hpc] at h
    first
      | (split_ifs at h <;> (obtain rfl := Option.some.inj h; rfl))
      | (obtain rfl := Option.some.inj h; rfl)

/-- Only a submission makes a new call. -/
theorem step_submitted {g g' : Batcher} {a : Action} (h : step config randomHex g a = some g')
    (hnot : ∀ prompt traceID parentSpanID, a ≠ .submit prompt traceID parentSpanID) :
    g'.submitted = g.submitted := by
  cases a with
  | submit prompt traceID parentSpanID => exact absurd rfl (hnot prompt traceID parentSpanID)
  | advance k case =>
    simp only [step] at h
    split_ifs at h
    exact advance_submitted h
  | loop now ready => exact loop_submitted h
  | receive =>
    simp only [step, Batcher.receive] at h
    split at h
    · obtain rfl := Option.some.inj h
      rfl
    · exact absurd h (by simp)
  | expire =>
    simp only [step, Batcher.expire] at h
    split at h
    · obtain rfl := Option.some.inj h
      rfl
    · exact absurd h (by simp)
  | cancel k =>
    simp only [step] at h
    split_ifs at h
    obtain rfl := Option.some.inj h
    rfl
  | tick =>
    simp only [step, Batcher.tick] at h
    split_ifs at h <;> (obtain rfl := Option.some.inj h; rfl)
  | reply answer latency order order' =>
    simp only [step, Batcher.reply] at h
    split_ifs at h
    obtain rfl := Option.some.inj h
    rfl
  | probe now ready =>
    obtain rfl := Option.some.inj h
    rfl
  | streamID =>
    obtain rfl := Option.some.inj h
    rfl

end Laminar.Gateway
