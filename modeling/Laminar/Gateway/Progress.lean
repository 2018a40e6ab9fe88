import Laminar.Gateway.Owed

/-! The gateway comes to rest: the steps it can take by itself are limited by the number of calls,
and as long as a call has not returned there is one to take. -/
namespace Laminar.Gateway
open Laminar.Transition Laminar.Sums

/-- What a call still has to do, with the work that its request will make. -/
def SubmitPC.work : SubmitPC → Int
  | .generateID => 43
  | .tryAcquire => 42
  | .startSpan _ => 41
  | .enqueue => 40
  | .queued => 6
  | .wait => 5
  | .leave todo _ => todo.length + 1
  | .returned _ => 0

def FlushOp.work : FlushOp → Int
  | .deliver _ _ => 2
  | _ => 1

def FlushPC.work (active : Nat) : FlushPC → Int
  | .filter rest => 9 * rest.length + 7 * active + 9
  | .call => 5 * active + 7
  | .await => 5 * active + 6
  | .done => 1

def Timer.work : Timer → Int
  | .stopped => 0
  | .armed _ => 2
  | .fired => 1

def Pipeline.runWork (p : Pipeline) : Int :=
  p.run.timer.work +
    match p.run.pc with
    | .select => 18 * p.run.batch.length
    | .received _ => 18 * p.run.batch.length + 32
    | .arm => 18 * p.run.batch.length + 13
    | .check => 18 * p.run.batch.length + 10
    | .flushing => (p.todo.map FlushOp.work).sum + p.flushPC.work p.active.length

def Pipeline.work (p : Pipeline) : Int :=
  ∑ k ∈ Finset.range p.submitted, (p.calls k).pc.work + 33 * p.requestChan.length + p.runWork

def Action.internal : Action → Bool
  | .advance _ _ => true
  | .receive => true
  | .tick => true
  | .expire => true
  | .loop _ _ => true
  | .reply _ _ _ _ => true
  | _ => false

theorem SubmitPC.work_nonneg (pc : SubmitPC) : 0 ≤ pc.work := by
  cases pc <;> simp only [SubmitPC.work] <;> omega

theorem FlushOp.work_nonneg (o : FlushOp) : 0 ≤ o.work := by
  cases o <;> simp [FlushOp.work]

theorem FlushPC.work_nonneg (active : Nat) (pc : FlushPC) : 0 ≤ pc.work active := by
  cases pc <;> simp only [FlushPC.work] <;> omega

theorem Timer.work_nonneg (t : Timer) : 0 ≤ t.work := by
  cases t <;> simp [Timer.work]

theorem Pipeline.work_nonneg (p : Pipeline) : 0 ≤ p.work := by
  have hcalls : 0 ≤ ∑ k ∈ Finset.range p.submitted, (p.calls k).pc.work :=
    Finset.sum_nonneg fun k _ => (p.calls k).pc.work_nonneg
  have hops : 0 ≤ (p.todo.map FlushOp.work).sum := by
    refine List.sum_nonneg fun w hw => ?_
    obtain ⟨o, -, rfl⟩ := List.mem_map.mp hw
    exact o.work_nonneg
  have hpc := p.flushPC.work_nonneg p.active.length
  have htimer := p.run.timer.work_nonneg
  have hrun : 0 ≤ p.runWork := by
    unfold Pipeline.runWork
    split <;> omega
  simp only [Pipeline.work]
  omega

section
variable {p : Pipeline} {k : Nat} {f : Call → Call}

theorem Pipeline.Move.submitted_le {maxBatchSize : Int} {p' : Pipeline}
    (h : p.Move maxBatchSize p') : p.submitted ≤ p'.submitted := by
  cases h with
  | submit call hpc hlease hresp => exact Nat.le_succ _
  | _ => exact Nat.le_refl _

theorem work_update (hk : k < p.submitted) :
    (p.update k f).work = p.work + ((f (p.calls k)).pc.work - (p.calls k).pc.work) := by
  have hsum : ∑ j ∈ Finset.range p.submitted, ((p.update k f).calls j).pc.work =
      ∑ j ∈ Finset.range p.submitted, (p.calls j).pc.work +
        ((f (p.calls k)).pc.work - (p.calls k).pc.work) := by
    simp only [update_calls]
    exact sum_range_update (fun c : Call => c.pc.work) p.submitted k p.calls _ hk
  have hsame : (p.update k f).work = ∑ j ∈ Finset.range p.submitted,
      ((p.update k f).calls j).pc.work + 33 * p.requestChan.length + p.runWork := rfl
  rw [hsame, hsum]
  simp only [Pipeline.work]
  omega

theorem work_keep (hpc : (f (p.calls k)).pc = (p.calls k).pc) : (p.update k f).work = p.work := by
  have hsame : ∀ j, ((p.update k f).calls j).pc = (p.calls j).pc := by
    intro j
    rw [update_calls]
    split_ifs with hj
    · rw [hj]
      exact hpc
    · rfl
  have hwork : (p.update k f).work = ∑ j ∈ Finset.range p.submitted,
      ((p.update k f).calls j).pc.work + 33 * p.requestChan.length + p.runWork := rfl
  rw [hwork]
  simp only [hsame]
  rfl

theorem work_release (p : Pipeline) (k : Nat) : (p.release k).work = p.work :=
  work_keep (f := fun c => { c with lease := (c.lease.release p.admission).1 }) rfl

theorem work_submit (call : Call) (hpc : call.pc = .generateID) :
    (Pipeline.update { p with submitted := p.submitted + 1 } p.submitted (fun _ => call)).work =
      p.work + 43 := by
  have hsame : (Pipeline.update { p with submitted := p.submitted + 1 } p.submitted
      (fun _ => call)).work = ∑ j ∈ Finset.range (p.submitted + 1),
        (if j = p.submitted then call else p.calls j).pc.work + 33 * p.requestChan.length +
          p.runWork := by
    simp only [Pipeline.work, update_calls]
    rfl
  rw [hsame, Finset.sum_range_succ, if_pos rfl, hpc,
    sum_range_beyond (fun c : Call => c.pc.work) _ _ _ _ (Nat.le_refl _)]
  simp only [Pipeline.work, SubmitPC.work]
  omega

theorem work_flushing (hrun : p.run.pc = .flushing) :
    p.work = ∑ k ∈ Finset.range p.submitted, (p.calls k).pc.work + 33 * p.requestChan.length +
      (p.run.timer.work + ((p.todo.map FlushOp.work).sum + p.flushPC.work p.active.length)) := by
  simp only [Pipeline.work, Pipeline.runWork, hrun]

end

theorem sum_work_le (ops : List FlushOp) {c : Int} (h : ∀ o ∈ ops, o.work ≤ c) :
    (ops.map FlushOp.work).sum ≤ c * ops.length := by
  induction ops with
  | nil => simp
  | cons o rest ih =>
    have ho := h o List.mem_cons_self
    have hrest := ih fun o' ho' => h o' (List.mem_cons_of_mem o ho')
    simp only [List.map_cons, List.sum_cons, List.length_cons, Nat.cast_add, Nat.cast_one]
    linarith

theorem sum_work_flatMap (ops : Nat → List FlushOp) {c : Int}
    (h : ∀ k, ((ops k).map FlushOp.work).sum ≤ c) (active : List Nat) :
    ((active.flatMap ops).map FlushOp.work).sum ≤ c * active.length := by
  induction active with
  | nil => simp
  | cons k rest ih =>
    have hk := h k
    simp only [List.flatMap_cons, List.map_append, List.sum_append, List.length_cons,
      Nat.cast_add, Nat.cast_one]
    linarith

theorem work_rejectOps (calls : Nat → Call) (active : List Nat) :
    ((rejectOps calls active).map FlushOp.work).sum ≤ 4 * active.length + 1 := by
  have hops := sum_work_flatMap (fun k => [.startFlush k, .endFlush k "error",
    .deliver k (errorResponse (calls k).id .workerUnavailable "worker temporarily unavailable")])
    (c := 4) (fun k => by simp [FlushOp.work]) active
  simp only [rejectOps, List.map_cons, List.sum_cons, FlushOp.work] at hops ⊢
  omega

theorem work_sendOps (active : List Nat) :
    ((sendOps active).map FlushOp.work).sum ≤ 2 * active.length + 1 := by
  have hops := sum_work_le (sendOps active) (c := 1) fun o ho => by
    simp only [sendOps, List.mem_cons, List.mem_append, List.mem_map] at ho
    obtain rfl | ⟨k, -, rfl⟩ | ⟨k, -, rfl⟩ := ho <;> simp [FlushOp.work]
  have hlength : (sendOps active).length = 2 * active.length + 1 := by
    simp only [sendOps, List.length_cons, List.length_append, List.length_map]
    omega
  rw [hlength] at hops
  simpa using hops

theorem work_failureOps (calls : Nat → Call) (active : List Nat) (err : Error) (latency : Int)
    (order : List Nat) : ((failureOps calls active err latency order).map FlushOp.work).sum ≤
      2 * order.length + 2 * active.length + 3 := by
  have hends := sum_work_flatMap
    (fun k => [.endWorker k "error", .endFlush k "error"]) (c := 2)
    (fun k => by simp [FlushOp.work]) order
  have htell := sum_work_le (active.map fun k => .deliver k
    (errorResponse (calls k).id (classifyWorkerError err).1 (classifyWorkerError err).2)) (c := 2)
    (fun o ho => by
      obtain ⟨k, -, rfl⟩ := List.mem_map.mp ho
      simp [FlushOp.work])
  rw [List.length_map] at htell
  simp only [failureOps, List.map_append, List.sum_append, List.map_cons, List.map_nil,
    List.sum_cons, List.sum_nil, FlushOp.work]
  linarith

theorem work_successOps (calls : Nat → Call) (active : List Nat) (items : List ResponseItem)
    (latency : Int) (order order' : List Nat) :
    ((successOps calls active items latency order order').map FlushOp.work).sum ≤
      order.length + 3 * active.length + order'.length + 2 := by
  have hone : ∀ (name : Nat → FlushOp) (ks : List Nat), (∀ k, (name k).work = 1) →
      ((ks.map name).map FlushOp.work).sum ≤ ks.length := by
    intro name ks hname
    have hsum := sum_work_le (ks.map name) (c := 1) fun o ho => by
      obtain ⟨k, -, rfl⟩ := List.mem_map.mp ho
      exact (hname k).le
    simpa using hsum
  have hanswers := sum_work_flatMap (answerOps calls items) (c := 3) (fun k => by
    unfold answerOps
    split
    · simp [FlushOp.work]
    · split_ifs <;> simp [FlushOp.work]) active
  have hends := hone (fun k => .endWorker k "ok") order fun _ => rfl
  have hflush := hone (fun k => .endFlush k "ok") order' fun _ => rfl
  simp only [successOps, List.map_append, List.sum_append, List.map_cons, List.map_nil,
    List.sum_cons, List.sum_nil, FlushOp.work] at hanswers hends hflush ⊢
  linarith

theorem work_settleOps (calls : Nat → Call) {active order order' : List Nat} (answer : Reply)
    (latency : Int) (horder : order.Perm active) (horder' : order'.Perm active) :
    ((settleOps calls active answer latency order order').map FlushOp.work).sum ≤
      5 * active.length + 4 := by
  have hlen := horder.length_eq
  have hlen' := horder'.length_eq
  cases answer with
  | error err =>
    have hops := work_failureOps calls active err latency order
    simp only [settleOps, List.map_cons, List.sum_cons, FlushOp.work]
    omega
  | ok items =>
    have hops := work_successOps calls active items latency order order'
    simp only [settleOps, List.map_cons, List.sum_cons, FlushOp.work]
    omega

section
variable {config : Config} {randomHex : Nat → Nat → String} {g g' : Batcher} {k : Nat}

theorem work_lower {p : Pipeline} {f : Call → Call} (hk : k < p.submitted)
    (hpc : (f (p.calls k)).pc.work + 1 ≤ (p.calls k).pc.work) :
    (p.update k f).work + 1 ≤ p.work := by
  rw [work_update hk]
  omega

theorem enqueue_work {case : SelectCase} (hk : k < g.submitted)
    (hpc : (g.calls k).pc = .enqueue) (h : g.enqueue config k case = some g') :
    g'.work + 1 ≤ g.work := by
  cases case with
  | ctxDone =>
    simp only [Batcher.enqueue] at h
    split_ifs at h
    obtain rfl := Option.some.inj h
    exact work_lower hk (by simp [hpc, SubmitPC.work])
  | channel =>
    simp only [Batcher.enqueue] at h
    split_ifs at h with hroom hwaits
    · obtain rfl := Option.some.inj h
      have hsent := work_update (p := { g.toPipeline with requestChan := g.requestChan ++ [k] })
        (f := fun c => { c with pc := .queued }) hk
      have hchan : Pipeline.work { g.toPipeline with requestChan := g.requestChan ++ [k] } =
          g.work + 33 := by
        simp only [Pipeline.work, Pipeline.runWork, List.length_append, List.length_singleton,
          Nat.cast_add, Nat.cast_one]
        omega
      simp only [hpc, SubmitPC.work, hchan] at hsent
      simp only [Batcher.update, hsent]
      omega
    · obtain rfl := Option.some.inj h
      have hsent := work_update (p := { g.toPipeline with run := g.run.receive k })
        (f := fun c => { c with pc := .queued }) hk
      have hrun : Pipeline.work { g.toPipeline with run := g.run.receive k } = g.work + 32 := by
        simp only [Pipeline.work, Pipeline.runWork, Run.receive, hwaits.2]
        omega
      simp only [hpc, SubmitPC.work, hrun] at hsent
      simp only [Batcher.update, hsent]
      omega
  | default =>
    simp only [Batcher.enqueue] at h
    split_ifs at h
    obtain rfl := Option.some.inj h
    exact work_lower hk (by simp [hpc, SubmitPC.work])

theorem wait_work {case : SelectCase} (hk : k < g.submitted) (hpc : (g.calls k).pc = .wait)
    (h : g.wait k case = some g') : g'.work + 1 ≤ g.work := by
  cases case with
  | ctxDone =>
    simp only [Batcher.wait] at h
    split_ifs at h
    obtain rfl := Option.some.inj h
    exact work_lower hk (by simp [hpc, SubmitPC.work])
  | channel =>
    simp only [Batcher.wait] at h
    split at h
    · obtain rfl := Option.some.inj h
      exact work_lower hk (by simp [hpc, SubmitPC.work])
    · exact absurd h (by simp)
  | default => simp [Batcher.wait] at h

theorem exec_work (o : Op) : (g.exec o).work = g.work := by
  cases o with
  | release j => exact work_release g.toPipeline j
  | endSpan s status => rfl
  | count m => rfl

theorem exec_call (o : Op) (j : Nat) : ((g.exec o).calls j).pc = (g.calls j).pc ∧
    ((g.exec o).calls j).respChan = (g.calls j).respChan := by
  cases o with
  | release i =>
    simp only [Batcher.exec, release_calls]
    split_ifs with hj
    · rw [hj]
      exact ⟨rfl, rfl⟩
    · exact ⟨rfl, rfl⟩
  | endSpan s status => exact ⟨rfl, rfl⟩
  | count m => exact ⟨rfl, rfl⟩

theorem execFlush_pc (o : FlushOp) (j : Nat) :
    ((g.execFlush randomHex o).calls j).pc = (g.calls j).pc := by
  cases o with
  | op o => exact (exec_call o j).1
  | endWorker i status => simp only [Batcher.execFlush]; split <;> rfl
  | endFlush i status => simp only [Batcher.execFlush]; split <;> rfl
  | deliver i resp => exact (exec_call (.release i) j).1
  | respond i resp =>
    simp only [Batcher.execFlush, Batcher.update, update_calls]
    split_ifs with hj
    · rw [hj]
    · rfl
  | _ => rfl

/-- Neither `run` nor `flush` gets on with a call. -/
theorem loop_pc {now : Int} {ready : Option Bool}
    (h : g.loop config randomHex now ready = some g') (j : Nat) :
    (g'.calls j).pc = (g.calls j).pc := by
  unfold Batcher.loop at h
  cases hpc : g.run.pc with
  | select => simp [hpc] at h
  | flushing =>
    simp only [hpc] at h
    split at h
    · obtain rfl := Option.some.inj h
      exact execFlush_pc _ j
    · obtain rfl := Option.some.inj h
      simp only [Batcher.filter]
      split <;> rfl
    · obtain rfl := Option.some.inj h
      simp only [Batcher.dispatch]
      split
      · rfl
      · split <;> rfl
    · obtain rfl := Option.some.inj h
      rfl
    · exact absurd h (by simp)
    · obtain rfl := Option.some.inj h
      rfl
  | _ =>
    simp only [hpc] at h
    first
      | (split_ifs at h <;> (obtain rfl := Option.some.inj h; rfl))
      | (obtain rfl := Option.some.inj h; rfl)

theorem advance_other {case : SelectCase} (h : g.advance config randomHex k case = some g')
    {j : Nat} (hj : j ≠ k) :
    (g'.calls j).pc = (g.calls j).pc ∧ (g'.calls j).respChan = (g.calls j).respChan := by
  unfold Batcher.advance at h
  cases hpc : (g.calls k).pc with
  | enqueue =>
    simp only [hpc] at h
    cases case <;> simp only [Batcher.enqueue] at h <;> split_ifs at h <;>
      (obtain rfl := Option.some.inj h; simp [Batcher.leave, Pipeline.leave, Batcher.update,
        update_calls, hj])
  | wait =>
    simp only [hpc] at h
    cases case with
    | ctxDone =>
      simp only [Batcher.wait] at h
      split_ifs at h
      obtain rfl := Option.some.inj h
      simp [Batcher.leave, Pipeline.leave, update_calls, hj]
    | channel =>
      simp only [Batcher.wait] at h
      split at h
      · obtain rfl := Option.some.inj h
        simp [Batcher.update, update_calls, hj]
      · exact absurd h (by simp)
    | default => simp [Batcher.wait] at h
  | leave todo resp =>
    cases todo with
    | nil =>
      simp only [hpc] at h
      obtain rfl := Option.some.inj h
      simp [Batcher.update, update_calls, hj]
    | cons o rest =>
      simp only [hpc] at h
      obtain rfl := Option.some.inj h
      simp only [Batcher.leave, Pipeline.leave, update_calls, if_neg hj]
      exact exec_call o j
  | returned resp => simp [hpc] at h
  | _ =>
    simp only [hpc] at h
    obtain rfl := Option.some.inj h
    simp [Batcher.update, update_calls, hj]

/-- A call gets on by steps of its own goroutine alone. -/
theorem step_pc {a : Action} (h : step config randomHex g a = some g') {j : Nat}
    (hj : j < g.submitted) (hnot : ∀ case, a ≠ .advance j case) :
    (g'.calls j).pc = (g.calls j).pc := by
  cases a with
  | submit prompt traceID parentSpanID =>
    obtain rfl := Option.some.inj h
    simp [Batcher.update, update_calls, hj.ne]
  | cancel i =>
    simp only [step] at h
    split_ifs at h
    obtain rfl := Option.some.inj h
    simp only [Batcher.update, update_calls]
    split_ifs with hji
    · rw [hji]
    · rfl
  | advance i case =>
    simp only [step] at h
    split_ifs at h
    exact (advance_other h fun hji => hnot case (hji ▸ rfl)).1
  | receive =>
    simp only [step, Batcher.receive] at h
    split at h
    · obtain rfl := Option.some.inj h
      rfl
    · exact absurd h (by simp)
  | tick =>
    simp only [step, Batcher.tick] at h
    split_ifs at h <;> (obtain rfl := Option.some.inj h; rfl)
  | expire =>
    simp only [step, Batcher.expire] at h
    split at h
    · obtain rfl := Option.some.inj h
      rfl
    · exact absurd h (by simp)
  | loop now ready => exact loop_pc h j
  | reply answer latency order order' =>
    simp only [step, Batcher.reply] at h
    split_ifs at h
    obtain rfl := Option.some.inj h
    rfl
  | probe now ready =>
    obtain rfl := Option.some.inj h
    rfl
  | streamID =>
    obtain rfl := Option.some.inj h
    rfl

theorem exec_submitted (o : Op) : (g.exec o).submitted = g.submitted := by
  cases o <;> rfl

theorem advance_work {case : SelectCase} (hk : k < g.submitted)
    (h : g.advance config randomHex k case = some g') : g'.work + 1 ≤ g.work := by
  unfold Batcher.advance at h
  cases hpc : (g.calls k).pc with
  | generateID =>
    simp only [hpc] at h
    obtain rfl := Option.some.inj h
    exact work_lower (p := { g.toPipeline with nextID := g.nextID + 1 }) hk
      (by simp [hpc, SubmitPC.work])
  | tryAcquire =>
    simp only [hpc] at h
    obtain rfl := Option.some.inj h
    exact work_lower (p := { g.toPipeline with
      admission := (g.admission.tryAcquire (g.calls k).prompt).2.2 }) hk
      (by simp [hpc, SubmitPC.work])
  | startSpan admitted =>
    simp only [hpc] at h
    obtain rfl := Option.some.inj h
    refine work_lower hk ?_
    cases admitted <;> simp [hpc, SubmitPC.work]
  | enqueue =>
    simp only [hpc] at h
    exact enqueue_work hk hpc h
  | queued =>
    simp only [hpc] at h
    obtain rfl := Option.some.inj h
    exact work_lower hk (by simp [hpc, SubmitPC.work])
  | wait =>
    simp only [hpc] at h
    exact wait_work hk hpc h
  | leave todo resp =>
    cases todo with
    | nil =>
      simp only [hpc] at h
      obtain rfl := Option.some.inj h
      exact work_lower hk (by simp [hpc, SubmitPC.work])
    | cons o rest =>
      simp only [hpc] at h
      obtain rfl := Option.some.inj h
      have hlower := work_lower (p := (g.exec o).toPipeline) (k := k)
        (f := fun c => { c with pc := .leave rest resp }) (by rw [exec_submitted]; exact hk)
        (by simp [exec_call, hpc, SubmitPC.work])
      rw [exec_work] at hlower
      exact hlower
  | returned resp => simp [hpc] at h

theorem execFlush_work {o : FlushOp} {rest : List FlushOp} (hrun : g.run.pc = .flushing)
    (htodo : g.todo = o :: rest) :
    (Batcher.execFlush randomHex { g with todo := rest } o).work + 1 ≤ g.work := by
  have hrest : Pipeline.work { g.toPipeline with todo := rest } + o.work = g.work := by
    rw [work_flushing hrun, htodo, work_flushing (by exact hrun)]
    simp only [List.map_cons, List.sum_cons]
    omega
  have hone : o.work = 1 → Pipeline.work { g.toPipeline with todo := rest } + 1 ≤ g.work := by
    intro h
    omega
  cases o with
  | op o =>
    have hsame := exec_work (g := { g with todo := rest }) o
    simp only [Batcher.execFlush, hsame]
    exact hone rfl
  | endWorker k status =>
    simp only [Batcher.execFlush]
    split <;> exact hone rfl
  | endFlush k status =>
    simp only [Batcher.execFlush]
    split <;> exact hone rfl
  | deliver k resp =>
    have hsame := work_release { g.toPipeline with todo := rest } k
    have hpush : (Pipeline.push (Pipeline.release { g.toPipeline with todo := rest } k)
        [.respond k resp]).work =
        (Pipeline.release { g.toPipeline with todo := rest } k).work + 1 := by
      rw [work_flushing (by exact hrun), work_flushing (by exact hrun)]
      simp only [Pipeline.push, List.map_append, List.sum_append, List.map_cons, List.map_nil,
        List.sum_cons, List.sum_nil, FlushOp.work]
      omega
    simp only [FlushOp.work] at hrest
    simp only [Batcher.execFlush, Batcher.exec, Batcher.push, hpush, hsame]
    omega
  | respond k resp =>
    have hsame := work_keep (p := { g.toPipeline with todo := rest }) (k := k)
      (f := fun c => { c with respChan := c.respChan.or (some resp) }) rfl
    simp only [Batcher.execFlush, Batcher.update, hsame]
    exact hone rfl
  | _ => exact hone rfl

theorem filter_work {rest : List Nat} (hrun : g.run.pc = .flushing) (htodo : g.todo = [])
    (hpc : g.flushPC = .filter (k :: rest)) : (g.filter k rest).work + 1 ≤ g.work := by
  rw [work_flushing hrun, htodo, hpc]
  simp only [Batcher.filter]
  split
  · rw [work_flushing (by exact hrun)]
    simp only [Batcher.push, Pipeline.push, htodo, List.append_nil, List.map_cons, List.map_nil,
      List.sum_cons, List.sum_nil, FlushOp.work, FlushPC.work, List.length_cons, Nat.cast_add,
      Nat.cast_one]
    omega
  · rw [work_flushing (by exact hrun)]
    simp only [Batcher.push, Pipeline.push, htodo, List.append_nil, List.map_cons, List.map_nil,
      List.sum_cons, List.sum_nil, FlushOp.work, FlushPC.work, List.length_append,
      List.length_cons, List.length_nil, Nat.cast_add, Nat.cast_one]
    omega

theorem dispatch_work {now : Int} {ready : Option Bool} (hrun : g.run.pc = .flushing)
    (htodo : g.todo = []) (hpc : g.flushPC = .filter []) :
    (g.dispatch config now ready).work + 1 ≤ g.work := by
  rw [work_flushing hrun, htodo, hpc]
  simp only [Batcher.dispatch]
  split
  · rw [work_flushing (by exact hrun)]
    simp only [htodo, List.map_nil, List.sum_nil, FlushPC.work, List.length_nil]
    omega
  · split
    · have hops := work_rejectOps g.calls g.active
      rw [work_flushing (by exact hrun)]
      simp only [Batcher.push, Pipeline.push, htodo, List.append_nil, List.map_nil, List.sum_nil,
        FlushPC.work, List.length_nil]
      omega
    · have hops := work_sendOps g.active
      rw [work_flushing (by exact hrun)]
      simp only [Batcher.push, Pipeline.push, htodo, List.append_nil, List.map_nil, List.sum_nil,
        FlushPC.work, List.length_nil]
      omega

theorem reply_work {answer : Reply} {latency : Int} {order order' : List Nat}
    (h : g.reply answer latency order order' = some g') : g'.work + 1 ≤ g.work := by
  simp only [Batcher.reply] at h
  split_ifs at h with hready
  obtain rfl := Option.some.inj h
  obtain ⟨hrun, htodo, hpc, horder, horder'⟩ := hready
  have hops := work_settleOps g.calls answer latency horder horder'
  rw [work_flushing hrun, work_flushing (by exact hrun), htodo, hpc]
  simp only [Batcher.push, Pipeline.push, List.append_nil, List.map_nil, List.sum_nil, FlushPC.work]
  omega

theorem work_run {p p' : Pipeline} (hcalls : p'.calls = p.calls)
    (hsubmitted : p'.submitted = p.submitted) (hchan : p'.requestChan = p.requestChan)
    (hrun : p'.runWork + 1 ≤ p.runWork) : p'.work + 1 ≤ p.work := by
  simp only [Pipeline.work, hcalls, hsubmitted, hchan]
  omega

theorem loop_work {now : Int} {ready : Option Bool}
    (h : g.loop config randomHex now ready = some g') : g'.work + 1 ≤ g.work := by
  have htimer := g.run.timer.work_nonneg
  unfold Batcher.loop at h
  cases hpc : g.run.pc with
  | select => simp [hpc] at h
  | received k =>
    simp only [hpc] at h
    obtain rfl := Option.some.inj h
    refine work_run rfl rfl rfl ?_
    simp only [Pipeline.runWork, hpc, List.length_append, List.length_cons, List.length_nil,
      Nat.cast_add, Nat.cast_one]
    omega
  | arm =>
    simp only [hpc] at h
    split_ifs at h
    · obtain rfl := Option.some.inj h
      refine work_run rfl rfl rfl ?_
      simp only [Pipeline.runWork, hpc, Timer.work] at htimer ⊢
      omega
    · obtain rfl := Option.some.inj h
      refine work_run rfl rfl rfl ?_
      simp only [Pipeline.runWork, hpc]
      omega
  | check =>
    simp only [hpc] at h
    split_ifs at h with hflush hactive
    · obtain rfl := Option.some.inj h
      refine work_run rfl rfl rfl ?_
      simp only [Pipeline.runWork, Batcher.startFlush, Run.startFlush, hpc, stopTimer, Timer.work,
        FlushPC.work, List.map_nil, List.sum_nil, List.length_nil] at htimer ⊢
      omega
    · obtain rfl := Option.some.inj h
      refine work_run rfl rfl rfl ?_
      simp only [Pipeline.runWork, Batcher.startFlush, Run.startFlush, hpc, FlushPC.work,
        List.map_nil, List.sum_nil, List.length_nil]
      omega
    · obtain rfl := Option.some.inj h
      refine work_run rfl rfl rfl ?_
      simp only [Pipeline.runWork, hpc]
      omega
  | flushing =>
    simp only [hpc] at h
    split at h
    · obtain rfl := Option.some.inj h
      exact execFlush_work hpc ‹_›
    · obtain rfl := Option.some.inj h
      exact filter_work hpc ‹_› ‹_›
    · obtain rfl := Option.some.inj h
      exact dispatch_work hpc ‹_› ‹_›
    · obtain rfl := Option.some.inj h
      rename_i htodo hcall
      refine work_run rfl rfl rfl ?_
      simp only [Pipeline.runWork, Batcher.call, hpc, htodo, hcall, FlushPC.work]
      omega
    · exact absurd h (by simp)
    · obtain rfl := Option.some.inj h
      rename_i htodo hdone
      refine work_run rfl rfl rfl ?_
      simp only [Pipeline.runWork, hpc, htodo, hdone, FlushPC.work, List.map_nil, List.sum_nil,
        List.length_nil]
      omega

theorem receive_work (h : g.receive = some g') : g'.work + 1 ≤ g.work := by
  simp only [Batcher.receive] at h
  split at h
  · rename_i k rest hpc hchan
    obtain rfl := Option.some.inj h
    simp only [Pipeline.work, Pipeline.runWork, Run.receive, hpc, hchan, List.length_cons,
      Nat.cast_add, Nat.cast_one]
    omega
  · exact absurd h (by simp)

theorem tick_work (h : g.tick = some g') : g'.work + 1 ≤ g.work := by
  simp only [Batcher.tick] at h
  split_ifs at h with hready hbatch
  · obtain rfl := Option.some.inj h
    refine work_run rfl rfl rfl ?_
    simp only [Pipeline.runWork, hready.1, hready.2, Timer.work]
    omega
  · obtain rfl := Option.some.inj h
    have hlength := List.length_pos_iff.mpr hbatch
    refine work_run rfl rfl rfl ?_
    simp only [Pipeline.runWork, Batcher.startFlush, Run.startFlush, hready.1, hready.2,
      Timer.work, FlushPC.work, List.map_nil, List.sum_nil, List.length_nil]
    omega

theorem expire_work (h : g.expire = some g') : g'.work + 1 ≤ g.work := by
  simp only [Batcher.expire] at h
  split at h
  · rename_i wait harmed
    obtain rfl := Option.some.inj h
    refine work_run rfl rfl rfl ?_
    simp only [Pipeline.runWork, harmed, Timer.work]
    omega
  · exact absurd h (by simp)

def Pipeline.balance (p : Pipeline) : Int := p.work - 43 * p.submitted

/-- Every step of the gateway itself takes off work; only a new call brings some. -/
theorem step_balance {a : Action} (h : step config randomHex g a = some g') :
    g'.balance + (if a.internal then 1 else 0) ≤ g.balance := by
  have hle := (step_move h).submitted_le
  have hlower : g'.work + 1 ≤ g.work → g'.balance + 1 ≤ g.balance := by
    intro hwork
    simp only [Pipeline.balance]
    omega
  cases a with
  | submit prompt traceID parentSpanID =>
    obtain rfl := Option.some.inj h
    have hwork := work_submit (p := g.toPipeline)
      { prompt := prompt, traceID := traceID, parentSpanID := parentSpanID } rfl
    have hnow : (Pipeline.update { g.toPipeline with submitted := g.submitted + 1 } g.submitted
        (fun _ =>
          { prompt := prompt, traceID := traceID, parentSpanID := parentSpanID })).submitted =
          g.submitted + 1 := rfl
    simp only [Action.internal, Pipeline.balance, Batcher.update, hwork, hnow, Nat.cast_add,
      Nat.cast_one]
    simp only [Bool.false_eq_true, if_false]
    omega
  | cancel k =>
    simp only [step] at h
    split_ifs at h
    obtain rfl := Option.some.inj h
    have hsame := work_keep (p := g.toPipeline) (k := k)
      (f := fun c => { c with ctxDone := true }) rfl
    simp only [Pipeline.balance, Batcher.update, hsame]
    exact (add_zero _).le
  | advance k case =>
    simp only [step] at h
    split_ifs at h with hk
    exact hlower (advance_work hk h)
  | receive => exact hlower (receive_work h)
  | tick => exact hlower (tick_work h)
  | expire => exact hlower (expire_work h)
  | loop now ready => exact hlower (loop_work h)
  | reply answer latency order order' => exact hlower (reply_work h)
  | probe now ready =>
    obtain rfl := Option.some.inj h
    exact (add_zero _).le
  | streamID =>
    obtain rfl := Option.some.inj h
    exact (add_zero _).le

variable (config randomHex) in
def Batcher.AtRest (g : Batcher) : Prop :=
  ∀ a : Action, a.internal = true → step config randomHex g a = none

theorem Batcher.atRest (hpc : g.run.pc = .select) (htimer : g.run.timer = .stopped)
    (hchan : g.requestChan = []) (hreturned : ∀ k < g.submitted, (g.calls k).pc.stage = 7) :
    g.AtRest config randomHex := by
  intro a ha
  cases a with
  | advance k case =>
    simp only [step]
    split_ifs with hk
    · have hstage := hreturned k hk
      cases hcall : (g.calls k).pc with
      | returned resp => simp only [Batcher.advance, hcall]
      | _ => simp [hcall, SubmitPC.stage] at hstage
    · rfl
  | receive => simp [step, Batcher.receive, hchan]
  | tick => simp [step, Batcher.tick, htimer]
  | expire => simp [step, Batcher.expire, htimer]
  | loop now ready => simp [step, Batcher.loop, hpc]
  | reply answer latency order order' => simp [step, Batcher.reply, hpc]
  | _ => simp [Action.internal] at ha

theorem Batcher.AtRest.advance (h : g.AtRest config randomHex) (hk : k < g.submitted)
    (case : SelectCase) : g.advance config randomHex k case = none := by
  have hnone := h (.advance k case) rfl
  simpa only [step, if_pos hk] using hnone

/-- At rest, `run` waits for requests and has none. -/
theorem Batcher.AtRest.run (hinv : g.run.Inv config.maxBatchSize)
    (h : g.AtRest config randomHex) :
    g.run.pc = .select ∧ g.run.batch = [] ∧ g.requestChan = [] := by
  have hloop := h (.loop 0 none) rfl
  have hpc : g.run.pc = .select := by
    cases hpc : g.run.pc with
    | select => rfl
    | received j => simp [step, Batcher.loop, hpc] at hloop
    | arm =>
      simp only [step, Batcher.loop, hpc] at hloop
      split_ifs at hloop
    | check =>
      simp only [step, Batcher.loop, hpc] at hloop
      split_ifs at hloop
    | flushing =>
      simp only [step, Batcher.loop, hpc] at hloop
      split at hloop
      · exact absurd hloop (by simp)
      · exact absurd hloop (by simp)
      · exact absurd hloop (by simp)
      · exact absurd hloop (by simp)
      · -- the worker may still answer
        have hreply := h (.reply (.error .eof) 0 g.active g.active) rfl
        simp only [step, Batcher.reply] at hreply
        rw [if_pos ⟨hpc, ‹_›, ‹_›, List.Perm.refl _, List.Perm.refl _⟩] at hreply
        exact absurd hreply (by simp)
      · exact absurd hloop (by simp)
  refine ⟨hpc, ?_, ?_⟩
  · by_contra hbatch
    have hholds := hinv.holds
    simp only [Run.Holds, hpc] at hholds
    have hrunning := hinv.timer.mp (hholds.1.mpr hbatch)
    cases ht : g.run.timer with
    | stopped => exact hrunning ht
    | armed wait =>
      have hexpire := h .expire rfl
      simp [step, Batcher.expire, ht] at hexpire
    | fired =>
      have htick := h .tick rfl
      simp [step, Batcher.tick, ht, hpc, hbatch] at htick
  · have hreceive := h .receive rfl
    simp only [step, Batcher.receive, hpc] at hreceive
    cases hchan : g.requestChan with
    | nil => rfl
    | cons j rest => simp [hchan] at hreceive

/-- At rest, every call has returned. -/
theorem Batcher.AtRest.returned (hinv : g.run.Inv config.maxBatchSize)
    (htended : g.toPipeline.Tended) (h : g.AtRest config randomHex) (hk : k < g.submitted) :
    ∃ resp, (g.calls k).pc = .returned resp := by
  have hstep := h.advance hk .channel
  unfold Batcher.advance at hstep
  cases hpc : (g.calls k).pc with
  | enqueue =>
    exfalso
    by_cases hroom : g.requestChan.length < config.queueCapacity
    · simp [hpc, Batcher.enqueue, hroom] at hstep
    · cases hctx : (g.calls k).ctxDone with
      | true =>
        have hcancel := h.advance hk .ctxDone
        simp [Batcher.advance, hpc, Batcher.enqueue, hctx] at hcancel
      | false =>
        have hfull := h.advance hk .default
        simp only [Batcher.advance, hpc, Batcher.enqueue, hctx] at hfull
        rw [if_pos ⟨rfl, Nat.not_lt.mp hroom⟩] at hfull
        exact absurd hfull (by simp)
  | wait =>
    exfalso
    obtain ⟨hselect, hbatch, hchan⟩ := h.run hinv
    obtain ⟨htodo, hdone⟩ := htended.idle (by simp [hselect])
    obtain hwait | hactive | ⟨o, ho, -⟩ | hresp := htended.owed k
      (by simp [hpc, SubmitPC.Listening])
    · simp [Pipeline.waiting, Run.held, hselect, hbatch, hchan, hdone, FlushPC.rest] at hwait
    · exact hactive.2 hdone
    · simp [htodo] at ho
    · obtain ⟨resp, hresp⟩ := Option.ne_none_iff_exists'.mp hresp
      simp [hpc, Batcher.wait, hresp] at hstep
  | leave todo resp =>
    cases todo with
    | nil => simp [hpc] at hstep
    | cons o rest => simp [hpc] at hstep
  | returned resp => exact ⟨resp, rfl⟩
  | _ => simp [hpc] at hstep

end

end Laminar.Gateway
