import Laminar.Gateway.Counters

/-! What `flush` tells the calls, as far as the counters are concerned: which of its answers are for
requests that it finds cancelled, and when it counts them. -/
namespace Laminar.Gateway
open Laminar.Transition
variable {maxBatchSize : Int} {p p' : Pipeline} {k : Nat}

def Response.Neutral (resp : Response) : Prop :=
  resp.errorCode ≠ some .requestCancelled ∧ resp.errorCode ≠ some .queueFull ∧
    resp.errorCode ≠ some .admissionRejected

theorem Response.Neutral.turned {resp : Response} (h : resp.Neutral) : resp.turned = false := by
  simp [Response.turned, h.1]

structure FlushOp.Neutral (o : FlushOp) : Prop where
  counts : ∀ m : Metric, o = .op (.count m) → ¬ m.OfRequests
  answer : ∀ k resp, o.answer = some (k, resp) → resp.Neutral

theorem FlushOp.Neutral.of_silent {o : FlushOp} (hop : ∀ o', o ≠ .op o')
    (hanswer : o.answer = none) : o.Neutral :=
  ⟨fun m hm => absurd hm (hop _), fun k resp hk => by simp [hanswer] at hk⟩

theorem FlushOp.Neutral.of_count {m : Metric} (hm : ¬ m.OfRequests) :
    FlushOp.Neutral (.op (.count m)) := by
  refine ⟨fun m' hm' => ?_, by simp [FlushOp.answer]⟩
  obtain rfl : m = m' := by simpa using hm'
  exact hm

theorem FlushOp.Neutral.of_deliver {resp : Response} (h : resp.Neutral) :
    FlushOp.Neutral (.deliver k resp) := by
  refine ⟨by simp, fun j resp' hj => ?_⟩
  obtain ⟨-, rfl⟩ := Prod.mk.inj (Option.some.inj hj)
  exact h

theorem neutral_error {id : String} {code : ErrorCode} {message : String}
    (h : code ≠ .requestCancelled ∧ code ≠ .queueFull ∧ code ≠ .admissionRejected) :
    (errorResponse id code message).Neutral := by
  simpa [Response.Neutral, errorResponse] using h

theorem neutral_rejectOps {calls : Nat → Call} {active : List Nat} {o : FlushOp}
    (ho : o ∈ rejectOps calls active) : o.Neutral := by
  obtain rfl | ho := List.mem_cons.mp ho
  · exact .of_silent (by simp) rfl
  obtain ⟨j, -, ho⟩ := List.mem_flatMap.mp ho
  simp only [List.mem_cons, List.not_mem_nil, or_false] at ho
  obtain rfl | rfl | rfl := ho
  · exact .of_silent (by simp) rfl
  · exact .of_silent (by simp) rfl
  · exact .of_deliver (neutral_error (by simp))

theorem neutral_sendOps {active : List Nat} {o : FlushOp} (ho : o ∈ sendOps active) :
    o.Neutral := by
  simp only [sendOps, List.mem_cons, List.mem_append, List.mem_map] at ho
  obtain rfl | ⟨j, -, rfl⟩ | ⟨j, -, rfl⟩ := ho
  · exact .of_count id
  · exact .of_silent (by simp) rfl
  · exact .of_silent (by simp) rfl

theorem neutral_answerOps {calls : Nat → Call} {items : List ResponseItem} {j : Nat} {o : FlushOp}
    (ho : o ∈ answerOps calls items j) : o.Neutral := by
  unfold answerOps at ho
  cases hfound : findResponse items (calls j).id with
  | none =>
    simp only [hfound, List.mem_singleton] at ho
    rw [ho]
    exact .of_deliver (neutral_error (by simp))
  | some item =>
    simp only [hfound, List.mem_append, List.mem_singleton] at ho
    obtain ho | rfl := ho
    · split_ifs at ho
      · obtain rfl := List.mem_singleton.mp ho
        exact .of_silent (by simp) rfl
      · simp at ho
    · exact .of_deliver (by simp [Response.Neutral])

theorem neutral_settleOps {calls : Nat → Call} {active order order' : List Nat} {answer : Reply}
    {latency : Int} {o : FlushOp} (ho : o ∈ settleOps calls active answer latency order order') :
    o.Neutral := by
  obtain rfl | ho := List.mem_cons.mp ho
  · exact .of_count id
  cases answer with
  | error err =>
    simp only [failureOps, List.mem_append, List.mem_flatMap, List.mem_map, List.mem_cons,
      List.not_mem_nil, or_false] at ho
    obtain (⟨j, -, rfl | rfl⟩ | rfl | rfl | rfl) | ⟨j, -, rfl⟩ := ho
    iterate 4 exact .of_silent (by simp) rfl
    · exact .of_count id
    · refine .of_deliver (neutral_error ?_)
      unfold classifyWorkerError
      split_ifs <;> decide
  | ok items =>
    simp only [successOps, List.mem_append, List.mem_flatMap, List.mem_map, List.mem_cons,
      List.not_mem_nil, or_false] at ho
    obtain ((⟨j, -, rfl⟩ | rfl | rfl) | ⟨j, -, ho⟩) | ⟨j, -, rfl⟩ := ho
    iterate 3 exact .of_silent (by simp) rfl
    · exact neutral_answerOps ho
    · exact .of_silent (by simp) rfl

def turnedResponse (id : String) : Response :=
  errorResponse id .requestCancelled "cancelled before batch processing"

/-- What `flush` has still to do before it looks around again: nothing that matters to the counters,
or the steps for a request that it has found cancelled. -/
inductive Listed : List FlushOp → Prop where
  | neutral {todo : List FlushOp} (h : ∀ o ∈ todo, o.Neutral) : Listed todo
  | end (k : Nat) (s : ActiveSpan) (id : String) :
      Listed [.op (.endSpan s "cancelled"), .op (.count .requestsCancelled),
        .deliver k (turnedResponse id)]
  | count (k : Nat) (id : String) :
      Listed [.op (.count .requestsCancelled), .deliver k (turnedResponse id)]
  | deliver (k : Nat) (id : String) : Listed [.deliver k (turnedResponse id)]
  | respond (k : Nat) (id : String) : Listed [.respond k (turnedResponse id)]

def Response.FromFlush (resp : Response) : Prop := resp.Neutral ∨ ∃ id, resp = turnedResponse id

theorem turnedResponse_turned (id : String) : (turnedResponse id).turned = true := by
  simp [turnedResponse, errorResponse_turned]

theorem turnedResponse_left (id : String) : (turnedResponse id).left = false := by
  simp [turnedResponse, errorResponse_left]

/-- Of such a response `submit` counts the duration alone. -/
theorem Response.FromFlush.due {resp : Response} (h : resp.FromFlush) (m : Metric) :
    resp.due m = [Op.count .requestDuration].countP (Op.counts m) := by
  obtain ⟨hcancelled, hfull, hrejected⟩ | ⟨id, rfl⟩ := h
  · cases m <;> simp [Response.due, Response.left, Op.counts, hcancelled, hfull, hrejected]
  · cases m with
    | requestsCancelled => simp [Response.due, turnedResponse_left, Op.counts]
    | _ => simp [Response.due, turnedResponse, errorResponse, Op.counts]

theorem FlushOp.Neutral.turns {o : FlushOp} (h : o.Neutral) (j : Nat) : o.turns j = false := by
  cases o with
  | deliver k resp => simp [FlushOp.turns, (h.answer k resp rfl).turned]
  | respond k resp => simp [FlushOp.turns, (h.answer k resp rfl).turned]
  | _ => rfl

theorem neutral_turns {todo : List FlushOp} (h : ∀ o ∈ todo, o.Neutral) (j : Nat) :
    todo.any (FlushOp.turns j) = false := by
  rw [List.any_eq_false]
  intro o ho
  simp [(h o ho).turns j]

theorem neutral_cancelling {todo : List FlushOp} (h : ∀ o ∈ todo, o.Neutral) :
    cancelling todo = [] := by
  induction todo with
  | nil => rfl
  | cons o rest ih =>
    have hrest := ih fun o' ho' => h o' (List.mem_cons_of_mem o ho')
    unfold cancelling
    split
    · rename_i heq
      obtain ⟨rfl, -⟩ := List.cons.inj heq
      exact absurd trivial ((h _ List.mem_cons_self).counts .requestsCancelled rfl)
    · rename_i heq
      obtain ⟨-, rfl⟩ := List.cons.inj heq
      exact hrest
    · rfl

section
variable {randomHex : Nat → Nat → String} {g g' : Batcher}

def FlushOp.follow : FlushOp → List FlushOp
  | .deliver k resp => [.respond k resp]
  | _ => []

theorem execFlush_todo (o : FlushOp) : (g.execFlush randomHex o).todo = o.follow ++ g.todo := by
  cases o with
  | op o => cases o <;> rfl
  | endWorker k status => simp only [Batcher.execFlush]; split <;> rfl
  | endFlush k status => simp only [Batcher.execFlush]; split <;> rfl
  | _ => rfl

def FlushOp.hands (j : Nat) : FlushOp → Option Response
  | .respond k resp => if j = k then some resp else none
  | _ => none

theorem execFlush_respChan (o : FlushOp) (j : Nat) :
    ((g.execFlush randomHex o).calls j).respChan = (g.calls j).respChan.or (o.hands j) := by
  cases o with
  | op o =>
    cases o with
    | release k =>
      simpa [FlushOp.hands, Batcher.execFlush, Batcher.exec] using release_respChan g.toPipeline k j
    | endSpan s status => simp [FlushOp.hands, Batcher.execFlush, Batcher.exec]
    | count m => simp [FlushOp.hands, Batcher.execFlush, Batcher.exec]
  | endWorker k status => simp only [Batcher.execFlush]; split <;> simp [FlushOp.hands]
  | endFlush k status => simp only [Batcher.execFlush]; split <;> simp [FlushOp.hands]
  | deliver k resp =>
    simpa [FlushOp.hands, Batcher.execFlush, Batcher.exec, Batcher.push, Pipeline.push] using
      release_respChan g.toPipeline k j
  | respond k resp =>
    simp only [Batcher.execFlush, Batcher.update, update_calls, FlushOp.hands]
    split_ifs with hj
    · rw [hj]
    · simp
  | _ => simp [FlushOp.hands, Batcher.execFlush]

def FlushOp.counts (m : Metric) : FlushOp → Bool
  | .op o => o.counts m
  | _ => false

theorem execFlush_total (o : FlushOp) (m : Metric) :
    (g.execFlush randomHex o).metrics.total m =
      g.metrics.total m + if o.counts m then 1 else 0 := by
  cases o with
  | op o =>
    cases o with
    | count m' => simp [Batcher.execFlush, Batcher.exec, total_count, FlushOp.counts, Op.counts]
    | _ => rfl
  | endWorker k status => simp only [Batcher.execFlush]; split <;> rfl
  | endFlush k status => simp only [Batcher.execFlush]; split <;> rfl
  | _ => rfl

theorem FlushOp.Neutral.not_counts {o : FlushOp} (h : o.Neutral) {m : Metric} (hm : m.OfRequests) :
    o.counts m = false := by
  cases o with
  | op o =>
    cases o with
    | count m' =>
      have hne : m' ≠ m := fun heq => h.counts m (by rw [heq]) hm
      simp [FlushOp.counts, Op.counts, hne]
    | _ => rfl
  | _ => rfl

theorem FlushOp.Neutral.follow {o o' : FlushOp} (h : o.Neutral) (ho' : o' ∈ o.follow) :
    o'.Neutral := by
  cases o with
  | deliver k resp =>
    obtain rfl := List.mem_singleton.mp ho'
    refine ⟨by simp, fun j resp' hj => ?_⟩
    obtain ⟨-, rfl⟩ := Prod.mk.inj (Option.some.inj hj)
    exact h.answer k resp rfl
  | _ => simp [FlushOp.follow] at ho'

theorem FlushOp.Neutral.hands {o : FlushOp} (h : o.Neutral) {j : Nat} {resp : Response}
    (hj : o.hands j = some resp) : resp.Neutral := by
  cases o with
  | respond k resp' =>
    simp only [FlushOp.hands] at hj
    split_ifs at hj
    obtain rfl := Option.some.inj hj
    exact h.answer k resp' rfl
  | _ => simp [FlushOp.hands] at hj

def nextCancelled : List FlushOp → Option Nat
  | .op (.count .requestsCancelled) :: .deliver k _ :: _ => some k
  | _ => none

theorem nextCancelled_answering {todo : List FlushOp} (h : nextCancelled todo = some k) :
    k ∈ answering todo := by
  unfold nextCancelled at h
  split at h
  · obtain rfl := Option.some.inj h
    simp [answering, FlushOp.answer]
  · exact absurd h (by simp)

theorem counted_loop (now : Int) (ready : Option Bool) (hrun : g.run.pc = .flushing) :
    g.counted (.loop now ready) = (nextCancelled g.todo).map fun k => (.requestsCancelled, k) := by
  simp only [Batcher.counted, hrun, nextCancelled]
  split
  · rename_i heq
    simp [heq]
  · rename_i hnot
    split
    · rename_i k resp rest heq
      exact absurd heq (hnot k resp rest rfl)
    · rfl

theorem option_or_any {α : Type*} {x y : Option α} {f : α → Bool} (h : ∀ a ∈ y, f a = false) :
    (x.or y).any f = x.any f := by
  cases x with
  | some a => rfl
  | none =>
    cases y with
    | none => rfl
    | some a => simpa using h a rfl

theorem Listed.exec (randomHex : Nat → Nat → String) {o : FlushOp} {rest : List FlushOp}
    (h : Listed g.todo) (honce : g.toPipeline.Once) (htodo : g.todo = o :: rest) :
    Listed (o.follow ++ rest) ∧ (∀ j resp, o.hands j = some resp → resp.FromFlush) ∧
    (∀ j, (Batcher.execFlush randomHex { g with todo := rest } o).found j = g.found j) ∧
    (∀ m : Metric, m.OfRequests → (if o.counts m then 1 else 0) =
      if m = .requestsCancelled then (nextCancelled g.todo).toList.length else 0) ∧
    ∀ j, (nextCancelled g.todo).toList.count j + (cancelling (o.follow ++ rest)).count j =
      (cancelling g.todo).count j := by
  have hfound : ∀ j, (Batcher.execFlush randomHex { g with todo := rest } o).found j =
      ((o.follow ++ rest).any (FlushOp.turns j) || ((g.calls j).respChan.or (o.hands j)).any
        Response.turned || (g.calls j).pc.response.any Response.turned) := by
    intro j
    rw [Pipeline.found, execFlush_todo, execFlush_respChan, execFlush_pc]
  simp only [hfound]
  simp only [Pipeline.found]
  rw [htodo] at h ⊢
  cases h with
  | neutral hall =>
    have ho := hall o List.mem_cons_self
    have hrest : ∀ o' ∈ o.follow ++ rest, o'.Neutral := by
      intro o' ho'
      obtain ho' | ho' := List.mem_append.mp ho'
      · exact ho.follow ho'
      · exact hall o' (List.mem_cons_of_mem o ho')
    have hnone : nextCancelled (o :: rest) = none := by
      unfold nextCancelled
      split
      · rename_i heq
        obtain ⟨rfl, -⟩ := List.cons.inj heq
        exact absurd trivial (ho.counts .requestsCancelled rfl)
      · rfl
    refine ⟨.neutral hrest, fun j resp hj => Or.inl (ho.hands hj), fun j => ?_, fun m hm => ?_,
      fun j => ?_⟩
    · rw [neutral_turns hrest, neutral_turns hall,
        option_or_any fun resp hj => (ho.hands hj).turned]
    · simp [ho.not_counts hm, hnone]
    · rw [hnone, neutral_cancelling hrest, neutral_cancelling hall]
      rfl
  | «end» k s id =>
    refine ⟨.count k id, by simp [FlushOp.hands], fun j => ?_, fun m _ => ?_, fun j => ?_⟩
    · simp [FlushOp.follow, FlushOp.turns, FlushOp.hands]
    · simp [FlushOp.counts, Op.counts, nextCancelled]
    · simp [FlushOp.follow, cancelling, nextCancelled]
  | count k id =>
    refine ⟨.deliver k id, by simp [FlushOp.hands], fun j => ?_, fun m _ => ?_, fun j => ?_⟩
    · simp [FlushOp.follow, FlushOp.turns, FlushOp.hands]
    · simp [FlushOp.counts, Op.counts, nextCancelled, eq_comm]
    · simp [FlushOp.follow, cancelling, nextCancelled]
  | deliver k id =>
    refine ⟨.respond k id, by simp [FlushOp.hands], fun j => ?_, fun m _ => ?_, fun j => ?_⟩
    · simp [FlushOp.follow, FlushOp.turns, FlushOp.hands]
    · simp [FlushOp.counts, nextCancelled]
    · simp [FlushOp.follow, cancelling, nextCancelled]
  | respond k id =>
    have hnone := (honce.coming k (by rw [htodo]; exact List.mem_cons_self)).2
    refine ⟨.neutral (by simp [FlushOp.follow]), fun j resp hj => Or.inr ⟨id, ?_⟩, fun j => ?_,
      fun m _ => ?_, fun j => ?_⟩
    · simp only [FlushOp.hands] at hj
      split_ifs at hj
      exact (Option.some.inj hj).symm
    · have hturns : (FlushOp.respond k (turnedResponse id)).turns j = decide (j = k) := by
        simp [FlushOp.turns, turnedResponse_turned, eq_comm]
      by_cases hjk : j = k
      · subst hjk
        simp [FlushOp.follow, FlushOp.hands, hturns, hnone, turnedResponse_turned]
      · simp [FlushOp.follow, FlushOp.hands, hturns, hjk]
    · simp [FlushOp.counts, nextCancelled]
    · simp [FlushOp.follow, cancelling, nextCancelled]

end

end Laminar.Gateway
