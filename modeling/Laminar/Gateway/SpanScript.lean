import Laminar.Gateway.Owed
import Laminar.Gateway.Trail

/-! The life of a request's spans after `http.predict`, and the part of it that is still to come in
the steps that `submit` and `flush` have listed. -/
namespace Laminar.Gateway
open Laminar.Transition

inductive SpanOp where
  | endQueue
  | startFlush
  | startWorker
  | endWorker
  | recordBackend
  | endFlush
deriving DecidableEq

def spanStep : List Bool → SpanOp → Option (List Bool)
  | [false], .endQueue => some [true]
  | [true], .startFlush => some [true, false]
  | [true, false], .startWorker => some [true, false, false]
  | [true, false, false], .endWorker => some [true, false, true]
  | [true, false, true], .recordBackend => some [true, false, true, true]
  | true :: false :: rest, .endFlush => some (true :: true :: rest)
  | _, _ => none

inductive SpanMove : List Bool → SpanOp → List Bool → Prop where
  | endQueue : SpanMove [false] .endQueue [true]
  | startFlush : SpanMove [true] .startFlush [true, false]
  | startWorker : SpanMove [true, false] .startWorker [true, false, false]
  | endWorker : SpanMove [true, false, false] .endWorker [true, false, true]
  | recordBackend : SpanMove [true, false, true] .recordBackend [true, false, true, true]
  | endFlush (rest : List Bool) : SpanMove (true :: false :: rest) .endFlush (true :: true :: rest)

section
variable {spans spans' : List Bool}

theorem spanStep_move {o : SpanOp} (h : spanStep spans o = some spans') :
    SpanMove spans o spans' := by
  unfold spanStep at h
  split at h <;> first
    | (obtain rfl := Option.some.inj h
       constructor)
    | exact absurd h (by simp)

theorem spanStep_endQueue (h : spanStep spans .endQueue = some spans') :
    spans = [false] ∧ spans' = [true] := by
  cases spanStep_move h
  exact ⟨rfl, rfl⟩

theorem spanStep_startFlush (h : spanStep spans .startFlush = some spans') :
    spans = [true] ∧ spans' = [true, false] := by
  cases spanStep_move h
  exact ⟨rfl, rfl⟩

theorem spanStep_startWorker (h : spanStep spans .startWorker = some spans') :
    spans = [true, false] ∧ spans' = [true, false, false] := by
  cases spanStep_move h
  exact ⟨rfl, rfl⟩

theorem spanStep_endWorker (h : spanStep spans .endWorker = some spans') :
    spans = [true, false, false] ∧ spans' = [true, false, true] := by
  cases spanStep_move h
  exact ⟨rfl, rfl⟩

theorem spanStep_recordBackend (h : spanStep spans .recordBackend = some spans') :
    spans = [true, false, true] ∧ spans' = [true, false, true, true] := by
  cases spanStep_move h
  exact ⟨rfl, rfl⟩

theorem spanStep_endFlush (h : spanStep spans .endFlush = some spans') :
    ∃ rest, spans = true :: false :: rest ∧ spans' = true :: true :: rest := by
  cases spanStep_move h with
  | endFlush rest => exact ⟨rest, rfl, rfl⟩

end

def Op.spanOp (queueSpan : ActiveSpan) : Op → Option SpanOp
  | .endSpan s _ => if s = queueSpan then some .endQueue else none
  | _ => none

def FlushOp.spanOp (queueSpan : ActiveSpan) (k : Nat) : FlushOp → Option SpanOp
  | .op o => o.spanOp queueSpan
  | .startFlush j => if j = k then some .startFlush else none
  | .startWorker j => if j = k then some .startWorker else none
  | .endWorker j _ => if j = k then some .endWorker else none
  | .endFlush j _ => if j = k then some .endFlush else none
  | .recordBackend j => if j = k then some .recordBackend else none
  | _ => none

def Call.script (c : Call) : List SpanOp :=
  match c.pc with
  | .leave todo _ => todo.filterMap (Op.spanOp c.queueSpan)
  | _ => []

def Pipeline.flushScript (p : Pipeline) (k : Nat) : List SpanOp :=
  p.todo.filterMap (FlushOp.spanOp (p.calls k).queueSpan k)

section
variable {α β γ : Type*} [DecidableEq α] {g : β → Option γ} {k : α}

/-- Of steps listed entry by entry, those of one entry. -/
theorem filterMap_flatMap_of_nodup {f : α → List β} (hother : ∀ j, j ≠ k → (f j).filterMap g = [])
    {xs : List α} (h : xs.Nodup) :
    (xs.flatMap f).filterMap g = if k ∈ xs then (f k).filterMap g else [] := by
  induction xs with
  | nil => rfl
  | cons x rest ih =>
    obtain ⟨hx, hrest⟩ := List.nodup_cons.mp h
    rw [List.flatMap_cons, List.filterMap_append, ih hrest]
    by_cases hxk : x = k
    · subst hxk
      simp [hx]
    · rw [hother x hxk]
      simp [Ne.symm hxk]

theorem filterMap_map_of_nodup {f : α → β} (hother : ∀ j, j ≠ k → g (f j) = none) {xs : List α}
    (h : xs.Nodup) : (xs.map f).filterMap g = if k ∈ xs then (g (f k)).toList else [] := by
  rw [List.map_eq_flatMap,
    filterMap_flatMap_of_nodup (k := k) (fun j hj => by simp [hother j hj]) h]
  cases hk : g (f k) <;> simp [hk]

end

section
variable (calls : Nat → Call) {active order order' : List Nat} (queueSpan : ActiveSpan) (k : Nat)

theorem script_rejectOps (h : active.Nodup) :
    (rejectOps calls active).filterMap (FlushOp.spanOp queueSpan k) =
      if k ∈ active then [.startFlush, .endFlush] else [] := by
  rw [rejectOps, List.filterMap_cons_none rfl, filterMap_flatMap_of_nodup (k := k) _ h]
  · simp [FlushOp.spanOp, List.filterMap_cons]
  · intro j hj
    simp [FlushOp.spanOp, List.filterMap_cons, hj]

theorem script_sendOps (h : active.Nodup) :
    (sendOps active).filterMap (FlushOp.spanOp queueSpan k) =
      if k ∈ active then [.startFlush, .startWorker] else [] := by
  rw [sendOps, List.filterMap_cons_none rfl, List.filterMap_append,
    filterMap_map_of_nodup (k := k) _ h, filterMap_map_of_nodup (k := k) _ h]
  · by_cases hk : k ∈ active <;> simp [FlushOp.spanOp, hk]
  · intro j hj
    simp [FlushOp.spanOp, hj]
  · intro j hj
    simp [FlushOp.spanOp, hj]

theorem script_failureOps (err : Error) (latency : Int) (h : order.Nodup) :
    (failureOps calls active err latency order).filterMap (FlushOp.spanOp queueSpan k) =
      if k ∈ order then [.endWorker, .endFlush] else [] := by
  have hdeliver : ∀ ks : List Nat, (ks.map fun k => FlushOp.deliver k (errorResponse (calls k).id
      (classifyWorkerError err).1 (classifyWorkerError err).2)).filterMap
        (FlushOp.spanOp queueSpan k) = [] := by
    intro ks
    simp [List.filterMap_map, Function.comp_def, FlushOp.spanOp]
  rw [failureOps, List.filterMap_append, List.filterMap_append, hdeliver,
    filterMap_flatMap_of_nodup (k := k) _ h]
  · by_cases hk : k ∈ order <;> simp [FlushOp.spanOp, Op.spanOp, List.filterMap_cons, hk]
  · intro j hj
    simp [FlushOp.spanOp, hj]

def backendScript (items : List ResponseItem) : List SpanOp :=
  match findResponse items (calls k).id with
  | none => []
  | some item =>
    if item.backendLatencyMicros > 0 ∨ item.backendName ≠ "" then [.recordBackend] else []

theorem script_answerOps (items : List ResponseItem) (j : Nat) :
    (answerOps calls items j).filterMap (FlushOp.spanOp queueSpan k) =
      if j = k then backendScript calls k items else [] := by
  unfold answerOps backendScript
  by_cases hj : j = k
  · subst hj
    cases findResponse items (calls j).id with
    | none => simp [FlushOp.spanOp]
    | some item =>
      simp only [if_true]
      split_ifs <;> simp [FlushOp.spanOp]
  · rw [if_neg hj]
    cases findResponse items (calls j).id with
    | none => simp [FlushOp.spanOp]
    | some item =>
      simp only
      split_ifs <;> simp [FlushOp.spanOp, hj]

theorem script_successOps (items : List ResponseItem) (latency : Int) (hactive : active.Nodup)
    (horder : order.Perm active) (horder' : order'.Perm active) :
    (successOps calls active items latency order order').filterMap (FlushOp.spanOp queueSpan k) =
      if k ∈ active then .endWorker :: (backendScript calls k items ++ [.endFlush]) else [] := by
  rw [successOps, List.filterMap_append, List.filterMap_append, List.filterMap_append,
    filterMap_map_of_nodup (k := k) _ (horder.nodup_iff.mpr hactive),
    filterMap_flatMap_of_nodup (k := k) _ hactive,
    filterMap_map_of_nodup (k := k) _ (horder'.nodup_iff.mpr hactive), script_answerOps, if_pos rfl]
  · simp only [horder.mem_iff, horder'.mem_iff]
    by_cases hk : k ∈ active <;> simp [FlushOp.spanOp, hk]
  · intro j hj
    simp [FlushOp.spanOp, hj]
  · intro j hj
    rw [script_answerOps, if_neg hj]
  · intro j hj
    simp [FlushOp.spanOp, hj]

/-- What the answer of the worker still does to the spans of a request that was sent. -/
theorem script_settleOps (answer : Reply) (latency : Int) (hactive : active.Nodup)
    (horder : order.Perm active) (horder' : order'.Perm active) :
    (k ∉ active → (settleOps calls active answer latency order order').filterMap
      (FlushOp.spanOp queueSpan k) = []) ∧
    (k ∈ active → ∃ spans, run spanStep [true, false, false]
      ((settleOps calls active answer latency order order').filterMap
        (FlushOp.spanOp queueSpan k)) = some spans ∧ spans ≠ [] ∧ ∀ b ∈ spans, b = true) := by
  cases answer with
  | error err =>
    rw [settleOps, List.filterMap_cons_none rfl,
      script_failureOps calls queueSpan k err latency (horder.nodup_iff.mpr hactive)]
    simp only [horder.mem_iff]
    refine ⟨fun hk => if_neg hk, fun hk => ?_⟩
    rw [if_pos hk]
    exact ⟨[true, true, true], rfl, by simp, by simp⟩
  | ok items =>
    rw [settleOps, List.filterMap_cons_none rfl,
      script_successOps calls queueSpan k items latency hactive horder horder']
    refine ⟨fun hk => if_neg hk, fun hk => ?_⟩
    rw [if_pos hk, backendScript]
    split
    · exact ⟨[true, true, true], rfl, by simp, by simp⟩
    · split_ifs
      · exact ⟨[true, true, true, true], rfl, by simp, by simp⟩
      · exact ⟨[true, true, true], rfl, by simp, by simp⟩

end

end Laminar.Gateway
