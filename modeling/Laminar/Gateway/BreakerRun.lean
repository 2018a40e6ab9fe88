import Laminar.Gateway.Breaker

/-! The circuit in the runs of the batcher: `flush` tells the breaker of a call of the worker only
when a check let the call through, so what the breaker answers follows from when it was asked. -/
namespace Laminar.Gateway
open Laminar.Transition
variable {config : Config} {randomHex : Nat → Nat → String} {g g' : Batcher}

/-- The client is no `WorkerReadinessProvider`. -/
def Action.Unprovided : Action → Prop
  | .loop _ ready => ready = none
  | .probe _ ready => ready = none
  | _ => True

def Batcher.breakerEvent (g : Batcher) : Action → Option (Int × BreakerEvent)
  | .probe now _ => some (now, .check)
  | .loop now _ =>
    if g.run.pc = .flushing then
      match g.todo with
      | .recordFailure :: _ => some (now, .failure)
      | .recordSuccess :: _ => some (now, .success)
      | [] => if g.flushPC = .filter [] ∧ g.active ≠ [] then some (now, .check) else none
      | _ => none
    else none
  | _ => none

def FlushOp.records : FlushOp → Bool
  | .recordFailure => true
  | .recordSuccess => true
  | _ => false

def Pipeline.unrecorded (p : Pipeline) : Nat :=
  p.todo.countP FlushOp.records + if p.flushPC = .call ∨ p.flushPC = .await then 1 else 0

inductive Batcher.Tells (config : Config) (g g' : Batcher) : Option (Int × BreakerEvent) → Prop
  | nothing (hbreaker : g'.breaker = g.breaker) (hle : g'.unrecorded ≤ g.unrecorded) :
      Tells config g g' none
  | check (now : Int) (hbreaker : g'.breaker = (g.breaker.isCircuitOpen config now none).2)
      (hle : g'.unrecorded ≤ g.unrecorded ∨
        (g.breaker.isCircuitOpen config now none).1 = false ∧ g'.unrecorded ≤ 1) :
      Tells config g g' (some (now, .check))
  | outcome (now : Int) (kind : BreakerEvent) (hkind : kind ≠ .check)
      (hbreaker : g'.breaker = g.breaker.after config (now, kind))
      (hless : g'.unrecorded < g.unrecorded) : Tells config g g' (some (now, kind))

theorem unrecorded_congr {p p' : Pipeline} (htodo : p'.todo = p.todo)
    (hpc : p'.flushPC = p.flushPC) : p'.unrecorded = p.unrecorded := by
  rw [Pipeline.unrecorded, Pipeline.unrecorded, htodo, hpc]

theorem Batcher.Tells.quiet (hbreaker : g'.breaker = g.breaker) (htodo : g'.todo = g.todo)
    (hpc : g'.flushPC = g.flushPC) : g.Tells config g' none :=
  .nothing hbreaker (unrecorded_congr htodo hpc).le

theorem exec_quiet (g : Batcher) (o : Op) :
    (g.exec o).breaker = g.breaker ∧ (g.exec o).todo = g.todo ∧
      (g.exec o).flushPC = g.flushPC := by
  cases o <;> exact ⟨rfl, rfl, rfl⟩

theorem advance_quiet {k : Nat} {case : SelectCase}
    (h : g.advance config randomHex k case = some g') :
    g'.breaker = g.breaker ∧ g'.todo = g.todo ∧ g'.flushPC = g.flushPC := by
  unfold Batcher.advance at h
  simp only at h
  split at h
  · obtain rfl := Option.some.inj h
    exact ⟨rfl, rfl, rfl⟩
  · obtain rfl := Option.some.inj h
    exact ⟨rfl, rfl, rfl⟩
  · obtain rfl := Option.some.inj h
    exact ⟨rfl, rfl, rfl⟩
  · cases case <;> simp only [Batcher.enqueue] at h <;> split_ifs at h <;>
      obtain rfl := Option.some.inj h <;> exact ⟨rfl, rfl, rfl⟩
  · obtain rfl := Option.some.inj h
    exact ⟨rfl, rfl, rfl⟩
  · cases case with
    | ctxDone =>
      simp only [Batcher.wait] at h
      split_ifs at h
      obtain rfl := Option.some.inj h
      exact ⟨rfl, rfl, rfl⟩
    | channel =>
      simp only [Batcher.wait] at h
      split at h
      · obtain rfl := Option.some.inj h
        exact ⟨rfl, rfl, rfl⟩
      · exact absurd h (by simp)
    | default => exact absurd h (by simp [Batcher.wait])
  · obtain rfl := Option.some.inj h
    exact ⟨rfl, rfl, rfl⟩
  · obtain rfl := Option.some.inj h
    exact exec_quiet g _
  · exact absurd h (by simp)

theorem unrecorded_startFlush (g : Batcher) (r : Run) : (g.startFlush r).unrecorded = 0 := by
  simp [Batcher.startFlush, Pipeline.unrecorded]

theorem records_map {f : Nat → FlushOp} (hf : ∀ k, (f k).records = false) (active : List Nat) :
    (active.map f).countP FlushOp.records = 0 := by
  rw [List.countP_eq_zero]
  intro o ho
  obtain ⟨k, -, rfl⟩ := List.mem_map.mp ho
  simp [hf k]

theorem records_flatMap {f : Nat → List FlushOp} (hf : ∀ k, ∀ o ∈ f k, o.records = false)
    (active : List Nat) : (active.flatMap f).countP FlushOp.records = 0 := by
  rw [List.countP_eq_zero]
  intro o ho
  obtain ⟨k, -, ho⟩ := List.mem_flatMap.mp ho
  simp [hf k o ho]

theorem records_sendOps (active : List Nat) : (sendOps active).countP FlushOp.records = 0 := by
  rw [sendOps, List.countP_cons, List.countP_append, records_map fun _ => rfl,
    records_map fun _ => rfl]
  rfl

theorem records_rejectOps (calls : Nat → Call) (active : List Nat) :
    (rejectOps calls active).countP FlushOp.records = 0 := by
  rw [rejectOps, List.countP_cons, records_flatMap]
  · rfl
  · intro k o ho
    simp only [List.mem_cons, List.not_mem_nil, or_false] at ho
    obtain rfl | rfl | rfl := ho <;> rfl

theorem records_answerOps {calls : Nat → Call} {items : List ResponseItem} (k : Nat) :
    ∀ o ∈ answerOps calls items k, o.records = false := by
  intro o ho
  unfold answerOps at ho
  split at ho
  · rw [List.mem_singleton.mp ho]
    rfl
  · obtain ho | ho := List.mem_append.mp ho
    · split_ifs at ho
      · rw [List.mem_singleton.mp ho]
        rfl
      · exact absurd ho (by simp)
    · rw [List.mem_singleton.mp ho]
      rfl

/-- An answer is recorded once. -/
theorem records_settleOps (calls : Nat → Call) (active : List Nat) (answer : Reply) (latency : Int)
    (order order' : List Nat) :
    (settleOps calls active answer latency order order').countP FlushOp.records = 1 := by
  cases answer with
  | error err =>
    rw [settleOps, List.countP_cons, failureOps, List.countP_append, List.countP_append,
      records_flatMap, records_map fun _ => rfl]
    · rfl
    · intro k o ho
      simp only [List.mem_cons, List.not_mem_nil, or_false] at ho
      obtain rfl | rfl := ho <;> rfl
  | ok items =>
    rw [settleOps, List.countP_cons, successOps, List.countP_append, List.countP_append,
      List.countP_append, records_map fun _ => rfl, records_flatMap records_answerOps,
      records_map fun _ => rfl]
    rfl

theorem execFlush_flushPC (g : Batcher) (o : FlushOp) :
    (g.execFlush randomHex o).flushPC = g.flushPC := by
  cases o with
  | op o => exact (exec_quiet g o).2.2
  | endWorker k status => simp only [Batcher.execFlush]; split <;> rfl
  | endFlush k status => simp only [Batcher.execFlush]; split <;> rfl
  | _ => rfl

theorem execFlush_breaker (g : Batcher) {o : FlushOp} (ho : o.records = false) :
    (g.execFlush randomHex o).breaker = g.breaker := by
  cases o with
  | op o => exact (exec_quiet g o).1
  | endWorker k status => simp only [Batcher.execFlush]; split <;> rfl
  | endFlush k status => simp only [Batcher.execFlush]; split <;> rfl
  | recordFailure => exact absurd ho (by simp [FlushOp.records])
  | recordSuccess => exact absurd ho (by simp [FlushOp.records])
  | _ => rfl

variable (randomHex) in
theorem unrecorded_execFlush {o : FlushOp} {rest : List FlushOp} (htodo : g.todo = o :: rest) :
    (Batcher.execFlush randomHex { g with todo := rest } o).unrecorded +
      (if o.records then 1 else 0) = g.unrecorded := by
  have hfollow : o.follow.countP FlushOp.records = 0 := by
    cases o <;> rfl
  rw [Pipeline.unrecorded, Pipeline.unrecorded, execFlush_todo, execFlush_flushPC, htodo,
    List.countP_append, hfollow, List.countP_cons]
  dsimp only
  omega

theorem execFlush_tells {o : FlushOp} {rest : List FlushOp} {now : Int} {ready : Option Bool}
    (hpc : g.run.pc = .flushing) (htodo : g.todo = o :: rest) :
    g.Tells config (Batcher.execFlush randomHex { g with todo := rest } o)
      (g.breakerEvent (.loop now ready)) := by
  have hcount := unrecorded_execFlush randomHex htodo
  simp only [Batcher.breakerEvent, if_pos hpc, htodo]
  cases o with
  | recordFailure =>
    refine .outcome now .failure (by simp) rfl ?_
    simp only [FlushOp.records, if_pos] at hcount
    omega
  | recordSuccess =>
    refine .outcome now .success (by simp) rfl ?_
    simp only [FlushOp.records, if_pos] at hcount
    omega
  | _ => exact .nothing (execFlush_breaker _ rfl) (by rw [← hcount]; exact Nat.le_add_right _ _)

theorem dispatch_tells {now : Int} (hpc : g.run.pc = .flushing) (htodo : g.todo = [])
    (hfilter : g.flushPC = .filter []) :
    g.Tells config (g.dispatch config now none) (g.breakerEvent (.loop now none)) := by
  simp only [Batcher.breakerEvent, if_pos hpc, htodo, hfilter, true_and, Batcher.dispatch]
  by_cases hactive : g.active = []
  · rw [if_pos hactive, if_neg (not_not.mpr hactive)]
    refine .nothing rfl ?_
    simp [Pipeline.unrecorded, htodo]
  · rw [if_neg hactive, if_pos hactive]
    split_ifs with hopen
    · refine .check now rfl (Or.inl ?_)
      simp [Pipeline.unrecorded, Batcher.push, Pipeline.push, htodo, records_rejectOps]
    · refine .check now rfl (Or.inr ⟨by simpa using hopen, ?_⟩)
      simp [Pipeline.unrecorded, Batcher.push, Pipeline.push, records_sendOps]

theorem loop_tells {now : Int} (h : g.loop config randomHex now none = some g') :
    g.Tells config g' (g.breakerEvent (.loop now none)) := by
  unfold Batcher.loop at h
  cases hpc : g.run.pc with
  | select => simp [hpc] at h
  | received k =>
    simp only [hpc] at h
    obtain rfl := Option.some.inj h
    simp only [Batcher.breakerEvent, hpc, reduceCtorEq, if_false]
    exact .quiet rfl rfl rfl
  | arm =>
    simp only [hpc] at h
    simp only [Batcher.breakerEvent, hpc, reduceCtorEq, if_false]
    split_ifs at h
    · obtain rfl := Option.some.inj h
      exact .quiet rfl rfl rfl
    · obtain rfl := Option.some.inj h
      exact .quiet rfl rfl rfl
  | check =>
    simp only [hpc] at h
    simp only [Batcher.breakerEvent, hpc, reduceCtorEq, if_false]
    split_ifs at h
    · obtain rfl := Option.some.inj h
      exact .nothing rfl ((unrecorded_startFlush g _).trans_le (Nat.zero_le _))
    · obtain rfl := Option.some.inj h
      exact .nothing rfl ((unrecorded_startFlush g _).trans_le (Nat.zero_le _))
    · obtain rfl := Option.some.inj h
      exact .quiet rfl rfl rfl
  | flushing =>
    simp only [hpc] at h
    split at h
    · obtain rfl := Option.some.inj h
      exact execFlush_tells hpc ‹_›
    · rename_i k rest htodo hfilter
      obtain rfl := Option.some.inj h
      simp only [Batcher.breakerEvent, if_pos hpc, htodo, hfilter, FlushPC.filter.injEq,
        reduceCtorEq, false_and, if_false, Batcher.filter]
      split_ifs
      · refine .nothing rfl ?_
        simp [Pipeline.unrecorded, Batcher.push, Pipeline.push, htodo, hfilter, FlushOp.records]
      · refine .nothing rfl ?_
        simp [Pipeline.unrecorded, Batcher.push, Pipeline.push, htodo, hfilter, FlushOp.records]
    · obtain rfl := Option.some.inj h
      exact dispatch_tells hpc ‹_› ‹_›
    · rename_i htodo hcall
      obtain rfl := Option.some.inj h
      simp only [Batcher.breakerEvent, if_pos hpc, htodo, hcall, reduceCtorEq, false_and, if_false]
      refine .nothing rfl ?_
      simp [Batcher.call, Pipeline.unrecorded, htodo, hcall]
    · exact absurd h (by simp)
    · rename_i htodo hdone
      obtain rfl := Option.some.inj h
      simp only [Batcher.breakerEvent, if_pos hpc, htodo, hdone, reduceCtorEq, false_and, if_false]
      exact .quiet rfl htodo.symm hdone.symm

theorem step_tells {a : Action} (ha : a.Unprovided) (h : step config randomHex g a = some g') :
    g.Tells config g' (g.breakerEvent a) := by
  cases a with
  | submit prompt traceID parentSpanID =>
    obtain rfl := Option.some.inj h
    exact .quiet rfl rfl rfl
  | cancel k =>
    simp only [step] at h
    split_ifs at h
    obtain rfl := Option.some.inj h
    exact .quiet rfl rfl rfl
  | advance k case =>
    simp only [step] at h
    split_ifs at h
    obtain ⟨hbreaker, htodo, hpc⟩ := advance_quiet h
    exact .quiet hbreaker htodo hpc
  | receive =>
    simp only [step, Batcher.receive] at h
    split at h
    · obtain rfl := Option.some.inj h
      exact .quiet rfl rfl rfl
    · exact absurd h (by simp)
  | tick =>
    simp only [step, Batcher.tick] at h
    split_ifs at h
    · obtain rfl := Option.some.inj h
      exact .quiet rfl rfl rfl
    · obtain rfl := Option.some.inj h
      exact .nothing rfl ((unrecorded_startFlush g _).trans_le (Nat.zero_le _))
  | expire =>
    simp only [step, Batcher.expire] at h
    split at h
    · obtain rfl := Option.some.inj h
      exact .quiet rfl rfl rfl
    · exact absurd h (by simp)
  | loop now ready =>
    obtain rfl : ready = none := ha
    exact loop_tells h
  | reply answer latency order order' =>
    simp only [step, Batcher.reply] at h
    split_ifs at h with hready
    obtain ⟨-, htodo, hawait, -, -⟩ := hready
    obtain rfl := Option.some.inj h
    refine .nothing rfl ?_
    simp [Pipeline.unrecorded, Batcher.push, Pipeline.push, htodo, hawait, records_settleOps]
  | probe now ready =>
    obtain rfl : ready = none := ha
    obtain rfl := Option.some.inj h
    exact .check now rfl (Or.inl (Nat.le_refl _))
  | streamID =>
    obtain rfl := Option.some.inj h
    exact .quiet rfl rfl rfl

/-- The worker is being called, or its answer is not yet recorded, only while the breaker has not
seen enough failures. -/
structure Batcher.Calm (config : Config) (g : Batcher) : Prop where
  unrecorded : g.unrecorded ≤ 1
  calm : 0 < g.unrecorded →
    g.breaker.failureCount < config.circuitBreakerThreshold ∧ g.breaker.circuitOpen = false

/-- A check that lets a call through leaves the breaker without enough failures. -/
theorem isCircuitOpen_lets {b : Breaker} {now : Int}
    (hthreshold : 0 < config.circuitBreakerThreshold)
    (hreset : 0 < config.circuitBreakerResetAfter)
    (h : (b.isCircuitOpen config now none).1 = false) :
    (b.isCircuitOpen config now none).2.failureCount < config.circuitBreakerThreshold ∧
      (b.isCircuitOpen config now none).2.circuitOpen = false := by
  by_cases hopen : b.circuitOpen = true
  · by_cases hle : config.circuitBreakerResetAfter ≤ now - b.circuitOpenAt
    · rw [isCircuitOpen_resets hopen hle]
      exact ⟨hthreshold, rfl⟩
    · rw [isCircuitOpen_open hopen (Int.not_le.mp hle)] at h
      exact absurd h (by simp)
  · rw [Bool.not_eq_true] at hopen
    by_cases hcount : config.circuitBreakerThreshold ≤ b.failureCount
    · rw [isCircuitOpen_opens hreset hcount hopen] at h
      exact absurd h (by simp)
    · rw [isCircuitOpen_closed (Int.not_le.mp hcount) hopen]
      exact ⟨Int.not_le.mp hcount, hopen⟩

theorem Batcher.Calm.step (h : g.Calm config) (hthreshold : 0 < config.circuitBreakerThreshold)
    (hreset : 0 < config.circuitBreakerResetAfter) {event : Option (Int × BreakerEvent)}
    (htells : g.Tells config g' event) : g'.Calm config := by
  have hcount := h.unrecorded
  cases htells with
  | nothing hbreaker hle =>
    refine ⟨hle.trans hcount, fun hpos => ?_⟩
    rw [hbreaker]
    exact h.calm (hpos.trans_le hle)
  | check now hbreaker hle =>
    obtain hle | ⟨hlets, hone⟩ := hle
    · refine ⟨hle.trans hcount, fun hpos => ?_⟩
      obtain ⟨hless, hopen⟩ := h.calm (hpos.trans_le hle)
      rw [hbreaker, isCircuitOpen_closed hless hopen]
      exact ⟨hless, hopen⟩
    · refine ⟨hone, fun _ => ?_⟩
      rw [hbreaker]
      exact isCircuitOpen_lets hthreshold hreset hlets
  | outcome now kind hkind hbreaker hless => exact ⟨by omega, fun hpos => by omega⟩

theorem Batcher.Tells.breaker {event : Option (Int × BreakerEvent)}
    (h : g.Tells config g' event) :
    g'.breaker = event.elim g.breaker (g.breaker.after config) := by
  cases h with
  | nothing hbreaker hle => exact hbreaker
  | check now hbreaker hle => exact hbreaker
  | outcome now kind hkind hbreaker hless => exact hbreaker

theorem Batcher.Calm.letThrough (h : g.Calm config) {event : Int × BreakerEvent} {u : Guard}
    (hu : u.breaker = g.breaker) (htells : g.Tells config g' (some event)) :
    LetThrough config u event := by
  cases htells with
  | check now hbreaker hle => trivial
  | outcome now kind hkind hbreaker hless =>
    have hcalm := h.calm (Nat.zero_lt_of_lt hless)
    rw [← hu] at hcalm
    cases kind with
    | failure => exact hcalm
    | success => exact hcalm
    | check => exact absurd rfl hkind

abbrev breakerEvents (config : Config) (randomHex : Nat → Nat → String) (g : Batcher)
    (actions : List Action) : List (Int × BreakerEvent) :=
  observed Batcher.breakerEvent (step config randomHex) g actions

/-- In a run, the breaker is told of calls only that it let through. -/
theorem run_letThrough (hthreshold : 0 < config.circuitBreakerThreshold)
    (hreset : 0 < config.circuitBreakerResetAfter) {actions : List Action} {u u' : Guard}
    (hactions : ∀ a ∈ actions, a.Unprovided) (hcalm : g.Calm config)
    (hu : u.breaker = g.breaker) (hrun : run (step config randomHex) g actions = some g')
    (hguard : run (Guard.step config) u (breakerEvents config randomHex g actions) = some u') :
    u'.breaker = g'.breaker ∧
      Along (Guard.step config) (LetThrough config) u
        (breakerEvents config randomHex g actions) := by
  induction actions generalizing g u with
  | nil =>
    obtain rfl := Option.some.inj hrun
    obtain rfl := Option.some.inj hguard
    exact ⟨hu, trivial⟩
  | cons a rest ih =>
    obtain ⟨t, ht, hrest⟩ := run_cons.mp hrun
    have htells := step_tells (hactions a List.mem_cons_self) ht
    have hcalm' := hcalm.step hthreshold hreset htells
    have hbreaker := htells.breaker
    have hlater := fun b hb => hactions b (List.mem_cons_of_mem a hb)
    simp only [breakerEvents, observed, ht] at hguard ⊢
    cases hevent : g.breakerEvent a with
    | none =>
      rw [hevent] at hguard hbreaker
      exact ih hlater hcalm' (hu.trans hbreaker.symm) hrest hguard
    | some event =>
      rw [hevent] at hguard hbreaker htells
      obtain ⟨v, hv, hguard'⟩ := run_cons.mp hguard
      obtain ⟨-, rfl⟩ := Guard.step_some hv
      have hsame : u.breaker.after config event = t.breaker := by
        rw [hu, hbreaker]
        rfl
      obtain ⟨hend, halong⟩ := ih hlater hcalm' hsame hrest hguard'
      exact ⟨hend, along_cons (hcalm.letThrough hu htells) hv halong⟩

instance decidableFollows (config : Config) (u : Guard) :
    (event : Int × BreakerEvent) → Decidable (Follows config u event)
  | (now, .check) => inferInstanceAs (Decidable
      ((u.breaker.isCircuitOpen config now none).1 = u.history.isOpen config now))
  | (_, .failure) => isTrue trivial
  | (_, .success) => isTrue trivial

theorem Config.normalized_resetAfter (cfg : Config) :
    0 < cfg.normalized.circuitBreakerResetAfter := by
  simp only [Config.normalized, second, millisecond]
  split_ifs <;> omega

theorem newBatcher_calm (cfg : Config) : (newBatcher cfg).Calm config :=
  ⟨Nat.zero_le 1, fun hpos => absurd hpos (by simp [newBatcher, Pipeline.unrecorded])⟩

/-- The breaker follows its history wherever its events come on time. Where the worker is called
only with the circuit closed, as it is in every run of the batcher, it follows it nowhere else. -/
theorem breaker_follows_iff (cfg : Config) (start : Int) :
    (∀ events,
      Along (Guard.step cfg.normalized) (OnTime cfg.normalized) { now := start } events →
      Along (Guard.step cfg.normalized) (Follows cfg.normalized) { now := start } events) ∧
    (∀ events,
      Along (Guard.step cfg.normalized) (LetThrough cfg.normalized) { now := start } events →
      (Along (Guard.step cfg.normalized) (Follows cfg.normalized) { now := start } events ↔
        Along (Guard.step cfg.normalized) (OnTime cfg.normalized) { now := start } events)) ∧
    (∀ randomHex actions g g', (∀ a ∈ actions, a.Unprovided) →
      run (step cfg.normalized randomHex) (newBatcher cfg) actions = some g →
      run (Guard.step cfg.normalized) { now := start }
        (breakerEvents cfg.normalized randomHex (newBatcher cfg) actions) = some g' →
      g'.breaker = g.breaker ∧
        Along (Guard.step cfg.normalized) (LetThrough cfg.normalized) { now := start }
          (breakerEvents cfg.normalized randomHex (newBatcher cfg) actions)) ∧
    ∀ events g, run (Guard.step cfg.normalized) { now := start } events = some g →
      ∀ now, g.now ≤ now →
      g.history.isOpen cfg.normalized now =
        ((outcomes events).foldl (FailureHistory.after cfg.normalized) {}).isOpen
          cfg.normalized now ∧
      ((∀ event ∈ events, event.2 = .failure →
          cfg.normalized.circuitBreakerResetAfter ≤ now - event.1) →
        g.history.isOpen cfg.normalized now = false) := by
  have hthreshold := cfg.normalized_normal.threshold
  have hreset := cfg.normalized_resetAfter
  have hnew : Guard.Synced cfg.normalized { now := start } := .closed rfl rfl rfl rfl hthreshold
  have hfollows : ∀ events,
      Along (Guard.step cfg.normalized) (OnTime cfg.normalized) { now := start } events →
      Along (Guard.step cfg.normalized) (Follows cfg.normalized) { now := start } events :=
    fun events h => along_of_kept h hnew
      (fun g event g' hon hsynced hstep => hsynced.step hthreshold hreset hon hstep)
      (fun g event hsynced hon => hsynced.follows hreset hon)
  refine ⟨hfollows, fun events hlet => ⟨fun h => ?_, hfollows events⟩, ?_, ?_⟩
  · refine along_of_kept (along_and hlet h) hnew ?_ ?_
    · rintro g event g' ⟨hlet', hfollows'⟩ hsynced hstep
      exact hsynced.step hthreshold hreset (hsynced.onTime hreset hlet' hfollows') hstep
    · rintro g event hsynced ⟨hlet', hfollows'⟩
      exact hsynced.onTime hreset hlet' hfollows'
  · intro randomHex actions g g' hactions hrun hguard
    exact run_letThrough hthreshold hreset hactions (newBatcher_calm cfg) rfl hrun hguard
  · intro events g hrun now hnow
    have hagrees := history_outcomes hrun (f := {}) (fun t _ => ⟨rfl, rfl⟩) hnow
    have houtcomes : g.history.isOpen cfg.normalized now =
        ((outcomes events).foldl (FailureHistory.after cfg.normalized) {}).isOpen
          cfg.normalized now := by
      rw [FailureHistory.isOpen, FailureHistory.isOpen, hagrees.2]
    refine ⟨houtcomes, fun hlate => ?_⟩
    rw [houtcomes]
    exact isOpen_late fun event hevent => hlate event (List.mem_of_mem_filter hevent)

/-- Five failures and no check until 31 seconds later, a second after the reset time: the circuit is
found open. Had it been asked once before, it would be found closed. -/
theorem fiveFailures_open :
    let config := Config.normalized { promptTokens := fun n => n }
    let failures := List.replicate 5 ((0, .failure) : Int × BreakerEvent)
    (∃ g, run (Guard.step config) { now := 0 } failures = some g ∧
      (g.breaker.isCircuitOpen config (31 * second) none).1 = true ∧
      g.history.isOpen config (31 * second) = false) ∧
    (∃ g, run (Guard.step config) { now := 0 } (failures ++ [(0, .check)]) = some g ∧
      (g.breaker.isCircuitOpen config (31 * second) none).1 = false) ∧
    ¬ Along (Guard.step config) (Follows config) { now := 0 }
      (failures ++ [(31 * second, .check)]) := by
  intro config failures
  exact ⟨⟨_, rfl, by decide, by decide⟩, ⟨_, rfl, by decide⟩, by decide⟩

end Laminar.Gateway
