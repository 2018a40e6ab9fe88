import Laminar.Scheduler.Turns

/-! A run of the step loop, unrolled: the machine before each of its steps, and how it ends. -/
namespace Laminar.Scheduler
open Laminar.Kv

def stepAt (config : ContinuousBatcherConfig) (requests : List SequenceRequest) (n : Nat) :
    SchedulerStep :=
  ((machineAt config requests n).step (continuousBatcher config) n).2

def loop (config : ContinuousBatcherConfig) (requests : List SequenceRequest)
    (isCancelled : Nat → Bool) (fuel : Nat) :
    Option (Machine × List SchedulerStep × ContinuousBatchingStats) :=
  stepLoop (continuousBatcher config) isCancelled fuel 0
    (Machine.start (continuousBatcher config) requests) []
    { totalPromptTokens := totalPromptTokens requests }

theorem run_eq (config : ContinuousBatcherConfig) (requests : List SequenceRequest)
    (isCancelled : Nat → Bool) (fuel : Nat) :
    run config requests isCancelled fuel = (loop config requests isCancelled fuel).map finish := rfl

theorem machineAt_succ (config : ContinuousBatcherConfig) (requests : List SequenceRequest)
    (n : Nat) : machineAt config requests (n + 1) =
      ((machineAt config requests n).step (continuousBatcher config) n).1 := rfl

structure Ended (config : ContinuousBatcherConfig) (requests : List SequenceRequest)
    (isCancelled : Nat → Bool) (n : Nat)
    (out : Machine × List SchedulerStep × ContinuousBatchingStats) : Prop where
  polls : ∀ k < n, isCancelled k = false ∧ 0 < (machineAt config requests k).unfinishedCount
  steps : out.2.1 = (List.range n).map (stepAt config requests)
  stats : out.2.2 = out.2.1.foldl ContinuousBatchingStats.record
    { totalPromptTokens := totalPromptTokens requests }
  last : ((machineAt config requests n).unfinishedCount = 0 ∧
      out.1 = machineAt config requests n) ∨
    (0 < (machineAt config requests n).unfinishedCount ∧ isCancelled n = true ∧
      out.1 = (machineAt config requests n).cancel)

theorem Ended.idle {config : ContinuousBatcherConfig} {requests : List SequenceRequest} {n : Nat}
    {out : Machine × List SchedulerStep × ContinuousBatchingStats}
    (h : Ended config requests (fun _ => false) n out) :
    (machineAt config requests n).unfinishedCount = 0 ∧ out.1 = machineAt config requests n :=
  h.last.resolve_right fun hcancelled => Bool.false_ne_true hcancelled.2.1

theorem stepLoop_ended {config : ContinuousBatcherConfig} {requests : List SequenceRequest}
    {isCancelled : Nat → Bool} (fuel n : Nat) {steps : List SchedulerStep}
    {stats : ContinuousBatchingStats}
    {out : Machine × List SchedulerStep × ContinuousBatchingStats}
    (hpolls : ∀ k < n, isCancelled k = false ∧ 0 < (machineAt config requests k).unfinishedCount)
    (hsteps : steps = (List.range n).map (stepAt config requests))
    (hstats : stats = steps.foldl ContinuousBatchingStats.record
      { totalPromptTokens := totalPromptTokens requests })
    (h : stepLoop (continuousBatcher config) isCancelled fuel n (machineAt config requests n) steps
      stats = some out) : ∃ k, Ended config requests isCancelled k out := by
  induction fuel generalizing n steps stats with
  | zero =>
    rw [stepLoop] at h
    split_ifs at h with hidle
    obtain rfl := Option.some.inj h
    exact ⟨n, hpolls, hsteps, hstats, Or.inl ⟨hidle, rfl⟩⟩
  | succ fuel ih =>
    rw [stepLoop] at h
    split_ifs at h with hidle hcancel
    · obtain rfl := Option.some.inj h
      exact ⟨n, hpolls, hsteps, hstats, Or.inl ⟨hidle, rfl⟩⟩
    · obtain rfl := Option.some.inj h
      exact ⟨n, hpolls, hsteps, hstats, Or.inr ⟨Nat.pos_of_ne_zero hidle, hcancel, rfl⟩⟩
    refine ih (n + 1) (fun k hk => ?_) ?_ ?_ h
    · rcases Nat.lt_succ_iff_lt_or_eq.mp hk with hk | rfl
      · exact hpolls k hk
      · exact ⟨by simpa using hcancel, Nat.pos_of_ne_zero hidle⟩
    · rw [hsteps, List.range_succ, List.map_append]
      rfl
    · rw [hstats, List.foldl_append]
      rfl

theorem loop_ended {config : ContinuousBatcherConfig} {requests : List SequenceRequest}
    {isCancelled : Nat → Bool} {fuel : Nat}
    {out : Machine × List SchedulerStep × ContinuousBatchingStats}
    (h : loop config requests isCancelled fuel = some out) :
    ∃ n, Ended config requests isCancelled n out :=
  stepLoop_ended fuel 0 (fun _ hk => absurd hk (Nat.not_lt_zero _)) rfl rfl h

theorem run_ended {config : ContinuousBatcherConfig} {requests : List SequenceRequest}
    {isCancelled : Nat → Bool} {fuel : Nat} {r : ContinuousBatchingRun}
    (h : run config requests isCancelled fuel = some r) :
    ∃ n out, Ended config requests isCancelled n out ∧ r = finish out := by
  rw [run_eq, Option.map_eq_some_iff] at h
  obtain ⟨out, hout, rfl⟩ := h
  obtain ⟨n, hn⟩ := loop_ended hout
  exact ⟨n, out, hn, rfl⟩

/-- The loop ends whatever the polls answer. -/
theorem loop_terminates (config : ContinuousBatcherConfig) (requests : List SequenceRequest)
    (isCancelled : Nat → Bool) :
    ∃ n out, Ended config requests isCancelled n out ∧
      ∀ fuel, workBound requests ≤ fuel → loop config requests isCancelled fuel = some out := by
  obtain ⟨out, -, hout⟩ := stepLoop_ends (continuousBatcher_positive config) isCancelled
    (workBound requests) 0 _ (start_consistent (continuousBatcher config) requests)
    (start_work _ requests).le [] { totalPromptTokens := totalPromptTokens requests }
  obtain ⟨n, hn⟩ := loop_ended (hout _ (Nat.le_refl _))
  exact ⟨n, out, hn, hout⟩

theorem start_aligned (config : ContinuousBatcherConfig) (requests : List SequenceRequest) :
    (Machine.start config requests).Aligned :=
  ⟨(start_consistent config requests).index, by simp [Machine.start]⟩

section
variable {motive : Nat → Machine → SchedulerStep → Prop}

/-- An invariant of the machine at the head of the loop, carried by the turns of each step: they
start from the invariant of step `n` and leave what holds at its end. -/
theorem machineAt_invariant (config : ContinuousBatcherConfig) (requests : List SequenceRequest)
    {invariant : Nat → Machine → Prop}
    (hstart : invariant 0 (Machine.start (continuousBatcher config) requests))
    (hbegin : ∀ n m queued, m.Aligned → invariant n m →
      motive n m { stepIndex := n, queuedSequences := queued })
    (hturn : ∀ n m step i s r o, motive n m step → m.Aligned → m.Slot i s r →
      Turn n m.allocator s r o → motive n (m.put i o) (step.add o))
    (hend : ∀ n m step, motive n m step → invariant (n + 1) m) (n : Nat) :
    (machineAt config requests n).Aligned ∧ invariant n (machineAt config requests n) := by
  induction n with
  | zero => exact ⟨start_aligned _ requests, hstart⟩
  | succ n ih =>
    obtain ⟨ha, hi⟩ := ih
    obtain ⟨ha', hstep⟩ := step_turns (continuousBatcher config) n ha (hturn n) (hbegin n _ _ ha hi)
    exact ⟨ha', hend n _ _ hstep⟩

end

end Laminar.Scheduler
