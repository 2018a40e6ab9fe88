import Laminar.Gateway.Batcher

/-! The loop of `Batcher.run`: what one step of the gateway can do to its batch and its timer,
and the invariant at its head. -/
namespace Laminar.Gateway
open Laminar.Transition
variable {config : Config} {randomHex : Nat → Nat → String}

theorem execFlush_run (randomHex : Nat → Nat → String) (g : Batcher) (o : FlushOp) :
    (g.execFlush randomHex o).run = g.run := by
  cases o with
  | op o => cases o <;> rfl
  | endWorker k status => simp only [Batcher.execFlush]; split <;> rfl
  | endFlush k status => simp only [Batcher.execFlush]; split <;> rfl
  | _ => rfl

theorem filter_run (g : Batcher) (k : Nat) (rest : List Nat) : (g.filter k rest).run = g.run := by
  simp only [Batcher.filter]
  split <;> rfl

theorem dispatch_run (g : Batcher) (now : Int) (ready : Option Bool) :
    (g.dispatch config now ready).run = g.run := by
  simp only [Batcher.dispatch]
  split
  · rfl
  · split <;> rfl

inductive Run.Move (maxBatchSize : Int) (r : Run) : Run → Prop where
  | stay : Move maxBatchSize r r
  | receive (k : Nat) (hpc : r.pc = .select) : Move maxBatchSize r (r.receive k)
  | append (k : Nat) (hpc : r.pc = .received k) :
      Move maxBatchSize r { r with pc := .arm, batch := r.batch ++ [k] }
  | arm (wait : Int) (hpc : r.pc = .arm) (hone : r.batch.length = 1)
      (hidle : r.timerActive = false) :
      Move maxBatchSize r { r with pc := .check, timer := .armed wait, timerActive := true }
  | armed (hpc : r.pc = .arm) (hnot : ¬ (r.batch.length = 1 ∧ r.timerActive = false)) :
      Move maxBatchSize r { r with pc := .check }
  | stop (hpc : r.pc = .check) (hactive : r.timerActive = true) :
      Move maxBatchSize r
        ({ r with timer := stopTimer r.timer, timerActive := false } : Run).startFlush
  | full (hpc : r.pc = .check) (hactive : r.timerActive = false) :
      Move maxBatchSize r r.startFlush
  | fits (hpc : r.pc = .check) (hsize : (r.batch.length : Int) < maxBatchSize) :
      Move maxBatchSize r { r with pc := .select }
  | flushed (hpc : r.pc = .flushing) :
      Move maxBatchSize r { r with pc := .select, batch := [] }
  | tick (hpc : r.pc = .select) (hfired : r.timer = .fired) (hbatch : r.batch = []) :
      Move maxBatchSize r { r with timer := .stopped, timerActive := false }
  | tickFlush (hpc : r.pc = .select) (hfired : r.timer = .fired) (hbatch : r.batch ≠ []) :
      Move maxBatchSize r
        ({ r with timer := .stopped, timerActive := false } : Run).startFlush
  | expire (wait : Int) (harmed : r.timer = .armed wait) :
      Move maxBatchSize r { r with timer := .fired }

theorem advance_run {g g' : Batcher} {k : Nat} {case : SelectCase}
    (h : g.advance config randomHex k case = some g') :
    g'.run = g.run ∨ (g.run.pc = .select ∧ g'.run = g.run.receive k) := by
  unfold Batcher.advance at h
  simp only at h
  split at h
  · left
    obtain rfl := Option.some.inj h
    rfl
  · left
    obtain rfl := Option.some.inj h
    rfl
  · left
    obtain rfl := Option.some.inj h
    rfl
  · cases case with
    | ctxDone =>
      simp only [Batcher.enqueue] at h
      split_ifs at h
      obtain rfl := Option.some.inj h
      exact Or.inl rfl
    | channel =>
      simp only [Batcher.enqueue] at h
      split_ifs at h with hroom hwaits
      · obtain rfl := Option.some.inj h
        exact Or.inl rfl
      · obtain rfl := Option.some.inj h
        exact Or.inr ⟨hwaits.2, rfl⟩
    | default =>
      simp only [Batcher.enqueue] at h
      split_ifs at h
      obtain rfl := Option.some.inj h
      exact Or.inl rfl
  · left
    obtain rfl := Option.some.inj h
    rfl
  · left
    cases case <;> simp only [Batcher.wait] at h
    · split_ifs at h
      obtain rfl := Option.some.inj h
      rfl
    · split at h
      · obtain rfl := Option.some.inj h
        rfl
      · exact absurd h (by simp)
    · exact absurd h (by simp)
  · left
    obtain rfl := Option.some.inj h
    rfl
  · left
    obtain rfl := Option.some.inj h
    exact execFlush_run (fun _ _ => "") g (.op _)
  · exact absurd h (by simp)

theorem loop_run {g g' : Batcher} {now : Int} {ready : Option Bool}
    (h : g.loop config randomHex now ready = some g') :
    g.run.Move config.maxBatchSize g'.run := by
  unfold Batcher.loop at h
  cases hpc : g.run.pc with
  | select => simp [hpc] at h
  | received k =>
    simp only [hpc] at h
    obtain rfl := Option.some.inj h
    exact .append k hpc
  | arm =>
    simp only [hpc] at h
    split_ifs at h with harm
    · obtain rfl := Option.some.inj h
      exact .arm _ hpc harm.1 (by simpa using harm.2)
    · obtain rfl := Option.some.inj h
      exact .armed hpc (by simpa using harm)
  | check =>
    simp only [hpc] at h
    split_ifs at h with hflush hactive
    · obtain rfl := Option.some.inj h
      exact .stop hpc hactive
    · obtain rfl := Option.some.inj h
      exact .full hpc (by simpa using hactive)
    · obtain rfl := Option.some.inj h
      refine .fits hpc ?_
      by_contra hfull
      exact hflush (g.policy.shouldFlush_full _ (Int.not_lt.mp hfull))
  | flushing =>
    simp only [hpc] at h
    split at h
    · obtain rfl := Option.some.inj h
      rw [execFlush_run]
      exact .stay
    · obtain rfl := Option.some.inj h
      rw [filter_run]
      exact .stay
    · obtain rfl := Option.some.inj h
      rw [dispatch_run]
      exact .stay
    · obtain rfl := Option.some.inj h
      exact .stay
    · exact absurd h (by simp)
    · obtain rfl := Option.some.inj h
      exact .flushed hpc

theorem step_run {g g' : Batcher} {a : Action} (h : step config randomHex g a = some g') :
    g.run.Move config.maxBatchSize g'.run := by
  cases a with
  | submit prompt traceID parentSpanID =>
    obtain rfl := Option.some.inj h
    exact .stay
  | cancel k =>
    simp only [step] at h
    split_ifs at h
    obtain rfl := Option.some.inj h
    exact .stay
  | advance k case =>
    simp only [step] at h
    split_ifs at h
    obtain hsame | ⟨hpc, hrun⟩ := advance_run h
    · rw [hsame]
      exact .stay
    · rw [hrun]
      exact .receive k hpc
  | receive =>
    simp only [step, Batcher.receive] at h
    split at h
    · obtain rfl := Option.some.inj h
      exact .receive _ ‹_›
    · exact absurd h (by simp)
  | tick =>
    simp only [step, Batcher.tick] at h
    split_ifs at h with hready hbatch
    · obtain rfl := Option.some.inj h
      exact .tick hready.1 hready.2 hbatch
    · obtain rfl := Option.some.inj h
      exact .tickFlush hready.1 hready.2 hbatch
  | expire =>
    simp only [step, Batcher.expire] at h
    split at h
    · obtain rfl := Option.some.inj h
      exact .expire _ ‹_›
    · exact absurd h (by simp)
  | loop now ready => exact loop_run h
  | reply answer latency order order' =>
    simp only [step, Batcher.reply] at h
    split_ifs at h
    obtain rfl := Option.some.inj h
    exact .stay
  | probe now ready =>
    obtain rfl := Option.some.inj h
    exact .stay
  | streamID =>
    obtain rfl := Option.some.inj h
    exact .stay

def Run.Holds (maxBatchSize : Int) (r : Run) : Prop :=
  match r.pc with
  | .select =>
    (r.timerActive = true ↔ r.batch ≠ []) ∧ (r.batch.length : Int) < maxBatchSize ∧
      r.flushed.flatten ++ r.batch = r.received
  | .received k =>
    (r.timerActive = true ↔ r.batch ≠ []) ∧ (r.batch.length : Int) < maxBatchSize ∧
      r.flushed.flatten ++ r.batch ++ [k] = r.received
  | .arm =>
    (r.timerActive = true ↔ r.batch.length ≠ 1) ∧ r.batch ≠ [] ∧
      (r.batch.length : Int) ≤ maxBatchSize ∧ r.flushed.flatten ++ r.batch = r.received
  | .check =>
    r.timerActive = true ∧ r.batch ≠ [] ∧ (r.batch.length : Int) ≤ maxBatchSize ∧
      r.flushed.flatten ++ r.batch = r.received
  | .flushing => r.timerActive = false ∧ r.flushed.flatten = r.received

structure Run.Inv (maxBatchSize : Int) (r : Run) : Prop where
  timer : r.timerActive = true ↔ r.timer ≠ .stopped
  sizes : ∀ batch ∈ r.flushed, batch ≠ [] ∧ (batch.length : Int) ≤ maxBatchSize
  holds : r.Holds maxBatchSize

theorem Run.Inv.startFlush {maxBatchSize : Int} {r : Run} (hidle : r.timerActive = false)
    (htimer : r.timer = .stopped)
    (hsizes : ∀ batch ∈ r.flushed, batch ≠ [] ∧ (batch.length : Int) ≤ maxBatchSize)
    (hbatch : r.batch ≠ []) (hlength : (r.batch.length : Int) ≤ maxBatchSize)
    (hall : r.flushed.flatten ++ r.batch = r.received) : r.startFlush.Inv maxBatchSize := by
  refine ⟨by simp [Run.startFlush, hidle, htimer], ?_, ?_⟩
  · intro batch hmem
    obtain hmem | hmem := List.mem_append.mp hmem
    · exact hsizes batch hmem
    · obtain rfl := List.mem_singleton.mp hmem
      exact ⟨hbatch, hlength⟩
  · exact ⟨hidle, by simpa [Run.startFlush] using hall⟩

theorem Run.Inv.move {maxBatchSize : Int} (hmax : 0 < maxBatchSize) {r r' : Run}
    (hinv : r.Inv maxBatchSize) (hmove : r.Move maxBatchSize r') : r'.Inv maxBatchSize := by
  obtain ⟨htimer, hsizes, hholds⟩ := hinv
  cases hmove with
  | stay => exact ⟨htimer, hsizes, hholds⟩
  | receive k hpc =>
    simp only [Run.Holds, hpc] at hholds
    obtain ⟨hactive, hsize, hall⟩ := hholds
    refine ⟨htimer, hsizes, hactive, hsize, ?_⟩
    simp only [Run.receive, hall]
  | append k hpc =>
    simp only [Run.Holds, hpc] at hholds
    obtain ⟨hactive, hsize, hall⟩ := hholds
    refine ⟨htimer, hsizes, ?_, by simp, ?_, by simpa using hall⟩
    · simpa [← List.length_eq_zero_iff] using hactive
    · simp only [List.length_append, List.length_singleton]
      omega
  | arm wait hpc hone hidle =>
    simp only [Run.Holds, hpc] at hholds
    obtain ⟨-, hbatch, hsize, hall⟩ := hholds
    exact ⟨by simp, hsizes, rfl, hbatch, hsize, hall⟩
  | armed hpc hnot =>
    simp only [Run.Holds, hpc] at hholds
    obtain ⟨hactive, hbatch, hsize, hall⟩ := hholds
    refine ⟨htimer, hsizes, ?_, hbatch, hsize, hall⟩
    by_contra hidle
    have hidle' : r.timerActive = false := by simpa using hidle
    exact hidle (hactive.mpr fun hone => hnot ⟨hone, hidle'⟩)
  | stop hpc hactive =>
    simp only [Run.Holds, hpc] at hholds
    obtain ⟨-, hbatch, hsize, hall⟩ := hholds
    exact Run.Inv.startFlush rfl rfl hsizes hbatch hsize hall
  | full hpc hidle =>
    simp only [Run.Holds, hpc] at hholds
    simp [hidle] at hholds
  | fits hpc hsize =>
    simp only [Run.Holds, hpc] at hholds
    obtain ⟨hactive, hbatch, -, hall⟩ := hholds
    exact ⟨htimer, hsizes, by simp [hactive, hbatch], hsize, hall⟩
  | flushed hpc =>
    simp only [Run.Holds, hpc] at hholds
    obtain ⟨hidle, hall⟩ := hholds
    exact ⟨htimer, hsizes, by simp [hidle], by simpa using hmax, by simpa using hall⟩
  | tick hpc hfired hbatch =>
    simp only [Run.Holds, hpc] at hholds
    obtain ⟨-, hsize, hall⟩ := hholds
    refine ⟨by simp, hsizes, ?_⟩
    simp only [Run.Holds, hpc]
    exact ⟨by simp [hbatch], hsize, hall⟩
  | tickFlush hpc hfired hbatch =>
    simp only [Run.Holds, hpc] at hholds
    obtain ⟨-, hsize, hall⟩ := hholds
    exact Run.Inv.startFlush rfl rfl hsizes hbatch hsize.le hall
  | expire wait harmed =>
    have hactive : r.timerActive = true := htimer.mpr (by simp [harmed])
    exact ⟨by simp [hactive], hsizes, hholds⟩

theorem run_inv {cfg : Config} {actions : List Action} {g : Batcher}
    (h : run (step cfg.normalized randomHex) (newBatcher cfg) actions = some g) :
    g.run.Inv cfg.normalized.maxBatchSize := by
  have hmax := cfg.normalized_normal.maxBatchSize
  refine run_invariant (motive := fun g => g.run.Inv cfg.normalized.maxBatchSize) h ?_ ?_
  · refine ⟨by simp [newBatcher], by simp [newBatcher], by simp [newBatcher], ?_, rfl⟩
    simpa [newBatcher] using hmax
  · exact fun g a g' hinv hstep => hinv.move hmax (step_run hstep)

/-- At every head of the loop, whatever happened before: the timer flag stands exactly for a
waiting batch, the batch is not full, and the flushed batches and the current one are the requests
received, in order. Every flushed batch has an allowed size, and a waiting batch a running timer. -/
theorem batchLoop_invariant (cfg : Config) (randomHex : Nat → Nat → String)
    (actions : List Action) (g : Batcher)
    (h : run (step cfg.normalized randomHex) (newBatcher cfg) actions = some g) :
    (g.run.pc = .select →
      (g.run.timerActive = true ↔ g.run.batch ≠ []) ∧
      (g.run.batch.length : Int) < cfg.normalized.maxBatchSize ∧
      g.run.flushed.flatten ++ g.run.batch = g.run.received ∧
      (g.run.batch ≠ [] → (∃ wait, g.run.timer = .armed wait) ∨ g.run.timer = .fired)) ∧
    (∀ batch ∈ g.run.flushed,
      1 ≤ batch.length ∧ (batch.length : Int) ≤ cfg.normalized.maxBatchSize) := by
  obtain ⟨htimer, hsizes, hholds⟩ := run_inv h
  refine ⟨fun hpc => ?_, fun batch hmem => ?_⟩
  · simp only [Run.Holds, hpc] at hholds
    obtain ⟨hactive, hsize, hall⟩ := hholds
    refine ⟨hactive, hsize, hall, fun hbatch => ?_⟩
    have hrunning := htimer.mp (hactive.mpr hbatch)
    cases ht : g.run.timer with
    | stopped => exact absurd ht hrunning
    | armed wait => exact Or.inl ⟨wait, rfl⟩
    | fired => exact Or.inr rfl
  · obtain ⟨hne, hle⟩ := hsizes batch hmem
    exact ⟨List.length_pos_iff.mpr hne, hle⟩

/-- Two requests, the second flushed with the first by the timer. -/
theorem batchLoop_timerFlush :
    let cfg : Config := { promptTokens := fun n => n }
    let submit : Nat → List Action := fun k =>
      .submit "prompt" "trace" "" :: List.replicate 5 (.advance k .channel)
    let loop : List Action := .receive :: List.replicate 3 (.loop 0 none)
    ∃ g, run (step cfg.normalized fun n _ => toString n) (newBatcher cfg)
        (submit 0 ++ submit 1 ++ loop ++ loop ++ [.expire, .tick]) = some g ∧
      ∀ batch ∈ g.run.flushed,
        1 ≤ batch.length ∧ (batch.length : Int) ≤ cfg.normalized.maxBatchSize := by
  intro cfg submit loop
  obtain ⟨g, hg⟩ := Option.isSome_iff_exists.mp
    (show (run (step cfg.normalized fun n _ => toString n) (newBatcher cfg)
      (submit 0 ++ submit 1 ++ loop ++ loop ++ [.expire, .tick])).isSome = true by decide +kernel)
  exact ⟨g, hg, (batchLoop_invariant cfg _ _ g hg).2⟩

end Laminar.Gateway
