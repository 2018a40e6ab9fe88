import Laminar.Gateway.CountersFlush

/-! The counters over whole runs of the batcher: every request is counted as often as its call and
`flush` find reason to, so a request counts twice when both find it cancelled. -/
namespace Laminar.Gateway
open Laminar.Transition Laminar.Sums
variable {config : Config} {randomHex : Nat → Nat → String} {g g' : Batcher} {k : Nat}

def Batcher.turning (g : Batcher) : Action → Option Nat
  | .loop _ _ =>
    match g.run.pc, g.todo, g.flushPC with
    | .flushing, [], .filter (k :: _) => if (g.calls k).ctxDone then some k else none
    | _, _, _ => none
  | _ => none

/-- No step finds a request cancelled that the other side has found cancelled before: the call that
waits for its response, or `flush` that looks at its batch. -/
def Batcher.CancelsOnce (g : Batcher) : Action → Prop
  | .advance k .ctxDone => (g.calls k).pc = .wait → g.found k = false
  | a => ∀ k ∈ g.turning a, (g.calls k).pc.stage ≤ 5

def Action.leaving : Action → Option Nat
  | .advance k .ctxDone => some k
  | _ => none

theorem cancelsOnce_iff (g : Batcher) (a : Action) : g.CancelsOnce a ↔
    (∀ k ∈ a.leaving, (g.calls k).pc.stage = 5 → g.found k = false) ∧
      ∀ k ∈ g.turning a, (g.calls k).pc.stage ≤ 5 := by
  have hwait : ∀ pc : SubmitPC, pc.stage = 5 ↔ pc = .wait := by
    intro pc
    cases pc <;> simp [SubmitPC.stage]
  cases a with
  | advance k case =>
    cases case <;> simp [Batcher.CancelsOnce, Batcher.turning, Action.leaving, hwait]
  | _ => simp [Batcher.CancelsOnce, Action.leaving]

instance (g : Batcher) (a : Action) : Decidable (g.CancelsOnce a) :=
  decidable_of_iff' _ (cancelsOnce_iff g a)

structure Batcher.Heard (g : Batcher) : Prop where
  once : g.toPipeline.Once
  listed : Listed g.todo
  chan : ∀ k resp, (g.calls k).respChan = some resp → resp.FromFlush
  gone : ∀ k, g.Open k → ∀ resp, (g.calls k).pc.response = some resp → resp.left = true
  result : ∀ k resp, (g.calls k).pc.response = some resp → resp.error = "" → resp.FromFlush

structure Batcher.Serves (g g' : Batcher) (c turn : Option Nat) : Prop where
  known : ∀ k ∈ c, k ∈ answering g.todo
  listed : Listed g'.todo
  pc : ∀ j, (g'.calls j).pc = (g.calls j).pc
  chan : ∀ j resp, (g'.calls j).respChan = some resp →
    (g.calls j).respChan = some resp ∨ resp.FromFlush
  found : ∀ j, g'.found j = (g.found j || decide (turn = some j))
  total : ∀ m : Metric, m.OfRequests → g'.metrics.total m =
    g.metrics.total m + if m = .requestsCancelled then c.toList.length else 0
  cancels : ∀ j, c.toList.count j + (cancelling g'.todo).count j =
    (cancelling g.todo).count j + (decide (turn = some j)).toNat

theorem Batcher.Serves.quiet (hlisted : Listed g.todo)
    (hcalls : ∀ j, (g'.calls j).pc = (g.calls j).pc ∧ (g'.calls j).respChan = (g.calls j).respChan)
    (htodo : g'.todo = g.todo ∨ (g.todo = [] ∧ ∀ o ∈ g'.todo, o.Neutral))
    (htotal : ∀ m, g'.metrics.total m = g.metrics.total m) : g.Serves g' none none := by
  have hsame : Listed g'.todo ∧ cancelling g'.todo = cancelling g.todo ∧
      ∀ j, g'.todo.any (FlushOp.turns j) = g.todo.any (FlushOp.turns j) := by
    obtain htodo | ⟨hnil, hneutral⟩ := htodo
    · rw [htodo]
      exact ⟨hlisted, rfl, fun j => rfl⟩
    · rw [hnil, neutral_cancelling hneutral]
      exact ⟨.neutral hneutral, rfl, fun j => neutral_turns hneutral j⟩
  obtain ⟨hlisted', hcancelling, hturns⟩ := hsame
  refine ⟨by simp, hlisted', fun j => (hcalls j).1,
    fun j resp hj => Or.inl ((hcalls j).2 ▸ hj), fun j => ?_,
    fun m _ => ?_, fun j => ?_⟩
  · simp [Pipeline.found, hturns, hcalls]
  · simp [htotal]
  · simp [hcancelling]

theorem dispatch_serves (hlisted : Listed g.todo) (htodo : g.todo = []) (now : Int)
    (ready : Option Bool) : g.Serves (g.dispatch config now ready) none none := by
  simp only [Batcher.dispatch]
  split
  · exact .quiet hlisted (fun j => ⟨rfl, rfl⟩) (Or.inl rfl) fun m => rfl
  · split
    · refine .quiet hlisted (fun j => ⟨rfl, rfl⟩) (Or.inr ⟨htodo, fun o ho => ?_⟩) fun m => rfl
      simp only [Batcher.push, Pipeline.push, htodo, List.append_nil] at ho
      exact neutral_rejectOps ho
    · refine .quiet hlisted (fun j => ⟨rfl, rfl⟩) (Or.inr ⟨htodo, fun o ho => ?_⟩) fun m => rfl
      simp only [Batcher.push, Pipeline.push, htodo, List.append_nil] at ho
      exact neutral_sendOps ho

theorem filter_serves {rest : List Nat} (hlisted : Listed g.todo) (htodo : g.todo = []) :
    g.Serves (g.filter k rest) none (if (g.calls k).ctxDone then some k else none) := by
  simp only [Batcher.filter]
  by_cases hdone : (g.calls k).ctxDone = true
  · rw [if_pos hdone, if_pos hdone]
    have hlist : (Batcher.push { g with flushPC := .filter rest }
        [.op (.endSpan (g.calls k).queueSpan "cancelled"), .op (.count .requestsCancelled),
          .deliver k (errorResponse (g.calls k).id .requestCancelled
            "cancelled before batch processing")]).todo =
        [.op (.endSpan (g.calls k).queueSpan "cancelled"), .op (.count .requestsCancelled),
          .deliver k (turnedResponse (g.calls k).id)] := by
      simp [Batcher.push, Pipeline.push, htodo, turnedResponse]
    refine ⟨by simp, ?_, fun j => rfl, fun j resp hj => Or.inl hj, fun j => ?_, fun m _ => ?_,
      fun j => ?_⟩
    · rw [hlist]
      exact .end k _ _
    · rw [Pipeline.found, hlist]
      simp [Batcher.push, Pipeline.push, Pipeline.found, htodo, FlushOp.turns,
        turnedResponse_turned, Bool.or_comm, Bool.or_assoc]
    · simp [Batcher.push]
    · rw [hlist]
      simp [cancelling, htodo, List.count_singleton, Bool.toNat]
  · rw [if_neg hdone, if_neg hdone]
    refine .quiet hlisted (fun j => ⟨rfl, rfl⟩) (Or.inr ⟨htodo, fun o ho => ?_⟩) fun m => rfl
    simp only [Batcher.push, Pipeline.push, htodo, List.append_nil, List.mem_singleton] at ho
    rw [ho]
    exact ⟨by simp, by simp [FlushOp.answer]⟩

theorem execFlush_serves {o : FlushOp} {rest : List FlushOp} (hlisted : Listed g.todo)
    (honce : g.toPipeline.Once) (htodo : g.todo = o :: rest) :
    g.Serves (Batcher.execFlush randomHex { g with todo := rest } o)
      (nextCancelled g.todo) none := by
  obtain ⟨hlist, hhands, hfound, htotal, hcancels⟩ :=
    hlisted.exec randomHex honce htodo
  refine ⟨fun k hk => nextCancelled_answering hk, by rwa [execFlush_todo], execFlush_pc o,
    fun j resp hj => ?_, fun j => ?_, fun m hm => ?_, fun j => ?_⟩
  · rw [execFlush_respChan] at hj
    obtain hold | ⟨-, hnew⟩ := Option.or_eq_some_iff.mp hj
    · exact Or.inl hold
    · exact Or.inr (hhands j resp hnew)
  · rw [hfound j]
    simp
  · rw [execFlush_total, htotal m hm]
  · rw [execFlush_todo, hcancels j]
    simp

theorem loop_serves {now : Int} {ready : Option Bool} (hheard : g.Heard)
    (htended : g.toPipeline.Tended) (h : g.loop config randomHex now ready = some g') :
    ∃ c : Option Nat, g.Serves g' c (g.turning (.loop now ready)) ∧
      g.counted (.loop now ready) = c.map fun k => (.requestsCancelled, k) := by
  have hlisted := hheard.listed
  have hidle : g.run.pc ≠ .flushing → g.turning (.loop now ready) = none ∧
      g.counted (.loop now ready) = none := by
    intro hpc
    simp only [Batcher.turning, Batcher.counted]
    cases hrun : g.run.pc with
    | flushing => exact absurd hrun hpc
    | _ => exact ⟨rfl, rfl⟩
  unfold Batcher.loop at h
  cases hpc : g.run.pc with
  | select => simp [hpc] at h
  | received k =>
    simp only [hpc] at h
    obtain rfl := Option.some.inj h
    obtain ⟨hturning, hcounted⟩ := hidle (by simp [hpc])
    rw [hturning, hcounted]
    refine ⟨none, .quiet hlisted (fun j => ⟨rfl, rfl⟩) (Or.inl rfl) fun m => ?_, rfl⟩
    cases m <;> rfl
  | arm =>
    simp only [hpc] at h
    obtain ⟨hturning, hcounted⟩ := hidle (by simp [hpc])
    rw [hturning, hcounted]
    split_ifs at h
    · obtain rfl := Option.some.inj h
      exact ⟨none, .quiet hlisted (fun j => ⟨rfl, rfl⟩) (Or.inl rfl) fun m => rfl, rfl⟩
    · obtain rfl := Option.some.inj h
      exact ⟨none, .quiet hlisted (fun j => ⟨rfl, rfl⟩) (Or.inl rfl) fun m => rfl, rfl⟩
  | check =>
    simp only [hpc] at h
    obtain ⟨hturning, hcounted⟩ := hidle (by simp [hpc])
    have htodo := (htended.idle (by simp [hpc])).1
    rw [hturning, hcounted]
    split_ifs at h
    · obtain rfl := Option.some.inj h
      exact ⟨none, .quiet hlisted (fun j => ⟨rfl, rfl⟩) (Or.inl htodo.symm) fun m => rfl, rfl⟩
    · obtain rfl := Option.some.inj h
      exact ⟨none, .quiet hlisted (fun j => ⟨rfl, rfl⟩) (Or.inl htodo.symm) fun m => rfl, rfl⟩
    · obtain rfl := Option.some.inj h
      exact ⟨none, .quiet hlisted (fun j => ⟨rfl, rfl⟩) (Or.inl rfl) fun m => rfl, rfl⟩
  | flushing =>
    rw [counted_loop now ready hpc]
    simp only [hpc] at h
    split at h
    · obtain rfl := Option.some.inj h
      rename_i o rest htodo
      have hturning : g.turning (.loop now ready) = none := by
        simp only [Batcher.turning, hpc, htodo]
      rw [hturning]
      exact ⟨nextCancelled g.todo, execFlush_serves hlisted hheard.once htodo, rfl⟩
    · obtain rfl := Option.some.inj h
      rename_i k rest htodo hfilter
      have hturning : g.turning (.loop now ready) =
          if (g.calls k).ctxDone then some k else none := by
        simp only [Batcher.turning, hpc, htodo, hfilter]
      rw [hturning, htodo]
      exact ⟨none, filter_serves hlisted htodo, rfl⟩
    · obtain rfl := Option.some.inj h
      rename_i htodo hfilter
      have hturning : g.turning (.loop now ready) = none := by
        simp only [Batcher.turning, hpc, htodo, hfilter]
      rw [hturning, htodo]
      exact ⟨none, dispatch_serves hlisted htodo now ready, rfl⟩
    · obtain rfl := Option.some.inj h
      rename_i htodo hcall
      have hturning : g.turning (.loop now ready) = none := by
        simp only [Batcher.turning, hpc, htodo, hcall]
      rw [hturning, htodo]
      exact ⟨none, .quiet hlisted (fun j => ⟨rfl, rfl⟩) (Or.inl rfl) fun m => rfl, rfl⟩
    · exact absurd h (by simp)
    · obtain rfl := Option.some.inj h
      rename_i htodo hdone
      have hturning : g.turning (.loop now ready) = none := by
        simp only [Batcher.turning, hpc, htodo, hdone]
      rw [hturning, htodo]
      exact ⟨none, .quiet hlisted (fun j => ⟨rfl, rfl⟩) (Or.inl htodo.symm) fun m => rfl, rfl⟩

theorem step_serves {a : Action} (hheard : g.Heard) (hkept : g.Kept config.maxBatchSize)
    (hnot : ∀ k case, a ≠ .advance k case) (h : step config randomHex g a = some g') :
    ∃ c : Option Nat, g.Serves g' c (g.turning a) ∧
      g.counted a = c.map fun k => (.requestsCancelled, k) := by
  have hlisted := hheard.listed
  cases a with
  | submit prompt traceID parentSpanID =>
    obtain rfl := Option.some.inj h
    refine ⟨none, .quiet hlisted (fun j => ?_) (Or.inl rfl) fun m => rfl, rfl⟩
    simp only [Batcher.update, update_calls]
    split_ifs with hj
    · -- no step was taken on a call that did not exist
      have hpc : (g.calls j).pc.stage < 1 := by
        by_contra hstage
        have := hkept.identified.known j (by omega)
        omega
      have hchan : (g.calls j).respChan = none := by
        by_contra hsome
        have := (hkept.placed.flushed hkept.loop (hkept.placed.resp j hsome)).known
        omega
      refine ⟨?_, hchan.symm⟩
      cases hcall : (g.calls j).pc <;> simp [hcall, SubmitPC.stage] at hpc
      rfl
    · exact ⟨rfl, rfl⟩
  | cancel k =>
    simp only [step] at h
    split_ifs at h
    obtain rfl := Option.some.inj h
    refine ⟨none, .quiet hlisted (fun j => ?_) (Or.inl rfl) fun m => rfl, rfl⟩
    simp only [Batcher.update, update_calls]
    split_ifs with hj
    · rw [hj]
      exact ⟨rfl, rfl⟩
    · exact ⟨rfl, rfl⟩
  | advance k case => exact absurd rfl (hnot k case)
  | receive =>
    simp only [step, Batcher.receive] at h
    split at h
    · obtain rfl := Option.some.inj h
      exact ⟨none, .quiet hlisted (fun j => ⟨rfl, rfl⟩) (Or.inl rfl) fun m => rfl, rfl⟩
    · exact absurd h (by simp)
  | tick =>
    simp only [step, Batcher.tick] at h
    split_ifs at h with hready hbatch
    · obtain rfl := Option.some.inj h
      exact ⟨none, .quiet hlisted (fun j => ⟨rfl, rfl⟩) (Or.inl rfl) fun m => rfl, rfl⟩
    · obtain rfl := Option.some.inj h
      have htodo := (hkept.tended.idle (by simp [hready.1])).1
      exact ⟨none, .quiet hlisted (fun j => ⟨rfl, rfl⟩) (Or.inl htodo.symm) fun m => rfl, rfl⟩
  | expire =>
    simp only [step, Batcher.expire] at h
    split at h
    · obtain rfl := Option.some.inj h
      exact ⟨none, .quiet hlisted (fun j => ⟨rfl, rfl⟩) (Or.inl rfl) fun m => rfl, rfl⟩
    · exact absurd h (by simp)
  | loop now ready => exact loop_serves hheard hkept.tended h
  | reply answer latency order order' =>
    simp only [step, Batcher.reply] at h
    split_ifs at h with hready
    obtain rfl := Option.some.inj h
    refine ⟨none, .quiet hlisted (fun j => ⟨rfl, rfl⟩) (Or.inr ⟨hready.2.1, fun o ho => ?_⟩)
      fun m => rfl, rfl⟩
    simp only [Batcher.push, Pipeline.push, hready.2.1, List.append_nil] at ho
    exact neutral_settleOps ho
  | probe now ready =>
    obtain rfl := Option.some.inj h
    exact ⟨none, .quiet hlisted (fun j => ⟨rfl, rfl⟩) (Or.inl rfl) fun m => rfl, rfl⟩
  | streamID =>
    obtain rfl := Option.some.inj h
    exact ⟨none, .quiet hlisted (fun j => ⟨rfl, rfl⟩) (Or.inl rfl) fun m => rfl, rfl⟩

section
variable {case : SelectCase} {m : Option Metric}

/-- What a call has to count of itself, it counts. -/
theorem Call.Counting.due {c c' : Call} (h : c.Counting c' case m)
    (hchan : ∀ resp, c.respChan = some resp → resp.FromFlush) (m' : Metric) :
    (if m' ∈ m then 1 else 0) + c'.pc.uncounted m' + c.pc.due m' =
      c'.pc.due m' + c.pc.uncounted m' := by
  have hcalm : ∀ pc : SubmitPC, pc.response = none → pc.due m' = 0 ∧ pc.uncounted m' = 0 := by
    intro pc hpc
    cases pc <;> simp_all [SubmitPC.due, SubmitPC.uncounted, SubmitPC.response]
  cases h with
  | on hwait hbefore hafter hsame => simp [hcalm _ hbefore, hcalm _ hafter]
  | leave todo resp hbefore hpc hsame htodo hturned herror hfrom =>
    rw [(hcalm _ hbefore).1, (hcalm _ hbefore).2, hpc]
    simp [SubmitPC.due, SubmitPC.uncounted, SubmitPC.response, htodo]
  | take resp hwait hcase hresp hnone hpc =>
    have hbefore := hcalm c.pc (by rw [hwait]; rfl)
    rw [hbefore.1, hbefore.2, hpc]
    simp [SubmitPC.due, SubmitPC.uncounted, SubmitPC.response, (hchan resp hresp).due]
  | exec o todo resp hbefore hpc hsame hm =>
    rw [hpc, hbefore]
    simp only [SubmitPC.due, SubmitPC.uncounted, SubmitPC.response, List.countP_cons, ← hm m']
    omega
  | «return» resp hbefore hpc hsame =>
    rw [hpc, hbefore]
    simp [SubmitPC.due, SubmitPC.uncounted, SubmitPC.response]

theorem Call.Counting.turned {c c' : Call} (h : c.Counting c' case m) :
    (c'.respChan.any Response.turned || c'.pc.response.any Response.turned) =
      (c.respChan.any Response.turned || c.pc.response.any Response.turned) := by
  cases h with
  | on hwait hbefore hafter hsame => rw [hsame, hbefore, hafter]
  | leave todo resp hbefore hpc hsame htodo hturned herror hfrom =>
    rw [hsame, hbefore, hpc]
    simp [SubmitPC.response, hturned]
  | take resp hwait hcase hresp hnone hpc =>
    rw [hresp, hnone, hpc, hwait]
    simp [SubmitPC.response]
  | exec o todo resp hbefore hpc hsame hm =>
    rw [hsame, hpc, hbefore]
    rfl
  | «return» resp hbefore hpc hsame =>
    rw [hsame, hpc, hbefore]
    rfl

end

theorem advance_found {case : SelectCase} (h : g.advance config randomHex k case = some g')
    (j : Nat) :
    g'.found j = g.found j := by
  obtain ⟨⟨m, hcounting, -⟩, htodo, -⟩ := advance_counting h
  simp only [Pipeline.found, htodo, Bool.or_assoc]
  by_cases hjk : j = k
  · subst hjk
    rw [hcounting.turned]
  · obtain ⟨hpc, hchan⟩ := advance_other h hjk
    rw [hpc, hchan]

section
variable (hheard : g.Heard) (hkept : g.Kept config.maxBatchSize)
include hheard hkept

omit hkept in
/-- `flush` finds a request cancelled that it has not answered; its call is still there, or has left
by itself. -/
theorem Batcher.Heard.turning {a : Action} (hk : k ∈ g.turning a) :
    g.found k = false ∧
      ((g.calls k).pc.stage ≤ 5 ↔ (g.calls k).pc.response.any Response.left = false) := by
  have hplace : g.todo = [] ∧ k ∈ g.unanswered := by
    cases a with
    | loop now ready =>
      simp only [Batcher.turning] at hk
      split at hk
      · rename_i j rest hrun htodo hfilter
        split_ifs at hk
        · obtain rfl := Option.some.inj hk
          exact ⟨htodo, by simp [Pipeline.unanswered, Pipeline.waiting, hfilter, FlushPC.rest]⟩
        · simp at hk
      · simp at hk
    | _ => simp [Batcher.turning] at hk
  obtain ⟨htodo, hunanswered⟩ := hplace
  have hchan : (g.calls k).respChan = none := by
    by_contra hsome
    exact hheard.once.there k hsome hunanswered
  have hgone := hheard.gone k (Or.inl hunanswered)
  rw [Pipeline.found, htodo, hchan]
  cases hpc : (g.calls k).pc with
  | leave todo resp =>
    have hleft := hgone resp (by rw [hpc]; rfl)
    simp [SubmitPC.response, SubmitPC.stage, hleft, left_turned hleft]
  | returned resp =>
    have hleft := hgone resp (by rw [hpc]; rfl)
    simp [SubmitPC.response, SubmitPC.stage, hleft, left_turned hleft]
  | _ => simp [SubmitPC.response, SubmitPC.stage]

theorem Batcher.Counts.move {counted : List (Metric × Nat)} (h : g.Counts counted) {a : Action}
    (hstep : Gateway.step config randomHex g a = some g') :
    g'.Counts (counted ++ (g.counted a).toList) := by
  by_cases hown : ∃ k case, a = .advance k case
  · obtain ⟨k, case, rfl⟩ := hown
    simp only [Gateway.step] at hstep
    split_ifs at hstep with hk
    obtain ⟨⟨m₀, hcounting, hcounted⟩, htodo, htotal⟩ := advance_counting hstep
    refine h.step _ (advance_submitted hstep).ge (fun e he => ?_) (fun m _ => htotal m)
      fun m hm j => ?_
    · rw [hcounted] at he
      obtain ⟨m, -, rfl⟩ := Option.mem_map.mp he
      exact hk
    · simp only [Batcher.unpaid, Batcher.toll, htodo, advance_found hstep j]
      by_cases hjk : j = k
      · subst hjk
        have hdue := hcounting.due (hheard.chan j) m
        have hcount :
            (g.counted (.advance j case)).toList.count (m, j) = if m ∈ m₀ then 1 else 0 := by
          rw [hcounted]
          cases m₀ with
          | none => simp
          | some m' => simp [List.count_singleton]
        omega
      · have hcount : (g.counted (.advance k case)).toList.count (m, j) = 0 := by
          rw [hcounted]
          cases m₀ with
          | none => simp
          | some m' => simp [Ne.symm hjk]
        rw [(advance_other hstep hjk).1]
        omega
  · obtain ⟨c, hserves, hcounted⟩ := step_serves hheard hkept
      (fun k case ha => hown ⟨k, case, ha⟩) hstep
    have hsubmitted : g.submitted ≤ g'.submitted := by
      cases a with
      | submit prompt traceID parentSpanID =>
        obtain rfl := Option.some.inj hstep
        exact Nat.le_succ _
      | _ => exact (step_submitted hstep (by simp)).ge
    refine h.step _ hsubmitted (fun e he => ?_) (fun m hm => ?_) fun m hm j => ?_
    · rw [hcounted] at he
      obtain ⟨k, hk, rfl⟩ := Option.mem_map.mp he
      have hopen : g.Open k := Or.inr (Or.inl (hserves.known k hk))
      exact hkept.identified.known k
        ((by decide : 1 ≤ 4).trans (hopen.stage hkept.loop hkept.placed))
    · rw [hserves.total m hm, hcounted]
      cases c with
      | none => simp
      | some k => simp [List.countP_cons, eq_comm]
    · simp only [Batcher.unpaid, Batcher.toll, hserves.pc j]
      have hcancels := hserves.cancels j
      have hfound := hserves.found j
      by_cases hm : m = .requestsCancelled
      · subst hm
        have hcount : (g.counted a).toList.count (.requestsCancelled, j) = c.toList.count j := by
          rw [hcounted]
          cases c with
          | none => rfl
          | some k => simp [List.count_singleton]
        by_cases hturn : g.turning a = some j
        · have hunfound := (hheard.turning hturn).1
          simp only [hturn, hunfound, decide_true, Bool.or_true, Bool.toNat_true] at hfound hcancels
          simp only [if_true, hfound, hunfound, Bool.toNat_true, Bool.toNat_false]
          omega
        · simp only [hturn, decide_false, Bool.or_false, Bool.toNat_false] at hfound hcancels
          simp only [if_true, hfound]
          omega
      · have hcount : (g.counted a).toList.count (m, j) = 0 := by
          rw [hcounted]
          cases c with
          | none => rfl
          | some k => simp [Ne.symm hm]
        simp only [if_neg hm]
        omega

/-- A call that leaves while an answer to it may still come has been cancelled. -/
theorem Call.Counting.gone {c' : Call} {case : SelectCase} {m : Option Metric}
    (hcounting : (g.calls k).Counting c' case m) (hopen : g.Open k)
    {resp : Response} (hresp : c'.pc.response = some resp)
    (htaken : ∀ resp', (g.calls k).pc = .wait → (g.calls k).respChan = some resp' →
      c'.respChan ≠ none) : resp.left = true := by
  cases hcounting with
  | on hwait hbefore hafter hsame => simp [hafter] at hresp
  | leave todo resp' hbefore hpc hsame htodo hturned herror hfrom =>
    obtain rfl : resp' = resp := by simpa [hpc, SubmitPC.response] using hresp
    obtain hstage | ⟨-, -, hleft⟩ := hfrom
    · have := hopen.stage hkept.loop hkept.placed
      omega
    · exact hleft
  | take resp' hwait hcase hthere hnone hpc => exact absurd hnone (htaken resp' hwait hthere)
  | exec o todo resp' hbefore hpc hsame hm =>
    refine hheard.gone k hopen resp ?_
    rw [hpc] at hresp
    rw [hbefore]
    exact hresp
  | «return» resp' hbefore hpc hsame =>
    refine hheard.gone k hopen resp ?_
    rw [hpc] at hresp
    rw [hbefore]
    exact hresp

omit hkept in
/-- A result comes from `flush`. -/
theorem Call.Counting.result {c' : Call} {case : SelectCase} {m : Option Metric}
    (hcounting : (g.calls k).Counting c' case m) {resp : Response}
    (hresp : c'.pc.response = some resp) (hok : resp.error = "") : resp.FromFlush := by
  cases hcounting with
  | on hwait hbefore hafter hsame => simp [hafter] at hresp
  | leave todo resp' hbefore hpc hsame htodo hturned herror hfrom =>
    obtain rfl : resp' = resp := by simpa [hpc, SubmitPC.response] using hresp
    exact absurd hok herror
  | take resp' hwait hcase hthere hnone hpc =>
    obtain rfl : resp' = resp := by simpa [hpc, SubmitPC.response] using hresp
    exact hheard.chan k resp' hthere
  | exec o todo resp' hbefore hpc hsame hm =>
    rw [hpc] at hresp
    exact hheard.result k resp (by rw [hbefore]; exact hresp) hok
  | «return» resp' hbefore hpc hsame =>
    rw [hpc] at hresp
    exact hheard.result k resp (by rw [hbefore]; exact hresp) hok

theorem Batcher.Heard.step {a : Action} (hstep : Gateway.step config randomHex g a = some g') :
    g'.Heard := by
  have hhands := (step_move hstep).hands hkept.loop hkept.placed hkept.tended hkept.corresponds
  have honce := hheard.once.move hkept.loop hkept.placed hkept.tended hkept.corresponds
    (step_move hstep)
  have hqueued : ∀ j resp, (g'.calls j).pc.response = some resp → ¬ (g'.calls j).pc = .queued := by
    intro j resp hresp hpc
    rw [hpc] at hresp
    exact absurd hresp (by simp [SubmitPC.response])
  by_cases hown : ∃ k case, a = .advance k case
  · obtain ⟨k, case, rfl⟩ := hown
    simp only [Gateway.step] at hstep
    split_ifs at hstep with hk
    obtain ⟨⟨m, hcounting, -⟩, htodo, -⟩ := advance_counting hstep
    refine ⟨honce, by rw [htodo]; exact hheard.listed, fun j resp hj => ?_,
      fun j hopen resp hresp => ?_,
      fun j resp hresp hok => ?_⟩
    · by_cases hjk : j = k
      · subst hjk
        have hsame : (g'.calls j).respChan = (g.calls j).respChan := by
          cases hcounting with
          | take resp' hwait hcase hthere hnone hpc => simp [hnone] at hj
          | _ => assumption
        exact hheard.chan j resp (hsame ▸ hj)
      · exact hheard.chan j resp ((advance_other hstep hjk).2 ▸ hj)
    · obtain hopen' | ⟨-, hpc⟩ := hhands.opened hopen
      · by_cases hjk : j = k
        · subst hjk
          refine hcounting.gone hheard hkept hopen' hresp fun resp' hwait hthere hnone => ?_
          exact hhands.taken hheard.once hwait (by simp [hthere]) hnone hopen
        · rw [(advance_other hstep hjk).1] at hresp
          exact hheard.gone j hopen' resp hresp
      · exact absurd hpc (hqueued j resp hresp)
    · by_cases hjk : j = k
      · subst hjk
        exact hcounting.result hheard hresp hok
      · rw [(advance_other hstep hjk).1] at hresp
        exact hheard.result j resp hresp hok
  · obtain ⟨c, hserves, -⟩ := step_serves hheard hkept (fun k case ha => hown ⟨k, case, ha⟩) hstep
    refine ⟨honce, hserves.listed, fun j resp hj => ?_, fun j hopen resp hresp => ?_,
      fun j resp hresp hok => hheard.result j resp (hserves.pc j ▸ hresp) hok⟩
    · obtain hold | hnew := hserves.chan j resp hj
      · exact hheard.chan j resp hold
      · exact hnew
    · obtain hopen' | ⟨-, hpc⟩ := hhands.opened hopen
      · rw [hserves.pc j] at hresp
        exact hheard.gone j hopen' resp hresp
      · exact absurd hpc (hqueued j resp hresp)

end

def Batcher.Unanimous (g : Batcher) : Prop :=
  ∀ k, g.found k = true → (g.calls k).pc.response.any Response.left = false

section
variable (hheard : g.Heard) (hkept : g.Kept config.maxBatchSize)
include hheard hkept

omit hheard in
/-- A request that `flush` has found cancelled was in the channel. -/
theorem Batcher.Kept.found_stage (hfound : g.found k = true) : 4 ≤ (g.calls k).pc.stage := by
  simp only [Pipeline.found, Bool.or_eq_true, List.any_eq_true] at hfound
  obtain (⟨o, ho, hturns⟩ | hchan) | hresp := hfound
  · have hanswering : k ∈ answering g.todo := by
      refine mem_answering.mpr ⟨o, ho, ?_⟩
      cases o <;> simp [FlushOp.turns] at hturns <;> exact ⟨_, by rw [← hturns.1]; rfl⟩
    exact Pipeline.Open.stage hkept.loop hkept.placed (Or.inr (Or.inl hanswering))
  · refine Pipeline.Open.stage hkept.loop hkept.placed (Or.inr (Or.inr ?_))
    intro hnone
    simp [hnone] at hchan
  · cases hpc : (g.calls k).pc <;> simp_all [SubmitPC.response, SubmitPC.stage]

theorem advance_unanimous {case : SelectCase}
    (hstep : g.advance config randomHex k case = some g') :
    g'.Unanimous ↔ g.Unanimous ∧ g.CancelsOnce (.advance k case) := by
  obtain ⟨⟨m, hcounting, -⟩, htodo, -⟩ := advance_counting hstep
  have hfound := advance_found hstep
  have hothers : ∀ j, j ≠ k → (g'.calls j).pc = (g.calls j).pc :=
    fun j hj => (advance_other hstep hj).1
  have hown : (g.found k = true → (g'.calls k).pc.response.any Response.left = false) ↔
      (g.found k = true → (g.calls k).pc.response.any Response.left = false) ∧
        g.CancelsOnce (.advance k case) := by
    have hfree : (g.calls k).pc ≠ .wait → g.CancelsOnce (.advance k case) := by
      intro hpc
      cases case with
      | ctxDone => exact fun hwait => absurd hwait hpc
      | _ => simp [Batcher.CancelsOnce, Batcher.turning]
    cases hcounting with
    | on hwait hbefore hafter hsame => simp [hbefore, hafter, hfree hwait]
    | leave todo resp hbefore hpc hsame htodo hturned herror hfrom =>
      obtain hstage | ⟨hwait, rfl, hleft⟩ := hfrom
      · have hunfound : g.found k = false := by
          by_contra hne
          have := hkept.found_stage (by simpa using hne)
          omega
        have hpc' : (g.calls k).pc ≠ .wait := by
          intro hwait
          rw [hwait] at hstage
          exact absurd hstage (by decide)
        simp [hunfound, hfree hpc']
      · simp [hpc, SubmitPC.response, hleft, Batcher.CancelsOnce, hwait]
    | take resp hwait hcase hthere hnone hpc =>
      subst hcase
      have hleft : resp.left = false := by
        obtain hneutral | ⟨id, rfl⟩ := hheard.chan k resp hthere
        · simp [Response.left, hneutral.1]
        · exact turnedResponse_left id
      simp [hpc, hwait, SubmitPC.response, hleft, Batcher.CancelsOnce, Batcher.turning]
    | exec o todo resp hbefore hpc hsame hm =>
      simp [hpc, hbefore, SubmitPC.response, hfree (by simp [hbefore])]
    | «return» resp hbefore hpc hsame =>
      simp [hpc, hbefore, SubmitPC.response, hfree (by simp [hbefore])]
  constructor
  · intro h
    have hk' := hown.mp (by rw [← hfound k]; exact h k)
    refine ⟨fun j hj => ?_, hk'.2⟩
    by_cases hjk : j = k
    · subst hjk
      exact hk'.1 hj
    · rw [← hothers j hjk]
      exact h j ((hfound j).trans hj)
  · intro h j hj
    rw [hfound j] at hj
    by_cases hjk : j = k
    · subst hjk
      exact hown.mpr ⟨h.1 j, h.2⟩ hj
    · rw [hothers j hjk]
      exact h.1 j hj

omit hkept in
theorem cancelsOnce_turning {a : Action} (hown : ∀ k case, a ≠ .advance k case) :
    g.CancelsOnce a ↔ ∀ k ∈ g.turning a, (g.calls k).pc.response.any Response.left = false := by
  have hiff : (∀ k ∈ g.turning a, (g.calls k).pc.stage ≤ 5) ↔
      ∀ k ∈ g.turning a, (g.calls k).pc.response.any Response.left = false :=
    forall₂_congr fun k hk => (hheard.turning hk).2
  rw [← hiff]
  cases a with
  | advance k case => exact absurd rfl (hown k case)
  | _ => exact Iff.rfl

/-- A step finds a request cancelled for the second time, or it does not. -/
theorem unanimous_step {a : Action} (hstep : step config randomHex g a = some g') :
    g'.Unanimous ↔ g.Unanimous ∧ g.CancelsOnce a := by
  by_cases hown : ∃ k case, a = .advance k case
  · obtain ⟨k, case, rfl⟩ := hown
    simp only [step] at hstep
    split_ifs at hstep with hk
    exact advance_unanimous hheard hkept hstep
  · have hothers : ∀ k case, a ≠ .advance k case := fun k case ha => hown ⟨k, case, ha⟩
    obtain ⟨c, hserves, -⟩ := step_serves hheard hkept hothers hstep
    rw [cancelsOnce_turning hheard hothers]
    constructor
    · intro h
      refine ⟨fun j hj => ?_, fun j hj => ?_⟩
      · rw [← hserves.pc j]
        exact h j (by rw [hserves.found j, hj]; rfl)
      · rw [← hserves.pc j]
        exact h j (by rw [hserves.found j, Option.mem_def.mp hj]; simp)
    · intro h j hj
      rw [hserves.found j, Bool.or_eq_true, decide_eq_true_eq] at hj
      rw [hserves.pc j]
      obtain hold | hnew := hj
      · exact h.1 j hold
      · exact h.2 j hnew

end

def SubmitPC.ReturnedWith (codes : List ErrorCode) : SubmitPC → Prop
  | .returned resp => ∃ code ∈ codes, resp.errorCode = some code
  | _ => False

instance SubmitPC.decidableReturnedWith (codes : List ErrorCode) :
    DecidablePred (SubmitPC.ReturnedWith codes)
  | .returned resp => inferInstanceAs (Decidable (∃ code ∈ codes, resp.errorCode = some code))
  | .generateID | .tryAcquire | .startSpan _ | .enqueue | .queued | .wait | .leave _ _ => isFalse id

def Batcher.returnedWith (g : Batcher) (codes : List ErrorCode) : Nat :=
  ((Finset.range g.submitted).filter fun k => (g.calls k).pc.ReturnedWith codes).card

structure Batcher.CountsRequests (g : Batcher) (counted : List (Metric × Nat)) : Prop where
  cancelled : g.metrics.requestsCancelled = g.returnedWith [.requestCancelled]
  rejected : g.metrics.requestsRejected = g.returnedWith [.queueFull, .admissionRejected]
  duration : g.metrics.requestDuration = g.submitted
  observed : ∀ k < g.submitted, counted.count (.requestDuration, k) = 1
  once : ∀ k, counted.count (.requestsCancelled, k) ≤ 1
  successful : ∀ k resp, (g.calls k).pc = .returned resp → resp.error = "" →
    (.requestsCancelled, k) ∉ counted

section
variable {counted : List (Metric × Nat)} (h : g.Counts counted) (hheard : g.Heard)
  (hkept : g.Kept config.maxBatchSize) (hrest : g.AtRest config randomHex)
include h hkept hrest

/-- At rest every request has been counted as often as it has to be. -/
theorem Batcher.Counts.settled {resp : Response} (hpc : (g.calls k).pc = .returned resp)
    (m : Metric) (hm : m.OfRequests) : counted.count (m, k) =
      resp.due m + if m = .requestsCancelled then (g.found k).toNat else 0 := by
  have hselect := (hrest.run hkept.loop).1
  have htodo := (hkept.tended.idle (by simp [hselect])).1
  have heach := h.each m hm k
  simp only [Batcher.unpaid, Batcher.toll, htodo, hpc, SubmitPC.uncounted, SubmitPC.due,
    SubmitPC.response, cancelling, List.count_nil, ite_self, Nat.add_zero] at heach
  exact heach

theorem Batcher.Counts.total_eq {m : Metric} (hm : m.OfRequests) {codes : List ErrorCode}
    (hcodes : ∀ k resp, (g.calls k).pc = .returned resp →
      counted.count (m, k) = if ∃ code ∈ codes, resp.errorCode = some code then 1 else 0) :
    g.metrics.total m = g.returnedWith codes := by
  rw [h.totals m hm, countP_fst_eq_sum h.known, Batcher.returnedWith, Finset.card_filter]
  refine Finset.sum_congr rfl fun k hk => ?_
  obtain ⟨resp, hpc⟩ := hrest.returned hkept.loop hkept.tended (Finset.mem_range.mp hk)
  rw [hcodes k resp hpc, hpc]
  rfl

include hheard

omit h in
/-- At rest a request is found cancelled, by its call or by `flush`, if its call returns so. -/
theorem Batcher.Heard.cancelled {resp : Response} (hpc : (g.calls k).pc = .returned resp) :
    (resp.left = true ∨ g.found k = true) ↔ resp.errorCode = some .requestCancelled := by
  have hturned : resp.turned = true → g.found k = true := by
    intro hturned
    simp [Pipeline.found, hpc, SubmitPC.response, hturned]
  constructor
  · intro hor
    obtain hleft | hfound := hor
    · simp only [Response.left, decide_eq_true_eq] at hleft
      exact hleft.1
    · have hselect := (hrest.run hkept.loop).1
      have htodo := (hkept.tended.idle (by simp [hselect])).1
      simp only [Pipeline.found, htodo, hpc, SubmitPC.response, List.any_nil, Bool.false_or,
        Bool.or_eq_true, Option.any_some] at hfound
      obtain hchan | hresp := hfound
      · have hopen : g.Open k := Or.inr (Or.inr (by rintro hnone; simp [hnone] at hchan))
        have hleft := hheard.gone k hopen resp (by rw [hpc]; rfl)
        simp only [Response.left, decide_eq_true_eq] at hleft
        exact hleft.1
      · simp only [Response.turned, decide_eq_true_eq] at hresp
        exact hresp.1
  · intro hcode
    by_cases herror : resp.error = "cancelled before batch processing"
    · exact Or.inr (hturned (by simp [Response.turned, hcode, herror]))
    · exact Or.inl (by simp [Response.left, hcode, herror])

theorem Batcher.Counts.requests_iff : g.CountsRequests counted ↔ g.Unanimous := by
  have hcancelled : ∀ k resp, (g.calls k).pc = .returned resp →
      counted.count (.requestsCancelled, k) = resp.left.toNat + (g.found k).toNat := by
    intro k resp hpc
    rw [h.settled hkept hrest hpc .requestsCancelled trivial, if_pos rfl]
    rfl
  constructor
  · intro hcounts k hfound
    have hk : k < g.submitted :=
      hkept.identified.known k ((by decide : 1 ≤ 4).trans (hkept.found_stage hfound))
    obtain ⟨resp, hpc⟩ := hrest.returned hkept.loop hkept.tended hk
    have honce := hcounts.once k
    rw [hcancelled k resp hpc, hfound] at honce
    cases hleft : resp.left with
    | true => simp [hleft] at honce
    | false => simp [hpc, SubmitPC.response, hleft]
  · intro hunanimous
    have hone : ∀ k resp, (g.calls k).pc = .returned resp →
        counted.count (.requestsCancelled, k) =
          if resp.errorCode = some .requestCancelled then 1 else 0 := by
      intro k resp hpc
      have hiff := hheard.cancelled hkept hrest hpc
      have hboth := hunanimous k
      simp only [hpc, SubmitPC.response, Option.any_some] at hboth
      rw [hcancelled k resp hpc]
      by_cases hcode : resp.errorCode = some .requestCancelled
      · rw [if_pos hcode]
        obtain hleft | hfound := hiff.mpr hcode
        · cases hfound : g.found k with
          | true => simp [hboth hfound] at hleft
          | false => simp [hleft]
        · simp [hfound, hboth hfound]
      · rw [if_neg hcode]
        have hnot := mt hiff.mp hcode
        simp only [not_or, Bool.not_eq_true] at hnot
        simp [hnot.1, hnot.2]
    refine ⟨?_, ?_, ?_, fun k hk => ?_, fun k => ?_, fun k resp hpc hok hmem => ?_⟩
    · refine h.total_eq hkept hrest (m := .requestsCancelled) trivial fun k resp hpc => ?_
      rw [hone k resp hpc]
      simp
    · refine h.total_eq hkept hrest (m := .requestsRejected) trivial fun k resp hpc => ?_
      rw [h.settled hkept hrest hpc .requestsRejected trivial]
      simp [Response.due]
    · have hsum := (h.totals .requestDuration trivial).trans (countP_fst_eq_sum h.known _)
      refine hsum.trans ?_
      rw [Finset.sum_congr rfl fun k hk => ?_, Finset.sum_const, Finset.card_range, smul_eq_mul,
        Nat.mul_one]
      obtain ⟨resp, hpc⟩ := hrest.returned hkept.loop hkept.tended (Finset.mem_range.mp hk)
      exact h.settled hkept hrest hpc .requestDuration trivial
    · obtain ⟨resp, hpc⟩ := hrest.returned hkept.loop hkept.tended hk
      exact h.settled hkept hrest hpc .requestDuration trivial
    · by_cases hk : k < g.submitted
      · obtain ⟨resp, hpc⟩ := hrest.returned hkept.loop hkept.tended hk
        rw [hone k resp hpc]
        split_ifs <;> omega
      · rw [List.count_eq_zero_of_not_mem fun hmem => hk (h.known _ hmem)]
        exact Nat.zero_le 1
    · have hcode : resp.errorCode ≠ some .requestCancelled := by
        obtain hneutral | ⟨id, rfl⟩ := hheard.result k resp (by rw [hpc]; rfl) hok
        · exact hneutral.1
        · simp [turnedResponse, errorResponse] at hok
      have hzero := hone k resp hpc
      rw [if_neg hcode, List.count_eq_zero] at hzero
      exact hzero hmem

end

section
variable {cfg : Config} {actions : List Action}

theorem newBatcher_heard (cfg : Config) : (newBatcher cfg).Heard := by
  refine ⟨⟨?_, ?_, ?_⟩, .neutral ?_, ?_, ?_, ?_⟩ <;>
    simp [newBatcher, answering, SubmitPC.response]

theorem newBatcher_counts (cfg : Config) : (newBatcher cfg).Counts [] := by
  refine ⟨fun m _ => ?_, fun m _ k => ?_, by simp⟩
  · cases m <;> rfl
  · simp [newBatcher, Batcher.unpaid, Batcher.toll, SubmitPC.uncounted, SubmitPC.due,
      SubmitPC.response, cancelling, Pipeline.found]

theorem run_counts (h : run (step cfg.normalized randomHex) (newBatcher cfg) actions = some g) :
    g.Kept cfg.normalized.maxBatchSize ∧ g.Heard ∧
      g.Counts
        (observed Batcher.counted (step cfg.normalized randomHex) (newBatcher cfg) actions) := by
  have hmax := cfg.normalized_normal.maxBatchSize
  change g.Kept cfg.normalized.maxBatchSize ∧ g.Heard ∧ g.Counts ([] ++
    observed Batcher.counted (step cfg.normalized randomHex) (newBatcher cfg) actions)
  refine run_observed (motive := fun g counted => g.Kept cfg.normalized.maxBatchSize ∧ g.Heard ∧
    g.Counts counted) h
    ⟨newBatcher_kept cfg, newBatcher_heard cfg, newBatcher_counts cfg⟩
    fun g a g' counted hg hstep => ?_
  obtain ⟨hkept, hheard, hcounts⟩ := hg
  exact ⟨hkept.step hmax hstep, hheard.step hkept hstep, hcounts.move hheard hkept hstep⟩

/-- Once the batcher rests, its counters have counted requests if and only if no request was found
cancelled by its waiting call and by `flush` both. -/
theorem counters_exact_iff
    (h : run (step cfg.normalized randomHex) (newBatcher cfg) actions = some g)
    (hrest : g.AtRest cfg.normalized randomHex) :
    g.CountsRequests
        (observed Batcher.counted (step cfg.normalized randomHex) (newBatcher cfg) actions) ↔
      Along (step cfg.normalized randomHex) Batcher.CancelsOnce (newBatcher cfg) actions := by
  have hmax := cfg.normalized_normal.maxBatchSize
  obtain ⟨hkept, hheard, hcounts⟩ := run_counts h
  rw [hcounts.requests_iff hheard hkept hrest]
  have hstart : (newBatcher cfg).Unanimous := by
    intro k
    simp [newBatcher, SubmitPC.response]
  have halong : g.Unanimous ↔ (newBatcher cfg).Unanimous ∧
      Along (step cfg.normalized randomHex) Batcher.CancelsOnce (newBatcher cfg) actions :=
    along_iff (motive := fun g : Batcher => g.Kept cfg.normalized.maxBatchSize ∧ g.Heard) h
    ⟨newBatcher_kept cfg, newBatcher_heard cfg⟩
    (fun g a g' hg hstep => ⟨hg.1.step hmax hstep, hg.2.step hg.1 hstep⟩)
    fun g a g' hg hstep => unanimous_step hg.2 hg.1 hstep
  rw [halong]
  exact and_iff_right hstart

end

/-- One request whose client goes away, before `flush` looks at it or while the worker has it. -/
def cancelledCall (early : Bool) : List Action :=
  let loop : Nat → List Action := fun n => List.replicate n (.loop 0 none)
  let leave : List Action := .cancel 0 :: List.replicate 5 (.advance 0 .ctxDone)
  .submit "hello" "trace" "" :: List.replicate 5 (.advance 0 .channel) ++
    if early then leave ++ [.receive] ++ loop 10
    else [.receive] ++ loop 10 ++ leave ++ [.reply (.ok [{ id := "req-1" }]) 5 [0] [0]] ++ loop 8

/-- When the worker has the request, it is counted once. -/
theorem cancelledCall_once :
    let cfg : Config := { promptTokens := fun n => n, maxBatchSize := 1 }
    ∃ g, run (step cfg.normalized fun n _ => toString n) (newBatcher cfg) (cancelledCall false) =
        some g ∧
      g.AtRest cfg.normalized (fun n _ => toString n) ∧ g.returnedWith [.requestCancelled] = 1 ∧
      g.CountsRequests (observed Batcher.counted (step cfg.normalized fun n _ => toString n)
        (newBatcher cfg) (cancelledCall false)) := by
  intro cfg
  have hend : (run (step cfg.normalized fun n _ => toString n) (newBatcher cfg)
      (cancelledCall false)).any
      (fun g => decide (g.run.pc = .select ∧ g.run.timer = .stopped ∧ g.requestChan = [] ∧
        (∀ k < g.submitted, (g.calls k).pc.stage = 7) ∧
        g.returnedWith [.requestCancelled] = 1)) = true := by
    decide +kernel
  have honce : Along (step cfg.normalized fun n _ => toString n) Batcher.CancelsOnce
      (newBatcher cfg) (cancelledCall false) := by
    decide +kernel
  obtain ⟨g, hg, hlast⟩ := (Option.any_eq_true _ _).mp hend
  obtain ⟨hpc, htimer, hchan, hreturned, hone⟩ := of_decide_eq_true hlast
  have hrest : g.AtRest cfg.normalized (fun n _ => toString n) :=
    Batcher.atRest hpc htimer hchan hreturned
  exact ⟨g, hg, hrest, hone, (counters_exact_iff hg hrest).mpr honce⟩

/-- Before that, it is counted twice. -/
theorem cancelledCall_twice :
    let cfg : Config := { promptTokens := fun n => n, maxBatchSize := 1 }
    ∃ g,
      run (step cfg.normalized fun n _ => toString n) (newBatcher cfg) (cancelledCall true) =
        some g ∧
      g.AtRest cfg.normalized (fun n _ => toString n) ∧ g.submitted = 1 ∧
      g.returnedWith [.requestCancelled] = 1 ∧ g.metrics.requestsCancelled = 2 := by
  intro cfg
  have hend : (run (step cfg.normalized fun n _ => toString n) (newBatcher cfg)
      (cancelledCall true)).any
      (fun g => decide (g.run.pc = .select ∧ g.run.timer = .stopped ∧ g.requestChan = [] ∧
        (∀ k < g.submitted, (g.calls k).pc.stage = 7) ∧ g.submitted = 1 ∧
        g.returnedWith [.requestCancelled] = 1 ∧ g.metrics.requestsCancelled = 2)) = true := by
    decide +kernel
  obtain ⟨g, hg, hlast⟩ := (Option.any_eq_true _ _).mp hend
  obtain ⟨hpc, htimer, hchan, hreturned, hcounts⟩ := of_decide_eq_true hlast
  exact ⟨g, hg, Batcher.atRest hpc htimer hchan hreturned, hcounts⟩

end Laminar.Gateway
