import Laminar.Gateway.Replies

/-! No `Submit` call is forgotten: as long as one listens, its request is waiting, in the batch of
`flush`, or answered. -/
namespace Laminar.Gateway

def Run.held (r : Run) : List Nat :=
  match r.pc with
  | .received k => r.batch ++ [k]
  | .flushing => []
  | _ => r.batch

def FlushPC.rest : FlushPC → List Nat
  | .filter rest => rest
  | _ => []

def Pipeline.waiting (p : Pipeline) : List Nat := p.requestChan ++ p.run.held ++ p.flushPC.rest

def Pipeline.Owed (p : Pipeline) (k : Nat) : Prop :=
  k ∈ p.waiting ∨ (k ∈ p.active ∧ p.flushPC ≠ .done) ∨
    (∃ o ∈ p.todo, ∃ resp, o.answer = some (k, resp)) ∨ (p.calls k).respChan ≠ none

def SubmitPC.Listening : SubmitPC → Prop
  | .queued => True
  | .wait => True
  | _ => False

structure Pipeline.Tended (p : Pipeline) : Prop where
  idle : p.run.pc ≠ .flushing → p.todo = [] ∧ p.flushPC = .done
  owed : ∀ k, (p.calls k).pc.Listening → p.Owed k

variable {maxBatchSize : Int} {p p' : Pipeline}

theorem Pipeline.Tended.update (h : p.Tended) {k : Nat} {f : Call → Call}
    (hcall : (f (p.calls k)).pc.Listening → (p.calls k).pc.Listening ∧
      ((p.calls k).respChan ≠ none → (f (p.calls k)).respChan ≠ none)) :
    (p.update k f).Tended := by
  refine ⟨h.idle, fun j hj => ?_⟩
  rw [update_calls] at hj
  split_ifs at hj with hjk
  · rw [hjk]
    obtain ⟨hlisten, hresp⟩ := hcall hj
    obtain hwait | hactive | hops | hchan := h.owed k hlisten
    · exact Or.inl hwait
    · exact Or.inr (Or.inl hactive)
    · exact Or.inr (Or.inr (Or.inl hops))
    · refine Or.inr (Or.inr (Or.inr ?_))
      rw [update_calls, if_pos rfl]
      exact hresp hchan
  · obtain hwait | hactive | hops | hchan := h.owed j hj
    · exact Or.inl hwait
    · exact Or.inr (Or.inl hactive)
    · exact Or.inr (Or.inr (Or.inl hops))
    · refine Or.inr (Or.inr (Or.inr ?_))
      rw [update_calls, if_neg hjk]
      exact hchan

/-- A call that stops listening is owed nothing. -/
theorem Pipeline.Tended.leave (h : p.Tended) (k : Nat) {f : Call → Call}
    (hpc : ¬ (f (p.calls k)).pc.Listening) : (p.update k f).Tended :=
  h.update fun hlisten => absurd hlisten hpc

theorem Pipeline.Tended.release (h : p.Tended) (k : Nat) : (p.release k).Tended := by
  refine ⟨h.idle, fun j hj => ?_⟩
  have hcall : ((p.release k).calls j).pc = (p.calls j).pc ∧
      ((p.release k).calls j).respChan = (p.calls j).respChan := by
    rw [release_calls]
    split_ifs with hjk
    · exact hjk ▸ ⟨rfl, rfl⟩
    · exact ⟨rfl, rfl⟩
  rw [hcall.1] at hj
  obtain hwait | hactive | hops | hchan := h.owed j hj
  · exact Or.inl hwait
  · exact Or.inr (Or.inl hactive)
  · exact Or.inr (Or.inr (Or.inl hops))
  · exact Or.inr (Or.inr (Or.inr (hcall.2 ▸ hchan)))

/-- A step of `run` or `flush` that hands every request on. -/
theorem Pipeline.Tended.pass (h : p.Tended) (hcalls : p'.calls = p.calls)
    (hidle : p'.run.pc ≠ .flushing → p'.todo = [] ∧ p'.flushPC = .done)
    (hwaiting : ∀ k ∈ p.waiting, p'.Owed k)
    (hactive : ∀ k ∈ p.active, p.flushPC ≠ .done → p'.Owed k)
    (hops : ∀ o ∈ p.todo, ∀ k resp, o.answer = some (k, resp) → p'.Owed k) : p'.Tended := by
  refine ⟨hidle, fun k hk => ?_⟩
  rw [hcalls] at hk
  obtain hwait | ⟨hmem, hpc⟩ | ⟨o, ho, resp, hanswer⟩ | hchan := h.owed k hk
  · exact hwaiting k hwait
  · exact hactive k hmem hpc
  · exact hops o ho k resp hanswer
  · exact Or.inr (Or.inr (Or.inr (by rw [hcalls]; exact hchan)))

theorem Run.Move.held {r r' : Run} (h : r.Move maxBatchSize r')
    (hreceived : r'.received = r.received)
    (hflushed : r'.flushed = r.flushed) (hrun : r.pc = .flushing ↔ r'.pc = .flushing) :
    r'.held = r.held := by
  cases h with
  | stay => rfl
  | receive k hpc => simp [Run.receive] at hreceived
  | append k hpc => simp [Run.held, hpc]
  | arm wait hpc hone hidle => simp [Run.held, hpc]
  | armed hpc hnot => simp [Run.held, hpc]
  | stop hpc hactive => simp [Run.startFlush] at hflushed
  | full hpc hidle => simp [Run.startFlush] at hflushed
  | fits hpc hsize => simp [Run.held, hpc]
  | flushed hpc => simp [hpc] at hrun
  | tick hpc hfired hbatch => rfl
  | tickFlush hpc hfired hbatch => simp [Run.startFlush] at hflushed
  | expire wait harmed => rfl

/-- When `flush` starts, all requests that `run` holds are in its batch. -/
theorem Run.Move.held_startFlush {r r' : Run} (h : r.Move maxBatchSize r'.startFlush)
    (hflushed : r'.flushed = r.flushed) : r.held = r.batch := by
  generalize hnew : r'.startFlush = s at h
  have hlonger : s.flushed ≠ r.flushed := by simp [← hnew, Run.startFlush, hflushed]
  cases h with
  | stop hpc hactive => simp [Run.held, hpc]
  | full hpc hidle => simp [Run.held, hpc]
  | tickFlush hpc hfired hbatch => simp [Run.held, hpc]
  | _ => exact absurd rfl hlonger

theorem answered_rejectOps (calls : Nat → Call) {active : List Nat} {k : Nat} (hk : k ∈ active) :
    ∃ o ∈ rejectOps calls active, ∃ resp, o.answer = some (k, resp) := by
  refine ⟨.deliver k (errorResponse (calls k).id .workerUnavailable
    "worker temporarily unavailable"), ?_, _, rfl⟩
  refine List.mem_cons_of_mem _ (List.mem_flatMap.mpr ⟨k, hk, ?_⟩)
  simp

theorem answered_answerOps (calls : Nat → Call) (items : List ResponseItem) (k : Nat) :
    ∃ o ∈ answerOps calls items k, ∃ resp, o.answer = some (k, resp) := by
  unfold answerOps
  split
  · exact ⟨_, List.mem_singleton.mpr rfl, _, rfl⟩
  · exact ⟨_, List.mem_append_right _ (List.mem_singleton.mpr rfl), _, rfl⟩

theorem answered_settleOps (calls : Nat → Call) {active : List Nat} (answer : Reply)
    (latency : Int) (order order' : List Nat) {k : Nat} (hk : k ∈ active) :
    ∃ o ∈ settleOps calls active answer latency order order', ∃ resp,
      o.answer = some (k, resp) := by
  cases answer with
  | error err =>
    refine ⟨.deliver k (errorResponse (calls k).id (classifyWorkerError err).1
      (classifyWorkerError err).2), ?_, _, rfl⟩
    refine List.mem_cons_of_mem _ (List.mem_append_right _ ?_)
    exact List.mem_map.mpr ⟨k, hk, rfl⟩
  | ok items =>
    obtain ⟨o, ho, hanswer⟩ := answered_answerOps calls items k
    refine ⟨o, List.mem_cons_of_mem _ (List.mem_append_left _ (List.mem_append_right _ ?_)),
      hanswer⟩
    exact List.mem_flatMap.mpr ⟨k, hk, ho⟩

/-- No step loses a response that a call is owed. -/
theorem Pipeline.Tended.move (h : p.Tended) (hmove : p.Move maxBatchSize p') : p'.Tended := by
  cases hmove with
  | stay => exact h
  | submit call hpc hlease hresp =>
    have hbase : Pipeline.Tended { p with submitted := p.submitted + 1 } := ⟨h.idle, h.owed⟩
    exact hbase.leave _ (by simp [hpc, SubmitPC.Listening])
  | cancel k hk => exact h.update fun hlisten => ⟨hlisten, id⟩
  | streamID => exact ⟨h.idle, h.owed⟩
  | generateID k hk hpc =>
    have hbase : Pipeline.Tended { p with nextID := p.nextID + 1 } := ⟨h.idle, h.owed⟩
    exact hbase.leave k (by simp [SubmitPC.Listening])
  | tryAcquire k hk hpc =>
    have hbase : Pipeline.Tended
        { p with admission := (p.admission.tryAcquire (p.calls k).prompt).2.2 } :=
      ⟨h.idle, h.owed⟩
    exact hbase.leave k (by simp [SubmitPC.Listening])
  | startSpan k hk hpc s => exact h.leave k (by simp [SubmitPC.Listening])
  | refuse k hk hpc s todo resp hrelease hresp => exact h.leave k (by simp [SubmitPC.Listening])
  | send k hk hpc =>
    refine ⟨h.idle, fun j hj => ?_⟩
    by_cases hjk : j = k
    · exact Or.inl (by simp [Pipeline.waiting, Pipeline.update, hjk])
    · rw [update_calls, if_neg hjk] at hj
      obtain hwait | hactive | hops | hchan := h.owed j hj
      · refine Or.inl ?_
        simp only [Pipeline.waiting, List.mem_append] at hwait
        simp only [Pipeline.waiting, Pipeline.update, List.mem_append]
        tauto
      · exact Or.inr (Or.inl hactive)
      · exact Or.inr (Or.inr (Or.inl hops))
      · refine Or.inr (Or.inr (Or.inr ?_))
        rw [update_calls, if_neg hjk]
        exact hchan
  | handOver k hk hpc hrun =>
    have hnow : ∀ j, j ∈ p.waiting ∨ j = k →
        j ∈ Pipeline.waiting { p with run := p.run.receive k } := by
      intro j hj
      simp only [Pipeline.waiting, Run.held, hrun, List.mem_append] at hj
      simp only [Pipeline.waiting, Run.held, Run.receive, List.mem_append, List.mem_singleton]
      tauto
    refine ⟨fun _ => h.idle (by simp [hrun]), fun j hj => ?_⟩
    by_cases hjk : j = k
    · exact Or.inl (hnow j (Or.inr hjk))
    · rw [update_calls, if_neg hjk] at hj
      obtain hwait | hactive | hops | hchan := h.owed j hj
      · exact Or.inl (hnow j (Or.inl hwait))
      · exact Or.inr (Or.inl hactive)
      · exact Or.inr (Or.inr (Or.inl hops))
      · refine Or.inr (Or.inr (Or.inr ?_))
        rw [update_calls, if_neg hjk]
        exact hchan
  | abandon k hk hpc todo resp hrelease hresp => exact h.leave k (by simp [SubmitPC.Listening])
  | queued k hk hpc => exact h.update fun _ => ⟨by simp [hpc, SubmitPC.Listening], id⟩
  | take k hk hpc todo resp hrelease hresp => exact h.leave k (by simp [SubmitPC.Listening])
  | exit k hk o rest resp hpc ho => exact h.leave k (by simp [SubmitPC.Listening])
  | exitRelease k hk i rest resp hpc =>
    exact (h.release i).leave k (by simp [SubmitPC.Listening])
  | «return» k hk resp hpc => exact h.leave k (by simp [SubmitPC.Listening])
  | receive k rest hrun hchan =>
    refine h.pass rfl (fun _ => h.idle (by simp [hrun])) (fun j hj => Or.inl ?_)
      (fun j hj hpc => Or.inr (Or.inl ⟨hj, hpc⟩))
      fun o ho j resp hj => Or.inr (Or.inr (Or.inl ⟨o, ho, resp, hj⟩))
    simp only [Pipeline.waiting, Run.held, hrun, hchan, List.mem_append, List.mem_cons] at hj
    simp only [Pipeline.waiting, Run.held, Run.receive, List.mem_append, List.mem_singleton]
    tauto
  | loop r hrmove hreceived hflushed hrun =>
    refine h.pass rfl (fun hpc => h.idle fun hp => hpc (hrun.mp hp)) (fun j hj => Or.inl ?_)
      (fun j hj hpc => Or.inr (Or.inl ⟨hj, hpc⟩))
      fun o ho j resp hj => Or.inr (Or.inr (Or.inl ⟨o, ho, resp, hj⟩))
    simp only [Pipeline.waiting, hrmove.held hreceived hflushed hrun]
    exact hj
  | startFlush r hrmove hbatch hreceived hflushed hrun =>
    obtain ⟨htodo, hdone⟩ := h.idle hrun
    refine h.pass rfl (by simp [Run.startFlush]) (fun j hj => Or.inl ?_)
      (fun j hj hpc => absurd hdone hpc) (by simp [htodo])
    simp only [Pipeline.waiting, hrmove.held_startFlush hflushed, hdone, FlushPC.rest,
      List.append_nil, List.mem_append] at hj
    simp only [Pipeline.waiting, Run.held, Run.startFlush, FlushPC.rest, hbatch, List.append_nil,
      List.mem_append]
    exact hj
  | plain o rest hrun htodo ho =>
    refine h.pass rfl (fun hpc => absurd hrun hpc) (fun j hj => Or.inl hj)
      (fun j hj hpc => Or.inr (Or.inl ⟨hj, hpc⟩)) fun o' ho' j resp hj => ?_
    rw [htodo] at ho'
    obtain rfl | ho' := List.mem_cons.mp ho'
    · simp [ho.answer] at hj
    · exact Or.inr (Or.inr (Or.inl ⟨o', ho', resp, hj⟩))
  | release i rest hrun htodo =>
    have hbase : Pipeline.Tended { p with todo := rest } := by
      refine h.pass rfl (fun hpc => absurd hrun hpc) (fun j hj => Or.inl hj)
        (fun j hj hpc => Or.inr (Or.inl ⟨hj, hpc⟩)) fun o' ho' j resp hj => ?_
      rw [htodo] at ho'
      obtain rfl | ho' := List.mem_cons.mp ho'
      · simp [FlushOp.answer] at hj
      · exact Or.inr (Or.inr (Or.inl ⟨o', ho', resp, hj⟩))
    exact hbase.release i
  | deliver k resp rest hrun htodo =>
    have hbase : (Pipeline.push { p with todo := rest } [.respond k resp]).Tended := by
      refine h.pass rfl (fun hpc => absurd hrun hpc) (fun j hj => Or.inl hj)
        (fun j hj hpc => Or.inr (Or.inl ⟨hj, hpc⟩)) fun o' ho' j resp' hj => ?_
      rw [htodo] at ho'
      refine Or.inr (Or.inr (Or.inl ?_))
      obtain rfl | ho' := List.mem_cons.mp ho'
      · exact ⟨.respond k resp, by simp [Pipeline.push], resp', hj⟩
      · exact ⟨o', List.mem_cons_of_mem _ ho', resp', hj⟩
    exact hbase.release k
  | respond k resp rest hrun htodo =>
    refine ⟨fun hpc => absurd hrun hpc, fun j hj => ?_⟩
    by_cases hjk : j = k
    · refine Or.inr (Or.inr (Or.inr ?_))
      rw [update_calls, if_pos hjk]
      simp
    · rw [update_calls, if_neg hjk] at hj
      obtain hwait | hactive | ⟨o, ho, resp', hanswer⟩ | hchan := h.owed j hj
      · exact Or.inl hwait
      · exact Or.inr (Or.inl hactive)
      · rw [htodo] at ho
        obtain rfl | ho := List.mem_cons.mp ho
        · exact absurd (Prod.mk.inj (Option.some.inj hanswer)).1.symm hjk
        · exact Or.inr (Or.inr (Or.inl ⟨o, ho, resp', hanswer⟩))
      · refine Or.inr (Or.inr (Or.inr ?_))
        rw [update_calls, if_neg hjk]
        exact hchan
  | cancelled k rest hrun htodo hpc =>
    refine h.pass rfl (fun hpc => absurd hrun hpc) (fun j hj => ?_) (fun j hj _ => ?_)
      (by simp [htodo])
    · simp only [Pipeline.waiting, hpc, FlushPC.rest, List.mem_append, List.mem_cons] at hj
      by_cases hjk : j = k
      · subst hjk
        refine Or.inr (Or.inr (Or.inl ⟨.deliver j (errorResponse (p.calls j).id .requestCancelled
          "cancelled before batch processing"), ?_, _, rfl⟩))
        simp [Pipeline.push]
      · refine Or.inl ?_
        simp only [Pipeline.waiting, Pipeline.push, FlushPC.rest, List.mem_append]
        tauto
    · exact Or.inr (Or.inl ⟨hj, by simp [Pipeline.push]⟩)
  | active k rest hrun htodo hpc =>
    refine h.pass rfl (fun hpc => absurd hrun hpc) (fun j hj => ?_) (fun j hj _ => ?_)
      (by simp [htodo])
    · simp only [Pipeline.waiting, hpc, FlushPC.rest, List.mem_append, List.mem_cons] at hj
      by_cases hjk : j = k
      · exact Or.inr (Or.inl ⟨by simp [Pipeline.push, hjk], by simp [Pipeline.push]⟩)
      · refine Or.inl ?_
        simp only [Pipeline.waiting, Pipeline.push, FlushPC.rest, List.mem_append]
        tauto
    · exact Or.inr (Or.inl ⟨List.mem_append_left _ hj, by simp [Pipeline.push]⟩)
  | skip hrun htodo hpc hnone =>
    refine h.pass rfl (fun hpc => absurd hrun hpc) (fun j hj => Or.inl ?_) (by simp [hnone])
      (by simp [htodo])
    simpa [Pipeline.waiting, hpc, FlushPC.rest] using hj
  | reject hrun htodo hpc =>
    refine h.pass rfl (fun hpc => absurd hrun hpc) (fun j hj => Or.inl ?_) (fun j hj _ => ?_)
      (by simp [htodo])
    · simpa [Pipeline.waiting, Pipeline.push, hpc, FlushPC.rest] using hj
    · obtain ⟨o, ho, hanswer⟩ := answered_rejectOps p.calls hj
      exact Or.inr (Or.inr (Or.inl ⟨o, List.mem_append_left _ ho, hanswer⟩))
  | dispatch hrun htodo hpc =>
    refine h.pass rfl (fun hpc => absurd hrun hpc) (fun j hj => Or.inl ?_) (fun j hj _ => ?_)
      (by simp [htodo])
    · simpa [Pipeline.waiting, Pipeline.push, hpc, FlushPC.rest] using hj
    · exact Or.inr (Or.inl ⟨hj, by simp [Pipeline.push]⟩)
  | call hrun htodo hpc =>
    refine h.pass rfl (fun hpc => absurd hrun hpc) (fun j hj => Or.inl ?_) (fun j hj _ => ?_)
      (by simp [htodo])
    · simpa [Pipeline.waiting, hpc, FlushPC.rest] using hj
    · exact Or.inr (Or.inl ⟨hj, by simp⟩)
  | reply answer latency order order' hrun htodo hpc horder horder' =>
    refine h.pass rfl (fun hpc => absurd hrun hpc) (fun j hj => Or.inl ?_) (fun j hj _ => ?_)
      (by simp [htodo])
    · simpa [Pipeline.waiting, Pipeline.push, hpc, FlushPC.rest] using hj
    · obtain ⟨o, ho, hanswer⟩ := answered_settleOps p.calls answer latency order order' hj
      exact Or.inr (Or.inr (Or.inl ⟨o, List.mem_append_left _ ho, hanswer⟩))
  | finish hrun htodo hpc =>
    refine h.pass rfl (fun _ => ⟨htodo, hpc⟩) (fun j hj => Or.inl ?_)
      (fun j hj hne => absurd hpc hne) (by simp [htodo])
    simp only [Pipeline.waiting, Run.held, hrun, hpc, FlushPC.rest, List.append_nil] at hj
    simp only [Pipeline.waiting, Run.held, hpc, FlushPC.rest, List.append_nil]
    exact hj

end Laminar.Gateway
