import Laminar.Gateway.SpanLife

/-! A request is answered once: as long as `flush` has still to answer it, no answer to it is on its
way, and then there is one. -/
namespace Laminar.Gateway
variable {maxBatchSize : Int} {p p' : Pipeline} {k : Nat}

def Pipeline.unanswered (p : Pipeline) : List Nat :=
  p.waiting ++ if p.flushPC = .done then [] else p.active

def answering (todo : List FlushOp) : List Nat := todo.filterMap fun o => o.answer.map Prod.fst

theorem answering_append (first second : List FlushOp) :
    answering (first ++ second) = answering first ++ answering second := List.filterMap_append

theorem mem_answering {todo : List FlushOp} :
    k ∈ answering todo ↔ ∃ o ∈ todo, ∃ resp, o.answer = some (k, resp) := by
  simp [answering]

theorem answering_flatMap {f : Nat → List FlushOp} {keys : List Nat}
    (h : ∀ k, answering (f k) = [k]) : answering (keys.flatMap f) = keys := by
  induction keys with
  | nil => rfl
  | cons k rest ih => rw [List.flatMap_cons, answering_append, h, ih, List.singleton_append]

theorem answering_silent {todo : List FlushOp} (h : ∀ o ∈ todo, o.answer = none) :
    answering todo = [] := by
  rw [answering, List.filterMap_eq_nil_iff]
  intro o ho
  rw [h o ho]
  rfl

theorem answering_rejectOps (calls : Nat → Call) (active : List Nat) :
    answering (rejectOps calls active) = active := by
  rw [rejectOps, answering, List.filterMap_cons_none rfl]
  exact answering_flatMap fun k => rfl

theorem answering_sendOps (active : List Nat) : answering (sendOps active) = [] :=
  answering_silent fun _ ho => (mem_sendOps ho).answer

theorem answering_answerOps (calls : Nat → Call) (items : List ResponseItem) (k : Nat) :
    answering (answerOps calls items k) = [k] := by
  unfold answerOps
  cases findResponse items (calls k).id with
  | none => rfl
  | some item =>
    simp only
    split_ifs <;> rfl

theorem answering_settleOps (calls : Nat → Call) (active : List Nat) (answer : Reply)
    (latency : Int) (order order' : List Nat) :
    answering (settleOps calls active answer latency order order') = active := by
  cases answer with
  | error err =>
    have hends : answering (order.flatMap fun k =>
        [FlushOp.endWorker k "error", .endFlush k "error"]) = [] :=
      answering_silent fun o ho => by
        obtain ⟨k, -, ho⟩ := List.mem_flatMap.mp ho
        simp only [List.mem_cons, List.not_mem_nil, or_false] at ho
        obtain rfl | rfl := ho <;> rfl
    have hdelivers : ∀ resp : Nat → Response,
        answering (active.map fun k => .deliver k (resp k)) = active := by
      intro resp
      rw [List.map_eq_flatMap]
      exact answering_flatMap fun k => rfl
    change answering (failureOps calls active err latency order) = active
    rw [failureOps, answering_append, answering_append, hends, hdelivers]
    rfl
  | ok items =>
    have hworkers : answering (order.map fun k => .endWorker k "ok") = [] :=
      answering_silent fun o ho => by
        obtain ⟨k, -, rfl⟩ := List.mem_map.mp ho
        rfl
    have hflushes : answering (order'.map fun k => .endFlush k "ok") = [] :=
      answering_silent fun o ho => by
        obtain ⟨k, -, rfl⟩ := List.mem_map.mp ho
        rfl
    have hitems : answering (active.flatMap (answerOps calls items)) = active :=
      answering_flatMap (answering_answerOps calls items)
    change answering (successOps calls active items latency order order') = active
    rw [successOps, answering_append, answering_append, answering_append, hworkers, hflushes,
      hitems,
      List.append_nil]
    rfl

structure Pipeline.Once (p : Pipeline) : Prop where
  nodup : (answering p.todo).Nodup
  coming : ∀ k ∈ answering p.todo, k ∉ p.unanswered ∧ (p.calls k).respChan = none
  there : ∀ k, (p.calls k).respChan ≠ none → k ∉ p.unanswered

/-- What a step does with the answers: it leaves them where they are (or a call takes its own), it
lists answers to requests that were unanswered until now, or it hands one over. -/
inductive Pipeline.Hands (p : Pipeline) : Pipeline → Prop where
  | keep {p' : Pipeline} (htodo : answering p'.todo = answering p.todo)
      (hunanswered : ∀ k ∈ p'.unanswered, k ∈ p.unanswered ∨
        ((p.calls k).pc = .enqueue ∧ (p'.calls k).pc = .queued))
      (hcalls : ∀ k, (p'.calls k).respChan = (p.calls k).respChan ∨ (p'.calls k).respChan = none) :
      Hands p p'
  | answer {p' : Pipeline} (hcalls : p'.calls = p.calls) (hnodup : (answering p'.todo).Nodup)
      (hnew : ∀ k ∈ answering p'.todo, k ∈ p.unanswered ∧ k ∉ p'.unanswered)
      (hless : ∀ k ∈ p'.unanswered, k ∈ p.unanswered) : Hands p p'
  | respond (k : Nat) (resp : Response) (rest : List FlushOp)
      (htodo : p.todo = .respond k resp :: rest) :
      Hands p ({ p with todo := rest }.update k
        (fun c => { c with respChan := c.respChan.or (some resp) }))

theorem release_respChan (p : Pipeline) (k j : Nat) :
    ((p.release k).calls j).respChan = (p.calls j).respChan := by
  rw [release_calls]
  split_ifs with hj
  · rw [hj]
  · rfl

theorem update_respChan {f : Call → Call}
    (h : (f (p.calls k)).respChan = (p.calls k).respChan ∨ (f (p.calls k)).respChan = none)
    (j : Nat) :
    ((p.update k f).calls j).respChan = (p.calls j).respChan ∨
      ((p.update k f).calls j).respChan = none := by
  rw [update_calls]
  split_ifs with hj
  · rw [hj]
    exact h
  · exact Or.inl rfl

section
variable (hloop : p.run.Inv maxBatchSize) (hplaced : p.Placed)
include hloop hplaced

/-- The requests of the batch are in no other place. -/
theorem Pipeline.Placed.active_apart (hrest : p.flushPC.rest = []) (hk : k ∈ p.active) :
    k ∉ p.waiting := by
  have hflushed := hplaced.flushed hloop (hplaced.active k hk)
  intro hwait
  simp only [Pipeline.waiting, hrest, List.append_nil, List.mem_append] at hwait
  obtain hchan | hheld := hwait
  · exact hflushed.chan hchan
  · exact hflushed.held hheld

theorem Pipeline.Placed.unanswering (hpc : (p.calls k).pc = .enqueue) :
    k ∉ answering p.todo ∧ (p.calls k).respChan = none := by
  have hunsent := hplaced.unsent hpc
  have hunflushed : k ∉ p.run.flushed.flatten := fun hk =>
    hunsent (List.mem_append_left _ (hloop.flushed_received k hk))
  refine ⟨fun hk => ?_, ?_⟩
  · obtain ⟨o, ho, resp, hanswer⟩ := mem_answering.mp hk
    refine hunflushed (hplaced.ops o ho k ?_)
    cases o <;> simp_all [FlushOp.answer, FlushOp.request]
  · by_contra hsome
    exact hunflushed (hplaced.resp k hsome)

theorem Pipeline.Move.hands (hmove : p.Move maxBatchSize p') (htended : p.Tended)
    (hcorresponds : p.Corresponds) : p.Hands p' := by
  cases hmove with
  | stay => exact .keep rfl (fun k hk => Or.inl hk) fun k => Or.inl rfl
  | submit call hpc hlease hresp =>
    exact .keep rfl (fun k hk => Or.inl hk) (update_respChan
      (p := { p with submitted := p.submitted + 1 }) (Or.inr hresp))
  | cancel k hk => exact .keep rfl (fun k hk => Or.inl hk) (update_respChan (Or.inl rfl))
  | streamID => exact .keep rfl (fun k hk => Or.inl hk) fun k => Or.inl rfl
  | generateID k hk hpc =>
    exact .keep rfl (fun k hk => Or.inl hk)
      (update_respChan (p := { p with nextID := p.nextID + 1 }) (Or.inl rfl))
  | tryAcquire k hk hpc =>
    exact .keep rfl (fun k hk => Or.inl hk) (update_respChan
      (p := { p with admission := (p.admission.tryAcquire (p.calls k).prompt).2.2 }) (Or.inl rfl))
  | startSpan k hk hpc s => exact .keep rfl (fun k hk => Or.inl hk) (update_respChan (Or.inl rfl))
  | refuse k hk hpc s todo resp hrelease hresp =>
    exact .keep rfl (fun k hk => Or.inl hk) (update_respChan (Or.inl rfl))
  | send k hk hpc =>
    refine .keep rfl (fun j hj => ?_) (update_respChan
      (p := { p with requestChan := p.requestChan ++ [k] }) (Or.inl rfl))
    by_cases hjk : j = k
    · exact Or.inr ⟨hjk ▸ hpc, by rw [update_calls, if_pos hjk]⟩
    · refine Or.inl ?_
      simp only [Pipeline.unanswered, Pipeline.waiting, Pipeline.update, List.mem_append,
        List.mem_singleton, hjk, or_false] at hj
      simp only [Pipeline.unanswered, Pipeline.waiting, List.mem_append]
      exact hj
  | handOver k hk hpc hrun =>
    refine .keep rfl (fun j hj => ?_) (update_respChan
      (p := { p with run := p.run.receive k }) (Or.inl rfl))
    by_cases hjk : j = k
    · exact Or.inr ⟨hjk ▸ hpc, by rw [update_calls, if_pos hjk]⟩
    · refine Or.inl ?_
      simp only [Pipeline.unanswered, Pipeline.waiting, Pipeline.update, Run.held, Run.receive,
        List.mem_append, List.mem_singleton, hjk, or_false] at hj
      simp only [Pipeline.unanswered, Pipeline.waiting, Run.held, hrun, List.mem_append]
      exact hj
  | abandon k hk hpc todo resp hrelease hresp =>
    exact .keep rfl (fun k hk => Or.inl hk) (update_respChan (Or.inl rfl))
  | queued k hk hpc => exact .keep rfl (fun k hk => Or.inl hk) (update_respChan (Or.inl rfl))
  | take k hk hpc todo resp hrelease hresp =>
    exact .keep rfl (fun k hk => Or.inl hk) (update_respChan (Or.inr rfl))
  | exit k hk o rest resp hpc ho =>
    exact .keep rfl (fun k hk => Or.inl hk) (update_respChan (Or.inl rfl))
  | exitRelease k hk i rest resp hpc =>
    refine .keep rfl (fun k hk => Or.inl hk) fun j => ?_
    rw [← release_respChan p i j]
    exact update_respChan (Or.inl rfl) j
  | «return» k hk resp hpc => exact .keep rfl (fun k hk => Or.inl hk) (update_respChan (Or.inl rfl))
  | receive k rest hrun hchan =>
    refine .keep rfl (fun j hj => Or.inl ?_) fun j => Or.inl rfl
    simp only [Pipeline.unanswered, Pipeline.waiting, Run.held, Run.receive, List.mem_append,
      List.mem_singleton] at hj
    simp only [Pipeline.unanswered, Pipeline.waiting, Run.held, hrun, hchan, List.mem_append,
      List.mem_cons]
    tauto
  | loop r hrmove hreceived hflushed hrun =>
    refine .keep rfl (fun j hj => Or.inl ?_) fun j => Or.inl rfl
    simp only [Pipeline.unanswered, Pipeline.waiting, hrmove.held hreceived hflushed hrun] at hj
    exact hj
  | startFlush r hrmove hbatch hreceived hflushed hrun =>
    obtain ⟨htodo, hdone⟩ := htended.idle hrun
    refine .keep (by rw [htodo]) (fun j hj => Or.inl ?_) fun j => Or.inl rfl
    simp only [Pipeline.unanswered, Pipeline.waiting, Run.held, Run.startFlush,
      FlushPC.rest, hbatch,
      List.append_nil, reduceCtorEq, if_false] at hj
    simp only [Pipeline.unanswered, Pipeline.waiting, hrmove.held_startFlush hflushed, hdone,
      FlushPC.rest, List.append_nil, if_true]
    exact hj
  | plain o rest hrun htodo ho =>
    refine .keep ?_ (fun k hk => Or.inl hk) fun j => Or.inl rfl
    rw [htodo, answering, answering, List.filterMap_cons_none (by rw [ho.answer]; rfl)]
  | release j rest hrun htodo =>
    refine .keep ?_ (fun k hk => Or.inl hk)
      fun i => Or.inl (release_respChan { p with todo := rest } j i)
    rw [htodo]
    rfl
  | deliver k resp rest hrun htodo =>
    refine .keep ?_ (fun k hk => Or.inl hk)
      fun i => Or.inl (release_respChan { p with todo := rest } k i)
    rw [htodo]
    rfl
  | respond k resp rest hrun htodo => exact .respond k resp rest htodo
  | cancelled k rest hrun htodo hpc =>
    obtain ⟨hflushed, hrest, hactive⟩ := hplaced.not_waiting hloop hpc
    refine .answer rfl ?_ (fun j hj => ?_) fun j hj => ?_
    · simp [Pipeline.push, htodo, answering, FlushOp.answer]
    · obtain rfl : j = k := by
        simpa [Pipeline.push, htodo, answering, FlushOp.answer] using hj
      have hchan := hflushed.chan
      have hheld := hflushed.held
      simp [Pipeline.unanswered, Pipeline.waiting, Pipeline.push, FlushPC.rest, hpc, hrest, hactive,
        hchan, hheld]
    · simp only [Pipeline.unanswered, Pipeline.waiting, Pipeline.push, FlushPC.rest,
        List.mem_append,
        reduceCtorEq, if_false] at hj
      simp only [Pipeline.unanswered, Pipeline.waiting, FlushPC.rest, hpc, List.mem_append,
        List.mem_cons, reduceCtorEq, if_false]
      tauto
  | active k rest hrun htodo hpc =>
    refine .keep ?_ (fun j hj => Or.inl ?_) fun j => Or.inl rfl
    · rw [Pipeline.push, htodo]
      rfl
    · simp only [Pipeline.unanswered, Pipeline.waiting, Pipeline.push, FlushPC.rest,
        List.mem_append,
        List.mem_singleton, reduceCtorEq, if_false] at hj
      simp only [Pipeline.unanswered, Pipeline.waiting, FlushPC.rest, hpc, List.mem_append,
        List.mem_cons, reduceCtorEq, if_false]
      tauto
  | skip hrun htodo hpc hactive =>
    refine .keep rfl (fun j hj => Or.inl ?_) fun j => Or.inl rfl
    simpa [Pipeline.unanswered, Pipeline.waiting, FlushPC.rest, hpc, hactive] using hj
  | reject hrun htodo hpc =>
    have hanswering : answering (Pipeline.push { p with flushPC := .done }
        (rejectOps p.calls p.active)).todo = p.active := by
      rw [Pipeline.push, htodo, List.append_nil, answering_rejectOps]
    refine .answer rfl ?_ (fun j hj => ?_) fun j hj => ?_
    · rw [hanswering]
      exact hplaced.active_nodup hloop (Or.inl hpc)
    · rw [hanswering] at hj
      have hapart := hplaced.active_apart hloop (by rw [hpc]; rfl) hj
      simp only [Pipeline.waiting, hpc, FlushPC.rest, List.append_nil] at hapart
      simp [Pipeline.unanswered, Pipeline.waiting, Pipeline.push, FlushPC.rest, hpc, hj] at hapart ⊢
      exact hapart
    · simp only [Pipeline.unanswered, Pipeline.waiting, Pipeline.push, FlushPC.rest, if_true,
        List.append_nil] at hj
      simp only [Pipeline.unanswered, Pipeline.waiting, FlushPC.rest, hpc, List.append_nil]
      exact List.mem_append_left _ hj
  | dispatch hrun htodo hpc =>
    refine .keep ?_ (fun j hj => Or.inl ?_) fun j => Or.inl rfl
    · rw [Pipeline.push, htodo, List.append_nil, answering_sendOps]
      rfl
    · simpa [Pipeline.unanswered, Pipeline.waiting, Pipeline.push, FlushPC.rest, hpc] using hj
  | call hrun htodo hpc =>
    refine .keep rfl (fun j hj => Or.inl ?_) fun j => Or.inl rfl
    simpa [Pipeline.unanswered, Pipeline.waiting, FlushPC.rest, hpc] using hj
  | reply answer latency order order' hrun htodo hpc horder horder' =>
    have hanswering :
        answering (Pipeline.push { p with rpcs := answerLast p.rpcs answer, flushPC := .done }
        (settleOps p.calls p.active answer latency order order')).todo = p.active := by
      rw [Pipeline.push, htodo, List.append_nil, answering_settleOps]
    refine .answer rfl ?_ (fun j hj => ?_) fun j hj => ?_
    · rw [hanswering]
      exact hplaced.awaited_nodup hloop hcorresponds hpc
    · rw [hanswering] at hj
      have hapart := hplaced.active_apart hloop (by rw [hpc]; rfl) hj
      simp [Pipeline.unanswered, Pipeline.waiting, Pipeline.push, FlushPC.rest, hpc, hj] at hapart ⊢
      exact hapart
    · simp only [Pipeline.unanswered, Pipeline.waiting, Pipeline.push, FlushPC.rest, if_true,
        List.append_nil] at hj
      simp only [Pipeline.unanswered, Pipeline.waiting, FlushPC.rest, hpc, List.append_nil]
      exact List.mem_append_left _ hj
  | finish hrun htodo hpc =>
    refine .keep rfl (fun j hj => Or.inl ?_) fun j => Or.inl rfl
    simpa [Pipeline.unanswered, Pipeline.waiting, Run.held, hrun, hpc] using hj

theorem Pipeline.Once.move (h : p.Once) (htended : p.Tended) (hcorresponds : p.Corresponds)
    (hmove : p.Move maxBatchSize p') : p'.Once := by
  have hhands := hmove.hands hloop hplaced htended hcorresponds
  cases hhands with
  | keep htodo hunanswered hcalls =>
    refine ⟨htodo ▸ h.nodup, fun k hk => ?_, fun k hk hwait => ?_⟩
    · rw [htodo] at hk
      obtain ⟨hnot, hnone⟩ := h.coming k hk
      refine ⟨fun hwait => ?_, ?_⟩
      · obtain hold | hnew := hunanswered k hwait
        · exact hnot hold
        · exact (hplaced.unanswering hloop hnew.1).1 hk
      · obtain hsame | hempty := hcalls k
        · exact hsame.trans hnone
        · exact hempty
    · obtain hsame | hempty := hcalls k
      · rw [hsame] at hk
        obtain hold | hnew := hunanswered k hwait
        · exact h.there k hk hold
        · exact hk (hplaced.unanswering hloop hnew.1).2
      · exact hk hempty
  | answer hcalls hnodup hnew hless =>
    refine ⟨hnodup, fun k hk => ⟨(hnew k hk).2, ?_⟩, fun k hk hwait => ?_⟩
    · rw [hcalls]
      by_contra hsome
      exact h.there k hsome (hnew k hk).1
    · rw [hcalls] at hk
      exact h.there k hk (hless k hwait)
  | respond k resp rest htodo =>
    have hanswering : answering p.todo = k :: answering rest := by
      rw [htodo]
      rfl
    have hnodup := h.nodup
    rw [hanswering, List.nodup_cons] at hnodup
    refine ⟨hnodup.2, fun j hj => ?_, fun j hj hwait => ?_⟩
    · have hjk : j ≠ k := fun hjk => hnodup.1 (hjk ▸ hj)
      rw [update_calls, if_neg hjk]
      exact h.coming j (hanswering ▸ List.mem_cons_of_mem _ hj)
    · rw [update_calls] at hj
      split_ifs at hj with hjk
      · exact (h.coming k (hanswering ▸ List.mem_cons_self)).1 (hjk ▸ hwait)
      · exact h.there j hj hwait

def Pipeline.Open (p : Pipeline) (k : Nat) : Prop :=
  k ∈ p.unanswered ∨ k ∈ answering p.todo ∨ (p.calls k).respChan ≠ none

omit hloop hplaced in
theorem Pipeline.Hands.opened (h : p.Hands p') (hopen : p'.Open k) :
    p.Open k ∨ ((p.calls k).pc = .enqueue ∧ (p'.calls k).pc = .queued) := by
  cases h with
  | keep htodo hunanswered hcalls =>
    obtain hwait | hcoming | hthere := hopen
    · obtain hold | hnew := hunanswered k hwait
      · exact Or.inl (Or.inl hold)
      · exact Or.inr hnew
    · exact Or.inl (Or.inr (Or.inl (htodo ▸ hcoming)))
    · obtain hsame | hempty := hcalls k
      · exact Or.inl (Or.inr (Or.inr (hsame ▸ hthere)))
      · exact absurd hempty hthere
  | answer hcalls hnodup hnew hless =>
    refine Or.inl ?_
    obtain hwait | hcoming | hthere := hopen
    · exact Or.inl (hless k hwait)
    · exact Or.inl (hnew k hcoming).1
    · exact Or.inr (Or.inr (hcalls ▸ hthere))
  | respond j resp rest htodo =>
    have hanswering : answering p.todo = j :: answering rest := by
      rw [htodo]
      rfl
    refine Or.inl ?_
    obtain hwait | hcoming | hthere := hopen
    · exact Or.inl hwait
    · exact Or.inr (Or.inl (hanswering ▸ List.mem_cons_of_mem _ hcoming))
    · rw [update_calls] at hthere
      split_ifs at hthere with hkj
      · exact Or.inr (Or.inl (hanswering ▸ hkj ▸ List.mem_cons_self))
      · exact Or.inr (Or.inr hthere)

omit hloop hplaced in
/-- No answer is left for a call that has taken its own. -/
theorem Pipeline.Hands.taken (h : p.Hands p') (honce : p.Once) (hpc : (p.calls k).pc = .wait)
    (hthere : (p.calls k).respChan ≠ none) (htaken : (p'.calls k).respChan = none) :
    ¬ p'.Open k := by
  have hanswered : k ∉ answering p.todo := fun hk => hthere (honce.coming k hk).2
  cases h with
  | keep htodo hunanswered hcalls =>
    intro hopen
    obtain hwait | hcoming | hthere' := hopen
    · obtain hold | hnew := hunanswered k hwait
      · exact honce.there k hthere hold
      · exact absurd hnew.1 (by simp [hpc])
    · exact hanswered (htodo ▸ hcoming)
    · exact hthere' htaken
  | answer hcalls hnodup hnew hless => exact absurd (hcalls ▸ htaken) hthere
  | respond j resp rest htodo =>
    rw [update_calls] at htaken
    split_ifs at htaken with hkj
    · simp at htaken
    · exact absurd htaken hthere

theorem Pipeline.Open.stage (h : p.Open k) : 4 ≤ (p.calls k).pc.stage := by
  obtain hwait | hcoming | hthere := h
  · obtain hwait | hactive := List.mem_append.mp hwait
    · exact hplaced.waiting_stage hloop hwait
    · split_ifs at hactive
      · simp at hactive
      · exact (hplaced.flushed hloop (hplaced.active k hactive)).stage
  · obtain ⟨o, ho, resp, hanswer⟩ := mem_answering.mp hcoming
    refine (hplaced.flushed hloop (hplaced.ops o ho k ?_)).stage
    cases o <;> simp_all [FlushOp.answer, FlushOp.request]
  · exact (hplaced.flushed hloop (hplaced.resp k hthere)).stage

end

end Laminar.Gateway
