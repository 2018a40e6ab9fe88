import Laminar.Gateway.Passage

/-! Where the requests are: no request is received twice or sent twice, and `flush` only answers
requests that were handed to it. -/
namespace Laminar.Gateway
open Laminar.Transition

structure Call.Later (c c' : Call) : Prop where
  prompt : c'.prompt = c.prompt
  traceID : c'.traceID = c.traceID
  stage : c.pc.stage ≤ c'.pc.stage
  id : 1 ≤ c.pc.stage → c'.id = c.id
  controller : 2 ≤ c.pc.stage → c'.lease.controller = c.lease.controller
  tokens : 2 ≤ c.pc.stage → c'.lease.tokens = c.lease.tokens
  done : 2 ≤ c.pc.stage → c.lease.done = true → c'.lease.done = true
  returned : ∀ resp, c.pc = .returned resp → c'.pc = .returned resp

theorem Call.Later.refl (c : Call) : c.Later c :=
  ⟨rfl, rfl, Nat.le_refl _, fun _ => rfl, fun _ => rfl, fun _ => rfl, fun _ h => h, fun _ h => h⟩

theorem Call.Later.trans {c c' c'' : Call} (h : c.Later c') (h' : c'.Later c'') :
    c.Later c'' := by
  refine ⟨h'.prompt.trans h.prompt, h'.traceID.trans h.traceID, h.stage.trans h'.stage,
    fun hs => ?_, fun hs => ?_, fun hs => ?_, fun hs hd => ?_, fun resp hr => ?_⟩
  · exact (h'.id (hs.trans h.stage)).trans (h.id hs)
  · exact (h'.controller (hs.trans h.stage)).trans (h.controller hs)
  · exact (h'.tokens (hs.trans h.stage)).trans (h.tokens hs)
  · exact h'.done (hs.trans h.stage) (h.done hs hd)
  · exact h'.returned resp (h.returned resp hr)

theorem SubmitPC.stage_le (pc : SubmitPC) : pc.stage ≤ 7 := by
  cases pc <;> simp [SubmitPC.stage]

theorem Call.Later.of_pc {c c' : Call} (hprompt : c'.prompt = c.prompt)
    (htrace : c'.traceID = c.traceID) (hid : c'.id = c.id) (hlease : c'.lease = c.lease)
    (hpc : c'.pc = c.pc ∨ c.pc.stage < c'.pc.stage) : c.Later c' := by
  refine ⟨hprompt, htrace, ?_, fun _ => hid, fun _ => by rw [hlease], fun _ => by rw [hlease],
    fun _ h => by rwa [hlease], fun resp h => ?_⟩
  · obtain hpc | hpc := hpc
    · rw [hpc]
    · exact hpc.le
  · obtain hpc | hpc := hpc
    · rwa [hpc]
    · have hle := c'.pc.stage_le
      have hlast : c.pc.stage = 7 := by rw [h]; rfl
      omega

theorem update_calls (p : Pipeline) (k j : Nat) (f : Call → Call) :
    (p.update k f).calls j = if j = k then f (p.calls k) else p.calls j := by
  simp only [Pipeline.update, Function.update_apply]

theorem later_update {p : Pipeline} {k : Nat} {f : Call → Call}
    (h : (p.calls k).Later (f (p.calls k)))
    (j : Nat) : (p.calls j).Later ((p.update k f).calls j) := by
  rw [update_calls]
  split_ifs with hj
  · rw [hj]
    exact h
  · exact .refl _

def AdmissionLease.spent (l : AdmissionLease) : AdmissionLease := { l with done := true }

theorem release_calls (p : Pipeline) (k j : Nat) :
    (p.release k).calls j =
      if j = k then { p.calls k with lease := (p.calls k).lease.spent } else p.calls j := by
  simp only [Pipeline.release, update_calls, AdmissionLease.release, AdmissionLease.spent]
  cases hdone : (p.calls k).lease.done with
  | false => simp
  | true => simp [← hdone]

theorem later_release (p : Pipeline) (k j : Nat) : (p.calls j).Later ((p.release k).calls j) := by
  rw [release_calls]
  split_ifs with hj
  · rw [hj]
    exact ⟨rfl, rfl, Nat.le_refl _, fun _ => rfl, fun _ => rfl, fun _ => rfl, fun _ _ => rfl,
      fun _ h => h⟩
  · exact .refl _

theorem later_leave {p : Pipeline} {k : Nat} {todo : List Op} {resp : Response}
    (hstage : (p.calls k).pc.stage ≤ 6) (j : Nat) :
    (p.calls j).Later ((p.leave k todo resp).calls j) := by
  refine later_update
    ⟨rfl, rfl, hstage, fun _ => rfl, fun _ => rfl, fun _ => rfl, fun _ h => h, ?_⟩ j
  intro resp' hpc
  simp [hpc, SubmitPC.stage] at hstage

variable {maxBatchSize : Int} {p p' : Pipeline}

/-- No step goes back in a call that there is. -/
theorem Pipeline.Move.later (h : p.Move maxBatchSize p') {j : Nat} (hj : j < p.submitted) :
    (p.calls j).Later (p'.calls j) := by
  cases h with
  | submit call hpc hlease hresp =>
    rw [update_calls, if_neg (Nat.ne_of_lt hj)]
    exact .refl _
  | cancel k hk =>
    apply later_update
    exact .of_pc rfl rfl rfl rfl (Or.inl rfl)
  | generateID k hk hpc =>
    apply later_update (p := { p with nextID := p.nextID + 1 })
    refine ⟨rfl, rfl, ?_, ?_, ?_, ?_, ?_, ?_⟩ <;> simp [hpc, SubmitPC.stage]
  | tryAcquire k hk hpc =>
    apply later_update
      (p := { p with admission := (p.admission.tryAcquire (p.calls k).prompt).2.2 })
    refine ⟨rfl, rfl, ?_, ?_, ?_, ?_, ?_, ?_⟩ <;> simp [hpc, SubmitPC.stage]
  | startSpan k hk hpc s =>
    apply later_update
    exact .of_pc rfl rfl rfl rfl (Or.inr (by simp [hpc, SubmitPC.stage]))
  | refuse k hk hpc s todo resp hrelease hresp =>
    apply later_update
    exact .of_pc rfl rfl rfl rfl (Or.inr (by simp [hpc, SubmitPC.stage]))
  | send k hk hpc =>
    apply later_update (p := { p with requestChan := p.requestChan ++ [k] })
    exact .of_pc rfl rfl rfl rfl (Or.inr (by simp [hpc, SubmitPC.stage]))
  | handOver k hk hpc hrun =>
    apply later_update (p := { p with run := p.run.receive k })
    exact .of_pc rfl rfl rfl rfl (Or.inr (by simp [hpc, SubmitPC.stage]))
  | abandon k hk hpc todo resp hrelease hresp =>
    refine later_leave ?_ j
    obtain hpc | hpc := hpc <;> simp [hpc, SubmitPC.stage]
  | queued k hk hpc =>
    apply later_update
    exact .of_pc rfl rfl rfl rfl (Or.inr (by simp [hpc, SubmitPC.stage]))
  | take k hk hpc todo resp hrelease hresp =>
    apply later_update
    exact .of_pc rfl rfl rfl rfl (Or.inr (by simp [hpc, SubmitPC.stage]))
  | exit k hk o rest resp hpc ho => exact later_leave (by simp [hpc, SubmitPC.stage]) j
  | exitRelease k hk i rest resp hpc =>
    refine (later_release p i j).trans (later_leave ?_ j)
    rw [release_calls]
    split_ifs with hki
    · simp [← hki, hpc, SubmitPC.stage]
    · simp [hpc, SubmitPC.stage]
  | «return» k hk resp hpc =>
    apply later_update
    exact .of_pc rfl rfl rfl rfl (Or.inr (by simp [hpc, SubmitPC.stage]))
  | release i rest hrun htodo => exact later_release { p with todo := rest } i j
  | deliver k resp rest hrun htodo => exact later_release { p with todo := rest } k j
  | respond k resp rest hrun htodo =>
    apply later_update (p := { p with todo := rest })
    exact .of_pc rfl rfl rfl rfl (Or.inl rfl)
  | _ => exact .refl _

def FlushOp.request : FlushOp → Option Nat
  | .op (.release k) => some k
  | .deliver k _ => some k
  | .respond k _ => some k
  | _ => none

theorem request_plain {o : FlushOp} (h : o.Plain) : o.request = none := by
  cases o with
  | op o => cases o <;> first | rfl | exact absurd h id
  | deliver k resp => exact absurd h id
  | respond k resp => exact absurd h id
  | _ => rfl

def Answers (active : List Nat) (suits : Nat → Response → Prop) (o : FlushOp) : Prop :=
  ∃ k ∈ active, ∃ resp, o = .deliver k resp ∧ suits k resp

theorem Answers.request {active : List Nat} {suits : Nat → Response → Prop} {o : FlushOp}
    (h : o.Plain ∨ Answers active suits o) {k : Nat} (hk : o.request = some k) : k ∈ active := by
  obtain hplain | ⟨j, hj, resp, rfl, -⟩ := h
  · simp [request_plain hplain] at hk
  · exact Option.some.inj hk ▸ hj

theorem Answers.not_respond {active : List Nat} {suits : Nat → Response → Prop} {k : Nat}
    {resp : Response} :
    ¬ ((FlushOp.respond k resp).Plain ∨ Answers active suits (.respond k resp)) := by
  rintro (hplain | ⟨j, -, resp', heq, -⟩)
  · exact hplain
  · simp at heq

theorem mem_rejectOps {calls : Nat → Call} {active : List Nat} {o : FlushOp}
    (ho : o ∈ rejectOps calls active) :
    o.Plain ∨ Answers active (fun k resp => (calls k).Refusal resp) o := by
  obtain rfl | ho := List.mem_cons.mp ho
  · exact Or.inl trivial
  obtain ⟨j, hj, ho⟩ := List.mem_flatMap.mp ho
  simp only [List.mem_cons, List.not_mem_nil, or_false] at ho
  obtain rfl | rfl | rfl := ho
  · exact Or.inl trivial
  · exact Or.inl trivial
  · exact Or.inr ⟨j, hj, _, rfl, errorResponse_refusal _ _ (by decide)⟩

theorem mem_sendOps {active : List Nat} {o : FlushOp} (ho : o ∈ sendOps active) : o.Plain := by
  simp only [sendOps, List.mem_cons, List.mem_append, List.mem_map] at ho
  obtain rfl | ⟨k, -, rfl⟩ | ⟨k, -, rfl⟩ := ho <;> trivial

def Reported (c : Call) (answer : Reply) (resp : Response) : Prop :=
  c.Refusal resp ∨ ∃ items item, answer = .ok items ∧ item ∈ items ∧ item.id = c.id ∧
    resp.id = item.id ∧ resp.result = item.result ∧ resp.error = ""

theorem mem_settleOps {calls : Nat → Call} {active order order' : List Nat} {answer : Reply}
    {latency : Int} {o : FlushOp} (ho : o ∈ settleOps calls active answer latency order order') :
    o.Plain ∨ Answers active (fun k resp => Reported (calls k) answer resp) o := by
  obtain rfl | ho := List.mem_cons.mp ho
  · exact Or.inl trivial
  cases answer with
  | error err =>
    simp only [failureOps, List.mem_append, List.mem_flatMap, List.mem_map, List.mem_cons,
      List.not_mem_nil, or_false] at ho
    obtain (⟨j, -, rfl | rfl⟩ | rfl | rfl | rfl) | ⟨j, hj, rfl⟩ := ho
    iterate 5 exact Or.inl trivial
    refine Or.inr ⟨j, hj, _, rfl, Or.inl ?_⟩
    exact errorResponse_refusal _ _ (classifyWorkerError_message err)
  | ok items =>
    simp only [successOps, List.mem_append, List.mem_flatMap, List.mem_map, List.mem_cons,
      List.not_mem_nil, or_false] at ho
    obtain ((⟨j, -, rfl⟩ | rfl | rfl) | ⟨j, hj, ho⟩) | ⟨j, -, rfl⟩ := ho
    iterate 3 exact Or.inl trivial
    · unfold answerOps at ho
      cases hfound : findResponse items (calls j).id with
      | none =>
        simp only [hfound, List.mem_singleton] at ho
        subst ho
        exact Or.inr ⟨j, hj, _, rfl, Or.inl (errorResponse_refusal _ _ (by decide))⟩
      | some item =>
        simp only [hfound, List.mem_append, List.mem_singleton] at ho
        obtain ⟨hmem, hid⟩ := findResponse_mem hfound
        obtain ho | rfl := ho
        · split_ifs at ho
          · obtain rfl := List.mem_singleton.mp ho
            exact Or.inl trivial
          · simp at ho
        · exact Or.inr ⟨j, hj, _, rfl, Or.inr ⟨items, item, rfl, hmem, hid, rfl, rfl, rfl⟩⟩
    · exact Or.inl trivial

def Pipeline.pending (p : Pipeline) : List Nat :=
  match p.flushPC with
  | .filter rest => p.active ++ rest
  | .call => p.active
  | _ => []

/-- `flushed` holds all that `flush` was ever given, `received` all that `run` took. -/
structure Pipeline.Placed (p : Pipeline) : Prop where
  nodup : (p.run.received ++ p.requestChan).Nodup
  sent : ∀ k ∈ p.run.received ++ p.requestChan, k < p.submitted ∧ 4 ≤ (p.calls k).pc.stage
  resp : ∀ k, (p.calls k).respChan ≠ none → k ∈ p.run.flushed.flatten
  ops : ∀ o ∈ p.todo, ∀ k, o.request = some k → k ∈ p.run.flushed.flatten
  active : ∀ k ∈ p.active, k ∈ p.run.flushed.flatten
  sending : (p.rpcs.flatMap Rpc.calls ++ p.pending).Sublist p.run.flushed.flatten
  leaving : ∀ k todo resp, (p.calls k).pc = .leave todo resp → ∀ j, .release j ∈ todo → j = k

theorem Pipeline.Placed.update {p : Pipeline} (h : p.Placed) {k : Nat} {f : Call → Call}
    (hstage : k ∈ p.run.received ++ p.requestChan →
      (p.calls k).pc.stage ≤ (f (p.calls k)).pc.stage)
    (hresp : (f (p.calls k)).respChan ≠ none → (p.calls k).respChan ≠ none ∨
      k ∈ p.run.flushed.flatten)
    (hleaving : ∀ todo resp, (f (p.calls k)).pc = .leave todo resp →
      ∀ j, .release j ∈ todo → j = k) :
    (p.update k f).Placed := by
  refine ⟨h.nodup, fun j hj => ?_, fun j hj => ?_, h.ops, h.active, h.sending,
    fun j todo resp hj => ?_⟩
  · obtain ⟨hlt, hle⟩ := h.sent j hj
    refine ⟨hlt, ?_⟩
    rw [update_calls]
    split_ifs with hjk
    · exact hle.trans (hjk ▸ hstage (hjk ▸ hj))
    · exact hle
  · rw [update_calls] at hj
    split_ifs at hj with hjk
    · obtain hold | hin := hresp hj
      · rw [hjk]
        exact h.resp k hold
      · rw [hjk]
        exact hin
    · exact h.resp j hj
  · rw [update_calls] at hj
    split_ifs at hj with hjk
    · rw [hjk]
      exact hleaving todo resp hj
    · exact h.leaving j todo resp hj

theorem Pipeline.Placed.release {p : Pipeline} (h : p.Placed) (k : Nat) : (p.release k).Placed := by
  have hcalls : ∀ j, ((p.release k).calls j).pc = (p.calls j).pc ∧
      ((p.release k).calls j).respChan = (p.calls j).respChan := by
    intro j
    rw [release_calls]
    split_ifs with hj
    · rw [hj]
      exact ⟨rfl, rfl⟩
    · exact ⟨rfl, rfl⟩
  refine ⟨h.nodup, fun j hj => ?_, fun j hj => ?_, h.ops, h.active, h.sending,
    fun j todo resp hj => ?_⟩
  · rw [(hcalls j).1]
    exact h.sent j hj
  · rw [(hcalls j).2] at hj
    exact h.resp j hj
  · rw [(hcalls j).1] at hj
    exact h.leaving j todo resp hj

theorem Pipeline.Placed.leave {p : Pipeline} (h : p.Placed) {k : Nat} {todo : List Op}
    {resp : Response} (hstage : (p.calls k).pc.stage ≤ 6)
    (hrelease : ∀ j, .release j ∈ todo → j = k) :
    (p.leave k todo resp).Placed := by
  refine h.update (fun _ => hstage) Or.inl fun todo' resp' hpc => ?_
  obtain ⟨rfl, -⟩ := SubmitPC.leave.inj hpc
  exact hrelease

theorem Pipeline.Placed.todo {p : Pipeline} (h : p.Placed) {todo : List FlushOp}
    (hops : ∀ o ∈ todo, ∀ k, o.request = some k → k ∈ p.run.flushed.flatten) :
    Pipeline.Placed { p with todo := todo } :=
  ⟨h.nodup, h.sent, h.resp, hops, h.active, h.sending, h.leaving⟩

theorem Pipeline.Placed.flushPC {p : Pipeline} (h : p.Placed) (pc : FlushPC) (active : List Nat)
    (rpcs : List Rpc) (hactive : ∀ k ∈ active, k ∈ p.run.flushed.flatten)
    (hsending : (rpcs.flatMap Rpc.calls ++
      Pipeline.pending { p with flushPC := pc, active := active, rpcs := rpcs }).Sublist
        p.run.flushed.flatten) :
    Pipeline.Placed { p with flushPC := pc, active := active, rpcs := rpcs } :=
  ⟨h.nodup, h.sent, h.resp, h.ops, hactive, hsending, h.leaving⟩

theorem Pipeline.Placed.push {p : Pipeline} (h : p.Placed) {ops : List FlushOp}
    (hops : ∀ o ∈ ops, ∀ k, o.request = some k → k ∈ p.run.flushed.flatten) :
    (p.push ops).Placed := by
  refine h.todo fun o ho k hk => ?_
  obtain ho | ho := List.mem_append.mp ho
  · exact hops o ho k hk
  · exact h.ops o ho k hk

theorem Pipeline.Placed.pending_mem {p : Pipeline} (h : p.Placed) {k : Nat} (hk : k ∈ p.pending) :
    k ∈ p.run.flushed.flatten :=
  h.sending.subset (List.mem_append_right _ hk)

theorem Pipeline.Placed.unsent {p : Pipeline} (h : p.Placed) {k : Nat}
    (hpc : (p.calls k).pc = .enqueue) : k ∉ p.run.received ++ p.requestChan := by
  intro hk
  have hstage := (h.sent k hk).2
  rw [hpc] at hstage
  exact absurd hstage (by decide)

theorem answerLast_calls (rpcs : List Rpc) (answer : Reply) :
    (answerLast rpcs answer).map Rpc.calls = rpcs.map Rpc.calls := by
  induction rpcs with
  | nil => rfl
  | cons rpc rest ih =>
    cases rest with
    | nil => rfl
    | cons rpc' rest => simp only [answerLast, List.map_cons, ih]

theorem Pipeline.Placed.move (h : p.Placed) (hmove : p.Move maxBatchSize p') : p'.Placed := by
  cases hmove with
  | stay => exact h
  | submit call hpc hlease hresp =>
    have hnew : Pipeline.Placed { p with submitted := p.submitted + 1 } :=
      ⟨h.nodup, fun k hk => ⟨Nat.lt_succ_of_lt (h.sent k hk).1, (h.sent k hk).2⟩, h.resp, h.ops,
        h.active, h.sending, h.leaving⟩
    refine hnew.update (fun hk => absurd (h.sent _ hk).1 (Nat.lt_irrefl _)) ?_ ?_
    · exact fun hne => absurd hresp hne
    · exact fun todo resp hleave => absurd (hpc.symm.trans hleave) (by simp)
  | cancel k hk => exact h.update (fun _ => Nat.le_refl _) Or.inl (h.leaving k)
  | streamID => exact ⟨h.nodup, h.sent, h.resp, h.ops, h.active, h.sending, h.leaving⟩
  | generateID k hk hpc =>
    have hbase : Pipeline.Placed { p with nextID := p.nextID + 1 } :=
      ⟨h.nodup, h.sent, h.resp, h.ops, h.active, h.sending, h.leaving⟩
    exact hbase.update (fun _ => by simp [hpc, SubmitPC.stage]) Or.inl (by simp)
  | tryAcquire k hk hpc =>
    have hbase : Pipeline.Placed
        { p with admission := (p.admission.tryAcquire (p.calls k).prompt).2.2 } :=
      ⟨h.nodup, h.sent, h.resp, h.ops, h.active, h.sending, h.leaving⟩
    exact hbase.update (fun _ => by simp [hpc, SubmitPC.stage]) Or.inl (by simp)
  | startSpan k hk hpc s =>
    exact h.update (fun _ => by simp [hpc, SubmitPC.stage]) Or.inl (by simp)
  | refuse k hk hpc s todo resp hrelease hresp =>
    refine h.update (fun _ => by simp [hpc, SubmitPC.stage]) Or.inl
      fun todo' resp' hleave j hj => ?_
    obtain ⟨rfl, -⟩ := SubmitPC.leave.inj hleave
    exact absurd hj (hrelease j)
  | send k hk hpc =>
    have hqueued := h.update (k := k) (f := fun c => { c with pc := .queued })
      (fun _ => by simp [hpc, SubmitPC.stage]) Or.inl (by simp)
    have hnew := h.unsent hpc
    refine ⟨?_, fun j hj => ?_, hqueued.resp, hqueued.ops, hqueued.active, hqueued.sending,
      hqueued.leaving⟩
    · have hperm : (k :: (p.run.received ++ p.requestChan)).Nodup :=
        List.nodup_cons.mpr ⟨hnew, h.nodup⟩
      refine (List.Perm.nodup_iff ?_).mp hperm
      simp only [Pipeline.update, ← List.append_assoc]
      exact (List.perm_append_singleton k _).symm
    · simp only [Pipeline.update, ← List.append_assoc, List.mem_append, List.mem_singleton] at hj
      obtain hj | rfl := hj
      · exact hqueued.sent j (List.mem_append.mpr hj)
      · exact ⟨hk, by simp [Pipeline.update, SubmitPC.stage]⟩
  | handOver k hk hpc hrun =>
    have hqueued := h.update (k := k) (f := fun c => { c with pc := .queued })
      (fun _ => by simp [hpc, SubmitPC.stage]) Or.inl (by simp)
    have hnew := h.unsent hpc
    refine ⟨?_, fun j hj => ?_, hqueued.resp, hqueued.ops, hqueued.active, hqueued.sending,
      hqueued.leaving⟩
    · have hperm : (k :: (p.run.received ++ p.requestChan)).Nodup :=
        List.nodup_cons.mpr ⟨hnew, h.nodup⟩
      refine (List.Perm.nodup_iff ?_).mp hperm
      simp only [Pipeline.update, Run.receive, List.append_assoc]
      exact List.perm_middle.symm
    · simp only [Pipeline.update, Run.receive, List.mem_append, List.mem_singleton] at hj
      obtain (hj | rfl) | hj := hj
      · exact hqueued.sent j (List.mem_append_left _ hj)
      · exact ⟨hk, by simp [Pipeline.update, SubmitPC.stage]⟩
      · exact hqueued.sent j (List.mem_append_right _ hj)
  | abandon k hk hpc todo resp hrelease hresp =>
    refine h.leave ?_ fun j hj => (hrelease j).mp hj
    obtain hpc | hpc := hpc <;> simp [hpc, SubmitPC.stage]
  | queued k hk hpc => exact h.update (fun _ => by simp [hpc, SubmitPC.stage]) Or.inl (by simp)
  | take k hk hpc todo resp hrelease hresp =>
    refine h.update (fun _ => by simp [hpc, SubmitPC.stage]) (by simp)
      fun todo' resp' hleave j hj => ?_
    obtain ⟨rfl, -⟩ := SubmitPC.leave.inj hleave
    exact absurd hj (hrelease j)
  | exit k hk o rest resp hpc ho =>
    refine h.leave (by simp [hpc, SubmitPC.stage]) fun j hj => ?_
    exact h.leaving k _ resp hpc j (List.mem_cons_of_mem o hj)
  | exitRelease k hk i rest resp hpc =>
    have hpc' : ((p.release i).calls k).pc = .leave (.release i :: rest) resp := by
      rw [release_calls]
      split_ifs with hki
      · subst hki
        exact hpc
      · exact hpc
    refine (h.release i).leave (by simp [hpc', SubmitPC.stage]) fun j hj => ?_
    exact h.leaving k _ resp hpc j (List.mem_cons_of_mem _ hj)
  | «return» k hk resp hpc =>
    exact h.update (fun _ => by simp [hpc, SubmitPC.stage]) Or.inl (by simp)
  | receive k rest hrun hchan =>
    have hsame : p.run.received ++ [k] ++ rest = p.run.received ++ p.requestChan := by
      rw [hchan, List.append_assoc, List.singleton_append]
    refine ⟨?_, fun j hj => ?_, h.resp, h.ops, h.active, h.sending, h.leaving⟩
    · simp only [Run.receive, hsame]
      exact h.nodup
    · simp only [Run.receive, hsame] at hj
      exact h.sent j hj
  | loop r hrmove hreceived hflushed hrun =>
    refine ⟨?_, ?_, ?_, ?_, ?_, ?_, h.leaving⟩ <;> simp only [hreceived, hflushed]
    · exact h.nodup
    · exact h.sent
    · exact h.resp
    · exact h.ops
    · exact h.active
    · exact h.sending
  | startFlush r hrmove hbatch hreceived hflushed hrun =>
    have hrpcs : (p.rpcs.flatMap Rpc.calls).Sublist p.run.flushed.flatten :=
      (List.sublist_append_left _ _).trans h.sending
    refine ⟨?_, ?_, fun k hk => ?_, by simp, by simp, ?_, h.leaving⟩
    · simp only [Run.startFlush, hreceived]
      exact h.nodup
    · simp only [Run.startFlush, hreceived]
      exact h.sent
    · simp only [Run.startFlush, hflushed, List.flatten_append]
      exact List.mem_append_left _ (h.resp k hk)
    · simp only [Run.startFlush, hflushed, List.flatten_append, Pipeline.pending, List.nil_append,
        List.flatten_singleton]
      exact hrpcs.append (List.Sublist.refl _)
  | plain o rest hrun htodo ho =>
    exact h.todo fun o' ho' => h.ops o' (by rw [htodo]; exact List.mem_cons_of_mem o ho')
  | release j rest hrun htodo =>
    refine Pipeline.Placed.release ?_ j
    exact h.todo fun o' ho' => h.ops o' (by rw [htodo]; exact List.mem_cons_of_mem _ ho')
  | deliver k resp rest hrun htodo =>
    have hk : k ∈ p.run.flushed.flatten := h.ops (.deliver k resp) (by simp [htodo]) k rfl
    have hrest := (h.todo fun o' ho' =>
      h.ops o' (by rw [htodo]; exact List.mem_cons_of_mem _ ho')).release k
    refine hrest.push fun o ho j hj => ?_
    obtain rfl := List.mem_singleton.mp ho
    exact Option.some.inj hj ▸ hk
  | respond k resp rest hrun htodo =>
    have hk : k ∈ p.run.flushed.flatten := h.ops (.respond k resp) (by simp [htodo]) k rfl
    have hrest := h.todo fun o' ho' => h.ops o' (by rw [htodo]; exact List.mem_cons_of_mem _ ho')
    exact hrest.update (fun _ => Nat.le_refl _) (fun _ => Or.inr hk) (h.leaving k)
  | cancelled k rest hrun htodo hpc =>
    have hk : k ∈ p.run.flushed.flatten := h.pending_mem (by simp [Pipeline.pending, hpc])
    have hpending := h.sending
    simp only [Pipeline.pending, hpc] at hpending
    refine (h.flushPC (.filter rest) p.active p.rpcs h.active ?_).push fun o ho j hj => ?_
    · exact List.Sublist.trans (by simp [Pipeline.pending]) hpending
    · simp only [List.mem_cons, List.not_mem_nil, or_false] at ho
      obtain rfl | rfl | rfl := ho
      · simp [FlushOp.request] at hj
      · simp [FlushOp.request] at hj
      · exact Option.some.inj hj ▸ hk
  | active k rest hrun htodo hpc =>
    have hk : k ∈ p.run.flushed.flatten := h.pending_mem (by simp [Pipeline.pending, hpc])
    have hpending := h.sending
    simp only [Pipeline.pending, hpc] at hpending
    refine (h.flushPC (.filter rest) (p.active ++ [k]) p.rpcs ?_ ?_).push fun o ho j hj => ?_
    · intro j hj
      obtain hj | hj := List.mem_append.mp hj
      · exact h.active j hj
      · rwa [List.mem_singleton.mp hj]
    · simpa [Pipeline.pending] using hpending
    · obtain rfl := List.mem_singleton.mp ho
      simp [FlushOp.request] at hj
  | skip hrun htodo hpc hactive =>
    refine h.flushPC .done p.active p.rpcs h.active ?_
    exact List.Sublist.trans (by simp [Pipeline.pending]) h.sending
  | reject hrun htodo hpc =>
    refine (h.flushPC .done p.active p.rpcs h.active ?_).push fun o ho j hj => ?_
    · exact List.Sublist.trans (by simp [Pipeline.pending]) h.sending
    · exact h.active j (Answers.request (mem_rejectOps ho) hj)
  | dispatch hrun htodo hpc =>
    have hpending := h.sending
    simp only [Pipeline.pending, hpc, List.append_nil] at hpending
    refine (h.flushPC .call p.active p.rpcs h.active ?_).push fun o ho j hj => ?_
    · simpa [Pipeline.pending] using hpending
    · simp [request_plain (mem_sendOps ho)] at hj
  | call hrun htodo hpc =>
    have hpending := h.sending
    simp only [Pipeline.pending, hpc] at hpending
    refine h.flushPC .await p.active _ h.active ?_
    simpa [Pipeline.pending] using hpending
  | reply answer latency order order' hrun htodo hpc horder horder' =>
    have hpending := h.sending
    simp only [Pipeline.pending, hpc, List.append_nil] at hpending
    have hsame : (answerLast p.rpcs answer).flatMap Rpc.calls = p.rpcs.flatMap Rpc.calls := by
      rw [List.flatMap_def, List.flatMap_def, answerLast_calls]
    refine (h.flushPC .done p.active (answerLast p.rpcs answer) h.active ?_).push
      fun o ho j hj => ?_
    · simpa [Pipeline.pending, hsame] using hpending
    · exact h.active j (Answers.request (mem_settleOps ho) hj)
  | finish hrun htodo hpc =>
    exact ⟨h.nodup, h.sent, h.resp, h.ops, h.active, h.sending, h.leaving⟩

end Laminar.Gateway
