import Laminar.Gateway.AdmissionLedger

/-! Whose response is whose: ids tell calls apart, and a response on its way to a call carries
the id of that call and a result that the worker gave for it. -/
namespace Laminar.Gateway
open Laminar.Transition

structure Pipeline.Identified (p : Pipeline) : Prop where
  known : ∀ k, 1 ≤ (p.calls k).pc.stage → k < p.submitted
  given : ∀ k, 1 ≤ (p.calls k).pc.stage → ∃ n < p.nextID, (p.calls k).id = requestID n
  apart : ∀ j k, 1 ≤ (p.calls j).pc.stage → 1 ≤ (p.calls k).pc.stage →
    (p.calls j).id = (p.calls k).id → j = k

variable {maxBatchSize : Int} {p p' : Pipeline}

theorem Pipeline.Identified.keep (h : p.Identified) (hnext : p.nextID ≤ p'.nextID)
    (hsubmitted : p.submitted ≤ p'.submitted)
    (hcalls : ∀ k, 1 ≤ (p'.calls k).pc.stage →
      1 ≤ (p.calls k).pc.stage ∧ (p'.calls k).id = (p.calls k).id) : p'.Identified := by
  refine ⟨fun k hk => ?_, fun k hk => ?_, fun j k hj hk hid => ?_⟩
  · exact (h.known k (hcalls k hk).1).trans_le hsubmitted
  · obtain ⟨n, hn, hid⟩ := h.given k (hcalls k hk).1
    exact ⟨n, hn.trans_le hnext, (hcalls k hk).2.trans hid⟩
  · rw [(hcalls j hj).2, (hcalls k hk).2] at hid
    exact h.apart j k (hcalls j hj).1 (hcalls k hk).1 hid

theorem Pipeline.Identified.update (h : p.Identified) {k : Nat} {f : Call → Call}
    (hcall : 1 ≤ (f (p.calls k)).pc.stage →
      1 ≤ (p.calls k).pc.stage ∧ (f (p.calls k)).id = (p.calls k).id) :
    (p.update k f).Identified := by
  refine h.keep (Nat.le_refl _) (Nat.le_refl _) fun j hj => ?_
  rw [update_calls] at hj ⊢
  split_ifs at hj ⊢ with hjk
  · rw [hjk]
    exact hcall hj
  · exact ⟨hj, rfl⟩

theorem Pipeline.Identified.same (h : p.Identified) (hnext : p.nextID ≤ p'.nextID)
    (hsubmitted : p'.submitted = p.submitted) (hcalls : p'.calls = p.calls) : p'.Identified :=
  h.keep hnext hsubmitted.ge (by rw [hcalls]; exact fun k hk => ⟨hk, rfl⟩)

theorem Pipeline.Identified.release (h : p.Identified) (k : Nat) : (p.release k).Identified := by
  refine h.keep (Nat.le_refl _) (Nat.le_refl _) fun j hj => ?_
  rw [release_calls] at hj ⊢
  split_ifs at hj ⊢ with hjk
  · rw [hjk]
    exact ⟨hj, rfl⟩
  · exact ⟨hj, rfl⟩

theorem Pipeline.Identified.generateID (h : p.Identified) {k : Nat} (hk : k < p.submitted) :
    (Pipeline.update { p with nextID := p.nextID + 1 } k
      (fun c => { c with id := requestID p.nextID, pc := .tryAcquire })).Identified := by
  -- the number is above all numbers given before
  have hnew : ∀ j, 1 ≤ (p.calls j).pc.stage → (p.calls j).id ≠ requestID p.nextID := by
    intro j hj hid
    obtain ⟨n, hn, hgiven⟩ := h.given j hj
    have hsame := requestID_injective (hgiven.symm.trans hid)
    omega
  refine ⟨fun j hj => ?_, fun j hj => ?_, fun i j hi hj hid => ?_⟩
  · rw [update_calls] at hj
    split_ifs at hj with hjk
    · rw [hjk]
      exact hk
    · exact h.known j hj
  · rw [update_calls] at hj ⊢
    split_ifs at hj ⊢ with hjk
    · exact ⟨p.nextID, Nat.lt_succ_self _, rfl⟩
    · obtain ⟨n, hn, hgiven⟩ := h.given j hj
      exact ⟨n, Nat.lt_succ_of_lt hn, hgiven⟩
  · simp only [update_calls] at hi hj hid
    split_ifs at hi hj hid with hik hjk hjk
    · rw [hik, hjk]
    · exact absurd hid.symm (hnew j hj)
    · exact absurd hid (hnew i hi)
    · exact h.apart i j hi hj hid

theorem Pipeline.Identified.move (h : p.Identified) (hmove : p.Move maxBatchSize p') :
    p'.Identified := by
  cases hmove with
  | stay => exact h
  | submit call hpc hlease hresp =>
    have hbase : Pipeline.Identified { p with submitted := p.submitted + 1 } :=
      h.keep (Nat.le_refl _) (Nat.le_succ _) fun k hk => ⟨hk, rfl⟩
    exact hbase.update fun hk => absurd hk (by simp [hpc, SubmitPC.stage])
  | cancel k hk => exact h.update fun hstage => ⟨hstage, rfl⟩
  | streamID => exact h.same (Nat.le_succ _) rfl rfl
  | generateID k hk hpc => exact h.generateID hk
  | tryAcquire k hk hpc =>
    have hbase : Pipeline.Identified
        { p with admission := (p.admission.tryAcquire (p.calls k).prompt).2.2 } :=
      h.same (Nat.le_refl _) rfl rfl
    exact hbase.update fun _ => ⟨by simp [hpc, SubmitPC.stage], rfl⟩
  | startSpan k hk hpc s => exact h.update fun _ => ⟨by simp [hpc, SubmitPC.stage], rfl⟩
  | refuse k hk hpc s todo resp hrelease hresp =>
    exact h.update fun _ => ⟨by simp [hpc, SubmitPC.stage], rfl⟩
  | send k hk hpc =>
    have hbase : Pipeline.Identified { p with requestChan := p.requestChan ++ [k] } :=
      h.same (Nat.le_refl _) rfl rfl
    exact hbase.update fun _ => ⟨by simp [hpc, SubmitPC.stage], rfl⟩
  | handOver k hk hpc hrun =>
    have hbase : Pipeline.Identified { p with run := p.run.receive k } :=
      h.same (Nat.le_refl _) rfl rfl
    exact hbase.update fun _ => ⟨by simp [hpc, SubmitPC.stage], rfl⟩
  | abandon k hk hpc todo resp hrelease hresp =>
    refine h.update fun _ => ⟨?_, rfl⟩
    obtain hpc | hpc := hpc <;> simp [hpc, SubmitPC.stage]
  | queued k hk hpc => exact h.update fun _ => ⟨by simp [hpc, SubmitPC.stage], rfl⟩
  | take k hk hpc todo resp hrelease hresp =>
    exact h.update fun _ => ⟨by simp [hpc, SubmitPC.stage], rfl⟩
  | exit k hk o rest resp hpc ho => exact h.update fun _ => ⟨by simp [hpc, SubmitPC.stage], rfl⟩
  | exitRelease k hk i rest resp hpc =>
    refine (h.release i).update fun _ => ⟨?_, rfl⟩
    rw [release_calls]
    split_ifs with hki
    · simp [← hki, hpc, SubmitPC.stage]
    · simp [hpc, SubmitPC.stage]
  | «return» k hk resp hpc => exact h.update fun _ => ⟨by simp [hpc, SubmitPC.stage], rfl⟩
  | release i rest hrun htodo =>
    have hbase : Pipeline.Identified { p with todo := rest } := h.same (Nat.le_refl _) rfl rfl
    exact hbase.release i
  | deliver k resp rest hrun htodo =>
    have hbase : Pipeline.Identified { p with todo := rest } := h.same (Nat.le_refl _) rfl rfl
    exact (hbase.release k).same (Nat.le_refl _) rfl rfl
  | respond k resp rest hrun htodo =>
    have hbase : Pipeline.Identified { p with todo := rest } := h.same (Nat.le_refl _) rfl rfl
    exact hbase.update fun hstage => ⟨hstage, rfl⟩
  | _ => exact h.same (Nat.le_refl _) rfl rfl

def Rpc.Gives (rpc : Rpc) (k : Nat) (id result : String) : Prop :=
  k ∈ rpc.calls ∧ ∃ items item, rpc.reply = some (.ok items) ∧ item ∈ items ∧ item.id = id ∧
    item.result = result

structure Pipeline.Justified (p : Pipeline) (k : Nat) (resp : Response) : Prop where
  stage : 1 ≤ (p.calls k).pc.stage
  id : resp.id = (p.calls k).id
  result : resp.error = "" → ∃ rpc ∈ p.rpcs, rpc.Gives k (p.calls k).id resp.result

def FlushOp.answer : FlushOp → Option (Nat × Response)
  | .deliver k resp => some (k, resp)
  | .respond k resp => some (k, resp)
  | _ => none

def SubmitPC.response : SubmitPC → Option Response
  | .leave _ resp => some resp
  | .returned resp => some resp
  | _ => none

structure Pipeline.Corresponds (p : Pipeline) : Prop where
  requests : ∀ rpc ∈ p.rpcs, (∀ k ∈ rpc.calls, 1 ≤ (p.calls k).pc.stage) ∧
    rpc.requests = batchRequest p.calls rpc.calls
  awaited : p.flushPC = .await → ∃ before rpc, p.rpcs = before ++ [rpc] ∧ rpc.calls = p.active ∧
    rpc.reply = none
  ops : ∀ o ∈ p.todo, ∀ k resp, o.answer = some (k, resp) → p.Justified k resp
  resp : ∀ k resp, (p.calls k).respChan = some resp → p.Justified k resp
  response : ∀ k resp, (p.calls k).pc.response = some resp → p.Justified k resp

theorem Pipeline.Justified.of_refusal {k : Nat} {resp : Response}
    (hstage : 1 ≤ (p.calls k).pc.stage) (h : (p.calls k).Refusal resp) : p.Justified k resp :=
  ⟨hstage, h.1, fun hok => absurd hok h.2⟩

structure Call.SameFor (c c' : Call) : Prop where
  stage : 1 ≤ c'.pc.stage
  id : c'.id = c.id
  prompt : c'.prompt = c.prompt
  traceID : c'.traceID = c.traceID

theorem Pipeline.Justified.keep {k : Nat} {resp : Response} (h : p.Justified k resp)
    (hcall : (p.calls k).SameFor (p'.calls k))
    (hrpcs : ∀ rpc ∈ p.rpcs, rpc.reply ≠ none → rpc ∈ p'.rpcs) : p'.Justified k resp := by
  refine ⟨hcall.stage, h.id.trans hcall.id.symm, fun hok => ?_⟩
  obtain ⟨rpc, hmem, hgives⟩ := h.result hok
  obtain ⟨hk, items, item, hreply, hitem⟩ := hgives
  refine ⟨rpc, hrpcs rpc hmem (by simp [hreply]), hk, items, item, hreply, ?_⟩
  rw [hcall.id]
  exact hitem

theorem batchRequest_congr {calls calls' : Nat → Call} {active : List Nat}
    (h : ∀ k ∈ active, (calls k).SameFor (calls' k)) :
    batchRequest calls' active = batchRequest calls active := by
  refine List.map_congr_left fun k hk => ?_
  rw [(h k hk).id, (h k hk).prompt, (h k hk).traceID]

theorem Pipeline.Corresponds.update (h : p.Corresponds) {k : Nat} {f : Call → Call}
    (hsame : 1 ≤ (p.calls k).pc.stage → (p.calls k).SameFor (f (p.calls k)))
    (hresp : ∀ resp, (f (p.calls k)).respChan = some resp → p.Justified k resp)
    (hresponse : ∀ resp, (f (p.calls k)).pc.response = some resp → p.Justified k resp) :
    (p.update k f).Corresponds := by
  have hcall : ∀ j, 1 ≤ (p.calls j).pc.stage → (p.calls j).SameFor ((p.update k f).calls j) := by
    intro j hj
    rw [update_calls]
    split_ifs with hjk
    · rw [hjk]
      exact hsame (hjk ▸ hj)
    · exact ⟨hj, rfl, rfl, rfl⟩
  have hkeep : ∀ j resp, p.Justified j resp → (p.update k f).Justified j resp :=
    fun j resp hj => hj.keep (hcall j hj.stage) fun rpc hmem _ => hmem
  refine ⟨fun rpc hmem => ?_, h.awaited, fun o ho j resp hj => hkeep j resp (h.ops o ho j resp hj),
    fun j resp hj => hkeep j resp ?_, fun j resp hj => hkeep j resp ?_⟩
  · obtain ⟨hstage, hrequests⟩ := h.requests rpc hmem
    refine ⟨fun j hj => (hcall j (hstage j hj)).stage, hrequests.trans ?_⟩
    exact (batchRequest_congr fun j hj => hcall j (hstage j hj)).symm
  · rw [update_calls] at hj
    split_ifs at hj with hjk
    · rw [hjk]
      exact hresp resp hj
    · exact h.resp j resp hj
  · rw [update_calls] at hj
    split_ifs at hj with hjk
    · rw [hjk]
      exact hresponse resp hj
    · exact h.response j resp hj

theorem Pipeline.Corresponds.same (h : p.Corresponds) (hcalls : p'.calls = p.calls)
    (hrpcs : p'.rpcs = p.rpcs) (hawaited : p'.flushPC = .await → p.flushPC = .await ∧
      p'.active = p.active)
    (hops : ∀ o ∈ p'.todo, ∀ k resp, o.answer = some (k, resp) → p.Justified k resp) :
    p'.Corresponds := by
  have hkeep : ∀ k resp, p.Justified k resp → p'.Justified k resp := by
    intro k resp hk
    refine hk.keep ?_ (by rw [hrpcs]; exact fun rpc hmem _ => hmem)
    rw [hcalls]
    exact ⟨hk.stage, rfl, rfl, rfl⟩
  refine ⟨?_, fun hpc => ?_, fun o ho k resp hk => hkeep k resp (hops o ho k resp hk), ?_, ?_⟩
  · rw [hrpcs, hcalls]
    exact h.requests
  · rw [hrpcs, (hawaited hpc).2]
    exact h.awaited (hawaited hpc).1
  · rw [hcalls]
    exact fun k resp hk => hkeep k resp (h.resp k resp hk)
  · rw [hcalls]
    exact fun k resp hk => hkeep k resp (h.response k resp hk)

theorem Pipeline.Corresponds.release (h : p.Corresponds) (k : Nat) : (p.release k).Corresponds := by
  have hupdate := h.update (k := k) (f := fun c => { c with lease := c.lease.spent })
    (fun hstage => ⟨hstage, rfl, rfl, rfl⟩) (h.resp k) (h.response k)
  refine hupdate.same (funext fun j => ?_) rfl (fun hpc => ⟨hpc, rfl⟩) hupdate.ops
  rw [release_calls, update_calls]

theorem Pipeline.Corresponds.leave (h : p.Corresponds) {k : Nat} {todo : List Op}
    {resp : Response} (hresp : p.Justified k resp) : (p.leave k todo resp).Corresponds := by
  refine h.update (fun _ => ⟨by simp [SubmitPC.stage], rfl, rfl, rfl⟩) (h.resp k)
    fun resp' hleave => ?_
  obtain rfl := Option.some.inj hleave
  exact hresp

theorem answerLast_append (before : List Rpc) (rpc : Rpc) (answer : Reply) :
    answerLast (before ++ [rpc]) answer = before ++ [{ rpc with reply := some answer }] := by
  induction before with
  | nil => rfl
  | cons first rest ih =>
    cases rest with
    | nil => rfl
    | cons second rest =>
      simpa only [List.cons_append, answerLast, List.cons.injEq, true_and] using ih

theorem FlushOp.Plain.answer {o : FlushOp} (h : o.Plain) : o.answer = none := by
  cases o with
  | deliver k resp => exact absurd h id
  | respond k resp => exact absurd h id
  | _ => rfl

/-- The steps that settle a batch tell each call what the worker said of it, or of an error. -/
theorem Pipeline.Corresponds.reply (h : p.Corresponds)
    (hactive : ∀ k ∈ p.active, 1 ≤ (p.calls k).pc.stage) {answer : Reply} {latency : Int}
    {order order' : List Nat} (htodo : p.todo = []) (hpc : p.flushPC = .await) :
    (Pipeline.push { p with rpcs := answerLast p.rpcs answer, flushPC := .done }
      (settleOps p.calls p.active answer latency order order')).Corresponds := by
  obtain ⟨before, rpc, hrpcs, hcalls, hnone⟩ := h.awaited hpc
  have hlast : answerLast p.rpcs answer = before ++ [{ rpc with reply := some answer }] := by
    rw [hrpcs, answerLast_append]
  have hkept : ∀ rpc' ∈ p.rpcs, rpc'.reply ≠ none → rpc' ∈ answerLast p.rpcs answer := by
    intro rpc' hmem hsome
    rw [hrpcs, List.mem_append, List.mem_singleton] at hmem
    rw [hlast, List.mem_append]
    obtain hmem | rfl := hmem
    · exact Or.inl hmem
    · exact absurd hnone hsome
  have hkeep : ∀ k resp, p.Justified k resp → Pipeline.Justified
      (Pipeline.push { p with rpcs := answerLast p.rpcs answer, flushPC := .done }
        (settleOps p.calls p.active answer latency order order')) k resp :=
    fun k resp hk => hk.keep ⟨hk.stage, rfl, rfl, rfl⟩ hkept
  refine ⟨fun rpc' hmem => ?_, by simp [Pipeline.push], fun o ho k resp hk => ?_,
    fun k resp hk => hkeep k resp (h.resp k resp hk),
    fun k resp hk => hkeep k resp (h.response k resp hk)⟩
  · simp only [Pipeline.push, hlast, List.mem_append, List.mem_singleton] at hmem
    obtain hmem | rfl := hmem
    · exact h.requests rpc' (by rw [hrpcs]; exact List.mem_append_left _ hmem)
    · exact h.requests rpc (by rw [hrpcs]; simp)
  · simp only [Pipeline.push, htodo, List.append_nil] at ho
    obtain hplain | ⟨j, hj, resp', rfl, hreported⟩ := mem_settleOps ho
    · simp [hplain.answer] at hk
    · obtain ⟨rfl, rfl⟩ := Prod.mk.inj (Option.some.inj hk)
      obtain hrefusal | ⟨items, item, rfl, hitem, hid, hrespid, hresult, herror⟩ := hreported
      · exact hkeep _ _ (.of_refusal (hactive _ hj) hrefusal)
      · refine ⟨hactive _ hj, hrespid.trans hid, fun _ => ?_⟩
        refine ⟨{ rpc with reply := some (.ok items) }, ?_, ?_⟩
        · simp [Pipeline.push, hlast]
        · exact ⟨hcalls ▸ hj, items, item, rfl, hitem, hid, hresult.symm⟩

theorem Pipeline.Corresponds.move (hplaced : p.Placed) (hknown : p.Identified)
    (hflushed : ∀ k ∈ p.run.flushed.flatten, k ∈ p.run.received) (h : p.Corresponds)
    (hmove : p.Move maxBatchSize p') : p'.Corresponds := by
  have hstage : ∀ k ∈ p.run.flushed.flatten, 1 ≤ (p.calls k).pc.stage := fun k hk =>
    le_trans (by decide) (hplaced.sent k (List.mem_append_left _ (hflushed k hk))).2
  have hactive : ∀ k ∈ p.active, 1 ≤ (p.calls k).pc.stage := fun k hk =>
    hstage k (hplaced.active k hk)
  have htail : ∀ {o : FlushOp} {rest : List FlushOp}, p.todo = o :: rest →
      ∀ o' ∈ rest, ∀ k resp, o'.answer = some (k, resp) → p.Justified k resp :=
    fun htodo o' ho' => h.ops o' (by rw [htodo]; exact List.mem_cons_of_mem _ ho')
  cases hmove with
  | stay => exact h
  | submit call hpc hlease hresp =>
    have hbase : Pipeline.Corresponds { p with submitted := p.submitted + 1 } :=
      h.same rfl rfl (fun hpc => ⟨hpc, rfl⟩) h.ops
    refine hbase.update (fun hk => ?_) (by simp [hresp]) (by simp [hpc, SubmitPC.response])
    exact absurd (hknown.known _ hk) (Nat.lt_irrefl _)
  | cancel k hk =>
    exact h.update (fun hstage => ⟨hstage, rfl, rfl, rfl⟩) (h.resp k) (h.response k)
  | streamID => exact h.same rfl rfl (fun hpc => ⟨hpc, rfl⟩) h.ops
  | generateID k hk hpc =>
    have hbase : Pipeline.Corresponds { p with nextID := p.nextID + 1 } :=
      h.same rfl rfl (fun hpc => ⟨hpc, rfl⟩) h.ops
    refine hbase.update (fun hk => ?_) (hbase.resp k) (by simp [SubmitPC.response])
    simp [hpc, SubmitPC.stage] at hk
  | tryAcquire k hk hpc =>
    have hbase : Pipeline.Corresponds
        { p with admission := (p.admission.tryAcquire (p.calls k).prompt).2.2 } :=
      h.same rfl rfl (fun hpc => ⟨hpc, rfl⟩) h.ops
    exact hbase.update (fun _ => ⟨by simp [SubmitPC.stage], rfl, rfl, rfl⟩) (hbase.resp k)
      (by simp [SubmitPC.response])
  | startSpan k hk hpc s =>
    exact h.update (fun _ => ⟨by simp [SubmitPC.stage], rfl, rfl, rfl⟩) (h.resp k)
      (by simp [SubmitPC.response])
  | refuse k hk hpc s todo resp hrelease hresp =>
    refine h.update (fun _ => ⟨by simp [SubmitPC.stage], rfl, rfl, rfl⟩) (h.resp k)
      fun resp' hleave => ?_
    obtain rfl := Option.some.inj hleave
    exact .of_refusal (by simp [hpc, SubmitPC.stage]) hresp
  | send k hk hpc =>
    have hbase : Pipeline.Corresponds { p with requestChan := p.requestChan ++ [k] } :=
      h.same rfl rfl (fun hpc => ⟨hpc, rfl⟩) h.ops
    exact hbase.update (fun _ => ⟨by simp [SubmitPC.stage], rfl, rfl, rfl⟩) (hbase.resp k)
      (by simp [SubmitPC.response])
  | handOver k hk hpc hrun =>
    have hbase : Pipeline.Corresponds { p with run := p.run.receive k } :=
      h.same rfl rfl (fun hpc => ⟨hpc, rfl⟩) h.ops
    exact hbase.update (fun _ => ⟨by simp [SubmitPC.stage], rfl, rfl, rfl⟩) (hbase.resp k)
      (by simp [SubmitPC.response])
  | abandon k hk hpc todo resp hrelease hresp =>
    refine h.leave (.of_refusal ?_ hresp)
    obtain hpc | hpc := hpc <;> simp [hpc, SubmitPC.stage]
  | queued k hk hpc =>
    exact h.update (fun _ => ⟨by simp [SubmitPC.stage], rfl, rfl, rfl⟩) (h.resp k)
      (by simp [SubmitPC.response])
  | take k hk hpc todo resp hrelease hresp =>
    refine h.update (fun _ => ⟨by simp [SubmitPC.stage], rfl, rfl, rfl⟩) (by simp)
      fun resp' hleave => ?_
    obtain rfl := Option.some.inj hleave
    exact h.resp k resp hresp
  | exit k hk o rest resp hpc ho => exact h.leave (h.response k resp (by rw [hpc]; rfl))
  | exitRelease k hk i rest resp hpc =>
    have hresp : (p.release i).Justified k resp := by
      refine (h.release i).response k resp ?_
      rw [release_calls]
      split_ifs with hki
      · simp [← hki, hpc, SubmitPC.response]
      · simp [hpc, SubmitPC.response]
    exact (h.release i).leave hresp
  | «return» k hk resp hpc =>
    refine h.update (fun _ => ⟨by simp [SubmitPC.stage], rfl, rfl, rfl⟩) (h.resp k)
      fun resp' hreturned => ?_
    obtain rfl := Option.some.inj hreturned
    exact h.response k resp (by rw [hpc]; rfl)
  | receive k rest hrun hchan => exact h.same rfl rfl (fun hpc => ⟨hpc, rfl⟩) h.ops
  | loop r hrmove hreceived hflushed hrun => exact h.same rfl rfl (fun hpc => ⟨hpc, rfl⟩) h.ops
  | startFlush r hrmove hbatch hreceived hflushed hrun =>
    exact h.same rfl rfl (by simp) (by simp)
  | plain o rest hrun htodo ho => exact h.same rfl rfl (fun hpc => ⟨hpc, rfl⟩) (htail htodo)
  | release i rest hrun htodo =>
    have hbase : Pipeline.Corresponds { p with todo := rest } :=
      h.same rfl rfl (fun hpc => ⟨hpc, rfl⟩) (htail htodo)
    exact hbase.release i
  | deliver k resp rest hrun htodo =>
    have hbase : Pipeline.Corresponds { p with todo := rest } :=
      h.same rfl rfl (fun hpc => ⟨hpc, rfl⟩) (htail htodo)
    have hown : Pipeline.Justified { p with todo := rest } k resp := by
      have hjust := h.ops (.deliver k resp) (by simp [htodo]) k resp rfl
      exact hjust.keep ⟨hjust.stage, rfl, rfl, rfl⟩ fun rpc hmem _ => hmem
    have hrel := hbase.release k
    refine hrel.same rfl rfl (fun hpc => ⟨hpc, rfl⟩) fun o ho j resp' hj => ?_
    obtain ho | ho := List.mem_append.mp ho
    · obtain rfl := List.mem_singleton.mp ho
      obtain ⟨rfl, rfl⟩ := Prod.mk.inj (Option.some.inj hj)
      refine hown.keep ?_ fun rpc hmem _ => hmem
      rw [release_calls, if_pos rfl]
      exact ⟨hown.stage, rfl, rfl, rfl⟩
    · exact hrel.ops o ho j resp' hj
  | respond k resp rest hrun htodo =>
    have hbase : Pipeline.Corresponds { p with todo := rest } :=
      h.same rfl rfl (fun hpc => ⟨hpc, rfl⟩) (htail htodo)
    have hown : Pipeline.Justified { p with todo := rest } k resp := by
      have hjust := h.ops (.respond k resp) (by simp [htodo]) k resp rfl
      exact hjust.keep ⟨hjust.stage, rfl, rfl, rfl⟩ fun rpc hmem _ => hmem
    refine hbase.update (fun hstage => ⟨hstage, rfl, rfl, rfl⟩) (fun resp' hresp => ?_)
      (hbase.response k)
    -- the first response put into the channel stays there
    obtain hold | ⟨-, hnew⟩ := Option.or_eq_some_iff.mp hresp
    · exact hbase.resp k resp' hold
    · obtain rfl := Option.some.inj hnew
      exact hown
  | cancelled k rest hrun htodo hpc =>
    have hk := hstage k (hplaced.pending_mem (by simp [Pipeline.pending, hpc]))
    refine h.same rfl rfl (by simp [Pipeline.push]) fun o ho j resp hj => ?_
    simp only [Pipeline.push, htodo, List.append_nil, List.mem_cons, List.not_mem_nil,
      or_false] at ho
    obtain rfl | rfl | rfl := ho
    · simp [FlushOp.answer] at hj
    · simp [FlushOp.answer] at hj
    · obtain ⟨rfl, rfl⟩ := Prod.mk.inj (Option.some.inj hj)
      exact .of_refusal hk (errorResponse_refusal _ _ (by decide))
  | active k rest hrun htodo hpc =>
    refine h.same rfl rfl (by simp [Pipeline.push]) fun o ho j resp hj => ?_
    simp only [Pipeline.push, htodo, List.append_nil, List.mem_singleton] at ho
    simp [ho, FlushOp.answer] at hj
  | skip hrun htodo hpc hnone => exact h.same rfl rfl (by simp) h.ops
  | reject hrun htodo hpc =>
    refine h.same rfl rfl (by simp [Pipeline.push]) fun o ho k resp hk => ?_
    simp only [Pipeline.push, htodo, List.append_nil] at ho
    obtain hplain | ⟨j, hj, resp', rfl, hrefusal⟩ := mem_rejectOps ho
    · simp [hplain.answer] at hk
    · obtain ⟨rfl, rfl⟩ := Prod.mk.inj (Option.some.inj hk)
      exact .of_refusal (hactive _ hj) hrefusal
  | dispatch hrun htodo hpc =>
    refine h.same rfl rfl (by simp [Pipeline.push]) fun o ho k resp hk => ?_
    simp only [Pipeline.push, htodo, List.append_nil] at ho
    simp [(mem_sendOps ho).answer] at hk
  | call hrun htodo hpc =>
    have hkeep : ∀ k resp, p.Justified k resp → Pipeline.Justified { p with
        rpcs := p.rpcs ++ [{ calls := p.active, requests := batchRequest p.calls p.active }]
        flushPC := .await } k resp :=
      fun k resp hk => hk.keep ⟨hk.stage, rfl, rfl, rfl⟩ fun rpc hmem _ =>
        List.mem_append_left _ hmem
    refine ⟨fun rpc hmem => ?_, fun _ => ⟨p.rpcs, _, rfl, rfl, rfl⟩,
      fun o ho k resp hk => hkeep k resp (h.ops o ho k resp hk),
      fun k resp hk => hkeep k resp (h.resp k resp hk),
      fun k resp hk => hkeep k resp (h.response k resp hk)⟩
    obtain hmem | hmem := List.mem_append.mp hmem
    · exact h.requests rpc hmem
    · obtain rfl := List.mem_singleton.mp hmem
      exact ⟨hactive, rfl⟩
  | reply answer latency order order' hrun htodo hpc horder horder' =>
    exact h.reply hactive htodo hpc
  | finish hrun htodo hpc => exact h.same rfl rfl (fun hawait => ⟨hawait, rfl⟩) h.ops

end Laminar.Gateway
