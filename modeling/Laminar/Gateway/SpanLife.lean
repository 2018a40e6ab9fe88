import Laminar.Gateway.Correlation
import Laminar.Gateway.SpanScript

/-! How far the spans of a request have to come, by where the request is. -/
namespace Laminar.Gateway
open Laminar.Transition
variable {maxBatchSize : Int} {p p' : Pipeline} {k : Nat} {spans : List Bool}

inductive Pipeline.Due (p : Pipeline) (k : Nat) : List Bool → Prop where
  | enqueue (hpc : (p.calls k).pc = .enqueue) : Due p k [false]
  | waiting (hk : k ∈ p.waiting) : Due p k [false]
  | passed (rest : List Nat) (hpc : p.flushPC = .filter rest) (hk : k ∈ p.active) : Due p k [true]
  | sending (hpc : p.flushPC = .call ∨ p.flushPC = .await) (hk : k ∈ p.active) :
      Due p k [true, false, false]
  | settled {spans : List Bool} (hstage : 4 ≤ (p.calls k).pc.stage) (hwait : k ∉ p.waiting)
      (hactive : k ∈ p.active → p.flushPC = .done) (hne : spans ≠ [])
      (hall : ∀ b ∈ spans, b = true) : Due p k spans

theorem Pipeline.Due.ne_nil (h : p.Due k spans) : spans ≠ [] := by
  cases h with
  | settled hstage hwait hactive hne hall => exact hne
  | _ => simp

theorem Pipeline.Due.same (h : p.Due k spans)
    (hpc : (p.calls k).pc = .enqueue → (p'.calls k).pc = .enqueue)
    (hstage : (p.calls k).pc.stage ≤ (p'.calls k).pc.stage)
    (hwait : k ∈ p'.waiting ↔ k ∈ p.waiting) (hactive : k ∈ p'.active ↔ k ∈ p.active)
    (hflush : p'.flushPC = p.flushPC) : p'.Due k spans := by
  cases h with
  | enqueue h => exact .enqueue (hpc h)
  | waiting hk => exact .waiting (hwait.mpr hk)
  | passed rest h hk => exact .passed rest (hflush.trans h) (hactive.mpr hk)
  | sending h hk => exact .sending (hflush ▸ h) (hactive.mpr hk)
  | settled h hw ha hne hall =>
    exact .settled (h.trans hstage) (fun hk => hw (hwait.mp hk))
      (fun hk => hflush.trans (ha (hactive.mp hk))) hne hall

theorem Run.Inv.flushed_held {r : Run} (h : r.Inv maxBatchSize) :
    r.flushed.flatten ++ r.held = r.received := by
  have hholds := h.holds
  cases hpc : r.pc with
  | select =>
    simp only [Run.Holds, hpc] at hholds
    simpa [Run.held, hpc] using hholds.2.2
  | received k =>
    simp only [Run.Holds, hpc] at hholds
    simpa [Run.held, hpc] using hholds.2.2
  | arm =>
    simp only [Run.Holds, hpc] at hholds
    simpa [Run.held, hpc] using hholds.2.2.2
  | check =>
    simp only [Run.Holds, hpc] at hholds
    simpa [Run.held, hpc] using hholds.2.2.2
  | flushing =>
    simp only [Run.Holds, hpc] at hholds
    simpa [Run.held, hpc] using hholds.2

structure Pipeline.Flushed (p : Pipeline) (k : Nat) : Prop where
  mem : k ∈ p.run.flushed.flatten
  known : k < p.submitted
  stage : 4 ≤ (p.calls k).pc.stage
  chan : k ∉ p.requestChan
  held : k ∉ p.run.held

section
variable (hloop : p.run.Inv maxBatchSize) (hplaced : p.Placed)
include hloop hplaced

theorem Pipeline.Placed.flushed (hk : k ∈ p.run.flushed.flatten) : p.Flushed k := by
  have hnodup := hplaced.nodup
  rw [← hloop.flushed_held] at hnodup
  have hreceived := hloop.flushed_received k hk
  obtain ⟨hknown, hstage⟩ := hplaced.sent k (List.mem_append_left _ hreceived)
  refine ⟨hk, hknown, hstage, fun hc => ?_, fun hh => ?_⟩
  · exact (List.nodup_append.mp hnodup).2.2 k (List.mem_append_left _ hk) k hc rfl
  · exact (List.nodup_append.mp (List.nodup_append.mp hnodup).1).2.2 k hk k hh rfl

theorem Pipeline.Placed.pending_nodup : p.pending.Nodup := by
  have hsub := (List.sublist_append_right _ _).trans (hplaced.sending.trans hloop.flushed_sublist)
  exact (hplaced.nodup.sublist (List.sublist_append_left _ _)).sublist hsub

theorem Pipeline.Placed.waiting_stage (hk : k ∈ p.waiting) : 4 ≤ (p.calls k).pc.stage := by
  simp only [Pipeline.waiting, List.mem_append] at hk
  obtain (hk | hk) | hk := hk
  · exact (hplaced.sent k (List.mem_append_right _ hk)).2
  · have hreceived : k ∈ p.run.received := hloop.flushed_held ▸ List.mem_append_right _ hk
    exact (hplaced.sent k (List.mem_append_left _ hreceived)).2
  · cases hpc : p.flushPC with
    | filter rest =>
      have hpending : k ∈ p.pending := by
        simp only [hpc, FlushPC.rest] at hk
        simp [Pipeline.pending, hpc, hk]
      exact (hplaced.flushed hloop (hplaced.pending_mem hpending)).stage
    | _ => simp [hpc, FlushPC.rest] at hk

theorem Pipeline.Due.of_head {rest : List Nat} (hpc : p.flushPC = .filter (k :: rest))
    (h : p.Due k spans) : spans = [false] := by
  have hpending := hplaced.pending_nodup hloop
  simp only [Pipeline.pending, hpc] at hpending
  have hk : k ∉ p.active := fun hk => (List.nodup_append.mp hpending).2.2 k hk k (by simp) rfl
  cases h with
  | enqueue h => rfl
  | waiting h => rfl
  | passed rest h hactive => exact absurd hactive hk
  | sending h hactive => exact absurd hactive hk
  | settled hstage hwait hactive hne hall =>
    exact absurd (by simp [Pipeline.waiting, hpc, FlushPC.rest]) hwait

/-- A request that `flush` has looked at waits no longer. -/
theorem Pipeline.Placed.not_waiting {rest : List Nat} (hpc : p.flushPC = .filter (k :: rest)) :
    p.Flushed k ∧ k ∉ rest ∧ k ∉ p.active := by
  have hpending := hplaced.pending_nodup hloop
  simp only [Pipeline.pending, hpc] at hpending
  obtain ⟨-, hrest, hapart⟩ := List.nodup_append.mp hpending
  refine ⟨hplaced.flushed hloop (hplaced.pending_mem (by simp [Pipeline.pending, hpc])),
    (List.nodup_cons.mp hrest).1, fun hk => hapart k hk k (by simp) rfl⟩

theorem Pipeline.Placed.active_nodup (hpc : p.flushPC = .filter [] ∨ p.flushPC = .call) :
    p.active.Nodup := by
  have hpending := hplaced.pending_nodup hloop
  obtain hpc | hpc := hpc
  · simpa [Pipeline.pending, hpc] using hpending
  · simpa [Pipeline.pending, hpc] using hpending

theorem Pipeline.Placed.awaited_nodup (hcorresponds : p.Corresponds) (hpc : p.flushPC = .await) :
    p.active.Nodup := by
  obtain ⟨before, rpc, hrpcs, hcalls, -⟩ := hcorresponds.awaited hpc
  have hsent : (p.rpcs.flatMap Rpc.calls).Sublist p.run.received :=
    (List.sublist_append_left _ _).trans (hplaced.sending.trans hloop.flushed_sublist)
  have hnodup := (hplaced.nodup.sublist (List.sublist_append_left _ _)).sublist hsent
  rw [hrpcs, List.flatMap_append, List.flatMap_singleton, hcalls] at hnodup
  exact (List.nodup_append.mp hnodup).2.1

end

def Pipeline.Served (p : Pipeline) (k : Nat) : Prop :=
  ∃ rpc ∈ p.rpcs, ∃ result, rpc.Gives k (p.calls k).id result

/-- An answered batch stays as it is. -/
theorem Pipeline.Move.answered (h : p.Move maxBatchSize p') (hcorresponds : p.Corresponds) :
    ∀ rpc ∈ p.rpcs, rpc.reply ≠ none → rpc ∈ p'.rpcs := by
  intro rpc hmem hreply
  cases h with
  | call hrun htodo hpc => exact List.mem_append_left _ hmem
  | reply answer latency order order' hrun htodo hpc horder horder' =>
    obtain ⟨before, last, hrpcs, -, hnone⟩ := hcorresponds.awaited hpc
    simp only [Pipeline.push, hrpcs, answerLast_append]
    rw [hrpcs, List.mem_append, List.mem_singleton] at hmem
    obtain hmem | rfl := hmem
    · exact List.mem_append_left _ hmem
    · exact absurd hnone hreply
  | _ => exact hmem

theorem Pipeline.Served.move (h : p.Served k) (hmove : p.Move maxBatchSize p')
    (hknown : p.Identified) (hcorresponds : p.Corresponds) : p'.Served k := by
  obtain ⟨rpc, hmem, result, hk, items, item, hreply, hitem⟩ := h
  have hstage := (hcorresponds.requests rpc hmem).1 k hk
  have hid := (hmove.later (hknown.known k hstage)).id hstage
  refine ⟨rpc, hmove.answered hcorresponds rpc hmem (by simp [hreply]), result, hk, items, item,
    hreply, ?_⟩
  rw [hid]
  exact hitem

end Laminar.Gateway
