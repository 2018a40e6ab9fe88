import Laminar.Otlp.Bound

/-! The batches that the exporter posts. `Flush` posts all that is pending, so a batch is as long
as `pending` has grown since the last successful post. -/
namespace Laminar.Otlp
open Laminar.Gateway (TraceSpan)
open Laminar.Transition

/-- What a step means for the batches: a span comes into `pending`, a batch is copied out of it, or
the collector has answered. -/
inductive Event where
  | add (span : TraceSpan)
  | copy (batch : List TraceSpan)
  | failure (batch : List TraceSpan)
  | success (batch : List TraceSpan)
  | other
deriving DecidableEq

def Event.adds : Event → Bool
  | .add _ => true
  | _ => false

def Event.fails : Event → Bool
  | .failure _ => true
  | _ => false

def FlushPC.posting : FlushPC → Option (List TraceSpan)
  | .post batch => some batch
  | _ => none

namespace OTLPHTTPExporter

def posting (e : OTLPHTTPExporter) : Option (List TraceSpan) := e.flush.bind fun f => f.pc.posting

def waiting (e : OTLPHTTPExporter) : Nat := e.pending.length - (e.posting.getD []).length

def event (e : OTLPHTTPExporter) : Action → Event
  | .run _ =>
    match e.run with
    | .add span => .add span
    | .drainAdd span => .add span
    | _ => .other
  | .flushing err =>
    match e.flush.map Flush.pc with
    | some (.add span) => .add span
    | some .copy => if e.pending.length = 0 then .other else .copy e.pending
    | some (.post batch) =>
      match err with
      | some _ => .failure batch
      | none => .success batch
    | _ => .other
  | _ => .other

def Effect (e e' : OTLPHTTPExporter) : Event → Prop
  | .add span =>
    e'.pending = e.pending ++ [span] ∧ e'.posting = e.posting ∧ e'.exported = e.exported
  | .copy batch =>
    batch = e.pending ∧ e.posting = none ∧
      e'.pending = e.pending ∧ e'.posting = some batch ∧ e'.exported = e.exported
  | .failure batch =>
    e.posting = some batch ∧
      e'.pending = e.pending ∧ e'.posting = none ∧ e'.exported = e.exported
  | .success batch =>
    e.posting = some batch ∧ e'.pending = e.pending.drop batch.length ∧ e'.posting = none ∧
      e'.exported = e.exported ++ batch
  | .other => e'.pending = e.pending ∧ e'.posting = e.posting ∧ e'.exported = e.exported

variable {e e' : OTLPHTTPExporter}

theorem flushing_effect {f : Flush} (hflush : e.flush = some f) (err : Option String) :
    Effect e (e.flushing f err) (e.event (.flushing err)) := by
  obtain ⟨byRun, pc⟩ := f
  cases pc with
  | drain =>
    cases hqueue : e.queue with
    | nil =>
      simp [OTLPHTTPExporter.flushing, hqueue, event, hflush, Effect, posting, FlushPC.posting]
    | cons span rest =>
      simp [OTLPHTTPExporter.flushing, hqueue, event, hflush, Effect, posting, FlushPC.posting]
  | add span =>
    simp [OTLPHTTPExporter.flushing, addPending, event, hflush, Effect, posting, FlushPC.posting]
  | copy =>
    by_cases hempty : e.pending.length = 0
    · simp [OTLPHTTPExporter.flushing, hempty, event, hflush, Effect, posting, FlushPC.posting,
        leaveFlush]
    · simp [OTLPHTTPExporter.flushing, hempty, event, hflush, Effect, posting, FlushPC.posting]
  | post batch =>
    cases err with
    | some err =>
      simp [OTLPHTTPExporter.flushing, event, hflush, Effect, posting, FlushPC.posting, leaveFlush]
    | none =>
      simp [OTLPHTTPExporter.flushing, event, hflush, Effect, posting, FlushPC.posting, leaveFlush]

theorem runStep_effect {case : SelectCase} (h : e.runStep case = some e') :
    Effect e e' (e.event (.run case)) := by
  unfold OTLPHTTPExporter.runStep at h
  cases hrun : e.run with
  | select =>
    simp only [hrun] at h
    have hevent : e.event (.run case) = .other := by simp [event, hrun]
    rw [hevent]
    cases case with
    | queue =>
      cases hqueue : e.queue with
      | nil => simp [hqueue] at h
      | cons span rest =>
        simp only [hqueue] at h
        obtain rfl := Option.some.inj h
        exact ⟨rfl, rfl, rfl⟩
    | ticker =>
      simp only at h
      split_ifs at h
      obtain rfl := Option.some.inj h
      exact ⟨rfl, rfl, rfl⟩
    | done =>
      simp only at h
      split_ifs at h
      obtain rfl := Option.some.inj h
      exact ⟨rfl, rfl, rfl⟩
  | add span =>
    simp only [hrun] at h
    obtain rfl := Option.some.inj h
    simp [event, hrun, Effect, addPending, posting]
  | flush last =>
    simp only [hrun] at h
    split_ifs at h with hfree
    obtain rfl := Option.some.inj h
    simp [event, hrun, Effect, posting, hfree, FlushPC.posting]
  | drain =>
    simp only [hrun] at h
    have hevent : e.event (.run case) = .other := by simp [event, hrun]
    rw [hevent]
    split at h <;> (obtain rfl := Option.some.inj h; exact ⟨rfl, rfl, rfl⟩)
  | drainAdd span =>
    simp only [hrun] at h
    obtain rfl := Option.some.inj h
    simp [event, hrun, Effect, addPending, posting]
  | returned => simp [hrun] at h

/-- What a step does to the batches, by its event. -/
theorem step_effect {a : Action} (h : step e a = some e') : Effect e e' (e.event a) := by
  cases a with
  | exportSpan span =>
    obtain rfl := Option.some.inj h
    unfold OTLPHTTPExporter.exportSpan
    split_ifs <;> exact ⟨rfl, rfl, rfl⟩
  | drop span =>
    simp only [step, OTLPHTTPExporter.drop] at h
    split_ifs at h
    obtain rfl := Option.some.inj h
    exact ⟨rfl, rfl, rfl⟩
  | flush =>
    simp only [step] at h
    split_ifs at h with hfree
    obtain rfl := Option.some.inj h
    simp [event, Effect, posting, hfree, FlushPC.posting]
  | flushing err =>
    simp only [step] at h
    cases hflush : e.flush with
    | none => simp [hflush] at h
    | some f =>
      simp only [hflush] at h
      obtain rfl := Option.some.inj h
      exact flushing_effect hflush err
  | tick =>
    obtain rfl := Option.some.inj h
    exact ⟨rfl, rfl, rfl⟩
  | close =>
    obtain rfl := Option.some.inj h
    exact ⟨rfl, rfl, rfl⟩
  | run case => exact runStep_effect h

def copied (e : OTLPHTTPExporter) (a : Action) : Option (List TraceSpan) :=
  match e.event a with
  | .copy batch => some batch
  | _ => none

/-- No span is added to `pending` while a whole batch waits there, and no post fails with more
than a batch in `pending`. -/
def KeepsBatches (e : OTLPHTTPExporter) (a : Action) : Prop :=
  ((e.event a).adds = true → (e.waiting : Int) < e.maxBatchSize) ∧
    ((e.event a).fails = true → (e.pending.length : Int) ≤ e.maxBatchSize)

instance (e : OTLPHTTPExporter) (a : Action) : Decidable (e.KeepsBatches a) :=
  inferInstanceAs (Decidable (((e.event a).adds = true → (e.waiting : Int) < e.maxBatchSize) ∧
    ((e.event a).fails = true → (e.pending.length : Int) ≤ e.maxBatchSize)))

theorem Custody.posting_prefix (h : e.Custody) {batch : List TraceSpan}
    (hpost : e.posting = some batch) : batch <+: e.pending := by
  obtain ⟨⟨byRun, pc⟩, hflush, hpc⟩ := Option.bind_eq_some_iff.mp hpost
  cases pc with
  | post batch' =>
    obtain rfl := Option.some.inj hpc
    exact h.posting byRun batch' hflush
  | _ => simp [FlushPC.posting] at hpc

/-- A step keeps what waits within a batch, and copies no more than a batch, exactly under the
condition. -/
theorem step_waiting {a : Action} (hcustody : e.Custody) (hmax : 0 < e.maxBatchSize)
    (h : step e a = some e') :
    ((e'.waiting : Int) ≤ e'.maxBatchSize ∧
      ∀ batch ∈ e.copied a, (batch.length : Int) ≤ e.maxBatchSize) ↔
    (e.waiting : Int) ≤ e.maxBatchSize ∧ e.KeepsBatches a := by
  have heffect := step_effect h
  rw [(step_loads h).maxBatchSize]
  have hle : e.waiting ≤ e.pending.length := Nat.sub_le _ _
  have hshort : (e.posting.getD []).length ≤ e.pending.length := by
    cases hpost : e.posting with
    | none => simp
    | some batch => exact (hcustody.posting_prefix hpost).length_le
  cases hevent : e.event a with
  | add span =>
    rw [hevent] at heffect
    obtain ⟨hpending, hpost, -⟩ := heffect
    have hmore : e'.waiting = e.waiting + 1 := by
      rw [waiting, hpending, hpost, List.length_append, List.length_singleton, waiting]
      omega
    simp only [copied, KeepsBatches, hevent, Event.adds, Event.fails]
    rw [hmore]
    simp
    omega
  | copy batch =>
    rw [hevent] at heffect
    obtain ⟨rfl, hfree, hpending, hpost, -⟩ := heffect
    have hnone : e'.waiting = 0 := by simp [waiting, hpending, hpost]
    have hall : e.waiting = e.pending.length := by simp [waiting, hfree]
    simp only [copied, KeepsBatches, hevent, Event.adds, Event.fails]
    rw [hnone, hall]
    simp
    omega
  | failure batch =>
    rw [hevent] at heffect
    obtain ⟨-, hpending, hpost, -⟩ := heffect
    have hall : e'.waiting = e.pending.length := by simp [waiting, hpending, hpost]
    simp only [copied, KeepsBatches, hevent, Event.adds, Event.fails]
    rw [hall]
    simp
    omega
  | success batch =>
    rw [hevent] at heffect
    obtain ⟨hbatch, hpending, hpost, -⟩ := heffect
    have hsame : e'.waiting = e.waiting := by simp [waiting, hpending, hpost, hbatch]
    simp [copied, KeepsBatches, hevent, Event.adds, Event.fails, hsame]
  | other =>
    rw [hevent] at heffect
    have hsame : e'.waiting = e.waiting := by simp [waiting, heffect.1, heffect.2.1]
    simp [copied, KeepsBatches, hevent, Event.adds, Event.fails, hsame]

end OTLPHTTPExporter

/-- Every batch of a run has at most the maximal size, and so would have the next one, exactly when
no span is added behind a whole waiting batch on the way and no post fails with more than a batch
pending. -/
theorem batches_bounded_iff (config : OTLPHTTPExporterConfig) (actions : List Action)
    (e : OTLPHTTPExporter) (h : run step (newOTLPHTTPExporter config) actions = some e) :
    ((e.waiting : Int) ≤ (normalizeOTLPExporterConfig config).maxBatchSize ∧
      ∀ batch ∈ observed OTLPHTTPExporter.copied step (newOTLPHTTPExporter config) actions,
        (batch.length : Int) ≤ (normalizeOTLPExporterConfig config).maxBatchSize) ↔
    Along step OTLPHTTPExporter.KeepsBatches (newOTLPHTTPExporter config) actions := by
  have hpos := (normalizeOTLPExporterConfig_pos config).1
  have hstart : (newOTLPHTTPExporter config).Custody ∧ (newOTLPHTTPExporter config).maxBatchSize =
      (normalizeOTLPExporterConfig config).maxBatchSize := ⟨newOTLPHTTPExporter_custody config, rfl⟩
  generalize (normalizeOTLPExporterConfig config).maxBatchSize = limit at hpos hstart ⊢
  have hkeep : ∀ (e : OTLPHTTPExporter) a e', (e.Custody ∧ e.maxBatchSize = limit) →
      step e a = some e' → (e'.Custody ∧ e'.maxBatchSize = limit) := by
    rintro e a e' ⟨hcustody, hmax⟩ hstep
    exact ⟨hcustody.step hstep, (OTLPHTTPExporter.step_loads hstep).maxBatchSize.trans hmax⟩
  have hwaiting : ∀ (e : OTLPHTTPExporter) a e', (e.Custody ∧ e.maxBatchSize = limit) →
      step e a = some e' →
      (((e'.waiting : Int) ≤ limit ∧ ∀ batch ∈ e.copied a, (batch.length : Int) ≤ limit) ↔
        (e.waiting : Int) ≤ limit ∧ e.KeepsBatches a) := by
    rintro e a e' ⟨hcustody, hmax⟩ hstep
    have hiff := OTLPHTTPExporter.step_waiting hcustody (by omega) hstep
    rwa [(OTLPHTTPExporter.step_loads hstep).maxBatchSize, hmax] at hiff
  rw [along_iff_observed h hstart hkeep hwaiting]
  refine and_iff_right ?_
  simpa [newOTLPHTTPExporter, OTLPHTTPExporter.waiting, OTLPHTTPExporter.posting] using hpos.le

/-- Three spans, each posted before the next one comes. -/
theorem batches_bounded_three :
    let config : OTLPHTTPExporterConfig := { maxBatchSize := 1, queueSize := 2 }
    let span : String → TraceSpan := fun spanID => ⟨"trace", spanID, "", "http.predict", "ok"⟩
    let posted : TraceSpan → List Action := fun s =>
      .exportSpan s :: List.replicate 3 (.run .queue) ++ List.replicate 3 (.flushing none)
    let actions : List Action := posted (span "one") ++ posted (span "two") ++ posted (span "three")
    observed OTLPHTTPExporter.copied step (newOTLPHTTPExporter config) actions =
        [[span "one"], [span "two"], [span "three"]] ∧
      ∃ e, run step (newOTLPHTTPExporter config) actions = some e ∧ (e.waiting : Int) ≤ 1 ∧
        ∀ batch ∈ observed OTLPHTTPExporter.copied step (newOTLPHTTPExporter config) actions,
          (batch.length : Int) ≤ 1 := by
  intro config span posted actions
  refine ⟨by decide +kernel, ?_⟩
  obtain ⟨e, he⟩ := Option.isSome_iff_exists.mp
    (show (run step (newOTLPHTTPExporter config) actions).isSome = true by decide +kernel)
  exact ⟨e, he, (batches_bounded_iff config actions e he).mpr (by decide +kernel)⟩

/-- With batches of one span, two spans in the queue are posted together. -/
theorem burst_overfillsBatch :
    let span : Action := .exportSpan ⟨"trace", "span", "", "http.predict", "ok"⟩
    let actions : List Action := [span, span, .run .queue, .run .queue, .run .queue,
      .flushing none, .flushing none, .flushing none, .flushing none]
    (run step (newOTLPHTTPExporter { maxBatchSize := 1, queueSize := 2 }) actions).isSome = true ∧
      ¬ ∀ batch ∈ observed OTLPHTTPExporter.copied step
          (newOTLPHTTPExporter { maxBatchSize := 1, queueSize := 2 }) actions,
        (batch.length : Int) ≤ 1 := by
  decide +kernel

end Laminar.Otlp
