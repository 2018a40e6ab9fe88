import Laminar.Otlp.Exporter

/-! Where the spans are that were handed to the exporter: each in one place, whatever the
goroutines and the collector do. -/
namespace Laminar.Otlp
open Laminar.Gateway (TraceSpan)
open Laminar.Transition

def RunPC.hand : RunPC → List TraceSpan
  | .add span => [span]
  | .drainAdd span => [span]
  | _ => []

theorem hand_next (b : Prop) [Decidable b] :
    (if b then RunPC.flush false else .select).hand = [] := by
  split_ifs <;> rfl

def FlushPC.hand : FlushPC → List TraceSpan
  | .add span => [span]
  | _ => []

namespace OTLPHTTPExporter

def inHand (e : OTLPHTTPExporter) : List TraceSpan :=
  e.run.hand ++ (e.flush.elim [] fun f => f.pc.hand)

structure Custody (e : OTLPHTTPExporter) : Prop where
  count : ∀ span, e.handed.count span = e.dropped.count span + e.queue.count span +
    e.inHand.count span + e.pending.count span + e.exported.count span
  droppedSpans : e.droppedSpans = e.dropped.length
  exportedSpans : e.exportedSpans = e.exported.length
  posting : ∀ byRun batch, e.flush = some ⟨byRun, .post batch⟩ → batch <+: e.pending

variable {e e' : OTLPHTTPExporter}

theorem Custody.exportSpan (h : e.Custody) (span : TraceSpan) : (e.exportSpan span).Custody := by
  unfold OTLPHTTPExporter.exportSpan
  split_ifs with hroom
  · refine ⟨fun x => ?_, h.droppedSpans, h.exportedSpans, h.posting⟩
    have hcount := h.count x
    simp only [inHand, List.count_append] at hcount ⊢
    omega
  · exact ⟨h.count, h.droppedSpans, h.exportedSpans, h.posting⟩

theorem Custody.drop (h : e.Custody) {span : TraceSpan} (hstep : e.drop span = some e') :
    e'.Custody := by
  unfold OTLPHTTPExporter.drop at hstep
  split_ifs at hstep
  obtain rfl := Option.some.inj hstep
  refine ⟨fun x => ?_, ?_, h.exportedSpans, h.posting⟩
  · have hcount := h.count x
    simp only [inHand, List.count_append] at hcount ⊢
    omega
  · simp only [List.length_append, List.length_singleton, h.droppedSpans]

/-- A `Flush` that has nothing in its hand leaves every span where it is. -/
theorem leaveFlush_inHand {byRun : Bool} {pc : FlushPC} (hflush : e.flush = some ⟨byRun, pc⟩)
    (hhand : pc.hand = []) : (e.leaveFlush byRun).inHand = e.inHand := by
  have hrun : (e.leaveFlush byRun).run.hand = e.run.hand := by
    unfold OTLPHTTPExporter.leaveFlush
    split <;> simp [RunPC.hand, *]
  have hflush' : (e.leaveFlush byRun).flush = none := rfl
  simp [inHand, hrun, hflush, hflush', hhand]

theorem Custody.leaveFlush (h : e.Custody) {byRun : Bool} {pc : FlushPC}
    (hflush : e.flush = some ⟨byRun, pc⟩) (hhand : pc.hand = []) :
    (e.leaveFlush byRun).Custody := by
  refine ⟨fun x => ?_, h.droppedSpans, h.exportedSpans, ?_⟩
  · rw [leaveFlush_inHand hflush hhand]
    exact h.count x
  · exact fun _ _ hnone => absurd hnone (by simp [OTLPHTTPExporter.leaveFlush])

theorem Custody.flushing (h : e.Custody) {f : Flush} (hflush : e.flush = some f)
    (err : Option String) : (e.flushing f err).Custody := by
  obtain ⟨byRun, pc⟩ := f
  cases pc with
  | drain =>
    cases hqueue : e.queue with
    | nil =>
      simp only [OTLPHTTPExporter.flushing, hqueue]
      refine ⟨fun x => ?_, h.droppedSpans, h.exportedSpans, by simp⟩
      simpa [inHand, hflush, FlushPC.hand, hqueue] using h.count x
    | cons span rest =>
      simp only [OTLPHTTPExporter.flushing, hqueue]
      refine ⟨fun x => ?_, h.droppedSpans, h.exportedSpans, by simp⟩
      have hcount := h.count x
      simp only [inHand, hflush, hqueue, Option.elim_some, FlushPC.hand, List.count_append,
        List.count_cons, List.count_nil] at hcount ⊢
      omega
  | add span =>
    simp only [OTLPHTTPExporter.flushing, addPending]
    refine ⟨fun x => ?_, h.droppedSpans, h.exportedSpans, by simp⟩
    have hcount := h.count x
    simp only [inHand, hflush, Option.elim_some, FlushPC.hand, List.count_append,
      List.count_cons, List.count_nil] at hcount ⊢
    omega
  | copy =>
    simp only [OTLPHTTPExporter.flushing]
    split_ifs with hempty
    · exact h.leaveFlush hflush rfl
    · refine ⟨fun x => ?_, h.droppedSpans, h.exportedSpans, fun byRun' batch heq => ?_⟩
      · simpa [inHand, hflush, FlushPC.hand] using h.count x
      · obtain ⟨-, hpc⟩ := Flush.mk.inj (Option.some.inj heq)
        rw [← FlushPC.post.inj hpc]
  | post batch =>
    have hprefix := h.posting byRun batch hflush
    cases err with
    | some err =>
      have hfailed : Custody { e with failedExports := e.failedExports + 1, lastError := err } :=
        ⟨h.count, h.droppedSpans, h.exportedSpans, h.posting⟩
      exact hfailed.leaveFlush hflush rfl
    | none =>
      obtain ⟨rest, hrest⟩ := hprefix
      have hposted : Custody { e with
          pending := e.pending.drop batch.length
          exportedSpans := e.exportedSpans + batch.length
          exported := e.exported ++ batch
          lastError := ""
          flush := some ⟨byRun, .copy⟩ } := by
        refine ⟨fun x => ?_, h.droppedSpans, ?_, by simp⟩
        · have hcount := h.count x
          simp only [inHand, hflush, ← hrest, List.drop_left, Option.elim_some, FlushPC.hand,
            List.count_append, List.count_nil] at hcount ⊢
          omega
        · simp only [List.length_append, h.exportedSpans]
      exact hposted.leaveFlush rfl rfl

theorem Custody.runStep (h : e.Custody) {case : SelectCase} (hstep : e.runStep case = some e') :
    e'.Custody := by
  unfold OTLPHTTPExporter.runStep at hstep
  cases hrun : e.run with
  | select =>
    simp only [hrun] at hstep
    cases case with
    | queue =>
      cases hqueue : e.queue with
      | nil => simp [hqueue] at hstep
      | cons span rest =>
        simp only [hqueue] at hstep
        obtain rfl := Option.some.inj hstep
        refine ⟨fun x => ?_, h.droppedSpans, h.exportedSpans, h.posting⟩
        have hcount := h.count x
        simp only [inHand, hrun, hqueue, RunPC.hand, List.count_append, List.count_cons,
          List.count_nil] at hcount ⊢
        omega
    | ticker =>
      simp only at hstep
      split_ifs at hstep
      obtain rfl := Option.some.inj hstep
      refine ⟨fun x => ?_, h.droppedSpans, h.exportedSpans, h.posting⟩
      simpa [inHand, hrun, RunPC.hand] using h.count x
    | done =>
      simp only at hstep
      split_ifs at hstep
      obtain rfl := Option.some.inj hstep
      refine ⟨fun x => ?_, h.droppedSpans, h.exportedSpans, h.posting⟩
      simpa [inHand, hrun, RunPC.hand] using h.count x
  | add span =>
    simp only [hrun, addPending] at hstep
    obtain rfl := Option.some.inj hstep
    refine ⟨fun x => ?_, h.droppedSpans, h.exportedSpans, fun byRun batch hflush => ?_⟩
    · have hcount := h.count x
      have hhand : e.run.hand = [span] := by rw [hrun]; rfl
      simp only [inHand, hhand, hand_next, List.count_append, List.count_cons,
        List.count_nil] at hcount ⊢
      omega
    · exact (h.posting byRun batch hflush).trans (List.prefix_append _ _)
  | flush last =>
    simp only [hrun] at hstep
    split_ifs at hstep with hfree
    obtain rfl := Option.some.inj hstep
    refine ⟨fun x => ?_, h.droppedSpans, h.exportedSpans, by simp⟩
    simpa [inHand, hrun, hfree, FlushPC.hand] using h.count x
  | drain =>
    simp only [hrun] at hstep
    cases hqueue : e.queue with
    | nil =>
      simp only [hqueue] at hstep
      obtain rfl := Option.some.inj hstep
      refine ⟨fun x => ?_, h.droppedSpans, h.exportedSpans, h.posting⟩
      simpa [inHand, hrun, hqueue, RunPC.hand] using h.count x
    | cons span rest =>
      simp only [hqueue] at hstep
      obtain rfl := Option.some.inj hstep
      refine ⟨fun x => ?_, h.droppedSpans, h.exportedSpans, h.posting⟩
      have hcount := h.count x
      simp only [inHand, hrun, hqueue, RunPC.hand, List.count_append, List.count_cons,
        List.count_nil] at hcount ⊢
      omega
  | drainAdd span =>
    simp only [hrun, addPending] at hstep
    obtain rfl := Option.some.inj hstep
    refine ⟨fun x => ?_, h.droppedSpans, h.exportedSpans, fun byRun batch hflush => ?_⟩
    · have hcount := h.count x
      simp only [inHand, hrun, RunPC.hand, List.count_append, List.count_cons,
        List.count_nil] at hcount ⊢
      omega
    · exact (h.posting byRun batch hflush).trans (List.prefix_append _ _)
  | returned => simp [hrun] at hstep

theorem Custody.step (h : e.Custody) {a : Action} (hstep : step e a = some e') : e'.Custody := by
  cases a with
  | exportSpan span =>
    obtain rfl := Option.some.inj hstep
    exact h.exportSpan span
  | drop span => exact h.drop hstep
  | flush =>
    simp only [Otlp.step] at hstep
    split_ifs at hstep with hfree
    obtain rfl := Option.some.inj hstep
    refine ⟨fun x => ?_, h.droppedSpans, h.exportedSpans, by simp⟩
    simpa [inHand, hfree, FlushPC.hand] using h.count x
  | flushing err =>
    simp only [Otlp.step] at hstep
    cases hflush : e.flush with
    | none => simp [hflush] at hstep
    | some f =>
      simp only [hflush] at hstep
      obtain rfl := Option.some.inj hstep
      exact h.flushing hflush err
  | tick =>
    obtain rfl := Option.some.inj hstep
    exact ⟨h.count, h.droppedSpans, h.exportedSpans, h.posting⟩
  | close =>
    obtain rfl := Option.some.inj hstep
    exact ⟨h.count, h.droppedSpans, h.exportedSpans, h.posting⟩
  | run case => exact h.runStep hstep

theorem flushing_drops (e : OTLPHTTPExporter) (f : Flush) (err : Option String) :
    (e.flushing f err).refused = e.refused ∧ (e.flushing f err).droppedSpans = e.droppedSpans := by
  unfold OTLPHTTPExporter.flushing
  split
  · split <;> exact ⟨rfl, rfl⟩
  · exact ⟨rfl, rfl⟩
  · split_ifs <;> exact ⟨rfl, rfl⟩
  · split <;> exact ⟨rfl, rfl⟩

theorem runStep_drops {case : SelectCase} (h : e.runStep case = some e') :
    e'.refused = e.refused ∧ e'.droppedSpans = e.droppedSpans := by
  unfold OTLPHTTPExporter.runStep at h
  split at h
  · split at h
    · split at h
      · obtain rfl := Option.some.inj h
        exact ⟨rfl, rfl⟩
      · exact absurd h (by simp)
    all_goals
      split_ifs at h
      obtain rfl := Option.some.inj h
      exact ⟨rfl, rfl⟩
  · obtain rfl := Option.some.inj h
    exact ⟨rfl, rfl⟩
  · split_ifs at h
    obtain rfl := Option.some.inj h
    exact ⟨rfl, rfl⟩
  · split at h <;> (obtain rfl := Option.some.inj h; exact ⟨rfl, rfl⟩)
  · obtain rfl := Option.some.inj h
    exact ⟨rfl, rfl⟩
  · exact absurd h (by simp)

/-- Only `ExportSpan` drops spans, and only those it found no room for. -/
theorem step_drops {a : Action} (h : step e a = some e') :
    (∀ span ∈ e'.refused, span ∈ e.refused ∨
      (a = .exportSpan span ∧ e.queueSize ≤ e.queue.length)) ∧
    (e'.droppedSpans = e.droppedSpans ∨
      ∃ span ∈ e.refused, a = .drop span ∧ e'.droppedSpans = e.droppedSpans + 1) := by
  have hsame : e'.refused = e.refused ∧ e'.droppedSpans = e.droppedSpans →
      (∀ span ∈ e'.refused, span ∈ e.refused ∨
        (a = .exportSpan span ∧ e.queueSize ≤ e.queue.length)) ∧
      (e'.droppedSpans = e.droppedSpans ∨
        ∃ span ∈ e.refused, a = .drop span ∧ e'.droppedSpans = e.droppedSpans + 1) := by
    rintro ⟨hrefused, hdropped⟩
    exact ⟨fun span hmem => Or.inl (hrefused ▸ hmem), Or.inl hdropped⟩
  cases a with
  | exportSpan span =>
    obtain rfl := Option.some.inj h
    unfold OTLPHTTPExporter.exportSpan
    split_ifs with hroom
    · exact ⟨fun span hmem => Or.inl hmem, Or.inl rfl⟩
    · refine ⟨fun other hmem => ?_, Or.inl rfl⟩
      obtain hmem | hmem := List.mem_append.mp hmem
      · exact Or.inl hmem
      · rw [List.mem_singleton.mp hmem]
        exact Or.inr ⟨rfl, Nat.not_lt.mp hroom⟩
  | drop span =>
    simp only [Otlp.step, OTLPHTTPExporter.drop] at h
    split_ifs at h with hmem
    obtain rfl := Option.some.inj h
    exact ⟨fun other hother => Or.inl (List.mem_of_mem_erase hother),
      Or.inr ⟨span, hmem, rfl, rfl⟩⟩
  | flush =>
    simp only [Otlp.step] at h
    split_ifs at h
    obtain rfl := Option.some.inj h
    exact hsame ⟨rfl, rfl⟩
  | flushing err =>
    simp only [Otlp.step] at h
    split at h
    · obtain rfl := Option.some.inj h
      exact hsame (flushing_drops e _ err)
    · exact absurd h (by simp)
  | tick =>
    obtain rfl := Option.some.inj h
    exact hsame ⟨rfl, rfl⟩
  | close =>
    obtain rfl := Option.some.inj h
    exact hsame ⟨rfl, rfl⟩
  | run case => exact hsame (runStep_drops h)

end OTLPHTTPExporter

theorem newOTLPHTTPExporter_custody (config : OTLPHTTPExporterConfig) :
    (newOTLPHTTPExporter config).Custody :=
  ⟨by simp [newOTLPHTTPExporter, OTLPHTTPExporter.inHand, RunPC.hand], rfl, rfl,
    by simp [newOTLPHTTPExporter]⟩

theorem run_custody {config : OTLPHTTPExporterConfig} {actions : List Action}
    {e : OTLPHTTPExporter} (h : run step (newOTLPHTTPExporter config) actions = some e) :
    e.Custody := by
  exact run_invariant (motive := OTLPHTTPExporter.Custody) h (newOTLPHTTPExporter_custody config)
    fun e a e' hc => hc.step

theorem OTLPHTTPExporter.Custody.perm {e : OTLPHTTPExporter} (h : e.Custody) :
    e.handed.Perm (e.dropped ++ e.queue ++ e.inHand ++ e.pending ++ e.exported) := by
  refine List.perm_iff_count.mpr fun span => ?_
  simp only [List.count_append]
  exact h.count span

theorem OTLPHTTPExporter.Custody.length {e : OTLPHTTPExporter} (h : e.Custody) :
    e.handed.length = e.droppedSpans + e.queue.length + e.inHand.length + e.pending.length +
      e.exportedSpans := by
  rw [h.perm.length_eq, h.droppedSpans, h.exportedSpans]
  simp only [List.length_append]

/-- In every state of every run each span handed to the exporter is in one place: dropped, queued,
in the hand of a goroutine, pending or exported. What a `Flush` has copied stays at the front of
`pending` until its answer arrives, a failure leaves `pending` as it is, a success takes exactly
the copied spans off it, and no span is dropped for which the queue had room. -/
theorem exporter_conserves (config : OTLPHTTPExporterConfig) (actions : List Action)
    (e : OTLPHTTPExporter) (h : run step (newOTLPHTTPExporter config) actions = some e) :
    e.handed.Perm (e.dropped ++ e.queue ++ e.inHand ++ e.pending ++ e.exported) ∧
    e.droppedSpans = e.dropped.length ∧ e.exportedSpans = e.exported.length ∧
    e.handed.length = e.droppedSpans + e.queue.length + e.inHand.length + e.pending.length +
      e.exportedSpans ∧
    (∀ byRun batch, e.flush = some ⟨byRun, .post batch⟩ → ∃ appended,
      e.pending = batch ++ appended ∧
      (∀ err e', step e (.flushing (some err)) = some e' →
        e'.pending = batch ++ appended ∧ e'.exported = e.exported) ∧
      (∀ e', step e (.flushing none) = some e' →
        e'.pending = appended ∧ e'.exported = e.exported ++ batch)) ∧
    (∀ a e', step e a = some e' →
      (∀ span ∈ e'.refused, span ∈ e.refused ∨
        (a = .exportSpan span ∧ e.queueSize ≤ e.queue.length)) ∧
      (e'.droppedSpans = e.droppedSpans ∨
        ∃ span ∈ e.refused, a = .drop span ∧ e'.droppedSpans = e.droppedSpans + 1)) := by
  have hcustody := run_custody h
  refine ⟨hcustody.perm, hcustody.droppedSpans, hcustody.exportedSpans, hcustody.length,
    fun byRun batch hflush => ?_, fun a e' hstep => OTLPHTTPExporter.step_drops hstep⟩
  obtain ⟨appended, hpending⟩ := hcustody.posting byRun batch hflush
  refine ⟨appended, hpending.symm, fun err e' hstep => ?_, fun e' hstep => ?_⟩
  · simp only [step, hflush] at hstep
    obtain rfl := Option.some.inj hstep
    exact ⟨hpending.symm, rfl⟩
  · simp only [step, hflush] at hstep
    obtain rfl := Option.some.inj hstep
    refine ⟨?_, rfl⟩
    change e.pending.drop batch.length = appended
    rw [← hpending, List.drop_left]

/-- A span arrives while the first one is being posted, and stays when that has succeeded. -/
theorem exporter_appendsDuringPost :
    let span : Nat → TraceSpan := fun n => ⟨"trace", toString n, "", "http.predict", "ok"⟩
    ∃ e, run step (newOTLPHTTPExporter { maxBatchSize := 8, queueSize := 2 })
        [.exportSpan (span 0), .flush, .flushing none, .flushing none, .flushing none,
          .flushing none, .exportSpan (span 1), .run .queue, .run .queue, .flushing none] = some e ∧
      e.handed.length = e.droppedSpans + e.queue.length + e.inHand.length + e.pending.length +
        e.exportedSpans := by
  intro span
  obtain ⟨e, he⟩ := Option.isSome_iff_exists.mp
    (show (run step (newOTLPHTTPExporter { maxBatchSize := 8, queueSize := 2 })
      [.exportSpan (span 0), .flush, .flushing none, .flushing none, .flushing none,
        .flushing none, .exportSpan (span 1), .run .queue, .run .queue, .flushing none]).isSome
        = true
      by decide +kernel)
  exact ⟨e, he, (exporter_conserves _ _ e he).2.2.2.1⟩

end Laminar.Otlp
