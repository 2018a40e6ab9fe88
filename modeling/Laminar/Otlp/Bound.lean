import Laminar.Otlp.Conservation

/-! How many spans the exporter holds. The queue is bounded, `pending` is not: it grows with every
span that a goroutine takes from the queue before a post succeeds. -/
namespace Laminar.Otlp
open Laminar.Gateway (TraceSpan)
open Laminar.Transition

namespace OTLPHTTPExporter

def buffered (e : OTLPHTTPExporter) : Nat := e.pending.length + e.inHand.length

def held (e : OTLPHTTPExporter) : Nat := e.queue.length + e.buffered

def Takes (e : OTLPHTTPExporter) : Action → Prop
  | .run case => e.queue ≠ [] ∧ (e.run = .drain ∨ (e.run = .select ∧ case = .queue))
  | .flushing _ => e.queue ≠ [] ∧ ∃ byRun, e.flush = some ⟨byRun, .drain⟩
  | _ => False

/-- No span is taken from the queue while more than a batch has already left it. -/
def TakesWithRoom (e : OTLPHTTPExporter) (a : Action) : Prop :=
  e.Takes a → (e.buffered : Int) ≤ e.maxBatchSize

structure Loads (e : OTLPHTTPExporter) (a : Action) (e' : OTLPHTTPExporter) : Prop where
  maxBatchSize : e'.maxBatchSize = e.maxBatchSize
  queueSize : e'.queueSize = e.queueSize
  queue : e.queue.length ≤ e.queueSize → e'.queue.length ≤ e'.queueSize
  takes : e.Takes a → e'.buffered = e.buffered + 1
  keeps : ¬ e.Takes a → e'.buffered ≤ e.buffered

variable {e e' : OTLPHTTPExporter}

theorem Loads.of_keep {a : Action} (hmax : e'.maxBatchSize = e.maxBatchSize)
    (hsize : e'.queueSize = e.queueSize) (hqueue : e'.queue = e.queue)
    (hnot : ¬ e.Takes a) (hkeeps : e'.buffered ≤ e.buffered) : e.Loads a e' :=
  ⟨hmax, hsize, fun h => by rw [hqueue, hsize]; exact h, fun h => absurd h hnot, fun _ => hkeeps⟩

theorem Loads.of_take {a : Action} {span : TraceSpan} {rest : List TraceSpan}
    (hmax : e'.maxBatchSize = e.maxBatchSize) (hsize : e'.queueSize = e.queueSize)
    (hqueue : e.queue = span :: rest) (hrest : e'.queue = rest) (htakes : e.Takes a)
    (hmore : e'.buffered = e.buffered + 1) : e.Loads a e' := by
  refine ⟨hmax, hsize, fun h => ?_, fun _ => hmore, fun h => absurd htakes h⟩
  rw [hqueue, List.length_cons] at h
  rw [hrest, hsize]
  omega

theorem leaveFlush_buffered {byRun : Bool} {pc : FlushPC} (hflush : e.flush = some ⟨byRun, pc⟩)
    (hhand : pc.hand = []) : (e.leaveFlush byRun).buffered = e.buffered := by
  unfold buffered
  rw [leaveFlush_inHand hflush hhand]
  rfl

theorem exportSpan_loads (e : OTLPHTTPExporter) (span : TraceSpan) :
    e.Loads (.exportSpan span) (e.exportSpan span) := by
  unfold OTLPHTTPExporter.exportSpan
  split_ifs with hroom
  · refine ⟨rfl, rfl, fun _ => ?_, fun h => h.elim, fun _ => Nat.le_refl _⟩
    rw [List.length_append, List.length_singleton]
    exact hroom
  · exact .of_keep rfl rfl rfl id (Nat.le_refl _)

theorem flushing_loads {f : Flush} (hflush : e.flush = some f) (err : Option String) :
    e.Loads (.flushing err) (e.flushing f err) := by
  obtain ⟨byRun, pc⟩ := f
  cases pc with
  | drain =>
    cases hqueue : e.queue with
    | nil =>
      simp only [OTLPHTTPExporter.flushing, hqueue]
      refine .of_keep rfl rfl hqueue.symm (by simp [Takes, hqueue]) ?_
      simp [buffered, inHand, hflush, FlushPC.hand]
    | cons span rest =>
      simp only [OTLPHTTPExporter.flushing, hqueue]
      refine .of_take rfl rfl hqueue rfl ⟨by simp [hqueue], byRun, hflush⟩ ?_
      simp [buffered, inHand, hflush, FlushPC.hand, Nat.add_assoc]
  | add span =>
    simp only [OTLPHTTPExporter.flushing, addPending]
    refine .of_keep rfl rfl rfl (by simp [Takes, hflush]) ?_
    simp only [buffered, inHand, hflush, FlushPC.hand, Option.elim_some, List.length_append,
      List.length_singleton, List.length_nil]
    omega
  | copy =>
    have hnot : ¬ e.Takes (.flushing err) := by simp [Takes, hflush]
    simp only [OTLPHTTPExporter.flushing]
    split_ifs
    · exact .of_keep rfl rfl rfl hnot (leaveFlush_buffered hflush rfl).le
    · refine .of_keep rfl rfl rfl hnot ?_
      simp [buffered, inHand, hflush, FlushPC.hand]
  | post batch =>
    have hnot : ¬ e.Takes (.flushing err) := by simp [Takes, hflush]
    cases err with
    | some err =>
      refine .of_keep rfl rfl rfl hnot ?_
      exact (leaveFlush_buffered (e := { e with
        failedExports := e.failedExports + 1, lastError := err }) hflush rfl).le
    | none =>
      refine .of_keep rfl rfl rfl hnot ?_
      refine (leaveFlush_buffered (e := { e with
        pending := e.pending.drop batch.length
        exportedSpans := e.exportedSpans + batch.length
        exported := e.exported ++ batch
        lastError := "" }) hflush rfl).le.trans ?_
      simp only [buffered, inHand, List.length_drop]
      omega

theorem runStep_loads {case : SelectCase} (h : e.runStep case = some e') :
    e.Loads (.run case) e' := by
  unfold OTLPHTTPExporter.runStep at h
  cases hrun : e.run with
  | select =>
    simp only [hrun] at h
    cases case with
    | queue =>
      cases hqueue : e.queue with
      | nil => simp [hqueue] at h
      | cons span rest =>
        simp only [hqueue] at h
        obtain rfl := Option.some.inj h
        refine .of_take rfl rfl hqueue rfl ⟨by simp [hqueue], Or.inr ⟨hrun, rfl⟩⟩ ?_
        simp only [buffered, inHand, hrun, RunPC.hand, List.length_append, List.length_singleton,
          List.length_nil]
        omega
    | ticker =>
      simp only at h
      split_ifs at h
      obtain rfl := Option.some.inj h
      exact .of_keep rfl rfl rfl (by simp [Takes, hrun])
        (by simp [buffered, inHand, hrun, RunPC.hand])
    | done =>
      simp only at h
      split_ifs at h
      obtain rfl := Option.some.inj h
      exact .of_keep rfl rfl rfl (by simp [Takes, hrun])
        (by simp [buffered, inHand, hrun, RunPC.hand])
  | add span =>
    simp only [hrun, addPending] at h
    obtain rfl := Option.some.inj h
    refine .of_keep rfl rfl rfl (by simp [Takes, hrun]) ?_
    have hhand : e.run.hand = [span] := by rw [hrun]; rfl
    simp only [buffered, inHand, hhand, hand_next, List.length_append, List.length_singleton,
      List.length_nil]
    omega
  | flush last =>
    simp only [hrun] at h
    split_ifs at h with hfree
    obtain rfl := Option.some.inj h
    refine .of_keep rfl rfl rfl (by simp [Takes, hrun]) ?_
    simp [buffered, inHand, hrun, hfree, FlushPC.hand]
  | drain =>
    simp only [hrun] at h
    cases hqueue : e.queue with
    | nil =>
      simp only [hqueue] at h
      obtain rfl := Option.some.inj h
      refine .of_keep rfl rfl hqueue.symm (by simp [Takes, hqueue]) ?_
      simp [buffered, inHand, hrun, RunPC.hand]
    | cons span rest =>
      simp only [hqueue] at h
      obtain rfl := Option.some.inj h
      refine .of_take rfl rfl hqueue rfl ⟨by simp [hqueue], Or.inl hrun⟩ ?_
      simp only [buffered, inHand, hrun, RunPC.hand, List.length_append, List.length_singleton,
        List.length_nil]
      omega
  | drainAdd span =>
    simp only [hrun, addPending] at h
    obtain rfl := Option.some.inj h
    refine .of_keep rfl rfl rfl (by simp [Takes, hrun]) ?_
    simp only [buffered, inHand, hrun, RunPC.hand, List.length_append, List.length_singleton,
      List.length_nil]
    omega
  | returned => simp [hrun] at h

theorem step_loads {a : Action} (h : step e a = some e') : e.Loads a e' := by
  cases a with
  | exportSpan span =>
    obtain rfl := Option.some.inj h
    exact exportSpan_loads e span
  | drop span =>
    simp only [step, OTLPHTTPExporter.drop] at h
    split_ifs at h
    obtain rfl := Option.some.inj h
    exact .of_keep rfl rfl rfl id (Nat.le_refl _)
  | flush =>
    simp only [step] at h
    split_ifs at h with hfree
    obtain rfl := Option.some.inj h
    refine .of_keep rfl rfl rfl id ?_
    simp [buffered, inHand, hfree, FlushPC.hand]
  | flushing err =>
    simp only [step] at h
    cases hflush : e.flush with
    | none => simp [hflush] at h
    | some f =>
      simp only [hflush] at h
      obtain rfl := Option.some.inj h
      exact flushing_loads hflush err
  | tick =>
    obtain rfl := Option.some.inj h
    exact .of_keep rfl rfl rfl id (Nat.le_refl _)
  | close =>
    obtain rfl := Option.some.inj h
    exact .of_keep rfl rfl rfl id (Nat.le_refl _)
  | run case => exact runStep_loads h

theorem Takes.enabled {a : Action} (h : e.Takes a) : ∃ e', step e a = some e' := by
  cases a with
  | run case =>
    obtain ⟨hqueue, hrun | ⟨hrun, rfl⟩⟩ := h
    · simp only [step, runStep, hrun]
      split <;> exact ⟨_, rfl⟩
    · obtain ⟨span, rest, hqueue⟩ := List.exists_cons_of_ne_nil hqueue
      simp only [step, runStep, hrun, hqueue]
      exact ⟨_, rfl⟩
  | flushing err =>
    obtain ⟨-, byRun, hflush⟩ := h
    simp only [step, hflush]
    exact ⟨_, rfl⟩
  | _ => exact h.elim

end OTLPHTTPExporter

structure OTLPHTTPExporter.Bounded (config : OTLPHTTPExporterConfig) (e : OTLPHTTPExporter) :
    Prop where
  maxBatchSize : e.maxBatchSize = (normalizeOTLPExporterConfig config).maxBatchSize
  queueSize : e.queueSize = (normalizeOTLPExporterConfig config).queueSize.toNat
  queue : e.queue.length ≤ e.queueSize
  buffered : (e.buffered : Int) ≤ e.maxBatchSize + 1

def bufferLimit (config : OTLPHTTPExporterConfig) : Int :=
  (normalizeOTLPExporterConfig config).queueSize +
    (normalizeOTLPExporterConfig config).maxBatchSize + 1

theorem normalizeOTLPExporterConfig_pos (config : OTLPHTTPExporterConfig) :
    0 < (normalizeOTLPExporterConfig config).maxBatchSize ∧
      0 < (normalizeOTLPExporterConfig config).queueSize := by
  simp only [normalizeOTLPExporterConfig]
  constructor <;> split_ifs <;> omega

variable {config : OTLPHTTPExporterConfig} {e e' : OTLPHTTPExporter}

theorem OTLPHTTPExporter.Bounded.held (h : e.Bounded config) :
    (e.held : Int) ≤ bufferLimit config := by
  obtain ⟨hmax, hsize, hqueue, hbuffered⟩ := h
  have hpos := (normalizeOTLPExporterConfig_pos config).2
  unfold OTLPHTTPExporter.held bufferLimit
  omega

theorem OTLPHTTPExporter.Bounded.step (h : e.Bounded config) {a : Action}
    (hroom : e.TakesWithRoom a) (hstep : Otlp.step e a = some e') : e'.Bounded config := by
  have hloads := step_loads hstep
  refine ⟨hloads.maxBatchSize.trans h.maxBatchSize, hloads.queueSize.trans h.queueSize,
    hloads.queue h.queue, ?_⟩
  rw [hloads.maxBatchSize]
  by_cases htakes : e.Takes a
  · have hmore := hloads.takes htakes
    have hle := hroom htakes
    omega
  · have hless := hloads.keeps htakes
    have hle := h.buffered
    omega

theorem newOTLPHTTPExporter_bounded (config : OTLPHTTPExporterConfig) :
    (newOTLPHTTPExporter config).Bounded config := by
  have hpos := (normalizeOTLPExporterConfig_pos config).1
  refine ⟨rfl, rfl, Nat.zero_le _, ?_⟩
  simp only [newOTLPHTTPExporter, OTLPHTTPExporter.buffered, OTLPHTTPExporter.inHand, RunPC.hand,
    Option.elim_none, List.append_nil, List.length_nil]
  omega

theorem run_exportSpans (spans : List TraceSpan)
    (hroom : e.queue.length + spans.length ≤ e.queueSize) :
    ∃ e', run step e (spans.map .exportSpan) = some e' ∧
      e'.held = e.held + spans.length := by
  induction spans generalizing e with
  | nil => exact ⟨e, rfl, rfl⟩
  | cons span rest ih =>
    rw [List.length_cons] at hroom
    have hstep : e.exportSpan span =
        { e with queue := e.queue ++ [span], handed := e.handed ++ [span] } := by
      unfold OTLPHTTPExporter.exportSpan
      rw [if_pos (by omega)]
    have hlonger : (e.exportSpan span).queue.length = e.queue.length + 1 := by
      rw [hstep, List.length_append, List.length_singleton]
    have hsame : (e.exportSpan span).buffered = e.buffered := by rw [hstep]; rfl
    have hsize : (e.exportSpan span).queueSize = e.queueSize := by rw [hstep]
    obtain ⟨e', hrun, hheld⟩ := ih (e := e.exportSpan span) (by omega)
    refine ⟨e', run_cons.mpr ⟨_, rfl, hrun⟩, ?_⟩
    rw [hheld, List.length_cons]
    unfold OTLPHTTPExporter.held
    omega

theorem run_queue {actions : List Action}
    (h : run step (newOTLPHTTPExporter config) actions = some e) :
    e.maxBatchSize = (normalizeOTLPExporterConfig config).maxBatchSize ∧
      e.queueSize = (normalizeOTLPExporterConfig config).queueSize.toNat ∧
      e.queue.length ≤ e.queueSize := by
  refine run_invariant (motive := fun e : OTLPHTTPExporter =>
    e.maxBatchSize = (normalizeOTLPExporterConfig config).maxBatchSize ∧
      e.queueSize = (normalizeOTLPExporterConfig config).queueSize.toNat ∧
      e.queue.length ≤ e.queueSize) h ⟨rfl, rfl, Nat.zero_le _⟩ ?_
  rintro e a e' ⟨hmax, hsize, hqueue⟩ hstep
  have hloads := OTLPHTTPExporter.step_loads hstep
  exact ⟨hloads.maxBatchSize.trans hmax, hloads.queueSize.trans hsize, hloads.queue hqueue⟩

/-- The exporter keeps within its limit all along a run, however many more spans are handed to it
at any point, exactly when no goroutine takes a span from the queue on the way while more than a
batch has left the queue and is not exported. -/
theorem exporter_bounded_iff (config : OTLPHTTPExporterConfig) (actions : List Action) :
    (∀ first second e, actions = first ++ second →
      run step (newOTLPHTTPExporter config) first = some e →
      ∀ (spans : List TraceSpan) e', run step e (spans.map .exportSpan) = some e' →
        (e'.held : Int) ≤ bufferLimit config) ↔
    Along step OTLPHTTPExporter.TakesWithRoom (newOTLPHTTPExporter config) actions := by
  constructor
  · intro hheld
    refine along_of_prefixes fun first a second e hactions hrun htakes => ?_
    by_contra hfull
    obtain ⟨e', hstep⟩ := htakes.enabled
    have hmore := (OTLPHTTPExporter.step_loads hstep).takes htakes
    have hrun' : run step (newOTLPHTTPExporter config) (first ++ [a]) = some e' :=
      (run_append first [a]).mpr ⟨e, hrun, run_cons.mpr ⟨e', hstep, rfl⟩⟩
    obtain ⟨hmax, hsize, hqueue⟩ := run_queue hrun'
    have hmax' := (OTLPHTTPExporter.step_loads hstep).maxBatchSize
    -- the queue can be filled again behind what has left it
    obtain ⟨e'', hexports, hfilled⟩ := run_exportSpans (e := e')
      (List.replicate (e'.queueSize - e'.queue.length) ⟨"", "", "", "", ""⟩)
      (by rw [List.length_replicate]; omega)
    have hle := hheld (first ++ [a]) second e' (by simp [hactions]) hrun' _ e'' hexports
    have hpos := (normalizeOTLPExporterConfig_pos config).2
    rw [hfilled, List.length_replicate] at hle
    unfold OTLPHTTPExporter.held bufferLimit at hle
    omega
  · rintro halong first second e rfl hrun spans e' hexports
    have hbounded := run_along (motive := OTLPHTTPExporter.Bounded config) hrun
      (along_append halong) (newOTLPHTTPExporter_bounded config)
      fun e a e' hroom hb hstep => hb.step hroom hstep
    have hexport : ∀ a ∈ spans.map Action.exportSpan, ∃ span, a = .exportSpan span := by
      intro a ha
      obtain ⟨span, -, rfl⟩ := List.mem_map.mp ha
      exact ⟨span, rfl⟩
    have hlater : e'.Bounded config := by
      refine run_preserves hexports hexport hbounded ?_
      rintro e a e' ⟨span, rfl⟩ hb hstep
      exact hb.step (a := .exportSpan span) (fun h => h.elim) hstep
    exact hlater.held

/-- With room for one span in the queue and in a batch, four failed posts leave four spans. -/
theorem failingCollector_accumulates :
    let span : List Action := [.exportSpan ⟨"trace", "span", "", "http.predict", "ok"⟩,
      .run .queue, .run .queue, .run .queue]
    let failingPost : List Action := [.flushing none, .flushing none, .flushing (some "HTTP 500")]
    ∃ e, run step (newOTLPHTTPExporter { maxBatchSize := 1, queueSize := 1 })
        (List.replicate 4 (span ++ failingPost)).flatten = some e ∧
      e.droppedSpans = 0 ∧
      ¬ (e.held : Int) ≤ bufferLimit { maxBatchSize := 1, queueSize := 1 } := by
  intro span failingPost
  refine ⟨_, rfl, ?_⟩
  decide

end Laminar.Otlp
