import Laminar.Gateway.Trail
import Laminar.Library.ListUpdate
import Laminar.Library.Transition

/-! The span recorder of `tracing.go` under the goroutines that share it: `End` and `RecordSpan` cut
at their locks, and the calls of the exporters after the unlock. -/
namespace Laminar.Gateway
open Transition

/-- Where a goroutine is in `RecordSpan`: before its lock, or with exporters still to call. -/
inductive RecordTask where
  | locking (serial : Option Nat) (span : TraceSpan)
  | exporting (span : TraceSpan) (exporters : List Nat)
deriving DecidableEq

/-- Exporters are told apart by the order in which they were added. -/
structure SharedRecorder where
  recorder : TraceRecorder
  exporters : Nat := 0
  tasks : List RecordTask := []
deriving DecidableEq

inductive RecorderAction where
  | addSpanExporter
  | endSpan (s : ActiveSpan) (status : String)
  | recordSpan (span : TraceSpan)
  | lock (task : Nat)
  | exportSpan (task : Nat)
deriving DecidableEq

namespace SharedRecorder

/-- One section under a lock, or one call of an exporter. -/
def step (s : SharedRecorder) : RecorderAction → Option SharedRecorder
  | .addSpanExporter => some { s with exporters := s.exporters + 1 }
  | .endSpan span status =>
    if span.serial ∈ s.recorder.ended then some s
    else some { s with
      recorder := { s.recorder with ended := span.serial :: s.recorder.ended }
      tasks := s.tasks ++ [.locking (some span.serial) (span.record status)] }
  | .recordSpan span => some { s with tasks := s.tasks ++ [.locking none span] }
  | .lock i =>
    match s.tasks[i]? with
    | some (.locking _ span) => some { s with
        recorder := s.recorder.recordSpan span
        tasks := s.tasks.set i (.exporting span (List.range s.exporters)) }
    | _ => none
  | .exportSpan i =>
    match s.tasks[i]? with
    | some (.exporting span (_ :: rest)) =>
      some { s with tasks := s.tasks.set i (.exporting span rest) }
    | _ => none

end SharedRecorder

/-- What happens at a step; entries from `End` carry the span object. -/
inductive RecorderEvent where
  | registered
  | endCalled (s : ActiveSpan) (status : String)
  | recordCalled (span : TraceSpan)
  | recorded (serial : Option Nat) (span : TraceSpan)
  | exported (exporter : Nat) (span : TraceSpan)
deriving DecidableEq

namespace SharedRecorder

def event (s : SharedRecorder) : RecorderAction → Option RecorderEvent
  | .addSpanExporter => some .registered
  | .endSpan span status => some (.endCalled span status)
  | .recordSpan span => some (.recordCalled span)
  | .lock i =>
    match s.tasks[i]? with
    | some (.locking serial span) => some (.recorded serial span)
    | _ => none
  | .exportSpan i =>
    match s.tasks[i]? with
    | some (.exporting span (exporter :: _)) => some (.exported exporter span)
    | _ => none

end SharedRecorder

/-- The calls that count: every `RecordSpan`, and the first `End` of each span object. -/
def enter (entries : List (Option Nat × TraceSpan)) : RecorderEvent → List (Option Nat × TraceSpan)
  | .endCalled s status =>
    if some s.serial ∈ entries.map Prod.fst then entries
    else entries ++ [(some s.serial, s.record status)]
  | .recordCalled span => entries ++ [(none, span)]
  | .registered | .recorded _ _ | .exported _ _ => entries

def entered (log : List RecorderEvent) : List (Option Nat × TraceSpan) := log.foldl enter []

def recordedEntry : RecorderEvent → Option (Option Nat × TraceSpan)
  | .recorded serial span => some (serial, span)
  | .registered | .endCalled _ _ | .recordCalled _ | .exported _ _ => none

def recorded (log : List RecorderEvent) : List (Option Nat × TraceSpan) :=
  log.filterMap recordedEntry

def exportedEntry (exporter : Nat) : RecorderEvent → Option TraceSpan
  | .exported e span => if e = exporter then some span else none
  | .registered | .endCalled _ _ | .recordCalled _ | .recorded _ _ => none

def exportedTo (exporter : Nat) (log : List RecorderEvent) : List TraceSpan :=
  log.filterMap (exportedEntry exporter)

/-- How many exporters there are, and what was recorded while the given one was among them. -/
def watch (exporter : Nat) (seen : Nat × List TraceSpan) : RecorderEvent → Nat × List TraceSpan
  | .registered => (seen.1 + 1, seen.2)
  | .recorded _ span => (seen.1, if exporter < seen.1 then seen.2 ++ [span] else seen.2)
  | .endCalled _ _ | .recordCalled _ | .exported _ _ => seen

def recordedSince (exporter : Nat) (log : List RecorderEvent) : List TraceSpan :=
  (log.foldl (watch exporter) (0, [])).2

def RecordTask.owed : RecordTask → List (Option Nat × TraceSpan)
  | .locking serial span => [(serial, span)]
  | .exporting _ _ => []

def RecordTask.owes (exporter : Nat) : RecordTask → List TraceSpan
  | .locking _ _ => []
  | .exporting span exporters => (exporters.filter (· = exporter)).map fun _ => span

def RecordTask.done : RecordTask → Prop
  | .locking _ _ => False
  | .exporting _ exporters => exporters = []

def lastSpans (capacity : Nat) (spans : List TraceSpan) : List TraceSpan :=
  spans.drop (spans.length - capacity)

theorem lastSpans_snoc (capacity : Nat) (spans : List TraceSpan) (span : TraceSpan) :
    lastSpans capacity (lastSpans capacity spans ++ [span]) =
      lastSpans capacity (spans ++ [span]) := by
  unfold lastSpans
  rcases Nat.lt_or_ge spans.length capacity with hlt | hge
  · have hnone : spans.length - capacity = 0 := by omega
    rw [hnone, List.drop_zero]
  · have hkeep : spans.drop (spans.length - capacity) ++ [span] =
        (spans ++ [span]).drop (spans.length - capacity) := by
      rw [List.drop_append_of_le_length (by omega)]
    rw [hkeep, List.drop_drop, List.length_drop, List.length_append, List.length_singleton]
    congr 1
    omega

namespace SharedRecorder

structure Faithful (capacity : Nat) (s : SharedRecorder) (log : List RecorderEvent) : Prop where
  room : s.recorder.capacity = capacity
  ring : s.recorder.spans = lastSpans capacity ((recorded log).map Prod.snd)
  ended : ∀ n, n ∈ s.recorder.ended ↔ some n ∈ (entered log).map Prod.fst
  once : ((entered log).filterMap Prod.fst).Nodup
  entries : (recorded log ++ s.tasks.flatMap RecordTask.owed).Perm (entered log)
  watched : ∀ e, (log.foldl (watch e) (0, [])).1 = s.exporters
  exports : ∀ e, (exportedTo e log ++ s.tasks.flatMap (RecordTask.owes e)).Perm
    (recordedSince e log)

end SharedRecorder

section
variable (log : List RecorderEvent) (event : RecorderEvent)

theorem entered_snoc : entered (log ++ [event]) = enter (entered log) event := by
  rw [entered, List.foldl_append]
  rfl

theorem recorded_snoc :
    recorded (log ++ [event]) = recorded log ++ (recordedEntry event).toList := by
  rw [recorded, List.filterMap_append]
  cases h : recordedEntry event <;> simp [recorded, h]

theorem exportedTo_snoc (e : Nat) :
    exportedTo e (log ++ [event]) = exportedTo e log ++ (exportedEntry e event).toList := by
  rw [exportedTo, List.filterMap_append]
  cases h : exportedEntry e event <;> simp [exportedTo, h]

theorem watch_snoc (e : Nat) :
    (log ++ [event]).foldl (watch e) (0, []) = watch e (log.foldl (watch e) (0, [])) event := by
  rw [List.foldl_append]
  rfl

end

theorem owes_range (e exporters : Nat) (span : TraceSpan) :
    RecordTask.owes e (.exporting span (List.range exporters)) =
      if e < exporters then [span] else [] := by
  have hfilter : (List.range exporters).filter (· = e) = if e < exporters then [e] else [] := by
    induction exporters with
    | zero => rfl
    | succ n ih =>
      rw [List.range_succ, List.filter_append, ih]
      rcases Nat.lt_trichotomy e n with hlt | rfl | hgt
      · simp [hlt, hlt.ne', Nat.lt_succ_of_lt hlt]
      · simp
      · simp [hgt.ne, Nat.not_lt.mpr hgt.le, Nat.not_lt.mpr hgt]
  rw [RecordTask.owes, hfilter]
  split_ifs <;> rfl

namespace SharedRecorder

/-- What a section or a call does: an exporter comes, a call of `End` changes nothing or starts a
recording, as any `RecordSpan` does, a span is recorded, or handed to an exporter. -/
inductive Step (s : SharedRecorder) : RecorderAction → RecorderEvent → SharedRecorder → Prop
  | added : Step s .addSpanExporter .registered { s with exporters := s.exporters + 1 }
  | again (span : ActiveSpan) (status : String) (h : span.serial ∈ s.recorder.ended) :
    Step s (.endSpan span status) (.endCalled span status) s
  | first (span : ActiveSpan) (status : String) (h : span.serial ∉ s.recorder.ended) :
    Step s (.endSpan span status) (.endCalled span status)
      { s with
        recorder := { s.recorder with ended := span.serial :: s.recorder.ended }
        tasks := s.tasks ++ [.locking (some span.serial) (span.record status)] }
  | called (span : TraceSpan) : Step s (.recordSpan span) (.recordCalled span)
      { s with tasks := s.tasks ++ [.locking none span] }
  | locked (i : Nat) (serial : Option Nat) (span : TraceSpan)
    (h : s.tasks[i]? = some (.locking serial span)) : Step s (.lock i) (.recorded serial span)
      { s with
        recorder := s.recorder.recordSpan span
        tasks := s.tasks.set i (.exporting span (List.range s.exporters)) }
  | handed (i : Nat) (span : TraceSpan) (exporter : Nat) (rest : List Nat)
    (h : s.tasks[i]? = some (.exporting span (exporter :: rest))) :
    Step s (.exportSpan i) (.exported exporter span)
      { s with tasks := s.tasks.set i (.exporting span rest) }

theorem step_cases {s t : SharedRecorder} {a : RecorderAction} (h : s.step a = some t) :
    ∃ event, s.event a = some event ∧ Step s a event t := by
  cases a with
  | addSpanExporter =>
    obtain rfl := Option.some.inj h
    exact ⟨_, rfl, .added⟩
  | endSpan span status =>
    simp only [step] at h
    split_ifs at h with hended
    · obtain rfl := Option.some.inj h
      exact ⟨_, rfl, .again span status hended⟩
    · obtain rfl := Option.some.inj h
      exact ⟨_, rfl, .first span status hended⟩
  | recordSpan span =>
    obtain rfl := Option.some.inj h
    exact ⟨_, rfl, .called span⟩
  | lock i =>
    cases htask : s.tasks[i]? with
    | none => simp [step, htask] at h
    | some task =>
      cases task with
      | locking serial span =>
        simp only [step, htask, Option.some.injEq] at h
        exact ⟨.recorded serial span, by simp [event, htask], h ▸ .locked i serial span htask⟩
      | exporting span exporters => simp [step, htask] at h
  | exportSpan i =>
    cases htask : s.tasks[i]? with
    | none => simp [step, htask] at h
    | some task =>
      cases task with
      | locking serial span => simp [step, htask] at h
      | exporting span exporters =>
        cases exporters with
        | nil => simp [step, htask] at h
        | cons exporter rest =>
          simp only [step, htask, Option.some.injEq] at h
          exact ⟨.exported exporter span, by simp [event, htask],
            h ▸ .handed i span exporter rest htask⟩

theorem Faithful.step {capacity : Nat} {s t : SharedRecorder} {a : RecorderAction}
    {log : List RecorderEvent} {event : RecorderEvent} (h : s.Faithful capacity log)
    (hstep : Step s a event t) : t.Faithful capacity (log ++ [event]) := by
  obtain ⟨hcapacity, hring, hended, honce, hentries, hwatched, hexports⟩ := h
  cases hstep with
  | added =>
    refine ⟨hcapacity, ?_, ?_, ?_, ?_, fun e => ?_, fun e => ?_⟩
    · simpa [recorded_snoc, recordedEntry] using hring
    · simpa [entered_snoc, enter] using hended
    · simpa [entered_snoc, enter] using honce
    · simpa [entered_snoc, enter, recorded_snoc, recordedEntry] using hentries
    · simp [watch, hwatched e]
    · simpa [exportedTo_snoc, exportedEntry, recordedSince, watch_snoc, watch] using hexports e
  | again span status hmem =>
    have hsame : entered (log ++ [.endCalled span status]) = entered log := by
      rw [entered_snoc, enter, if_pos ((hended _).mp hmem)]
    refine ⟨hcapacity, ?_, ?_, ?_, ?_, fun e => ?_, fun e => ?_⟩
    · simpa [recorded_snoc, recordedEntry] using hring
    · rwa [hsame]
    · rwa [hsame]
    · rw [hsame]
      simpa [recorded_snoc, recordedEntry] using hentries
    · simpa [watch_snoc, watch] using hwatched e
    · simpa [exportedTo_snoc, exportedEntry, recordedSince, watch_snoc, watch] using hexports e
  | first span status hmem =>
    have hnew : some span.serial ∉ (entered log).map Prod.fst := fun hmem' =>
      hmem ((hended _).mpr hmem')
    have hentered : entered (log ++ [.endCalled span status]) =
        entered log ++ [(some span.serial, span.record status)] := by
      rw [entered_snoc, enter, if_neg hnew]
    refine ⟨hcapacity, ?_, fun n => ?_, ?_, ?_, fun e => ?_, fun e => ?_⟩
    · simpa [recorded_snoc, recordedEntry] using hring
    · rw [hentered, List.map_append, List.mem_append, List.mem_cons, hended]
      simp [or_comm]
    · rw [hentered, List.filterMap_append]
      refine List.Nodup.append honce (by simp) ?_
      simpa [List.disjoint_singleton] using hnew
    · rw [hentered, recorded_snoc, List.flatMap_append, List.append_assoc]
      simpa [recordedEntry, RecordTask.owed] using hentries.append_right [_]
    · simpa [watch_snoc, watch] using hwatched e
    · simpa [exportedTo_snoc, exportedEntry, recordedSince, watch_snoc, watch, RecordTask.owes]
        using hexports e
  | called span =>
    have hentered : entered (log ++ [.recordCalled span]) = entered log ++ [(none, span)] := by
      rw [entered_snoc, enter]
    refine ⟨hcapacity, ?_, fun n => ?_, ?_, ?_, fun e => ?_, fun e => ?_⟩
    · simpa [recorded_snoc, recordedEntry] using hring
    · rw [hentered, hended]
      simp
    · rw [hentered]
      simpa using honce
    · rw [hentered, recorded_snoc, List.flatMap_append]
      simpa [recordedEntry, RecordTask.owed] using hentries.append_right [_]
    · simpa [watch_snoc, watch] using hwatched e
    · simpa [exportedTo_snoc, exportedEntry, recordedSince, watch_snoc, watch, RecordTask.owes]
        using hexports e
  | locked i serial span htask =>
    refine ⟨hcapacity, ?_, ?_, ?_, ?_, fun e => ?_, fun e => ?_⟩
    · rw [recorded_snoc, recordedEntry, Option.toList_some, List.map_append, List.map_singleton,
        ← lastSpans_snoc, ← hring, ← hcapacity]
      rfl
    · simpa [entered_snoc, enter, TraceRecorder.recordSpan] using hended
    · simpa [entered_snoc, enter] using honce
    · have howed := ListUpdate.flatMap_set_perm RecordTask.owed htask
        (.exporting span (List.range s.exporters))
      rw [entered_snoc, enter, recorded_snoc, List.append_assoc]
      exact (howed.append_left _).trans hentries
    · simpa [watch_snoc, watch] using hwatched e
    · have howes := ListUpdate.flatMap_set_perm (RecordTask.owes e) htask
        (.exporting span (List.range s.exporters))
      rw [owes_range] at howes
      have hsince : recordedSince e (log ++ [.recorded serial span]) =
          recordedSince e log ++ if e < s.exporters then [span] else [] := by
        rw [recordedSince, watch_snoc, watch, hwatched e]
        split_ifs <;> simp [recordedSince]
      rw [hsince, exportedTo_snoc, exportedEntry, Option.toList_none, List.append_nil]
      refine (howes.append_left _).trans ?_
      rw [← List.append_assoc]
      refine (List.perm_append_comm.append_right _).trans ?_
      rw [List.append_assoc]
      exact ((hexports e).append_left _).trans List.perm_append_comm
  | handed i span exporter rest htask =>
    refine ⟨hcapacity, ?_, ?_, ?_, ?_, fun e => ?_, fun e => ?_⟩
    · simpa [recorded_snoc, recordedEntry] using hring
    · simpa [entered_snoc, enter] using hended
    · simpa [entered_snoc, enter] using honce
    · have howed := ListUpdate.flatMap_set_perm RecordTask.owed htask (.exporting span rest)
      rw [entered_snoc, enter, recorded_snoc, recordedEntry, Option.toList_none, List.append_nil]
      exact (howed.append_left _).trans hentries
    · simpa [watch_snoc, watch] using hwatched e
    · have howes := ListUpdate.flatMap_set_perm (RecordTask.owes e) htask (.exporting span rest)
      have hsplit : RecordTask.owes e (.exporting span (exporter :: rest)) =
          (exportedEntry e (.exported exporter span)).toList ++
            RecordTask.owes e (.exporting span rest) := by
        by_cases he : exporter = e <;> simp [RecordTask.owes, exportedEntry, he]
      have hsince : recordedSince e (log ++ [.exported exporter span]) = recordedSince e log := by
        rw [recordedSince, watch_snoc]
        rfl
      have hmoved : ((exportedEntry e (.exported exporter span)).toList ++
          (s.tasks.set i (.exporting span rest)).flatMap (RecordTask.owes e)).Perm
            (s.tasks.flatMap (RecordTask.owes e)) := by
        rw [hsplit, List.append_assoc] at howes
        refine (List.perm_append_left_iff (RecordTask.owes e (.exporting span rest))).mp ?_
        refine List.Perm.trans ?_ howes
        rw [← List.append_assoc, ← List.append_assoc]
        exact List.perm_append_comm.append_right _
      rw [hsince, exportedTo_snoc, List.append_assoc]
      exact (hmoved.append_left _).trans (hexports e)

theorem run_faithful (capacity : Int) {s : SharedRecorder} {actions : List RecorderAction}
    (h : run step { recorder := newTraceRecorder capacity } actions = some s) :
    s.Faithful (newTraceRecorder capacity).capacity
      (observed event step { recorder := newTraceRecorder capacity } actions) := by
  have hstart : Faithful (newTraceRecorder capacity).capacity
      { recorder := newTraceRecorder capacity } [] :=
    ⟨rfl, by simp [newTraceRecorder, lastSpans, recorded], fun n => by
      simp [newTraceRecorder, entered], List.nodup_nil, .nil, fun _ => rfl, fun _ => .nil⟩
  have hrun : s.Faithful (newTraceRecorder capacity).capacity
      ([] ++ observed event step { recorder := newTraceRecorder capacity } actions) :=
    run_observed h hstart fun s a t log hs hnext => by
      obtain ⟨e, hevent, hstep⟩ := step_cases hnext
      rw [hevent]
      exact hs.step hstep
  exact hrun

/-- When all goroutines have returned nothing is owed. -/
theorem Faithful.settled {capacity : Nat} {s : SharedRecorder} {log : List RecorderEvent}
    (h : s.Faithful capacity log) (hdone : ∀ task ∈ s.tasks, task.done) :
    (recorded log).Perm (entered log) ∧ ∀ e, (exportedTo e log).Perm (recordedSince e log) := by
  have howed : s.tasks.flatMap RecordTask.owed = [] := by
    refine List.flatMap_eq_nil_iff.mpr fun task htask => ?_
    cases task with
    | locking serial span => exact (hdone _ htask).elim
    | exporting span exporters => rfl
  have howes : ∀ e, s.tasks.flatMap (RecordTask.owes e) = [] := fun e => by
    refine List.flatMap_eq_nil_iff.mpr fun task htask => ?_
    cases task with
    | locking serial span => exact (hdone _ htask).elim
    | exporting span exporters =>
      obtain rfl : exporters = [] := hdone _ htask
      rfl
  have hentries := h.entries
  rw [howed, List.append_nil] at hentries
  refine ⟨hentries, fun e => ?_⟩
  have hexports := h.exports e
  rwa [howes e, List.append_nil] at hexports

/-- In whatever order goroutines take the locks of a recorder and call its exporters: it shows the
last spans that were recorded, records the first `End` of a span and every `RecordSpan` once, and
hands each exporter every span that was recorded since the exporter came, once. -/
theorem recorder_faithful (capacity : Int) {s : SharedRecorder} {actions : List RecorderAction}
    (h : run step { recorder := newTraceRecorder capacity } actions = some s) :
    let log := observed event step { recorder := newTraceRecorder capacity } actions
    s.Faithful (newTraceRecorder capacity).capacity log ∧
      ((∀ task ∈ s.tasks, task.done) → (recorded log).Perm (entered log) ∧
        ∀ e, (exportedTo e log).Perm (recordedSince e log)) := by
  have hfaithful := run_faithful capacity h
  exact ⟨hfaithful, hfaithful.settled⟩

/-- Two goroutines end one span and a third records another while an exporter comes; the later
call gets to the lock first. -/
theorem recorder_faithful_race :
    let span : ActiveSpan := ⟨0, "trace", "span", "", "http.predict"⟩
    let token : TraceSpan := ⟨"trace", "token", "span", "backend.token", "ok"⟩
    let actions : List RecorderAction :=
      [.endSpan span "ok", .recordSpan token, .endSpan span "error", .lock 1, .addSpanExporter,
        .lock 0, .exportSpan 0]
    let log := observed event step { recorder := newTraceRecorder 1 } actions
    recorded log = [(none, token), (some 0, span.record "ok")] ∧
      (recorded log).Perm (entered log) ∧ (exportedTo 0 log).Perm (recordedSince 0 log) := by
  intro span token actions log
  have hrun : run step { recorder := newTraceRecorder 1 } actions =
      some ⟨⟨1, [span.record "ok"], [0], 0⟩, 1, [.exporting (span.record "ok") [],
        .exporting token []]⟩ := by decide
  have hsettled := (recorder_faithful 1 hrun).2 (by simp [RecordTask.done])
  exact ⟨by decide, hsettled.1, hsettled.2 0⟩

end SharedRecorder

end Laminar.Gateway
