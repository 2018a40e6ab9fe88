import Laminar.Gateway.PredictStream
import Laminar.Gateway.Recorder

/-! The spans of `handlePredictStream`: what it gives a recorder that other goroutines use as well,
on every way through the handler. -/
namespace Laminar.Gateway

namespace StreamHandler

/-- The spans that the handler starts; other goroutines use the recorder in between. -/
def start (randomHex : Nat → Nat → String) (requestID parentSpanID traceID : String)
    (first second third : TraceRecorder) : StreamHandler :=
  let httpSpan := (first.startSpan randomHex "http.predict.stream" parentSpanID traceID).1
  let workerSpan :=
    (second.startSpan randomHex "worker.grpc.stream" httpSpan.spanID traceID).1
  let backendSpan :=
    (third.startSpan randomHex "backend.inference" workerSpan.spanID traceID).1
  { requestID := requestID, httpSpan := httpSpan, workerSpan := workerSpan
    backendSpan := backendSpan }

def serve (h : StreamHandler) (openErr : Option Error) (flusher : Bool)
    (results : List (Except Error StreamResponse × Option Error)) : List StreamEffect :=
  match openErr with
  | some err => h.openFailed err
  | none => if !flusher then h.unflushable else h.receiveLoop results

def tokenSpan (h : StreamHandler) (randomID : Nat → String) (index : Nat) : TraceSpan :=
  { traceID := h.backendSpan.traceID, spanID := randomID index
    parentSpanID := h.backendSpan.spanID, name := "backend.token", status := "ok" }

def recorderCall (h : StreamHandler) (randomID : Nat → String) :
    StreamEffect → Option RecorderEvent
  | .endSpan s status => some (.endCalled s status)
  | .recordToken index => some (.recordCalled (h.tokenSpan randomID index))
  | .write _ _ | .httpError _ _ => none

def forwarded : List (Except Error StreamResponse × Option Error) → List String
  | (.ok event, none) :: rest => eventType event :: forwarded rest
  | _ => []

def lastResult : List (Except Error StreamResponse × Option Error) →
    Option (Except Error StreamResponse)
  | (.ok _, none) :: rest => lastResult rest
  | (result, _) :: _ => some result
  | [] => none

/-- `errors.Is(err, io.EOF)`. -/
def isEOF (last : Except Error StreamResponse) : Bool :=
  match last with
  | .error err => decide (err = .eof)
  | .ok _ => false

structure Distinct (h : StreamHandler) : Prop where
  httpWorker : h.httpSpan.serial ≠ h.workerSpan.serial
  httpBackend : h.httpSpan.serial ≠ h.backendSpan.serial
  workerBackend : h.workerSpan.serial ≠ h.backendSpan.serial

def entries (h : StreamHandler) (randomID : Nat → String) (types : List String) (eof : Bool) :
    List (Option Nat × TraceSpan) :=
  let doneSeen := h.doneSeen || decide ("done" ∈ types)
  let status := if eof && doneSeen then "ok" else "error"
  (List.range' h.tokenIndex (types.count "token")).map (fun k => (none, h.tokenSpan randomID k)) ++
    (if h.doneSeen then [] else
      [(some h.backendSpan.serial,
        h.backendSpan.record (if doneSeen then "ok" else "error"))]) ++
    [(some h.workerSpan.serial, h.workerSpan.record status),
      (some h.httpSpan.serial, h.httpSpan.record status)]

end StreamHandler

theorem enter_first {before : List (Option Nat × TraceSpan)} {s : ActiveSpan} (status : String)
    (h : some s.serial ∉ before.map Prod.fst) :
    enter before (.endCalled s status) = before ++ [(some s.serial, s.record status)] := by
  rw [enter, if_neg h]

theorem enter_again {before : List (Option Nat × TraceSpan)} {s : ActiveSpan} (status : String)
    (h : some s.serial ∈ before.map Prod.fst) : enter before (.endCalled s status) = before := by
  rw [enter, if_pos h]

namespace StreamHandler

structure Fresh (h : StreamHandler) (before : List (Option Nat × TraceSpan)) : Prop where
  http : some h.httpSpan.serial ∉ before.map Prod.fst
  worker : some h.workerSpan.serial ∉ before.map Prod.fst
  backend : some h.backendSpan.serial ∈ before.map Prod.fst ↔ h.doneSeen = true

section
variable {h : StreamHandler} {before : List (Option Nat × TraceSpan)}

theorem Fresh.ends (hfresh : h.Fresh before) (hdistinct : h.Distinct) (status : String) :
    [RecorderEvent.endCalled h.workerSpan status, .endCalled h.httpSpan status].foldl enter before =
      before ++ [(some h.workerSpan.serial, h.workerSpan.record status),
        (some h.httpSpan.serial, h.httpSpan.record status)] := by
  have hhttp : some h.httpSpan.serial ∉
      (before ++ [(some h.workerSpan.serial, h.workerSpan.record status)]).map Prod.fst := by
    rw [List.map_append, List.mem_append, not_or]
    exact ⟨hfresh.http, by simpa using hdistinct.httpWorker⟩
  rw [List.foldl_cons, List.foldl_cons, List.foldl_nil, enter_first status hfresh.worker,
    enter_first status hhttp, List.append_assoc]
  rfl

theorem Fresh.ends_backend (hfresh : h.Fresh before) (hdistinct : h.Distinct) (status : String) :
    enter before (.endCalled h.backendSpan status) = before ++
      (if h.doneSeen then [] else
        [(some h.backendSpan.serial, h.backendSpan.record status)]) ∧
      Fresh { h with doneSeen := true } (enter before (.endCalled h.backendSpan status)) := by
  cases hdone : h.doneSeen with
  | true =>
    have hmem := hfresh.backend.mpr hdone
    rw [enter_again _ hmem]
    exact ⟨by simp, hfresh.http, hfresh.worker, iff_of_true hmem rfl⟩
  | false =>
    have hnot : some h.backendSpan.serial ∉ before.map Prod.fst := fun hmem =>
      absurd (hdone.symm.trans (hfresh.backend.mp hmem)) (by decide)
    rw [enter_first _ hnot]
    refine ⟨by simp, ?_, ?_, iff_of_true (by simp) rfl⟩
    · rw [List.map_append, List.mem_append, not_or]
      exact ⟨hfresh.http, by simpa using hdistinct.httpBackend⟩
    · rw [List.map_append, List.mem_append, not_or]
      exact ⟨hfresh.worker, by simpa using hdistinct.workerBackend⟩

theorem Fresh.gives_up (hfresh : h.Fresh before) (hdistinct : h.Distinct)
    (randomID : Nat → String) :
    [RecorderEvent.endCalled h.backendSpan "error", .endCalled h.workerSpan "error",
      .endCalled h.httpSpan "error"].foldl enter before =
      before ++ h.entries randomID [] false := by
  obtain ⟨hbackend, hfresh'⟩ := hfresh.ends_backend hdistinct "error"
  have hdistinct' : Distinct { h with doneSeen := true } := ⟨hdistinct.1, hdistinct.2, hdistinct.3⟩
  have hends := hfresh'.ends hdistinct' "error"
  rw [List.foldl_cons, hends, hbackend]
  cases hdone : h.doneSeen <;> simp [entries, hdone]

theorem Fresh.finish (hfresh : h.Fresh before) (hdistinct : h.Distinct)
    (randomID : Nat → String) :
    (h.finish.filterMap (h.recorderCall randomID)).foldl enter before =
      before ++ h.entries randomID [] true := by
  unfold StreamHandler.finish
  cases hdone : h.doneSeen with
  | true =>
    have hends := hfresh.ends hdistinct "ok"
    simpa [recorderCall, entries, hdone] using hends
  | false =>
    obtain ⟨hbackend, hfresh'⟩ := hfresh.ends_backend hdistinct "error"
    have hdistinct' : Distinct { h with doneSeen := true } :=
      ⟨hdistinct.1, hdistinct.2, hdistinct.3⟩
    have hends := hfresh'.ends hdistinct' "error"
    rw [hbackend, hdone] at hends
    simpa [recorderCall, entries, hdone, hbackend] using hends

theorem entries_token (h : StreamHandler) (randomID : Nat → String) (types : List String)
    (eof : Bool) :
    h.entries randomID ("token" :: types) eof = (none, h.tokenSpan randomID h.tokenIndex) ::
      entries { h with tokenIndex := h.tokenIndex + 1 } randomID types eof := by
  have hdone : ("done" ∈ "token" :: types) = ("done" ∈ types) := by simp
  simp only [entries, hdone, List.count_cons_self, List.range'_succ, List.map_cons,
    List.cons_append]
  rfl

theorem entries_other (h : StreamHandler) (randomID : Nat → String) {type : String}
    (htoken : type ≠ "token") (hdone : type ≠ "done") (types : List String) (eof : Bool) :
    h.entries randomID (type :: types) eof = h.entries randomID types eof := by
  have hmem : ("done" ∈ type :: types) = ("done" ∈ types) := by simp [Ne.symm hdone]
  simp only [entries, hmem, List.count_cons_of_ne htoken]

/-- The first `done` ends the backend's span, a second one changes nothing. -/
theorem entries_done (h : StreamHandler) (randomID : Nat → String) (types : List String)
    (eof : Bool) :
    (h.entries randomID ("done" :: types) eof).Perm
      ((if h.doneSeen then [] else [(some h.backendSpan.serial, h.backendSpan.record "ok")]) ++
        entries { h with doneSeen := true } randomID types eof) := by
  have htoken : ("done" :: types).count "token" = types.count "token" :=
    List.count_cons_of_ne (by decide)
  have hmem : decide ("done" ∈ "done" :: types) = true := by simp
  simp only [entries, htoken, hmem, Bool.or_true, Bool.true_or, if_true, List.append_nil]
  cases h.doneSeen with
  | true => simp [tokenSpan]
  | false =>
    simp only [Bool.false_eq_true, if_false]
    rw [← List.append_assoc]
    exact List.perm_append_comm.append_right _

/-- The loop: tokens as they come, and at its end each span once. -/
theorem receiveLoop_enters (hdistinct : h.Distinct) (randomID : Nat → String)
    (results : List (Except Error StreamResponse × Option Error))
    {last : Except Error StreamResponse} (hlast : lastResult results = some last)
    (hfresh : h.Fresh before) :
    (((h.receiveLoop results).filterMap (h.recorderCall randomID)).foldl enter before).Perm
      (before ++ h.entries randomID (forwarded results) (isEOF last)) := by
  induction results generalizing h before with
  | nil => exact absurd hlast (by simp [lastResult])
  | cons result rest ih =>
    obtain ⟨received, writeErr⟩ := result
    cases received with
    | error err =>
      obtain rfl : Except.error err = last := by simpa [lastResult] using hlast
      cases err with
      | eof =>
        exact List.Perm.of_eq (hfresh.finish hdistinct randomID)
      | contextDeadlineExceeded | status code message =>
        exact List.Perm.of_eq (hfresh.gives_up hdistinct randomID)
    | ok event =>
      cases writeErr with
      | some err =>
        obtain rfl : Except.ok event = last := by simpa [lastResult] using hlast
        exact List.Perm.of_eq (hfresh.gives_up hdistinct randomID)
      | none =>
        have hrest : lastResult rest = some last := by simpa [lastResult] using hlast
        have hloop : ∀ h' effects, h.receive (.ok event) none = (some h', effects) →
            h.receiveLoop ((.ok event, none) :: rest) = effects ++ h'.receiveLoop rest := by
          intro h' effects hround
          rw [receiveLoop, hround]
        rw [forwarded]
        by_cases htoken : eventType event = "token"
        · obtain ⟨payload, hround⟩ : ∃ payload, h.receive (.ok event) none =
              (some { h with tokenIndex := h.tokenIndex + 1 },
                [.write "token" payload, .recordToken h.tokenIndex]) := by
            simp [receive, htoken]
          have hdistinct' : Distinct { h with tokenIndex := h.tokenIndex + 1 } :=
            ⟨hdistinct.1, hdistinct.2, hdistinct.3⟩
          have hfresh' : Fresh { h with tokenIndex := h.tokenIndex + 1 }
              (before ++ [(none, h.tokenSpan randomID h.tokenIndex)]) :=
            ⟨by simpa using hfresh.http, by simpa using hfresh.worker, by
              simpa using hfresh.backend⟩
          have hnext := ih hdistinct' hrest hfresh'
          rw [hloop _ _ hround, htoken, entries_token]
          rw [List.append_assoc] at hnext
          exact hnext
        · by_cases hdone : eventType event = "done"
          · obtain ⟨payload, hround⟩ : ∃ payload, h.receive (.ok event) none =
                (some { h with doneSeen := true },
                  [.write "done" payload, .endSpan h.backendSpan "ok"]) := by
              simp [receive, hdone]
            obtain ⟨hbackend, hfresh'⟩ := hfresh.ends_backend hdistinct "ok"
            have hdistinct' : Distinct { h with doneSeen := true } :=
              ⟨hdistinct.1, hdistinct.2, hdistinct.3⟩
            have hnext := ih hdistinct' hrest hfresh'
            rw [hloop _ _ hround, hdone]
            refine List.Perm.trans hnext ?_
            rw [hbackend, List.append_assoc]
            exact (h.entries_done randomID (forwarded rest) (isEOF last)).symm.append_left before
          · obtain ⟨payload, hround⟩ : ∃ payload, h.receive (.ok event) none =
                (some h, [.write (eventType event) payload]) := by
              simp [receive, htoken, hdone]
            rw [hloop _ _ hround, entries_other _ _ htoken hdone]
            exact ih hdistinct hrest hfresh

def leaves (h : StreamHandler) (randomID : Nat → String) (openErr : Option Error)
    (flusher : Bool) (results : List (Except Error StreamResponse × Option Error)) :
    List (Option Nat × TraceSpan) :=
  if openErr = none ∧ flusher = true then
    h.entries randomID (forwarded results) ((lastResult results).any isEOF)
  else [(some h.workerSpan.serial, h.workerSpan.record "error"),
    (some h.httpSpan.serial, h.httpSpan.record "error")]

theorem serve_enters (hdistinct : h.Distinct) (randomID : Nat → String) (openErr : Option Error)
    (flusher : Bool) (results : List (Except Error StreamResponse × Option Error))
    (hreturned : openErr = none → flusher = true → (lastResult results).isSome)
    (hstarted : h.doneSeen = false) :
    (entered ((h.serve openErr flusher results).filterMap (h.recorderCall randomID))).Perm
      (h.leaves randomID openErr flusher results) := by
  have hfresh : h.Fresh [] := ⟨by simp, by simp, by simp [hstarted]⟩
  have hfailed := List.Perm.of_eq (hfresh.ends hdistinct "error")
  cases openErr with
  | some err => exact hfailed
  | none =>
    cases flusher with
    | false => exact hfailed
    | true =>
      obtain ⟨last, hlast⟩ := Option.isSome_iff_exists.mp (hreturned rfl rfl)
      have hloop := receiveLoop_enters hdistinct randomID results hlast hfresh
      rw [leaves, if_pos ⟨rfl, rfl⟩, hlast]
      exact hloop

end

def ownCall (h : StreamHandler) : RecorderEvent → Bool
  | .endCalled s _ =>
    [h.httpSpan.serial, h.workerSpan.serial, h.backendSpan.serial].contains s.serial
  | .recordCalled span => span.parentSpanID = h.backendSpan.spanID
  | .registered | .recorded _ _ | .exported _ _ => false

def ownEntry (h : StreamHandler) (entry : Option Nat × TraceSpan) : Bool :=
  match entry.1 with
  | some serial =>
    [h.httpSpan.serial, h.workerSpan.serial, h.backendSpan.serial].contains serial
  | none => entry.2.parentSpanID = h.backendSpan.spanID

/-- What other goroutines do does not change which calls of the handler count. -/
theorem entered_own (h : StreamHandler) (log : List RecorderEvent) :
    entered (log.filter h.ownCall) = (entered log).filter h.ownEntry := by
  induction log using List.reverseRecOn with
  | nil => rfl
  | append_singleton log event ih =>
    rw [entered_snoc, List.filter_append]
    cases event with
    | registered | recorded _ _ | exported _ _ =>
      simpa [ownCall, enter] using ih
    | recordCalled span =>
      by_cases hown : span.parentSpanID = h.backendSpan.spanID
      · simp [ownCall, hown, entered_snoc, enter, ih, ownEntry]
      · simp [ownCall, hown, enter, ih, ownEntry]
    | endCalled span status =>
      have hmem : some span.serial ∈ ((entered log).filter h.ownEntry).map Prod.fst ↔
          some span.serial ∈ (entered log).map Prod.fst ∧ h.ownCall (.endCalled span status) := by
        simp only [List.mem_map, List.mem_filter]
        constructor
        · rintro ⟨entry, ⟨hentry, hown⟩, hserial⟩
          refine ⟨⟨entry, hentry, hserial⟩, ?_⟩
          rw [ownEntry, hserial] at hown
          exact hown
        · rintro ⟨⟨entry, hentry, hserial⟩, hown⟩
          refine ⟨entry, ⟨hentry, ?_⟩, hserial⟩
          rw [ownEntry, hserial]
          exact hown
      by_cases hown : h.ownCall (.endCalled span status) = true
      · rw [List.filter_cons_of_pos hown, List.filter_nil, entered_snoc, ih, enter, enter]
        by_cases hseen : some span.serial ∈ (entered log).map Prod.fst
        · rw [if_pos hseen, if_pos (hmem.mpr ⟨hseen, hown⟩)]
        · have hentry : h.ownEntry (some span.serial, span.record status) = true := hown
          rw [if_neg hseen, if_neg fun h => hseen (hmem.mp h).1, List.filter_append,
            List.filter_cons_of_pos hentry, List.filter_nil]
      · have hentry : ¬ h.ownEntry (some span.serial, span.record status) = true := hown
        rw [List.filter_cons_of_neg hown, List.filter_nil, List.append_nil, ih, enter]
        split_ifs
        · rfl
        · rw [List.filter_append, List.filter_cons_of_neg hentry, List.filter_nil, List.append_nil]

section
variable (randomHex : Nat → Nat → String) (requestID parentSpanID traceID : String)
  {first second third : TraceRecorder}

/-- The spans that the handler starts are three objects, since no draw is used twice. -/
theorem start_distinct
    (hsecond : (start randomHex requestID parentSpanID traceID first second third).httpSpan.serial <
      second.draws)
    (hthird :
      (start randomHex requestID parentSpanID traceID first second third).workerSpan.serial <
      third.draws) :
    (start randomHex requestID parentSpanID traceID first second third).Distinct := by
  have hdraws : ∀ (r : TraceRecorder) (name parent : String),
      r.draws ≤ (r.startSpan randomHex name parent traceID).1.serial := by
    intro r name parent
    unfold TraceRecorder.startSpan
    split_ifs <;> simp
  have hworker := hsecond.trans_le (hdraws second "worker.grpc.stream"
    (start randomHex requestID parentSpanID traceID first second third).httpSpan.spanID)
  have hbackend := hthird.trans_le (hdraws third "backend.inference"
    (start randomHex requestID parentSpanID traceID first second third).workerSpan.spanID)
  exact ⟨hworker.ne, (hworker.trans hbackend).ne, hbackend.ne⟩

/-- Whatever the worker, the client and the other goroutines of the recorder do: once a stream
request and all goroutines have returned, the recorder has been given its spans once each, from the
handler's down to the backend's as far as it got, each a child of the one before, and one child of
the last for each token; a span is "ok" only if the client was sent `done`. -/
theorem stream_recorded {capacity : Int} {actions : List RecorderAction} {s : SharedRecorder}
    (hrun : Transition.run SharedRecorder.step { recorder := newTraceRecorder capacity } actions =
      some s) (hreturned : ∀ task ∈ s.tasks, task.done)
    (hsecond : (start randomHex requestID parentSpanID traceID first second third).httpSpan.serial <
      second.draws)
    (hthird :
      (start randomHex requestID parentSpanID traceID first second third).workerSpan.serial <
      third.draws)
    (randomID : Nat → String) (openErr : Option Error) (flusher : Bool)
    (results : List (Except Error StreamResponse × Option Error))
    (hended : openErr = none → flusher = true → (lastResult results).isSome) :
    let h := start randomHex requestID parentSpanID traceID first second third
    let log := Transition.observed SharedRecorder.event SharedRecorder.step
      { recorder := newTraceRecorder capacity } actions
    log.filter h.ownCall =
        (h.serve openErr flusher results).filterMap (h.recorderCall randomID) →
      ((recorded log).filter h.ownEntry).Perm (h.leaves randomID openErr flusher results) ∧
      h.httpSpan.parentID = parentSpanID ∧ h.workerSpan.parentID = h.httpSpan.spanID ∧
      h.backendSpan.parentID = h.workerSpan.spanID := by
  intro h log hown
  have hdistinct := start_distinct randomHex requestID parentSpanID traceID hsecond hthird
  have hsettled := ((SharedRecorder.run_faithful capacity hrun).settled hreturned).1
  refine ⟨(hsettled.filter _).trans ?_, rfl, rfl, rfl⟩
  rw [← entered_own, hown]
  exact serve_enters hdistinct randomID openErr flusher results hended rfl

end

/-- A stream of one token beside another goroutine. -/
theorem stream_recorded_token :
    let h := start (fun n _ => toString n) "req-1" "" "trace" {} { draws := 1 } { draws := 3 }
    let other : ActiveSpan := ⟨2, "other", "2", "", "http.predict"⟩
    let results : List (Except Error StreamResponse × Option Error) :=
      [(.ok { id := "req-1", eventType := "token", delta := "hi" }, none),
        (.ok { id := "req-1", eventType := "done", result := "hi" }, none), (.error .eof, none)]
    let actions : List RecorderAction :=
      [.endSpan other "ok", .recordSpan (h.tokenSpan (fun _ => "token") 0), .lock 1,
        .endSpan h.backendSpan "ok", .lock 0, .lock 2, .endSpan h.workerSpan "ok", .lock 3,
        .endSpan h.httpSpan "ok", .lock 4]
    let log := Transition.observed SharedRecorder.event SharedRecorder.step
      { recorder := newTraceRecorder 3 } actions
    ((recorded log).filter h.ownEntry).Perm (h.leaves (fun _ => "token") none true results) ∧
      (h.leaves (fun _ => "token") none true results).length = 4 := by
  intro h other results actions log
  have hrun : Transition.run SharedRecorder.step { recorder := newTraceRecorder 3 } actions =
      some ⟨⟨3, [h.backendSpan.record "ok", h.workerSpan.record "ok", h.httpSpan.record "ok"],
        [0, 1, 3, 2], 0⟩, 0, [.exporting (other.record "ok") [],
          .exporting (h.tokenSpan (fun _ => "token") 0) [],
          .exporting (h.backendSpan.record "ok") [], .exporting (h.workerSpan.record "ok") [],
          .exporting (h.httpSpan.record "ok") []]⟩ := by rfl
  have hsecond : h.httpSpan.serial < ({ draws := 1 } : TraceRecorder).draws := by decide
  have hthird : h.workerSpan.serial < ({ draws := 3 } : TraceRecorder).draws := by decide
  have hrecorded := stream_recorded (fun n _ => toString n) "req-1" "" "trace" hrun
    (by simp [RecordTask.done]) hsecond hthird (fun _ => "token") none true results
    (fun _ _ => rfl) (by decide)
  exact ⟨hrecorded.1, by rfl⟩

end StreamHandler

end Laminar.Gateway
