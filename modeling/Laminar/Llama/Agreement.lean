import Laminar.Llama.LineFeed

/-! Reading llama-server's answer as it arrives and reading it whole come to the same. -/
namespace Laminar.Llama
open Laminar.Lines

section
variable {accepts : List BackendStreamEvent → Bool} (hall : ∀ events, accepts events = true)
include hall

theorem consumeLine_accepted (line : Bytes) (s : StreamState) :
    (consumeLine accepts line s).1 = true := by
  unfold consumeLine
  simp only [StreamState.emit, hall]
  split_ifs <;> rfl

theorem foldLines_accepted (lines : List Bytes) (s : StreamState) :
    (foldUntil (consumeLine accepts) lines s).1 = true ∧
      (foldUntil (consumeLine accepts) lines s).2.completion =
        lines.foldl parseLine s.completion := by
  induction lines generalizing s with
  | nil => exact ⟨rfl, rfl⟩
  | cons line lines ih =>
    simp only [foldUntil, consumeLine_accepted hall, if_true, List.foldl_cons,
      ← consumeLine_completion accepts line s]
    exact ih _

theorem flushLine_accepted (body : Bytes) :
    (runLines accepts body).1 = true ∧
      (flushLine accepts (runLines accepts body).2).1 = true ∧
      (flushLine accepts (runLines accepts body).2).2.completion =
        parseLlamaServerCompletion body true := by
  obtain ⟨hok, hfold⟩ := foldLines_accepted hall (splitLines 10 body).1 {}
  refine ⟨hok, ?_⟩
  simp only [parseLlamaServerCompletion, getlines, if_true]
  unfold flushLine
  split
  · have htail : (splitLines 10 body).2 = [] := ‹_›
    rw [if_pos htail]
    exact ⟨rfl, hfold⟩
  · have htail : ¬ (splitLines 10 body).2 = [] := ‹_›
    rw [if_neg htail, List.foldl_append, ← hfold]
    exact ⟨consumeLine_accepted hall _ _, consumeLine_completion accepts _ _⟩

end

def headerLength (raw : Bytes) : Nat :=
  match find headerEnd raw with
  | none => raw.length
  | some header => header + 4

structure WithinLimits (raw : Bytes) : Prop where
  header : headerLength raw ≤ 64 * 1024
  response : raw.length ≤ 1024 * 1024

theorem WithinLimits.fits {seen rest : Bytes} (h : WithinLimits (seen ++ rest)) : Fits seen := by
  obtain ⟨hheader, hresponse⟩ := h
  rw [List.length_append] at hresponse
  refine ⟨fun hnone => ?_, fun header _ _ => ?_⟩
  · unfold headerLength at hheader
    cases hraw : find headerEnd (seen ++ rest) with
    | none =>
      simp only [hraw, List.length_append] at hheader
      omega
    | some header =>
      simp only [hraw] at hheader
      by_contra hlong
      have hlen : headerEnd.length = 4 := rfl
      have hfound := find_of_append headerEnd seen rest header hraw (by omega)
      simp [hnone] at hfound
  · rw [List.length_drop]
    omega

theorem WithinLimits.fitsAll (reads : List Read) (seen : Bytes)
    (h : WithinLimits (seen ++ received reads)) : FitsAll seen reads := by
  refine fitsAll_of_take reads seen fun n => ?_
  have hsplit : received reads = received (reads.take n) ++ received (reads.drop n) := by
    rw [received, received, received, ← List.flatMap_append, List.take_append_drop]
  rw [hsplit, ← List.append_assoc] at h
  exact h.fits

/-- The buffered client reads a response within the limits to its end. -/
theorem readLoop_closed (c : Connection) (hc : c.closed = true) (reads : List Read) (micros : Int)
    (raw : Bytes) (polls : Nat) (hlen : (raw ++ received reads).length ≤ 1024 * 1024) :
    ∃ micros' polls', readLoop (fun _ => false) c reads { firstResponseByteMicros := micros } raw
      polls = (true, { firstResponseByteMicros := micros' }, raw ++ received reads, polls') := by
  induction reads generalizing micros raw polls with
  | nil => exact ⟨micros, polls + 1, by simp [readLoop, hc, received]⟩
  | cons read rest ih =>
    have hsplit : raw ++ received (read :: rest) = (raw ++ read.bytes) ++ received rest := by
      simp [received]
    rw [hsplit] at hlen ⊢
    cases read with
    | interrupted =>
      simp only [Read.bytes, List.append_nil] at hlen ⊢
      simp only [readLoop, Bool.false_eq_true, if_false]
      exact ih micros raw (polls + 1) hlen
    | data first bytes =>
      have hshort : ¬ (raw ++ first :: bytes).length > 1024 * 1024 := by
        rw [List.length_append] at hlen
        simp only [Read.bytes] at hlen
        omega
      simp only [readLoop, Bool.false_eq_true, if_false, if_neg hshort]
      exact ih _ _ (polls + 1) hlen

def failureCode (error : Bytes) : BackendStatusCode :=
  if error = cancelled then .cancelled else .unavailable

theorem concludeStream_failed (b : LlamaServerBackend) (accepts : List BackendStreamEvent → Bool)
    (request : BackendRequest) (c : Connection) {r : HttpResponse} (h : r.ok = false)
    (s : StreamState) (polls : Nat) :
    (concludeStream b (fun _ => false) accepts request c r s polls).result.code =
        failureCode r.error ∧
      (concludeStream b (fun _ => false) accepts request c r s polls).completion =
        s.completion := by
  unfold concludeStream failureCode
  by_cases he : r.error = cancelled
  · simp [he, cancelledResult]
  · simp [he, h, unavailableResult]

theorem judgeResponse_failed (b : LlamaServerBackend) {r : HttpResponse}
    (h : r.ok = false) (polls : Nat) :
    ∃ result, judgeResponse b (fun _ => false) r polls = (some result, {}) ∧
      result.code = failureCode r.error := by
  unfold judgeResponse failureCode
  by_cases he : r.error = cancelled
  · exact ⟨cancelledResult, by simp [he], by simp [he, cancelledResult]⟩
  · exact ⟨unavailableResult (unavailableMessage r), by simp [he, h],
      by simp [he, unavailableResult]⟩

theorem processBatch_single (b : LlamaServerBackend) (request : BackendRequest) (c : Connection)
    (hurl : (parseHttpUrl b.serverUrl).valid = true) :
    let r := httpPostJson (fun _ => false) (parseHttpUrl b.serverUrl)
      (requestBody b request b.stream) c 2
    let judged := judgeResponse b (fun _ => false) r.1 r.2
    let outcome := processBatch b (fun _ => false) [(request, c)]
    outcome.completions = [judged.2] ∧
      outcome.result.code = match judged.1 with
        | some result => result.code
        | none => .ok := by
  simp only [processBatch, hurl, Bool.not_true, Bool.false_eq_true, if_false, processRequests,
    List.nil_append]
  split <;> simp_all

theorem sendLoop_polls (sends : List Nat) (unsent polls polls' : Nat) :
    (sendLoop (fun _ => false) sends unsent polls).1 =
      (sendLoop (fun _ => false) sends unsent polls').1 := by
  induction sends generalizing unsent polls polls' with
  | nil =>
    simp only [sendLoop, Bool.false_eq_true, if_false]
    split_ifs <;> rfl
  | cons bytes rest ih =>
    simp only [sendLoop, Bool.false_eq_true, if_false]
    split_ifs
    · rfl
    · rfl
    · exact ih _ _ _

theorem connectLoop_polls (url : ParsedHttpUrl) (addresses : List Bool) (polls polls' : Nat) :
    (connectLoop (fun _ => false) url addresses polls).1 =
      (connectLoop (fun _ => false) url addresses polls').1 := by
  induction addresses generalizing polls polls' with
  | nil => rfl
  | cons connects rest ih =>
    simp only [connectLoop, Bool.false_eq_true, if_false]
    split_ifs
    · rfl
    · exact ih _ _

/-- Without cancellation the outcome of a request does not depend on the polls before it. -/
theorem postRequest_polls (url : ParsedHttpUrl) (body : Bytes) (c : Connection)
    (polls polls' : Nat) :
    (postRequest (fun _ => false) url body c polls).1 =
      (postRequest (fun _ => false) url body c polls').1 := by
  unfold postRequest
  cases c.addresses with
  | none => rfl
  | some addresses =>
    have hconnect := connectLoop_polls url addresses polls polls'
    simp only
    rcases hp : connectLoop (fun _ => false) url addresses polls with ⟨error, n⟩
    rcases hp' : connectLoop (fun _ => false) url addresses polls' with ⟨error', n'⟩
    obtain rfl : error = error' := by simpa [hp, hp'] using hconnect
    cases error with
    | some error => rfl
    | none => exact sendLoop_polls _ _ _ _

/-- For every response that ends cleanly within the limits, however the two clients get it in
reads, the streaming path ends with the code and the completion of the buffered path. -/
theorem stream_agrees_with_batch (b : LlamaServerBackend) (hstream : b.stream = true)
    (request : BackendRequest) (c : Connection) (hclosed : c.closed = true)
    (hlimits : WithinLimits (received c.reads)) (reads : List Read)
    (hsame : received reads = received c.reads) :
    let streamed := processStream b (fun _ => false) (fun _ => true) request
      { c with reads := reads }
    let buffered := processBatch b (fun _ => false) [(request, c)]
    streamed.result.code = buffered.result.code ∧
      streamed.completion = buffered.completions.headD {} := by
  intro streamed buffered
  by_cases hurl : (parseHttpUrl b.serverUrl).valid = true
  swap
  · simp [streamed, buffered, processStream, processBatch, hstream, hurl]
  set url := parseHttpUrl b.serverUrl with hurl'
  set body := requestBody b request true with hbody
  obtain ⟨hcompletions, hcode⟩ := processBatch_single b request c hurl
  rw [← hurl', hstream, ← hbody] at hcompletions hcode
  have hstreamed : streamed =
      let r := httpPostJsonStream (fun _ => false) (onBody (fun _ => true)) url body
        { c with reads := reads } ({} : StreamState) 1
      concludeStream b (fun _ => false) (fun _ => true) request { c with reads := reads }
        r.1 r.2.1 r.2.2 := by
    simp [streamed, processStream, hstream, ← hurl', hurl, ← hbody]
  have hpost : (postRequest (fun _ => false) url body { c with reads := reads } 1).1 =
      (postRequest (fun _ => false) url body c 2).1 :=
    postRequest_polls url body c 1 2
  rw [hstreamed]
  change _ = buffered.result.code ∧ _
  rw [show buffered.completions = _ from hcompletions, show buffered.result.code = _ from hcode]
  rcases hp : postRequest (fun _ => false) url body { c with reads := reads } 1 with ⟨error, n⟩
  rcases hp' : postRequest (fun _ => false) url body c 2 with ⟨error', n'⟩
  obtain rfl : error = error' := by simpa [hp, hp'] using hpost
  cases error with
  | some error =>
    -- no request went out
    simp only [httpPostJsonStream, hp, httpPostJson, hp']
    obtain ⟨result, hjudge, hresult⟩ := judgeResponse_failed b
      (r := { error := error }) rfl n'
    obtain ⟨hsc, hscomp⟩ := concludeStream_failed b (fun _ => true) request
      { c with reads := reads } (r := { error := error }) rfl {} n
    rw [hsc, hscomp, hjudge]
    exact ⟨hresult.symm, rfl⟩
  | none =>
    have hall : ∀ events : List BackendStreamEvent, (fun _ => true) events = true := fun _ => rfl
    obtain ⟨micros, k, hread⟩ := readLoop_closed c hclosed c.reads (-1) [] n' hlimits.response
    obtain ⟨micros', hloop⟩ := streamLoop_absorb (onBody_feeds (fun _ => true)) (fun _ => false)
      { c with reads := reads } reads [] (-1) n (fun _ _ => rfl)
      (fun header _ _ => (flushLine_accepted hall _).1)
      (WithinLimits.fitsAll reads [] (by rw [hsame]; exact hlimits))
    rw [List.nil_append, hsame] at hloop
    rw [List.nil_append] at hread
    have hresponse : httpPostJson (fun _ => false) url body c 2 =
        (splitResponse { firstResponseByteMicros := micros } (received c.reads), k) := by
      simp only [httpPostJson, hp']
      rw [show ({} : HttpResponse) = { firstResponseByteMicros := -1 } from rfl, hread]
    have hstream' : httpPostJsonStream (fun _ => false) (onBody (fun _ => true)) url body
        { c with reads := reads } ({} : StreamState) 1 =
        ((absorb (runLines (fun _ => true)) micros' (received c.reads)).close,
          (absorb (runLines (fun _ => true)) micros' (received c.reads)).sink,
          n + reads.length + 1) := by
      simp only [httpPostJsonStream, hp]
      rw [show ({ sink := {} } : StreamRead StreamState) =
        absorb (runLines (fun _ => true)) (-1) [] from rfl, hloop]
      simp [hclosed]
    simp only [hresponse, hstream']
    set raw := received c.reads
    cases hfind : find headerEnd raw with
    | none =>
      obtain ⟨result, hjudge, hresult⟩ := judgeResponse_failed b
        (r := { firstResponseByteMicros := micros, error := missingHeaders }) rfl k
      obtain ⟨hsc, hscomp⟩ := concludeStream_failed b (fun _ => true) request
        { c with reads := reads }
        (r := { firstResponseByteMicros := micros', error := missingHeaders }) rfl {}
        (n + reads.length + 1)
      simp only [splitResponse, hfind, hjudge, absorb_none _ hfind, StreamRead.close]
      exact ⟨hsc.trans hresult.symm, hscomp⟩
    | some header =>
      by_cases hok : success (statusOf raw) = true
      swap
      · have hbad : success (statusOf raw) = false := by simpa using hok
        obtain ⟨result, hjudge, hresult⟩ := judgeResponse_failed b
          (r := splitResponse { firstResponseByteMicros := micros } raw)
          (by simp [splitResponse, hfind, hbad]) k
        obtain ⟨hsc, hscomp⟩ := concludeStream_failed b (fun _ => true) request
          { c with reads := reads }
          (r := (absorb (runLines (fun _ => true)) micros' raw).close)
          (by simp [absorb_some _ hfind, StreamRead.close, hbad])
          (absorb (runLines (fun _ => true)) micros' raw).sink (n + reads.length + 1)
        rw [hsc, hscomp, hjudge]
        refine ⟨Eq.trans ?_ hresult.symm, ?_⟩
        · simp [splitResponse, hfind, hbad, absorb_some _ hfind, StreamRead.close]
        · simp only [absorb_some _ hfind, hbad]
          rfl
      obtain ⟨hrun, hflush, hcompletion⟩ := flushLine_accepted hall (raw.drop (header + 4))
      have hclose : (absorb (runLines (fun _ => true)) micros' raw).close.error = [] ∧
          (absorb (runLines (fun _ => true)) micros' raw).close.ok = true ∧
          (absorb (runLines (fun _ => true)) micros' raw).sink =
            (runLines (fun _ => true) (raw.drop (header + 4))).2 := by
        simp [absorb_some _ hfind, StreamRead.close, hok]
      obtain ⟨herror, hcloseok, hsink⟩ := hclose
      have hne : ¬ ([] : Bytes) = cancelled := by decide
      simp only [judgeResponse, splitResponse, hfind, hok, concludeStream, herror, hcloseok, hsink,
        hflush, hne, hstream, Bool.false_eq_true, or_self, if_false, if_true, Bool.not_true,
        hcompletion, finishStream, StreamState.emit]
      split_ifs with hempty <;> exact ⟨rfl, rfl⟩

set_option maxRecDepth 10000 in
/-- The same answer in one read, and cut within the header and within a line. -/
theorem stream_agrees_cutAnswer :
    let b : LlamaServerBackend := llamaServerBackend (text "http://llama:8080/completion") 64
      (text "0.700") true true false
    let c : Connection :=
      { addresses := some [true], sends := [1000], closed := true
        reads := [.data 72
          (text "TTP/1.1 200 OK\r\n\r\ndata: \x7b\"content\":\"hi\"\x7d\n\ndata: [DONE]")] }
    let reads : List Read :=
      [.data 72 (text "TTP/1.1 200 OK\r\n\r"), .interrupted, .data 10 (text "data: \x7b\"con"),
        .data 116 (text "ent\":\"hi\"\x7d\n\ndata: [DONE]")]
    let streamed := processStream b (fun _ => false) (fun _ => true) {} { c with reads := reads }
    let buffered := processBatch b (fun _ => false) [({}, c)]
    streamed.result.code = buffered.result.code ∧
      streamed.completion = buffered.completions.headD {} :=
  stream_agrees_with_batch _ rfl _ _ rfl ⟨by decide, by decide⟩ _ (by decide)

end Laminar.Llama
