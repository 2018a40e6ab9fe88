import Laminar.Llama.BrokenRead
import Laminar.Llama.Agreement

/-! What `ProcessStream` reports when the connection to llama-server breaks. `HttpPostJsonStream`
sets `error` on a failed read but leaves `ok` as the headers set it, and `ProcessStream` looks at
`ok` alone, so a cut-off answer with a success status passes for a complete one. -/
namespace Laminar.Llama
open Laminar.Lines

def connectRounds : List Bool → Option Nat
  | [] => none
  | connects :: rest => if connects then some 1 else (connectRounds rest).map (· + 1)

/-- The polls made until everything is sent; nothing if a `send` fails first. -/
def sendRounds : List Nat → Nat → Option Nat
  | [], unsent => if unsent = 0 then some 0 else none
  | bytes :: rest, unsent =>
    if unsent = 0 then some 0
    else if bytes = 0 then none
    else (sendRounds rest (unsent - bytes)).map (· + 1)

def Connection.requestPolls (c : Connection) (size : Nat) : Option Nat :=
  match c.addresses with
  | none => none
  | some addresses =>
    match connectRounds addresses, sendRounds c.sends size with
    | some k, some n => some (k + n)
    | _, _ => none

/-- The first `n` polls from `polls` on answer false. -/
def Quiet (isCancelled : Nat → Bool) (polls n : Nat) : Prop :=
  ∀ k < n, isCancelled (polls + k) = false

theorem quiet_succ (isCancelled : Nat → Bool) (polls n : Nat) :
    Quiet isCancelled polls (n + 1) ↔
      isCancelled polls = false ∧ Quiet isCancelled (polls + 1) n := by
  refine ⟨fun h => ⟨h 0 (Nat.succ_pos n), fun k hk => ?_⟩, fun h k hk => ?_⟩
  · rw [Nat.add_assoc, Nat.add_comm 1 k]
    exact h (k + 1) (Nat.succ_lt_succ hk)
  · cases k with
    | zero => exact h.1
    | succ k =>
      have hk' := h.2 k (Nat.lt_of_succ_lt_succ hk)
      rwa [Nat.add_assoc, Nat.add_comm 1 k] at hk'

theorem quiet_add (isCancelled : Nat → Bool) (polls n m : Nat) :
    Quiet isCancelled polls (n + m) ↔
      Quiet isCancelled polls n ∧ Quiet isCancelled (polls + n) m := by
  induction n generalizing polls with
  | zero => simp [Quiet]
  | succ n ih =>
    rw [show n + 1 + m = n + m + 1 by omega, quiet_succ, quiet_succ, ih, and_assoc,
      show polls + 1 + n = polls + (n + 1) by omega]

theorem connectLoop_none (isCancelled : Nat → Bool) (url : ParsedHttpUrl) (addresses : List Bool)
    (polls polls' : Nat) :
    connectLoop isCancelled url addresses polls = (none, polls') ↔
      ∃ n, connectRounds addresses = some n ∧ polls' = polls + n ∧ Quiet isCancelled polls n := by
  induction addresses generalizing polls with
  | nil => simp [connectLoop, connectRounds]
  | cons connects rest ih =>
    cases hpoll : isCancelled polls with
    | true =>
      simp only [connectLoop, hpoll, if_true]
      refine iff_of_false (by simp) ?_
      rintro ⟨n, hn, -, hquiet⟩
      cases n with
      | zero =>
        simp only [connectRounds] at hn
        split_ifs at hn
        · simp at hn
        · obtain ⟨m, -, hm⟩ := Option.map_eq_some_iff.mp hn
          omega
      | succ n =>
        have h0 := ((quiet_succ _ _ _).mp hquiet).1
        simp [hpoll] at h0
    | false =>
      cases connects with
      | true =>
        simp only [connectLoop, hpoll, connectRounds, Bool.false_eq_true, if_false, if_true,
          Prod.mk.injEq, true_and, Option.some.injEq]
        refine ⟨fun h => ⟨1, rfl, h.symm, ?_⟩, ?_⟩
        · exact (quiet_succ _ _ _).mpr ⟨hpoll, fun k hk => absurd hk (Nat.not_lt_zero k)⟩
        · rintro ⟨n, rfl, rfl, -⟩
          rfl
      | false =>
        simp only [connectLoop, hpoll, connectRounds, Bool.false_eq_true, if_false, ih]
        refine ⟨?_, ?_⟩
        · rintro ⟨n, hn, rfl, hquiet⟩
          exact ⟨n + 1, by rw [hn]; rfl, by omega, (quiet_succ _ _ _).mpr ⟨hpoll, hquiet⟩⟩
        · rintro ⟨n, hn, rfl, hquiet⟩
          obtain ⟨m, hm, rfl⟩ := Option.map_eq_some_iff.mp hn
          exact ⟨m, hm, by omega, ((quiet_succ _ _ _).mp hquiet).2⟩

theorem none_at_once (isCancelled : Nat → Bool) (polls polls' : Nat) :
    ((none : Option Bytes), polls) = (none, polls') ↔
      ∃ n, some 0 = some n ∧ polls' = polls + n ∧ Quiet isCancelled polls n := by
  refine ⟨fun h => ?_, ?_⟩
  · obtain rfl : polls = polls' := congrArg Prod.snd h
    exact ⟨0, rfl, rfl, fun k hk => absurd hk (Nat.not_lt_zero k)⟩
  · rintro ⟨n, hn, rfl, -⟩
    obtain rfl := Option.some.inj hn
    rfl

theorem sendLoop_none (isCancelled : Nat → Bool) (sends : List Nat) (unsent polls polls' : Nat) :
    sendLoop isCancelled sends unsent polls = (none, polls') ↔
      ∃ n, sendRounds sends unsent = some n ∧ polls' = polls + n ∧ Quiet isCancelled polls n := by
  induction sends generalizing unsent polls with
  | nil =>
    simp only [sendLoop, sendRounds]
    split_ifs
    · exact none_at_once isCancelled polls polls'
    · simp
    · simp
  | cons bytes rest ih =>
    by_cases h0 : unsent = 0
    · simp only [sendLoop, sendRounds, h0, if_true]
      exact none_at_once isCancelled polls polls'
    by_cases hb : bytes = 0
    · simp only [sendLoop, sendRounds, h0, hb, if_false, if_true]
      split_ifs <;> simp
    cases hpoll : isCancelled polls with
    | true =>
      simp only [sendLoop, sendRounds, h0, hb, hpoll, if_false, if_true]
      refine iff_of_false (by simp) ?_
      rintro ⟨n, hn, -, hquiet⟩
      obtain ⟨m, -, rfl⟩ := Option.map_eq_some_iff.mp hn
      have h := ((quiet_succ _ _ _).mp hquiet).1
      simp [hpoll] at h
    | false =>
      simp only [sendLoop, sendRounds, h0, hb, hpoll, Bool.false_eq_true, if_false, ih]
      refine ⟨?_, ?_⟩
      · rintro ⟨n, hn, rfl, hquiet⟩
        exact ⟨n + 1, by rw [hn]; rfl, by omega, (quiet_succ _ _ _).mpr ⟨hpoll, hquiet⟩⟩
      · rintro ⟨n, hn, rfl, hquiet⟩
        obtain ⟨m, hm, rfl⟩ := Option.map_eq_some_iff.mp hn
        exact ⟨m, hm, by omega, ((quiet_succ _ _ _).mp hquiet).2⟩

theorem postRequest_none (isCancelled : Nat → Bool) (url : ParsedHttpUrl) (body : Bytes)
    (c : Connection) (polls polls' : Nat) :
    postRequest isCancelled url body c polls = (none, polls') ↔
      ∃ n, c.requestPolls (requestText url body).length = some n ∧ polls' = polls + n ∧
        Quiet isCancelled polls n := by
  unfold postRequest Connection.requestPolls
  cases c.addresses with
  | none => simp
  | some addresses =>
    simp only
    rcases hp : connectLoop isCancelled url addresses polls with ⟨error, p⟩
    cases hk : connectRounds addresses with
    | none =>
      cases error with
      | some error => simp
      | none =>
        obtain ⟨k, hk', -⟩ := (connectLoop_none _ _ _ _ _).mp hp
        simp [hk] at hk'
    | some k =>
      cases error with
      | some error =>
        refine iff_of_false (by simp) ?_
        rintro ⟨n, hn, -, hquiet⟩
        cases hm : sendRounds c.sends (requestText url body).length with
        | none => simp [hm] at hn
        | some m =>
          obtain rfl : k + m = n := by simpa [hm] using hn
          have hout := (connectLoop_none isCancelled url addresses polls _).mpr
            ⟨k, hk, rfl, ((quiet_add _ _ _ _).mp hquiet).1⟩
          simp [hp] at hout
      | none =>
        obtain ⟨k', hk', rfl, hquiet⟩ := (connectLoop_none _ _ _ _ _).mp hp
        obtain rfl : k = k' := Option.some.inj (hk.symm.trans hk')
        simp only [sendLoop_none]
        refine ⟨?_, ?_⟩
        · rintro ⟨m, hm, rfl, hquiet'⟩
          exact ⟨k + m, by rw [hm], by omega, (quiet_add _ _ _ _).mpr ⟨hquiet, hquiet'⟩⟩
        · rintro ⟨n, hn, rfl, hquiet'⟩
          cases hm : sendRounds c.sends (requestText url body).length with
          | none => simp [hm] at hn
          | some m =>
            obtain rfl : k + m = n := by simpa [hm] using hn
            exact ⟨m, rfl, by omega, ((quiet_add _ _ _ _).mp hquiet').2⟩

section
variable (accepts : List BackendStreamEvent → Bool)

/-- What a line does to the state does not depend on the event callback, which is asked only
about the token event the line may add. -/
theorem consumeLine_step (line : Bytes) (s : StreamState) :
    (consumeLine accepts line s).2 = (consumeLine (fun _ => true) line s).2 ∧
      (((consumeLine accepts line s).2.events = s.events ∧ (consumeLine accepts line s).1 = true) ∨
        ∃ event, event.eventType = text "token" ∧
          (consumeLine accepts line s).2.events = s.events ++ [event] ∧
          (consumeLine accepts line s).1 = accepts (s.events ++ [event])) := by
  unfold consumeLine
  simp only [StreamState.emit]
  split_ifs
  · exact ⟨rfl, Or.inl ⟨rfl, rfl⟩⟩
  · exact ⟨rfl, Or.inl ⟨rfl, rfl⟩⟩
  · exact ⟨rfl, Or.inl ⟨rfl, rfl⟩⟩
  · exact ⟨rfl, Or.inl ⟨rfl, rfl⟩⟩
  · exact ⟨rfl, Or.inr ⟨_, rfl, rfl, rfl⟩⟩

def wholeBody (body : Bytes) : StreamState :=
  (foldUntil (consumeLine (fun _ => true)) (getlines body) {}).2

def tokenEvents (body : Bytes) : List BackendStreamEvent := (wholeBody body).events

omit accepts in
theorem foldLines_events (lines : List Bytes) (s : StreamState) :
    s.events <+: (foldUntil (consumeLine (fun _ => true)) lines s).2.events := by
  induction lines generalizing s with
  | nil => exact List.prefix_refl _
  | cons line lines ih =>
    rw [foldUntil, if_pos (consumeLine_accepted (fun _ => rfl) line s)]
    refine List.IsPrefix.trans ?_ (ih _)
    obtain ⟨-, ⟨h, -⟩ | ⟨event, -, h, -⟩⟩ := consumeLine_step (fun _ => true) line s
    · rw [h]
    · rw [h]
      exact List.prefix_append _ _

/-- All lines are taken exactly when the callback takes each event they add; the state is then
the one of a callback that takes everything. -/
theorem foldLines_taken (lines : List Bytes) (s : StreamState) :
    let events := (foldUntil (consumeLine (fun _ => true)) lines s).2.events
    ((foldUntil (consumeLine accepts) lines s).1 = true ↔
        ∀ n, s.events.length ≤ n → n < events.length → accepts (events.take (n + 1)) = true) ∧
      ((foldUntil (consumeLine accepts) lines s).1 = true →
        (foldUntil (consumeLine accepts) lines s).2 =
          (foldUntil (consumeLine (fun _ => true)) lines s).2) := by
  induction lines generalizing s with
  | nil =>
    refine ⟨iff_of_true rfl fun n hn hn' => ?_, fun _ => rfl⟩
    exact absurd hn' (Nat.not_lt.mpr hn)
  | cons line lines ih =>
    intro events
    have hline : (consumeLine (fun _ => true) line s).1 = true :=
      consumeLine_accepted (fun _ => rfl) line s
    have hall : events = (foldUntil (consumeLine (fun _ => true)) lines
        (consumeLine (fun _ => true) line s).2).2.events := by
      simp only [events, foldUntil, hline, if_true]
    obtain ⟨hstate, hevent⟩ := consumeLine_step accepts line s
    obtain ⟨hiff, hsame⟩ := ih (consumeLine (fun _ => true) line s).2
    rw [← hall] at hiff
    have hpre : (consumeLine (fun _ => true) line s).2.events <+: events := by
      rw [hall]
      exact foldLines_events lines _
    simp only [foldUntil, hline, if_true, hstate]
    rw [hstate] at hevent
    obtain ⟨hevents, htaken⟩ | ⟨event, -, hevents, htaken⟩ := hevent
    · rw [hevents] at hiff
      simp only [htaken, if_true]
      exact ⟨hiff, hsame⟩
    · -- the line's event is the next one after those of `s`
      have hnext : events.take (s.events.length + 1) = s.events ++ [event] := by
        rw [hevents] at hpre
        have := List.prefix_iff_eq_take.mp hpre
        simpa using this.symm
      have hlong : s.events.length < events.length := by
        have := hpre.length_le
        rw [hevents, List.length_append, List.length_singleton] at this
        omega
      rw [hevents, List.length_append, List.length_singleton] at hiff
      rw [htaken]
      cases hacc : accepts (s.events ++ [event]) with
      | false =>
        simp only [Bool.false_eq_true, if_false, false_iff, false_implies, and_true]
        intro h
        have := h s.events.length (Nat.le_refl _) hlong
        rw [hnext, hacc] at this
        exact Bool.false_ne_true this
      | true =>
        simp only [if_true]
        refine ⟨hiff.trans ⟨fun h n hn hn' => ?_, fun h n hn => h n (by omega)⟩, hsame⟩
        obtain rfl | hlt := Nat.eq_or_lt_of_le hn
        · rw [hnext, hacc]
        · exact h n hlt hn'

def TakesTokens (body : Bytes) : Prop :=
  ∀ n < (tokenEvents body).length, accepts ((tokenEvents body).take (n + 1)) = true

/-- Running a body and flushing its last line is consuming all its lines. -/
theorem flushLine_runLines (body : Bytes) (h : (runLines accepts body).1 = true) :
    flushLine accepts (runLines accepts body).2 =
      foldUntil (consumeLine accepts) (getlines body) {} := by
  have hpending := foldLines_pending accepts (splitLines 10 body).1 {} []
  rw [show ({} : StreamState).withPending [] = {} from rfl] at hpending
  have hrun : (foldUntil (consumeLine accepts) (splitLines 10 body).1 {}).1 = true := h
  simp only [runLines]
  set t := foldUntil (consumeLine accepts) (splitLines 10 body).1 ({} : StreamState)
  have hclean : t.2.withPending [] = t.2 := (congrArg Prod.snd hpending).symm
  unfold getlines
  by_cases htail : (splitLines 10 body).2 = []
  · have hdone : t.2.pendingLine = [] := (congrArg StreamState.pendingLine hclean).symm
    rw [if_pos htail, htail, hclean, flushLine, if_pos hdone]
    exact Prod.ext hrun.symm rfl
  · have hlast : ({ t.2.withPending (splitLines 10 body).2 with pendingLine := [] } : StreamState) =
        t.2 := hclean
    simp only [if_neg htail, foldUntil_append, foldUntil]
    rw [if_pos hrun, flushLine, if_neg (show ¬ (t.2.withPending _).pendingLine = [] from htail),
      hlast, show (t.2.withPending (splitLines 10 body).2).pendingLine = _ from rfl]
    cases hline : (consumeLine accepts (splitLines 10 body).2 t.2).1 with
    | true => exact Prod.ext hline rfl
    | false => exact Prod.ext hline rfl

theorem runLines_of_all (body : Bytes)
    (h : (foldUntil (consumeLine accepts) (getlines body) {}).1 = true) :
    (runLines accepts body).1 = true := by
  unfold getlines at h
  by_cases htail : (splitLines 10 body).2 = []
  · rwa [if_pos htail] at h
  · rw [if_neg htail, foldUntil_append] at h
    by_contra hrun
    rw [if_neg (show ¬ (foldUntil (consumeLine accepts) (splitLines 10 body).1 {}).1 = true
      from hrun)] at h
    exact hrun h

/-- The whole body is taken exactly when its token events are. -/
theorem taken_iff (body : Bytes) :
    ((runLines accepts body).1 = true ∧ (flushLine accepts (runLines accepts body).2).1 = true) ↔
      TakesTokens accepts body := by
  have hiff := (foldLines_taken accepts (getlines body) {}).1
  have hlines : TakesTokens accepts body ↔
      (foldUntil (consumeLine accepts) (getlines body) {}).1 = true := by
    rw [hiff]
    exact ⟨fun h n _ => h n, fun h n => h n (Nat.zero_le n)⟩
  rw [hlines]
  refine ⟨fun ⟨hrun, hflush⟩ => ?_, fun h => ?_⟩
  · rwa [flushLine_runLines accepts body hrun] at hflush
  · have hrun := runLines_of_all accepts body h
    exact ⟨hrun, by rwa [flushLine_runLines accepts body hrun]⟩

theorem taken_state (body : Bytes) (hrun : (runLines accepts body).1 = true)
    (hflush : (flushLine accepts (runLines accepts body).2).1 = true) :
    (flushLine accepts (runLines accepts body).2).2 = wholeBody body := by
  rw [flushLine_runLines accepts body hrun] at hflush ⊢
  exact (foldLines_taken accepts (getlines body) {}).2 hflush

omit accepts in
theorem wholeBody_completion (body : Bytes) :
    (wholeBody body).completion = parseLlamaServerCompletion body true :=
  (foldLines_accepted (fun _ => rfl) (getlines body) {}).2

def StreamState.NotDone (s : StreamState) : Prop :=
  ∀ event ∈ s.events, event.eventType ≠ text "done"

theorem consumeLine_notDone (line : Bytes) (s : StreamState) (h : s.NotDone) :
    (consumeLine accepts line s).2.NotDone := by
  obtain ⟨-, ⟨hevents, -⟩ | ⟨event, htype, hevents, -⟩⟩ := consumeLine_step accepts line s
  · intro e he
    exact h e (hevents ▸ he)
  · intro e he
    rw [hevents, List.mem_append, List.mem_singleton] at he
    obtain he | rfl := he
    · exact h e he
    · rw [htype]
      decide

theorem drainLines_notDone (rounds : Nat) (s : StreamState) (h : s.NotDone) :
    (drainLines accepts rounds s).2.NotDone := by
  induction rounds generalizing s with
  | zero => exact h
  | succ rounds ih =>
    unfold drainLines
    cases hfind : find [10] s.pendingLine with
    | none => exact h
    | some newline =>
      simp only
      have hline := consumeLine_notDone accepts (s.pendingLine.take newline)
        { s with pendingLine := s.pendingLine.drop (newline + 1) } h
      split_ifs
      · exact ih _ hline
      · exact hline

theorem flushLine_notDone (s : StreamState) (h : s.NotDone) :
    (flushLine accepts s).2.NotDone := by
  unfold flushLine
  split_ifs
  · exact h
  · exact consumeLine_notDone accepts _ _ h

end

section
variable (b : LlamaServerBackend) (isCancelled : Nat → Bool)
  (accepts : List BackendStreamEvent → Bool)

/-- The failure is reported: the status is not OK, and no event says that the stream is done. -/
def StreamOutcome.Reported (o : StreamOutcome) : Prop :=
  o.result.code ≠ .ok ∧ ∀ event ∈ o.events, event.eventType ≠ text "done"

theorem finishStream_done (request : BackendRequest) (c : Connection) (r : HttpResponse)
    (s : StreamState) :
    ∃ event ∈ (finishStream b accepts request c r s).events, event.eventType = text "done" := by
  simp only [finishStream, StreamState.emit, List.mem_append, List.mem_singleton]
  exact ⟨_, Or.inr rfl, rfl⟩

/-- The end of `ProcessStream` reports a failure unless it gets to its last event. -/
theorem concludeStream_reported (request : BackendRequest) (c : Connection) (r : HttpResponse)
    (s : StreamState) (polls : Nat) (hs : s.NotDone) :
    ¬ (concludeStream b isCancelled accepts request c r s polls).Reported ↔
      isCancelled polls = false ∧ ¬ r.Failed ∧ (flushLine accepts s).1 = true ∧
        (flushLine accepts s).2.completion.content ≠ [] := by
  have hflush := flushLine_notDone accepts s hs
  by_cases hstop : isCancelled polls = true ∨ r.error = cancelled
  · rw [concludeStream, if_pos hstop]
    refine iff_of_false (not_not.mpr ⟨by simp [cancelledResult], hs⟩) ?_
    rintro ⟨hpoll, hpass, -⟩
    obtain h | h := hstop
    · simp [hpoll] at h
    · exact hpass (Or.inl h)
  rw [concludeStream, if_neg hstop]
  obtain ⟨hpoll, herror⟩ := not_or.mp hstop
  have hpoll' : isCancelled polls = false := by simpa using hpoll
  cases hok : r.ok with
  | false =>
    refine iff_of_false (not_not.mpr ⟨by simp [unavailableResult], hs⟩) ?_
    exact fun h => h.2.1 (Or.inr hok)
  | true =>
    have hpass : ¬ r.Failed := by simp [HttpResponse.Failed, herror, hok]
    simp only [Bool.not_true, Bool.false_eq_true, if_false]
    cases htaken : (flushLine accepts s).1 with
    | false =>
      refine iff_of_false (not_not.mpr ⟨by simp [cancelledResult], hflush⟩) ?_
      simp
    | true =>
      simp only [Bool.not_true, Bool.false_eq_true, if_false]
      by_cases hempty : (flushLine accepts s).2.completion.content = []
      · rw [if_pos hempty]
        refine iff_of_false (not_not.mpr ⟨by simp [unavailableResult], hflush⟩) ?_
        exact fun h => h.2.2.2 hempty
      · rw [if_neg hempty]
        refine iff_of_true (fun h => ?_) ⟨hpoll', hpass, trivial, hempty⟩
        obtain ⟨event, hmem, hdone⟩ :=
          finishStream_done b accepts request c r (flushLine accepts s).2
        exact h.2 event hmem hdone

/-- How the answer to a streamed request has come when its connection breaks after content: the
request went out, nobody cancelled, a success header arrived within its limit, and the body so
far has content whose token events were all taken. -/
structure TruncatedAfterContent (request : BackendRequest) (c : Connection) : Prop where
  streamed : b.stream = true
  url : (parseHttpUrl b.serverUrl).valid = true
  uncancelled : ∃ n, c.requestPolls (requestText (parseHttpUrl b.serverUrl)
      (requestBody b request true)).length = some n ∧ Quiet isCancelled 0 (n + c.reads.length + 3)
  limit : ∀ n, find headerEnd (received (c.reads.take n)) = none →
    (received (c.reads.take n)).length ≤ 64 * 1024
  content : ∃ header, find headerEnd (received c.reads) = some header ∧
    success (statusOf (received c.reads)) = true ∧
    TakesTokens accepts ((received c.reads).drop (header + 4)) ∧
    (parseLlamaServerCompletion ((received c.reads).drop (header + 4)) true).content ≠ []

/-- A broken connection is never read to the end of the stream by the buffered client. -/
theorem readLoop_broken (c : Connection) (hc : c.closed = false) (reads : List Read)
    (r : HttpResponse) (hok : r.ok = false) (raw : Bytes) (polls : Nat) :
    ∃ r' raw' polls', readLoop isCancelled c reads r raw polls = (false, r', raw', polls') ∧
      r'.ok = false ∧ (isCancelled = (fun _ => false) → r'.error ≠ cancelled) := by
  have hread : readError ≠ cancelled := by decide
  have hlong : text "llama server response exceeded 1 MiB" ≠ cancelled := by decide
  induction reads generalizing r raw polls with
  | nil =>
    simp only [readLoop, hc, Bool.false_eq_true, if_false]
    split_ifs with hpoll
    · exact ⟨_, _, _, rfl, hok, by rintro rfl; simp at hpoll⟩
    · exact ⟨_, _, _, rfl, hok, fun _ => hread⟩
  | cons read rest ih =>
    cases read with
    | interrupted =>
      simp only [readLoop]
      split_ifs with hpoll
      · exact ⟨_, _, _, rfl, hok, by rintro rfl; simp at hpoll⟩
      · exact ih r hok raw _
    | data first bytes =>
      simp only [readLoop]
      split_ifs with hpoll
      · exact ⟨_, _, _, rfl, hok, by rintro rfl; simp at hpoll⟩
      · exact ⟨_, _, _, rfl, hok, fun _ => hlong⟩
      · exact ih (r.timed c) hok _ _

/-- Without cancellation a request that does not go out fails with another error. -/
theorem postRequest_uncancelled (url : ParsedHttpUrl) (body : Bytes) (c : Connection)
    (polls : Nat) :
    (postRequest (fun _ => false) url body c polls).1 ≠ some cancelled := by
  have hnone : (none : Option Bytes) ≠ some cancelled := by simp
  have hfail : some (text "failed to send request to llama server") ≠ some cancelled := by decide
  have hsend : ∀ sends unsent polls,
      (sendLoop (fun _ => false) sends unsent polls).1 ≠ some cancelled := by
    intro sends
    induction sends with
    | nil =>
      intro unsent polls
      simp only [sendLoop, Bool.false_eq_true, if_false]
      split_ifs
      · exact hnone
      · exact hfail
    | cons bytes rest ih =>
      intro unsent polls
      simp only [sendLoop, Bool.false_eq_true, if_false]
      split_ifs
      · exact hnone
      · exact hfail
      · exact ih _ _
  have hfirst : ∀ literal rest : Bytes, literal.head? ≠ cancelled.head? → literal ≠ [] →
      some (literal ++ rest) ≠ some cancelled := by
    intro literal rest hhead hne h
    refine hhead ?_
    rw [← Option.some.inj h, List.head?_append_of_ne_nil _ hne]
  have hconnect : ∀ addresses polls,
      (connectLoop (fun _ => false) url addresses polls).1 ≠ some cancelled := by
    intro addresses
    induction addresses with
    | nil =>
      intro polls
      simp only [connectLoop, List.append_assoc]
      exact hfirst _ _ (by decide) (by decide)
    | cons connects rest ih =>
      intro polls
      simp only [connectLoop, Bool.false_eq_true, if_false]
      split_ifs
      · exact hnone
      · exact ih _
  unfold postRequest
  cases c.addresses with
  | none =>
    simp only [List.append_assoc]
    exact hfirst _ _ (by decide) (by decide)
  | some addresses =>
    have h := hconnect addresses polls
    simp only
    rcases hp : connectLoop (fun _ => false) url addresses polls with ⟨_ | error, n⟩
    · exact hsend _ _ _
    · rwa [hp] at h

theorem httpPostJson_broken (url : ParsedHttpUrl) (body : Bytes) (c : Connection)
    (hc : c.closed = false) (polls : Nat) :
    (httpPostJson isCancelled url body c polls).1.ok = false ∧
      (isCancelled = (fun _ => false) →
        (httpPostJson isCancelled url body c polls).1.error ≠ cancelled) := by
  unfold httpPostJson
  rcases hp : postRequest isCancelled url body c polls with ⟨error, n⟩
  cases error with
  | some error =>
    refine ⟨rfl, ?_⟩
    rintro rfl herror
    refine postRequest_uncancelled url body c polls ?_
    rw [hp, show error = cancelled from herror]
  | none =>
    obtain ⟨r, raw, polls', hread, hok, herror⟩ := readLoop_broken isCancelled c hc c.reads {} rfl
      [] n
    simp only [hread]
    exact ⟨hok, herror⟩

end

section
variable (b : LlamaServerBackend)

/-- The buffered path reports every broken connection. -/
theorem processBatch_broken (isCancelled : Nat → Bool) (request : BackendRequest) (c : Connection)
    (hc : c.closed = false) :
    (processBatch b isCancelled [(request, c)]).result.code ≠ .ok ∧
      (isCancelled = (fun _ => false) →
        (processBatch b isCancelled [(request, c)]).result.code = .unavailable) := by
  obtain ⟨hok, herror⟩ := httpPostJson_broken isCancelled (parseHttpUrl b.serverUrl)
    (requestBody b request b.stream) c hc 2
  cases hpoll : isCancelled 0 with
  | true =>
    simp only [processBatch, hpoll, if_true]
    exact ⟨by simp [cancelledResult], by rintro rfl; simp at hpoll⟩
  | false =>
    cases hurl : (parseHttpUrl b.serverUrl).valid with
    | false =>
      simp only [processBatch, hpoll, hurl, Bool.false_eq_true, if_false, Bool.not_false, if_true]
      exact ⟨by simp [unavailableResult], fun _ => rfl⟩
    | true =>
      simp only [processBatch, hpoll, hurl, processRequests, judgeResponse, hok,
        Bool.false_eq_true, if_false, Bool.not_false, Bool.not_true, if_true]
      cases hpoll' : isCancelled 1 with
      | true =>
        simp only [if_true]
        exact ⟨by simp [cancelledResult], by rintro rfl; simp at hpoll'⟩
      | false =>
        simp only [Bool.false_eq_true, if_false]
        split_ifs with hstop
        · refine ⟨by simp [cancelledResult], ?_⟩
          rintro rfl
          exact absurd (hstop.resolve_left (by simp)) (herror rfl)
        · exact ⟨by simp [unavailableResult], fun _ => rfl⟩

end

section
variable {σ : Type} {isCancelled : Nat → Bool} {url : ParsedHttpUrl} {body : Bytes}
  {c : Connection} {run : Bytes → Bool × σ} {onBody : Bytes → σ → Bool × σ} {s : σ}

theorem streamLoop_broken (hc : c.closed = false) (reads : List Read) (r : StreamRead σ)
    (polls : Nat) : (streamLoop isCancelled onBody c reads r polls).1 = false := by
  induction reads generalizing r polls with
  | nil =>
    simp only [streamLoop, hc, Bool.false_eq_true, if_false]
    split_ifs <;> rfl
  | cons read rest ih =>
    cases read <;> simp only [streamLoop] <;> split_ifs <;> first | rfl | exact ih _ _

/-- The streaming client comes to the break with a success status: `n` polls to send, and a
header of `header` bytes before its empty line. -/
structure ReadToBreak (isCancelled : Nat → Bool) (url : ParsedHttpUrl) (body : Bytes)
    (c : Connection) (run : Bytes → Bool × σ) (n header : Nat) : Prop where
  sent : c.requestPolls (requestText url body).length = some n
  quiet : Quiet isCancelled 1 (n + c.reads.length + 1)
  limit : ∀ m, find headerEnd (received (c.reads.take m)) = none →
    (received (c.reads.take m)).length ≤ 64 * 1024
  found : find headerEnd (received c.reads) = some header
  status : success (statusOf (received c.reads)) = true
  taken : (run ((received c.reads).drop (header + 4))).1 = true

theorem httpPostJsonStream_passed (hf : Feeds onBody run) (hc : c.closed = false)
    (hs : s = (run []).2)
    (hpass : ¬ (httpPostJsonStream isCancelled onBody url body c s 1).1.Failed) :
    ∃ n header, ReadToBreak isCancelled url body c run n header := by
  unfold httpPostJsonStream at hpass
  rcases hp : postRequest isCancelled url body c 1 with ⟨_ | error, polls⟩
  swap
  · rw [hp] at hpass
    exact absurd (Or.inr rfl) hpass
  obtain ⟨n, hsent, rfl, hquiet⟩ := (postRequest_none _ _ _ _ _ _).mp hp
  have hstart : ({ sink := s } : StreamRead σ) = absorb run (-1) [] := by rw [hs]; rfl
  have hread : ¬ (streamLoop isCancelled onBody c c.reads (absorb run (-1) [])
      (1 + n)).2.1.response.Failed := by
    rw [hp, hstart] at hpass
    simp only at hpass
    rcases hloop : streamLoop isCancelled onBody c c.reads (absorb run (-1) []) (1 + n) with
      ⟨_ | _, r, polls⟩
    · simpa [hloop] using hpass
    · have hbroken : (streamLoop isCancelled onBody c c.reads (absorb run (-1) []) (1 + n)).1 =
          false := streamLoop_broken hc c.reads _ _
      simp [hloop] at hbroken
  have hnone : find headerEnd ([] : Bytes) = none := by decide
  obtain ⟨hquiet', hlimit, ⟨header, hfound⟩, hstatus, htaken⟩ := streamLoop_passed hf isCancelled c
    hc c.reads [] (-1) (1 + n) (fun _ h => absurd h (by simp [hnone])) (by simp) hread
  simp only [List.nil_append] at hlimit hfound hstatus htaken
  refine ⟨n, header, hsent, ?_, hlimit, hfound, hstatus, htaken header hfound hstatus⟩
  rw [Nat.add_assoc, quiet_add]
  exact ⟨hquiet, fun k hk => hquiet' k (Nat.le_of_lt_succ hk)⟩

theorem ReadToBreak.response {n header : Nat} (h : ReadToBreak isCancelled url body c run n header)
    (hf : Feeds onBody run) (hc : c.closed = false) (hs : s = (run []).2) :
    let r := httpPostJsonStream isCancelled onBody url body c s 1
    ¬ r.1.Failed ∧ r.2.1 = (run ((received c.reads).drop (header + 4))).2 ∧
      r.2.2 = n + c.reads.length + 2 := by
  intro r
  have hquiet := h.quiet
  rw [Nat.add_assoc, quiet_add] at hquiet
  have hp := (postRequest_none isCancelled url body c 1 _).mpr ⟨n, h.sent, rfl, hquiet.1⟩
  have hacc : Accepted run ([] ++ received c.reads) := by
    rw [List.nil_append]
    intro header' hfound _
    obtain rfl : header = header' := Option.some.inj (h.found.symm.trans hfound)
    exact h.taken
  have hfit : FitsAll [] c.reads := by
    refine fitsAll_of_take c.reads [] fun m => ?_
    rw [List.nil_append]
    refine ⟨h.limit m, fun header' hfound hbad => ?_⟩
    have hsplit : received c.reads = received (c.reads.take m) ++ received (c.reads.drop m) := by
      rw [received, received, received, ← List.flatMap_append, List.take_append_drop]
    have hstatus := h.status
    rw [hsplit, statusOf_append hfound] at hstatus
    simp [hbad] at hstatus
  obtain ⟨micros, hloop⟩ := streamLoop_absorb hf isCancelled c c.reads [] (-1) (1 + n)
    (fun k hk => hquiet.2 k (Nat.lt_succ_of_le hk)) hacc hfit
  have hstart : ({ sink := s } : StreamRead σ) = absorb run (-1) [] := by rw [hs]; rfl
  have hr : r = httpPostJsonStream isCancelled onBody url body c s 1 := rfl
  simp only [httpPostJsonStream, hp, hstart, hloop, hc, List.nil_append, Bool.false_eq_true,
    if_false, absorb_some _ h.found, h.status, if_true] at hr
  rw [hr]
  refine ⟨?_, rfl, by simp only; omega⟩
  have hread : readError ≠ cancelled := by decide
  simp [HttpResponse.Failed, hread]

end

section
variable (b : LlamaServerBackend) (isCancelled : Nat → Bool)
  (accepts : List BackendStreamEvent → Bool)

theorem httpPostJsonStream_notDone (url : ParsedHttpUrl) (body : Bytes) (c : Connection) :
    (httpPostJsonStream isCancelled (onBody accepts) url body c ({} : StreamState)
      1).2.1.NotDone := by
  have hstart : ({} : StreamState).NotDone := fun _ hmem => absurd hmem (List.not_mem_nil)
  have hkeep : ∀ piece s, StreamState.NotDone s → (onBody accepts piece s).2.NotDone :=
    fun piece s hs => drainLines_notDone accepts _ { s with pendingLine := s.pendingLine ++ piece }
      hs
  have hsink := fun polls => streamLoop_sink (motive := StreamState.NotDone) hkeep isCancelled c
    c.reads ({ sink := {} } : StreamRead StreamState) polls hstart
  unfold httpPostJsonStream
  rcases postRequest isCancelled url body c 1 with ⟨_ | error, polls⟩
  · simp only
    have h := hsink polls
    rcases hloop : streamLoop isCancelled (onBody accepts) c c.reads { sink := {} } polls with
      ⟨_ | _, r, polls'⟩ <;> simpa [hloop] using h
  · exact hstart

/-- A broken connection is reported exactly when the answer is not cut off after content. -/
theorem processStream_reported_iff (request : BackendRequest) (c : Connection)
    (hc : c.closed = false) :
    (processStream b isCancelled accepts request c).Reported ↔
      ¬ TruncatedAfterContent b isCancelled accepts request c := by
  have hreported : ∀ o : StreamOutcome, o.result.code ≠ .ok → o.events = [] → o.Reported :=
    fun o hcode hevents => ⟨hcode, fun e he => absurd (hevents ▸ he) List.not_mem_nil⟩
  cases hstream : b.stream with
  | false =>
    refine iff_of_true ?_ fun h => absurd h.streamed (by simp [hstream])
    have hcode := (processBatch_broken b isCancelled request c hc).1
    simp only [processStream, hstream, baseProcessStream, Bool.not_false, if_true, if_pos hcode]
    exact hreported _ hcode rfl
  | true =>
    cases hpoll : isCancelled 0 with
    | true =>
      refine iff_of_true ?_ fun h => ?_
      · simp only [processStream, hstream, hpoll, Bool.not_true, Bool.false_eq_true, if_false,
          if_true]
        exact hreported _ (by simp [cancelledResult]) rfl
      · obtain ⟨n, -, hquiet⟩ := h.uncancelled
        simpa [hpoll] using hquiet 0 (Nat.succ_pos _)
    | false =>
      cases hurl : (parseHttpUrl b.serverUrl).valid with
      | false =>
        refine iff_of_true ?_ fun h => absurd h.url (by simp [hurl])
        simp only [processStream, hstream, hpoll, hurl, Bool.not_true, Bool.false_eq_true,
          if_false, Bool.not_false, if_true]
        exact hreported _ (by simp [unavailableResult]) rfl
      | true =>
        rw [← not_iff_not, not_not]
        simp only [processStream, hstream, hpoll, hurl, Bool.not_true, Bool.false_eq_true,
          if_false]
        rw [concludeStream_reported b isCancelled accepts request c _ _ _
          (httpPostJsonStream_notDone isCancelled accepts _ _ _)]
        refine ⟨?_, fun h => ?_⟩
        · rintro ⟨hlast, hpass, hflush, hcontent⟩
          obtain ⟨n, header, hread⟩ := httpPostJsonStream_passed (onBody_feeds accepts) hc rfl hpass
          obtain ⟨-, hsink, hpolls⟩ := hread.response (s := ({} : StreamState))
            (onBody_feeds accepts) hc rfl
          rw [hsink] at hflush hcontent
          rw [hpolls] at hlast
          have htaken := (taken_iff accepts _).mp ⟨hread.taken, hflush⟩
          rw [taken_state accepts _ hread.taken hflush, wholeBody_completion] at hcontent
          refine ⟨hstream, hurl, ⟨n, hread.sent, ?_⟩, hread.limit, header, hread.found,
            hread.status, htaken, hcontent⟩
          rw [show n + c.reads.length + 3 = 1 + (n + c.reads.length + 1) + 1 by omega, quiet_add,
            quiet_add]
          refine ⟨⟨fun k hk => ?_, by simpa using hread.quiet⟩, fun k hk => ?_⟩
          · obtain rfl : k = 0 := by omega
            simpa using hpoll
          · obtain rfl : k = 0 := by omega
            rw [← hlast]
            congr 1
            omega
        · obtain ⟨n, hsent, hquiet⟩ := h.uncancelled
          obtain ⟨header, hfound, hstatus, htakes, hcontent⟩ := h.content
          obtain ⟨htaken, hflush⟩ := (taken_iff accepts _).mpr htakes
          rw [show n + c.reads.length + 3 = 1 + (n + c.reads.length + 1) + 1 by omega, quiet_add,
            quiet_add, Nat.zero_add] at hquiet
          have hread : ReadToBreak isCancelled (parseHttpUrl b.serverUrl)
              (requestBody b request true) c (runLines accepts) n header :=
            ⟨hsent, hquiet.1.2, h.limit, hfound, hstatus, htaken⟩
          obtain ⟨hpass, hsink, hpolls⟩ := hread.response (s := ({} : StreamState))
            (onBody_feeds accepts) hc rfl
          rw [hsink, hpolls]
          refine ⟨?_, hpass, hflush, ?_⟩
          · have hlast := hquiet.2 0 Nat.one_pos
            rw [← hlast]
            congr 1
            omega
          · rwa [taken_state accepts _ htaken hflush, wholeBody_completion]

/-- For every script of reads that ends in an error, the streaming path fails without a `done`
event, as the buffered path fails, exactly when the answer is not cut off after content. -/
theorem broken_stream_reported_iff (request : BackendRequest) (c : Connection) :
    let cut := { c with closed := false }
    let streamed := processStream b isCancelled accepts request cut
    let buffered := processBatch b (fun _ => false) [(request, cut)]
    (streamed.result.code ≠ .ok ∧ (∀ event ∈ streamed.events, event.eventType ≠ text "done") ∧
        buffered.result.code = .unavailable) ↔
      ¬ TruncatedAfterContent b isCancelled accepts request c := by
  intro cut streamed buffered
  have hbuffered : buffered.result.code = .unavailable :=
    (processBatch_broken b (fun _ => false) request cut rfl).2 rfl
  have hstreamed : streamed.Reported ↔ ¬ TruncatedAfterContent b isCancelled accepts request cut :=
    processStream_reported_iff b isCancelled accepts request cut rfl
  have hcut : TruncatedAfterContent b isCancelled accepts request cut ↔
      TruncatedAfterContent b isCancelled accepts request c :=
    ⟨fun ⟨h1, h2, h3, h4, h5⟩ => ⟨h1, h2, h3, h4, h5⟩,
      fun ⟨h1, h2, h3, h4, h5⟩ => ⟨h1, h2, h3, h4, h5⟩⟩
  rw [← hcut, ← hstreamed]
  exact ⟨fun ⟨hcode, hevents, _⟩ => ⟨hcode, hevents⟩,
    fun ⟨hcode, hevents⟩ => ⟨hcode, hevents, hbuffered⟩⟩

end

set_option maxRecDepth 10000 in
/-- A success header and one complete token chunk before the connection breaks. -/
theorem cutOffToken_passes :
    let b : LlamaServerBackend := llamaServerBackend (text "http://llama:8080/completion") 64
      (text "0.700") true true false
    let cut : Connection :=
      { addresses := some [true], sends := [1000], closed := false
        reads := [.data 72 (text
          "TTP/1.1 200 OK\r\n\r\ndata: \x7b\"content\":\"hi\"\x7d\n\n")] }
    let streamed := processStream b (fun _ => false) (fun _ => true) {} cut
    let buffered := processBatch b (fun _ => false) [({}, cut)]
    ¬ (streamed.result.code ≠ .ok ∧ (∀ event ∈ streamed.events, event.eventType ≠ text "done") ∧
        buffered.result.code = .unavailable) ∧
      streamed.result.code = .ok ∧
      streamed.events.map BackendStreamEvent.eventType = [text "token", text "done"] ∧
      buffered.result.code = .unavailable := by
  decide

end Laminar.Llama
