import Laminar.Library.Transition
import Laminar.Llama.Process

/-! `RunProcess` keeps hold of its child: it neither signals nor awaits one that it has reaped, and
leaves no pipe open. -/
namespace Laminar.Llama
open Laminar.Transition

structure Host where
  readOpen : Bool := false
  writeOpen : Bool := false
  child : Bool := false
deriving DecidableEq

def Host.step (s : Host) : SysCall → Option Host
  | .pipe =>
    if s.readOpen ∨ s.writeOpen then none else some { s with readOpen := true, writeOpen := true }
  | .fork => if s.child then none else some { s with child := true }
  | .close .read => if s.readOpen then some { s with readOpen := false } else none
  | .close .write => if s.writeOpen then some { s with writeOpen := false } else none
  | .signal _ => if s.child then some s else none
  | .wait (.reaped _) => if s.child then some { s with child := false } else none
  | .wait _ => if s.child then some s else none

/-- The kernel has no such child, says a `waitpid`. -/
def Lost (calls : List SysCall) : Prop := ∃ error, SysCall.wait (.failed error) ∈ calls

theorem Lost.append {calls : List SysCall} (h : Lost calls) (more : List SysCall) :
    Lost (calls ++ more) := by
  obtain ⟨error, hmem⟩ := h
  exact ⟨error, List.mem_append_left _ hmem⟩

theorem appendWithLimit_eq {output : Bytes} {limit : Nat} (h : output.length ≤ limit)
    (data : Bytes) : appendWithLimit output data limit = (output ++ data).take limit := by
  have htake : (output ++ data).take limit = output ++ data.take (limit - output.length) := by
    rw [List.take_append, List.take_of_length_le h]
  unfold appendWithLimit
  split_ifs with hfull
  · have hzero : limit - output.length = 0 := by omega
    rw [htake, hzero, List.take_zero, List.append_nil]
  · rw [htake, Nat.min_comm, ← List.take_eq_take_min]

/-- What is captured is the beginning of what the child wrote. -/
theorem readAvailable_eq (reads : List Read) {output : Bytes}
    (h : output.length ≤ maxCapturedOutputBytes) :
    readAvailable reads output = (output ++ received reads).take maxCapturedOutputBytes := by
  induction reads generalizing output with
  | nil =>
    rw [received, List.flatMap_nil, List.append_nil, List.take_of_length_le h]
    rfl
  | cons r rest ih =>
    have hfirst := appendWithLimit_eq h r.bytes
    have hle : (appendWithLimit output r.bytes maxCapturedOutputBytes).length ≤
        maxCapturedOutputBytes := by
      rw [hfirst]
      exact List.length_take_le _ _
    have hstep : readAvailable (r :: rest) output =
        readAvailable rest (appendWithLimit output r.bytes maxCapturedOutputBytes) := rfl
    have hsplit := @List.take_append _ (output ++ r.bytes)
    rw [hstep, ih hle, hfirst, received, received, List.flatMap_cons, ← List.append_assoc,
      List.take_append, hsplit]
    rw [List.take_take, Nat.min_self, List.length_take]
    congr 2
    omega

namespace Supervision

def Holds (s : Supervision) (child : Bool) : Prop :=
  run Host.step {} s.calls = some { readOpen := true, child := child }

theorem holds_start : Holds {} true := rfl

theorem Holds.call {s : Supervision} {child child' : Bool} (h : s.Holds child) {c : SysCall}
    (hstep : Host.step { readOpen := true, child := child } c =
      some { readOpen := true, child := child' }) : (s.call c).Holds child' :=
  (run_append _ _).mpr ⟨_, h, run_cons.mpr ⟨_, hstep, rfl⟩⟩

theorem Holds.wait {s : Supervision} (h : s.Holds true) (answer : Waited) :
    (s.wait answer).Holds (match answer with
      | .reaped _ => false
      | _ => true) := by
  refine Holds.call (s := s) h ?_
  cases answer <;> rfl

theorem Holds.signal {s : Supervision} (h : s.Holds true) (number : Signal) :
    (s.call (.signal number)).Holds true := h.call rfl

theorem Holds.read {s : Supervision} {child : Bool} (h : s.Holds child) (reads : List Read) :
    (s.read reads).Holds child := h

/-- A wait that failed stays in the list of calls. -/
theorem lost_wait (s : Supervision) (error : Bytes) : Lost (s.wait (.failed error)).calls :=
  ⟨error, List.mem_append_right _ List.mem_cons_self⟩

def enter (s : Supervision) (r : Round) : Supervision := (s.read r.reads).wait r.waited

def finish (s : Supervision) (last : Round) (raised : Bool) : Supervision :=
  match last.waited with
  | .reaped _ => { s with exited := true }
  | .failed error =>
    { s with result := { s.result with
      launchFailed := true, error := text "waitpid failed: " ++ error } }
  | _ =>
    if raised then { s with result := { s.result with cancelled := true } }
    else { s with result := { s.result with timedOut := true } }

end Supervision

def Waited.Pending (answer : Waited) : Prop := answer = .running ∨ answer = .interrupted

instance : DecidablePred Waited.Pending := fun answer =>
  inferInstanceAs (Decidable (answer = .running ∨ answer = .interrupted))

structure Reaches (isCancelled : Nat → Bool) (rounds : List Round) (polls n : Nat) (last : Round) :
    Prop where
  at_n : rounds[n]? = some last
  drained : ∀ r ∈ rounds.take (n + 1), r.drained = true
  before : ∀ i r, i < n → rounds[i]? = some r →
    r.waited.Pending ∧ isCancelled (polls + i) = false ∧ r.expired = false
  ends : last.waited.Pending → isCancelled (polls + n) = true ∨ last.expired = true

variable {isCancelled : Nat → Bool}

theorem reaches_zero {r : Round} {rest : List Round} {polls : Nat} (hdrained : r.drained = true)
    (h : r.waited.Pending → isCancelled polls = true ∨ r.expired = true) :
    Reaches isCancelled (r :: rest) polls 0 r :=
  ⟨rfl, by simpa using hdrained, fun _ _ hi => absurd hi (Nat.not_lt_zero _), h⟩

theorem Reaches.cons {r last : Round} {rest : List Round} {polls n : Nat}
    (h : Reaches isCancelled rest (polls + 1) n last) (hdrained : r.drained = true)
    (hpending : r.waited.Pending) (hpoll : isCancelled polls = false)
    (hexpired : r.expired = false) : Reaches isCancelled (r :: rest) polls (n + 1) last := by
  refine ⟨h.at_n, List.forall_mem_cons.mpr ⟨hdrained, h.drained⟩, fun i q hi hq => ?_,
    fun hlast => ?_⟩
  · cases i with
    | zero =>
      obtain rfl := Option.some.inj hq
      exact ⟨hpending, hpoll, hexpired⟩
    | succ i =>
      have hbefore := h.before i q (Nat.lt_of_succ_lt_succ hi) hq
      rwa [Nat.add_right_comm] at hbefore
  · have hends := h.ends hlast
    rwa [Nat.add_right_comm] at hends

theorem Reaches.take {rounds : List Round} {polls n : Nat} {last : Round}
    (h : Reaches isCancelled rounds polls n last) :
    rounds.take (n + 1) = rounds.take n ++ [last] ∧ ∀ r ∈ rounds.take n, r.waited.Pending := by
  refine ⟨by rw [List.take_add_one, h.at_n, Option.toList_some], fun r hr => ?_⟩
  obtain ⟨i, hi⟩ := List.mem_iff_getElem?.mp hr
  rw [List.getElem?_take] at hi
  split_ifs at hi with hlt
  exact (h.before i r hlt hi).1

theorem Reaches.round {rounds : List Round} {polls n i : Nat} {last : Round}
    (h : Reaches isCancelled rounds polls n last) (hi : i < n) :
    isCancelled (polls + i) = false := by
  have hlast := (List.getElem?_eq_some_iff.mp h.at_n).1
  exact (h.before i _ hi (List.getElem?_eq_getElem (hi.trans hlast))).2.1

namespace Supervision

/-- A child that keeps the pipe full holds the loop, whatever the clock says. -/
theorem loop_flooded {r : Round} (hdrained : r.drained = false) (rest : List Round)
    (s : Supervision) (polls : Nat) : loop isCancelled (r :: rest) s polls = none := by
  simp [loop, hdrained]

theorem loop_pending {r : Round} (hdrained : r.drained = true) (hwait : r.waited.Pending)
    (rest : List Round) (s : Supervision) (polls : Nat) :
    loop isCancelled (r :: rest) s polls =
      if isCancelled polls then some ((s.enter r).finish r true, polls + 1)
      else if r.expired then some ((s.enter r).finish r false, polls + 1)
      else loop isCancelled rest (s.enter r) (polls + 1) := by
  obtain hwaited | hwaited := hwait <;> simp [loop, hdrained, hwaited, enter, finish]

theorem loop_settled {r : Round} (hdrained : r.drained = true) (hwait : ¬ r.waited.Pending)
    (rest : List Round) (s : Supervision) (polls : Nat) :
    loop isCancelled (r :: rest) s polls =
      some ((s.enter r).finish r (isCancelled polls), polls) := by
  cases hwaited : r.waited with
  | running => exact absurd (Or.inl hwaited) hwait
  | interrupted => exact absurd (Or.inr hwaited) hwait
  | reaped status => simp [loop, hdrained, hwaited, enter, finish]
  | failed error => simp [loop, hdrained, hwaited, enter, finish]

/-- A round goes on to the next one, or ends the loop. -/
theorem loop_cons {r : Round} {rest : List Round} {s s' : Supervision} {polls polls' : Nat}
    (h : loop isCancelled (r :: rest) s polls = some (s', polls')) :
    r.drained = true ∧
      ((r.waited.Pending ∧ isCancelled polls = false ∧ r.expired = false ∧
        loop isCancelled rest (s.enter r) (polls + 1) = some (s', polls')) ∨
      ((r.waited.Pending → isCancelled polls = true ∨ r.expired = true) ∧
        s' = (s.enter r).finish r (isCancelled polls) ∧
        polls' = polls + if r.waited.Pending then 1 else 0)) := by
  have hdrained : r.drained = true := by
    by_contra hfull
    rw [loop_flooded (by simpa using hfull)] at h
    exact absurd h (by simp)
  refine ⟨hdrained, ?_⟩
  by_cases hwait : r.waited.Pending
  · rw [loop_pending hdrained hwait] at h
    split_ifs at h with hpoll hexpired
    · obtain ⟨rfl, rfl⟩ := Prod.mk.inj (Option.some.inj h)
      exact Or.inr ⟨fun _ => Or.inl hpoll, by rw [hpoll], by rw [if_pos hwait]⟩
    · obtain ⟨rfl, rfl⟩ := Prod.mk.inj (Option.some.inj h)
      exact Or.inr ⟨fun _ => Or.inr hexpired, by rw [Bool.eq_false_iff.mpr hpoll],
        by rw [if_pos hwait]⟩
    · exact Or.inl ⟨hwait, by simpa using hpoll, by simpa using hexpired, h⟩
  · right
    rw [loop_settled hdrained hwait] at h
    obtain ⟨rfl, rfl⟩ := Prod.mk.inj (Option.some.inj h)
    exact ⟨fun hpending => absurd hpending hwait, rfl, by rw [if_neg hwait, Nat.add_zero]⟩

theorem loop_ends {rounds : List Round} {s s' : Supervision} {polls polls' : Nat}
    (h : loop isCancelled rounds s polls = some (s', polls')) :
    ∃ n last, Reaches isCancelled rounds polls n last ∧
      s' = ((rounds.take (n + 1)).foldl enter s).finish last (isCancelled (polls + n)) ∧
      polls' = polls + n + if last.waited.Pending then 1 else 0 := by
  induction rounds generalizing s polls with
  | nil => exact absurd h (by simp [loop])
  | cons r rest ih =>
    obtain ⟨hdrained, ⟨hwait, hpoll, hexpired, hrest⟩ | ⟨hends, hs, hpolls⟩⟩ := loop_cons h
    · obtain ⟨n, last, hreach, hs, hpolls⟩ := ih hrest
      refine ⟨n + 1, last, hreach.cons hdrained hwait hpoll hexpired, ?_, ?_⟩
      · rw [hs, Nat.add_right_comm polls 1 n]
        rfl
      · rw [hpolls, Nat.add_right_comm polls 1 n]
        rfl
    · exact ⟨0, r, reaches_zero hdrained hends, hs, hpolls⟩

theorem foldl_enter_result (rounds : List Round) (s : Supervision) :
    (rounds.foldl enter s).result = { s.result with
      output := readAvailable (rounds.flatMap Round.reads) s.result.output } := by
  induction rounds generalizing s with
  | nil => rfl
  | cons r rest ih =>
    rw [List.foldl_cons, ih, List.flatMap_cons, readAvailable, readAvailable, List.foldl_append]
    rfl

theorem foldl_enter_exited (rounds : List Round) (s : Supervision) :
    (rounds.foldl enter s).exited = s.exited := by
  induction rounds generalizing s with
  | nil => rfl
  | cons r rest ih => exact ih (s.enter r)

theorem wait_pending (s : Supervision) {answer : Waited} (h : answer.Pending) :
    (s.wait answer).status = s.status ∧ (s.Holds true → (s.wait answer).Holds true) := by
  obtain rfl | rfl := h
  · exact ⟨rfl, fun hs => hs.wait .running⟩
  · exact ⟨rfl, fun hs => hs.wait .interrupted⟩

theorem Holds.foldl_enter {rounds : List Round} (hpending : ∀ r ∈ rounds, r.waited.Pending)
    {s : Supervision} (h : s.Holds true) : (rounds.foldl enter s).Holds true := by
  induction rounds generalizing s with
  | nil => exact h
  | cons r rest ih =>
    have hfirst := (wait_pending (s.read r.reads) (hpending r List.mem_cons_self)).2
      (h.read r.reads)
    exact ih (fun q hq => hpending q (List.mem_cons_of_mem r hq)) hfirst

end Supervision

/-- How a child came to its end, in the order in which `LlamaCppBackend` asks. -/
inductive Outcome where
  | cancelled
  | timedOut
  | launchFailed (error : Bytes)
  | exited (code : Int)
deriving DecidableEq

def ProcessResult.outcome (r : ProcessResult) : Outcome :=
  if r.cancelled then .cancelled
  else if r.timedOut then .timedOut
  else if r.launchFailed then .launchFailed r.error
  else .exited r.exitCode

def Round.outcome (last : Round) (raised : Bool) : Outcome :=
  match last.waited with
  | .reaped status => .exited status.exitCode
  | .failed error => .launchFailed (text "waitpid failed: " ++ error)
  | _ => if raised then .cancelled else .timedOut

namespace Supervision

/-- `StopProcess` touches neither the result nor the flag of the loop. -/
theorem attemptLoop_result (terms : Nat → Waited) (s : Supervision) (attempt left : Nat) :
    (attemptLoop terms s attempt left).2.result = s.result ∧
      (attemptLoop terms s attempt left).2.exited = s.exited := by
  induction left generalizing s attempt with
  | zero => exact ⟨rfl, rfl⟩
  | succ left ih =>
    unfold attemptLoop
    split
    · exact ⟨rfl, rfl⟩
    · exact ⟨rfl, rfl⟩
    · exact ih _ _

theorem killLoop_result (killed : Except Bytes WaitStatus) (s : Supervision) (interrupts : Nat) :
    (killLoop killed s interrupts).result = s.result ∧
      (killLoop killed s interrupts).exited = s.exited := by
  induction interrupts generalizing s with
  | zero => cases killed <;> exact ⟨rfl, rfl⟩
  | succ interrupts ih => exact ih _

theorem stopProcess_result (c : Child) (s : Supervision) :
    (s.stopProcess c).result = s.result ∧ (s.stopProcess c).exited = s.exited := by
  have hattempts := attemptLoop_result c.terms (s.call (.signal .term)) 0 30
  unfold stopProcess
  simp only
  split
  · exact hattempts
  · have hkill := killLoop_result c.killed
      ((attemptLoop c.terms (s.call (.signal .term)) 0 30).2.call (.signal .kill)) c.interrupts
    exact ⟨hkill.1.trans hattempts.1, hkill.2.trans hattempts.2⟩

/-- The child is reaped, or the kernel has lost it. -/
def Freed (s : Supervision) : Prop := ∃ child, s.Holds child ∧ (child = true → Lost s.calls)

theorem Holds.freed {s : Supervision} (h : s.Holds true) {answer : Waited}
    (hanswer : ¬ answer.Pending) : (s.wait answer).Freed := by
  cases answer with
  | running => exact absurd (Or.inl rfl) hanswer
  | interrupted => exact absurd (Or.inr rfl) hanswer
  | reaped status => exact ⟨false, h.wait (.reaped status), by simp⟩
  | failed error => exact ⟨true, h.wait (.failed error), fun _ => lost_wait s error⟩

/-- After the attempts the child is free, or still there to be killed. -/
theorem attemptLoop_holds (terms : Nat → Waited) {s : Supervision} (h : s.Holds true)
    (attempt left : Nat) :
    if (attemptLoop terms s attempt left).1 then (attemptLoop terms s attempt left).2.Freed
    else (attemptLoop terms s attempt left).2.Holds true := by
  induction left generalizing s attempt with
  | zero => exact h
  | succ left ih =>
    unfold attemptLoop
    split
    · exact h.freed (by simp [Waited.Pending])
    · exact h.freed (by simp [Waited.Pending])
    · refine ih ?_ _
      cases hanswer : terms attempt with
      | running => exact h.wait .running
      | interrupted => exact h.wait .interrupted
      | _ => simp_all

theorem killLoop_freed (killed : Except Bytes WaitStatus) {s : Supervision} (h : s.Holds true)
    (interrupts : Nat) : (killLoop killed s interrupts).Freed := by
  induction interrupts generalizing s with
  | zero => cases killed <;> exact h.freed (by simp [Waited.Pending])
  | succ interrupts ih => exact ih (h.wait .interrupted)

theorem stopProcess_freed (c : Child) {s : Supervision} (h : s.Holds true) :
    (s.stopProcess c).Freed := by
  have hattempts := attemptLoop_holds c.terms (h.signal .term) 0 30
  unfold stopProcess
  simp only
  split_ifs at hattempts ⊢
  · exact hattempts
  · exact killLoop_freed c.killed (hattempts.signal .kill) c.interrupts

/-- No `SIGKILL` among the calls unless every attempt found the child running. -/
def Patient (c : Child) (s : Supervision) : Prop :=
  SysCall.signal .kill ∈ s.calls → ∀ attempt < 30, (c.terms attempt).Pending

theorem mem_wait {s : Supervision} {answer : Waited} :
    SysCall.signal .kill ∈ (s.wait answer).calls ↔ SysCall.signal .kill ∈ s.calls := by
  simp [wait, call]

theorem attemptLoop_patient (terms : Nat → Waited) (s : Supervision) (attempt left : Nat) :
    (SysCall.signal .kill ∈ (attemptLoop terms s attempt left).2.calls ↔
      SysCall.signal .kill ∈ s.calls) ∧
    ((attemptLoop terms s attempt left).1 = false →
      ∀ i, attempt ≤ i → i < attempt + left → (terms i).Pending) := by
  induction left generalizing s attempt with
  | zero => exact ⟨Iff.rfl, fun _ i hi hi' => absurd hi' (by omega)⟩
  | succ left ih =>
    unfold attemptLoop
    split
    · exact ⟨mem_wait, by simp⟩
    · exact ⟨mem_wait, by simp⟩
    · obtain ⟨hcalls, hpending⟩ := ih (s.wait (terms attempt)) (attempt + 1)
      refine ⟨hcalls.trans mem_wait, fun hleft i hi hi' => ?_⟩
      obtain rfl | hi := Nat.eq_or_lt_of_le hi
      · cases hanswer : terms attempt <;> simp_all [Waited.Pending]
      · exact hpending hleft i hi (by omega)

theorem stopProcess_patient (c : Child) {s : Supervision}
    (h : SysCall.signal .kill ∉ s.calls) : (s.stopProcess c).Patient c := by
  obtain ⟨hcalls, hpending⟩ := attemptLoop_patient c.terms (s.call (.signal .term)) 0 30
  have hterm : SysCall.signal .kill ∉ (s.call (.signal .term)).calls := by simpa [call] using h
  unfold stopProcess Patient
  simp only
  split_ifs with hreturns
  · exact fun hmem => absurd (hcalls.mp hmem) hterm
  · exact fun _ i hi => hpending (by simpa using hreturns) i (Nat.zero_le i) (by omega)

theorem foldl_enter_calls (rounds : List Round) (s : Supervision) :
    (rounds.foldl enter s).calls = s.calls ++ rounds.map fun r => SysCall.wait r.waited := by
  induction rounds generalizing s with
  | nil => exact (List.append_nil _).symm
  | cons r rest ih =>
    rw [List.foldl_cons, ih, List.map_cons]
    exact List.append_assoc s.calls [.wait r.waited] _

/-- What the function has done when its loop ends, up to the last answer of `waitpid`. -/
structure Ended (isCancelled : Nat → Bool) (rounds : List Round) (polls n : Nat) (last : Round)
    (s : Supervision) : Prop where
  calls : s.calls =
    [.pipe, .fork, .close .write] ++ (rounds.take (n + 1)).map fun r => SysCall.wait r.waited
  output : s.result.output = readAvailable ((rounds.take (n + 1)).flatMap Round.reads) []
  outcome : s.exited = false → ∀ exitCode output,
    ProcessResult.outcome { s.result with exitCode := exitCode, output := output } =
      last.outcome (isCancelled (polls + n))
  settled : ∀ status, last.waited = .reaped status → s.exited = true
  exited : s.exited = true → last.waited = .reaped s.status ∧ s.Holds false ∧
    ∀ exitCode output, ProcessResult.outcome { s.result with
      exitCode := exitCode, output := output } = .exited exitCode
  running : s.exited = false → s.Holds true

theorem loop_ended {rounds : List Round} {s : Supervision} {polls polls' : Nat}
    (h : loop isCancelled rounds {} polls = some (s, polls')) :
    ∃ n last, Reaches isCancelled rounds polls n last ∧
      Ended isCancelled rounds polls n last s ∧
      polls' = polls + n + if last.waited.Pending then 1 else 0 := by
  obtain ⟨n, last, hreach, rfl, hpolls⟩ := loop_ends h
  refine ⟨n, last, hreach, ?_, hpolls⟩
  obtain ⟨htake, hpending⟩ := hreach.take
  have hcalls := foldl_enter_calls (rounds.take (n + 1)) {}
  have hresult := foldl_enter_result (rounds.take (n + 1)) {}
  have hexited := foldl_enter_exited (rounds.take (n + 1)) {}
  -- the child is there when the last `waitpid` is called
  have hlast : ((rounds.take (n + 1)).foldl enter {}) =
      (((rounds.take n).foldl enter {}).read last.reads).wait last.waited := by
    rw [htake, List.foldl_append]
    rfl
  have hheld := (holds_start.foldl_enter hpending).read last.reads
  have hwait := hheld.wait last.waited
  rw [← hlast] at hwait
  have hstatus : ∀ status, last.waited = .reaped status →
      ((rounds.take (n + 1)).foldl enter {}).status = status := by
    intro status hstatus
    rw [hlast, hstatus]
    rfl
  generalize (rounds.take (n + 1)).foldl enter {} = t at hcalls hresult hexited hwait hstatus
  cases hwaited : last.waited with
  | reaped status =>
    rw [hwaited] at hwait
    simp only [finish, hwaited]
    refine ⟨hcalls, by rw [hresult], by simp, fun _ _ => rfl, fun _ => ⟨?_, hwait, ?_⟩, by simp⟩
    · exact hwaited.trans (congrArg Waited.reaped (hstatus status hwaited).symm)
    · rw [hresult]
      exact fun _ _ => rfl
  | failed error =>
    rw [hwaited] at hwait
    simp only [finish, hwaited]
    refine ⟨hcalls, by rw [hresult], fun _ _ _ => ?_, by simp [hwaited],
      by simp [hexited], fun _ => hwait⟩
    rw [hresult]
    simp [ProcessResult.outcome, Round.outcome, hwaited]
  | running =>
    rw [hwaited] at hwait
    simp only [finish, hwaited]
    split_ifs with hraised
    · refine ⟨hcalls, by rw [hresult], fun _ _ _ => ?_, by simp [hwaited],
      by simp [hexited], fun _ => hwait⟩
      simp [ProcessResult.outcome, Round.outcome, hwaited, hraised]
    · refine ⟨hcalls, by rw [hresult], fun _ _ _ => ?_, by simp [hwaited],
      by simp [hexited], fun _ => hwait⟩
      rw [hresult]
      simp [ProcessResult.outcome, Round.outcome, hwaited, hraised]
  | interrupted =>
    rw [hwaited] at hwait
    simp only [finish, hwaited]
    split_ifs with hraised
    · refine ⟨hcalls, by rw [hresult], fun _ _ _ => ?_, by simp [hwaited],
      by simp [hexited], fun _ => hwait⟩
      simp [ProcessResult.outcome, Round.outcome, hwaited, hraised]
    · refine ⟨hcalls, by rw [hresult], fun _ _ _ => ?_, by simp [hwaited],
      by simp [hexited], fun _ => hwait⟩
      rw [hresult]
      simp [ProcessResult.outcome, Round.outcome, hwaited, hraised]

/-- A round finds the deadline passed, and up to it every call of `ReadAvailable` returns. -/
def Expires (rounds : List Round) : Prop :=
  ∃ n r, rounds[n]? = some r ∧ r.expired = true ∧ ∀ q ∈ rounds.take (n + 1), q.drained = true

theorem loop_returns {rounds : List Round} (h : Expires rounds) (s : Supervision) (polls : Nat) :
    (loop isCancelled rounds s polls).isSome := by
  obtain ⟨n, last, hlast, hexpired, hdrained⟩ := h
  induction rounds generalizing s polls n with
  | nil => exact absurd hlast (by simp)
  | cons r rest ih =>
    obtain ⟨hfirst, hrest⟩ := List.forall_mem_cons.mp hdrained
    by_cases hwait : r.waited.Pending
    · rw [loop_pending hfirst hwait]
      split_ifs with hpoll hearly
      · rfl
      · rfl
      · cases n with
        | zero =>
          obtain rfl := Option.some.inj hlast
          exact absurd hexpired hearly
        | succ n => exact ih _ _ n hlast hrest
    · rw [loop_settled hfirst hwait]
      rfl

end Supervision

structure Launches (args : List Bytes) (c : Child) : Prop where
  args : args ≠ []
  pipe : c.pipeError = none
  fork : c.forkError = none

/-- What a call of `RunProcess` that launches a child has done by the time it returns: the loop
went up to round `n`. -/
structure Supervised (isCancelled : Nat → Bool) (c : Child) (polls n : Nat) (last : Round)
    (r : ProcessRun) : Prop where
  reaches : Reaches isCancelled c.rounds polls n last
  polled : r.polls = polls + n + if last.waited.Pending then 1 else 0
  outcome : r.result.outcome = last.outcome (isCancelled (polls + n))
  output : r.result.output = trimWhitespace
    ((received ((c.rounds.take (n + 1)).flatMap Round.reads ++ c.lastReads)).take
      maxCapturedOutputBytes)
  calls : ∃ child, run Host.step {} r.calls = some { child := child } ∧
    (child = true → Lost r.calls)
  kill : SysCall.signal .kill ∈ r.calls → ∀ attempt < 30, (c.terms attempt).Pending
  reaped : ∀ status, last.waited = .reaped status →
    run Host.step {} r.calls = some {} ∧ ∀ number, SysCall.signal number ∉ r.calls

namespace Supervision

def stopped (c : Child) (s : Supervision) : Supervision :=
  if s.exited then s else s.stopProcess c

theorem stopped_result (c : Child) (s : Supervision) : (s.stopped c).result = s.result := by
  unfold stopped
  split_ifs
  · rfl
  · exact (stopProcess_result c s).1

theorem conclude_calls (c : Child) (s : Supervision) :
    (s.conclude c).calls = (s.stopped c).calls ++ [.close .read] := rfl

theorem conclude_result (c : Child) (s : Supervision) :
    (s.conclude c).result = { s.result with
      exitCode := (s.stopped c).status.exitCode
      output := trimWhitespace (readAvailable c.lastReads s.result.output) } := by
  rw [← stopped_result c s]
  rfl

variable {c : Child} {polls n : Nat} {last : Round} {s : Supervision}

theorem Ended.conclude_outcome (h : Ended isCancelled c.rounds polls n last s) :
    (s.conclude c).result.outcome = last.outcome (isCancelled (polls + n)) := by
  rw [conclude_result]
  cases hexited : s.exited with
  | true =>
    obtain ⟨hlast, -, hcode⟩ := h.exited hexited
    rw [hcode, stopped, if_pos hexited, Round.outcome, hlast]
  | false => exact h.outcome hexited _ _

theorem Ended.conclude_output (h : Ended isCancelled c.rounds polls n last s) :
    (s.conclude c).result.output = trimWhitespace
      ((received ((c.rounds.take (n + 1)).flatMap Round.reads ++ c.lastReads)).take
        maxCapturedOutputBytes) := by
  have hall : readAvailable c.lastReads s.result.output =
      readAvailable ((c.rounds.take (n + 1)).flatMap Round.reads ++ c.lastReads) [] := by
    rw [h.output, readAvailable, readAvailable, readAvailable, List.foldl_append]
  rw [conclude_result]
  simp only
  rw [hall, readAvailable_eq _ (Nat.zero_le _), List.nil_append]

theorem Ended.freed (h : Ended isCancelled c.rounds polls n last s) : (s.stopped c).Freed := by
  unfold stopped
  split_ifs with hexited
  · exact ⟨false, (h.exited hexited).2.1, by simp⟩
  · exact stopProcess_freed c (h.running (by simpa using hexited))

theorem Ended.conclude_calls (h : Ended isCancelled c.rounds polls n last s) :
    ∃ child, run Host.step {} (s.conclude c).calls = some { child := child } ∧
      (child = true → Lost (s.conclude c).calls) := by
  obtain ⟨child, hholds, hlost⟩ := h.freed (c := c)
  refine ⟨child, (run_append _ _).mpr ⟨_, hholds, rfl⟩, fun hchild => Lost.append (hlost hchild) _⟩

theorem Ended.not_signaled (h : Ended isCancelled c.rounds polls n last s) (number : Signal) :
    SysCall.signal number ∉ s.calls := by
  rw [h.calls]
  simp [-List.map_take]

theorem Ended.patient (h : Ended isCancelled c.rounds polls n last s) :
    (s.stopped c).Patient c := by
  unfold stopped
  split_ifs
  · exact fun hmem => absurd hmem (h.not_signaled .kill)
  · exact stopProcess_patient c (h.not_signaled .kill)

/-- A child that ends by itself is reaped, and not signalled. -/
theorem Ended.reaped (h : Ended isCancelled c.rounds polls n last s) {status : WaitStatus}
    (hlast : last.waited = .reaped status) :
    run Host.step {} (s.conclude c).calls = some {} ∧
      ∀ number, SysCall.signal number ∉ (s.conclude c).calls := by
  have hexited := h.settled status hlast
  rw [Supervision.conclude_calls, stopped, if_pos hexited]
  refine ⟨(run_append _ _).mpr ⟨_, (h.exited hexited).2.1, rfl⟩, fun number => ?_⟩
  simpa using h.not_signaled number

end Supervision

/-- The child is found past its deadline, and no call of `ReadAvailable` is held by a full pipe. -/
structure Child.Expires (c : Child) : Prop where
  rounds : Supervision.Expires c.rounds
  last : c.lastDrained = true

theorem runProcess_returns {args : List Bytes} {c : Child} (hlaunch : Launches args c)
    (hexpires : c.Expires) (polls : Nat) : (runProcess isCancelled args c polls).isSome := by
  obtain ⟨hargs, hpipe, hfork⟩ := hlaunch
  obtain ⟨ended, hloop⟩ := Option.isSome_iff_exists.mp
    (@Supervision.loop_returns isCancelled _ hexpires.rounds {} polls)
  simp [runProcess, hargs, hpipe, hfork, hloop, hexpires.last]

theorem runProcess_ended {args : List Bytes} {c : Child} (hlaunch : Launches args c) {polls : Nat}
    {r : ProcessRun} (h : runProcess isCancelled args c polls = some r) :
    ∃ n last, Supervised isCancelled c polls n last r := by
  obtain ⟨hargs, hpipe, hfork⟩ := hlaunch
  simp only [runProcess, if_neg hargs, hpipe, hfork] at h
  obtain ⟨⟨s, polls'⟩, hloop, hlast⟩ := Option.bind_eq_some_iff.mp h
  split_ifs at hlast
  obtain rfl := Option.some.inj hlast
  obtain ⟨n, last, hreach, hended, hpolls⟩ := Supervision.loop_ended hloop
  refine ⟨n, last, hreach, hpolls, hended.conclude_outcome, hended.conclude_output,
    hended.conclude_calls, fun hmem => hended.patient ?_, fun status hlast => hended.reaped hlast⟩
  simpa [Supervision.conclude_calls] using hmem

/-- Whatever the system answers: `RunProcess` returns once a round finds the deadline passed,
unless the child keeps the pipe full and holds a call of `ReadAvailable`; and when it returns, its
child is reaped unless the kernel has lost it, both ends of the pipe are closed, no call came out
of turn, and the result tells how the loop ended and what the child wrote first. -/
theorem runProcess_supervised (isCancelled : Nat → Bool) {args : List Bytes} {c : Child}
    (hlaunch : Launches args c) (polls : Nat) :
    (c.Expires → (runProcess isCancelled args c polls).isSome) ∧
    ∀ r, runProcess isCancelled args c polls = some r →
      ∃ n last, Supervised isCancelled c polls n last r :=
  ⟨fun hexpires => runProcess_returns hlaunch hexpires polls,
    fun _ h => runProcess_ended hlaunch h⟩

/-- A child that writes, ignores `SIGTERM` past its deadline and is killed. -/
theorem runProcess_killed :
    let c : Child :=
      { rounds := [{ reads := [.data 104 [105]] }, { expired := true }], interrupts := 1 }
    ∃ r, runProcess (fun _ => false) [text "llama-cli"] c 0 = some r ∧
      (∃ n last, Supervised (fun _ => false) c 0 n last r) ∧
      r.result.outcome = .timedOut ∧ r.result.output = text "hi" ∧ r.result.exitCode = 137 ∧
      run Host.step {} r.calls = some {} := by
  intro c
  have hlaunch : Launches [text "llama-cli"] c := ⟨by simp, rfl, rfl⟩
  obtain ⟨hreturns, htells⟩ := runProcess_supervised (fun _ => false) hlaunch 0
  obtain ⟨r, hr⟩ := Option.isSome_iff_exists.mp (hreturns ⟨⟨1, _, rfl, rfl, by simp [c]⟩, rfl⟩)
  have hvalue : (runProcess (fun _ => false) [text "llama-cli"] c 0).map (fun r =>
      (r.result.outcome, r.result.output, r.result.exitCode, run Host.step {} r.calls)) =
        some (.timedOut, text "hi", 137, some {}) := by decide +kernel
  rw [hr] at hvalue
  obtain ⟨houtcome, hrest⟩ := Prod.mk.inj (Option.some.inj hvalue)
  obtain ⟨houtput, hrest⟩ := Prod.mk.inj hrest
  obtain ⟨hcode, hcalls⟩ := Prod.mk.inj hrest
  exact ⟨r, hr, htells r hr, houtcome, houtput, hcode, hcalls⟩

end Laminar.Llama
