import Laminar.Backend.AllOrNothing
import Laminar.Llama.Supervision

/-! `LlamaCppBackend` of `backend/inference_backend.cc`: one `llama-cli` process for each request
of a batch. What the file system says of its two paths is an input, as are the processes. -/
namespace Laminar.Backend
open Laminar.Llama Laminar.Polling Laminar.Transition

/-- The members of `LlamaCppBackend`; `temperature` is the text of the clamped temperature with
three decimals. -/
structure LlamaCppBackend where
  binaryPath : Bytes
  modelPath : Bytes
  maxTokens : Clamped 1 4096
  contextSize : Clamped 128 262144
  threads : Clamped 0 1024
  temperature : Bytes
  timeoutMs : Clamped 100 (10 * 60 * 1000)

theorem maxTokens_range : (1 : Int) ≤ 4096 := by decide

theorem threads_range : (0 : Int) ≤ 1024 := by decide

def llamaCppBackend (binaryPath modelPath : Bytes) (maxTokens contextSize threads : Int)
    (temperature : Bytes) (timeoutMs : Int) : LlamaCppBackend :=
  { binaryPath := binaryPath
    modelPath := modelPath
    maxTokens := clamp maxTokens 1 4096 maxTokens_range
    contextSize := clamp contextSize 128 262144 (by omega)
    threads := clamp threads 0 1024 threads_range
    temperature := temperature
    timeoutMs := clamp timeoutMs 100 (10 * 60 * 1000) (by omega) }

def containsPathSeparator (path : Bytes) : Bool := path.contains 47

def basename (path : Bytes) : Bytes := (path.reverse.takeWhile (· ≠ 47)).reverse

structure CppRequest where
  request : BackendRequest
  child : Child
  durationMicros : Int := 0

structure CppFiles where
  modelExists : Bool
  binaryExecutable : Bool

structure CppOutcome where
  result : BackendResult := {}
  calls : List SysCall := []
  polls : Nat
deriving DecidableEq

namespace LlamaCppBackend

def buildLlamaCppCommand (b : LlamaCppBackend) (prompt : Bytes) : List Bytes :=
  [b.binaryPath, text "-m", b.modelPath, text "-p", prompt,
    text "-n", decimal b.maxTokens.val, text "-c", decimal b.contextSize.val,
    text "--temp", b.temperature, text "--no-display-prompt", text "--no-show-timings"] ++
    if b.threads.val > 0 then [text "-t", decimal b.threads.val] else []

def formatLlamaCppOutput (b : LlamaCppBackend) (generated : Bytes)
    (promptChars durationMicros batchSize : Int) : Bytes :=
  text "LlamaCpp(backend=llama_cpp, generated='" ++ escapeSingleQuoted generated ++
    text "', prompt_chars=" ++ decimal promptChars ++
    text ", generated_chars=" ++ decimal generated.length ++
    text ", duration_micros=" ++ decimal durationMicros ++
    text ", batch_size=" ++ decimal batchSize ++
    text ", model='" ++ escapeSingleQuoted (basename b.modelPath) ++ text "'" ++
    text ", max_tokens=" ++ decimal b.maxTokens.val ++
    text ", ctx_size=" ++ decimal b.contextSize.val ++
    text ", threads=" ++ decimal b.threads.val ++
    text ", temperature=" ++ b.temperature ++ text ")"

def exitMessage (process : ProcessResult) : Bytes :=
  text "llama.cpp command exited with code " ++ decimal process.exitCode ++
    if process.output = [] then [] else text ": " ++ collapseWhitespace process.output

def judgeProcess (b : LlamaCppBackend) (process : ProcessResult) : Option BackendResult :=
  if process.cancelled then some cancelledResult
  else if process.timedOut then
    some (unavailableResult (text "llama.cpp command timed out after " ++
      decimal b.timeoutMs.val ++ text "ms"))
  else if process.launchFailed then
    some (unavailableResult (text "failed to launch llama.cpp command: " ++ process.error))
  else if process.exitCode ≠ 0 then some (unavailableResult (exitMessage process))
  else none

def output (b : LlamaCppBackend) (batchSize : Nat) (q : CppRequest) (process : ProcessResult) :
    Bytes :=
  b.formatLlamaCppOutput (collapseWhitespace process.output) q.request.prompt.length
    q.durationMicros batchSize

/-- The loop of `ProcessBatch` over the requests; nothing while a `RunProcess` does not return. -/
def processRequests (b : LlamaCppBackend) (isCancelled : Nat → Bool) (batchSize : Nat) :
    List CppRequest → CppOutcome → Option CppOutcome
  | [], out => some out
  | q :: rest, out =>
    if isCancelled out.polls then
      some { out with result := cancelledResult, polls := out.polls + 1 }
    else
      match runProcess isCancelled (b.buildLlamaCppCommand q.request.prompt) q.child
          (out.polls + 1) with
      | none => none
      | some r =>
        let out := { out with calls := out.calls ++ r.calls, polls := r.polls }
        match b.judgeProcess r.result with
        | some result => some { out with result := result }
        | none =>
          b.processRequests isCancelled batchSize rest
            { out with result := { out.result with
              outputs := out.result.outputs ++ [b.output batchSize q r.result] } }

def processBatch (b : LlamaCppBackend) (files : CppFiles) (isCancelled : Nat → Bool)
    (requests : List CppRequest) : Option CppOutcome :=
  if isCancelled 0 then some { result := cancelledResult, polls := 1 }
  else if b.modelPath = [] then
    some
      { result := unavailableResult
          (text "LAMINAR_LLAMA_CPP_MODEL is required for llama_cpp backend")
        polls := 1 }
  else if !files.modelExists then
    some
      { result := unavailableResult (text "llama.cpp model not found at " ++ b.modelPath)
        polls := 1 }
  else if containsPathSeparator b.binaryPath && !files.binaryExecutable then
    some
      { result := unavailableResult
          (text "llama.cpp binary is not executable at " ++ b.binaryPath)
        polls := 1 }
  else b.processRequests isCancelled requests.length requests { polls := 1 }

end LlamaCppBackend

def Succeeds (isCancelled : Nat → Bool) (c : Child) (polls : Nat) (r : ProcessRun) : Prop :=
  ∃ n last, Supervised isCancelled c polls n last r ∧ last.waited = .reaped (.exited 0)

def LlamaCppBackend.Answers (b : LlamaCppBackend) (isCancelled : Nat → Bool) (batchSize : Nat)
    (q : CppRequest) (output : Bytes) : Prop :=
  ∃ polls r, runProcess isCancelled (b.buildLlamaCppCommand q.request.prompt) q.child polls =
      some r ∧ Succeeds isCancelled q.child polls r ∧ output = b.output batchSize q r.result

variable {isCancelled : Nat → Bool} {args : List Bytes} {c : Child} {polls : Nat} {r : ProcessRun}

/-- A process that never came to be leaves nothing behind. -/
theorem runProcess_failed (hlaunch : ¬ Launches args c)
    (h : runProcess isCancelled args c polls = some r) :
    (∃ error, r.result.outcome = .launchFailed error) ∧ r.polls = polls ∧
      run Host.step {} r.calls = some {} := by
  unfold runProcess at h
  by_cases hargs : args = []
  · rw [if_pos hargs] at h
    obtain rfl := Option.some.inj h
    exact ⟨⟨_, rfl⟩, rfl, rfl⟩
  · rw [if_neg hargs] at h
    cases hpipe : c.pipeError with
    | some error =>
      simp only [hpipe, Option.some.injEq] at h
      obtain rfl := h
      exact ⟨⟨_, rfl⟩, rfl, rfl⟩
    | none =>
      cases hfork : c.forkError with
      | some error =>
        simp only [hpipe, hfork, Option.some.injEq] at h
        obtain rfl := h
        exact ⟨⟨_, rfl⟩, rfl, rfl⟩
      | none => exact absurd ⟨hargs, hpipe, hfork⟩ hlaunch

theorem runProcess_calls (h : runProcess isCancelled args c polls = some r) :
    ∃ child, run Host.step {} r.calls = some { child := child } ∧
      (child = true → Lost r.calls) := by
  by_cases hlaunch : Launches args c
  · obtain ⟨n, last, hsupervised⟩ := runProcess_ended hlaunch h
    exact hsupervised.calls
  · exact ⟨false, (runProcess_failed hlaunch h).2.2, by simp⟩

/-- Only a cancelled process has seen a poll answered true. -/
theorem runProcess_raised (h : runProcess isCancelled args c polls = some r)
    (hraised : Raised isCancelled polls r.polls) : r.result.outcome = .cancelled := by
  by_cases hlaunch : Launches args c
  · obtain ⟨n, last, hs⟩ := runProcess_ended hlaunch h
    obtain ⟨k, hk, hk', hpoll⟩ := hraised
    rw [hs.polled] at hk'
    have hlate : ¬ k < polls + n := by
      intro hlt
      have hround := hs.reaches.round (show k - polls < n by omega)
      rw [Nat.add_sub_cancel' hk] at hround
      rw [hround] at hpoll
      exact absurd hpoll (by simp)
    split_ifs at hk' with hpending
    · obtain rfl : k = polls + n := by omega
      rw [hs.outcome, Round.outcome, hpoll]
      obtain hwaited | hwaited := hpending <;> rw [hwaited] <;> rfl
    · exact absurd hk' (by omega)
  · rw [(runProcess_failed hlaunch h).2.1] at hraised
    exact absurd hraised (not_raised_self isCancelled polls)

/-- A process that is told to have exited with 0 succeeded. -/
theorem runProcess_succeeds (h : runProcess isCancelled args c polls = some r)
    (hcode : r.result.outcome = .exited 0) : Succeeds isCancelled c polls r := by
  by_cases hlaunch : Launches args c
  · obtain ⟨n, last, hs⟩ := runProcess_ended hlaunch h
    refine ⟨n, last, hs, ?_⟩
    rw [hs.outcome, Round.outcome] at hcode
    cases hwaited : last.waited with
    | reaped status =>
      rw [hwaited] at hcode
      cases status with
      | exited code => simpa [WaitStatus.exitCode] using hcode
      | signaled signal =>
        simp only [WaitStatus.exitCode, Outcome.exited.injEq] at hcode
        omega
    | failed error => simp [hwaited] at hcode
    | running => split_ifs at hcode <;> simp [hwaited] at hcode
    | interrupted => split_ifs at hcode <;> simp [hwaited] at hcode
  · obtain ⟨⟨error, herror⟩, -⟩ := runProcess_failed hlaunch h
    rw [herror] at hcode
    exact absurd hcode (by simp)

theorem runProcess_isSome (hexpires : c.Expires) :
    (runProcess isCancelled args c polls).isSome := by
  by_cases hlaunch : Launches args c
  · exact runProcess_returns hlaunch hexpires polls
  · unfold runProcess
    by_cases hargs : args = []
    · rw [if_pos hargs]
      rfl
    · rw [if_neg hargs]
      cases hpipe : c.pipeError with
      | some error => rfl
      | none =>
        cases hfork : c.forkError with
        | some error => rfl
        | none => exact absurd ⟨hargs, hpipe, hfork⟩ hlaunch

namespace LlamaCppBackend
variable {b : LlamaCppBackend}

/-- A process ends the batch unless it exited with 0, and then without an output. -/
theorem judgeProcess_spec (b : LlamaCppBackend) (process : ProcessResult) :
    match b.judgeProcess process with
    | none => process.outcome = .exited 0
    | some result => result.outputs = [] ∧ result.outputMetadata = [] ∧ result.code ≠ .ok ∧
        (process.outcome = .cancelled → result.code = .cancelled) := by
  unfold judgeProcess ProcessResult.outcome
  split_ifs with hcancelled htimedOut hfailed hcode
  · exact ⟨rfl, rfl, by simp [cancelledResult], fun _ => rfl⟩
  · exact ⟨rfl, rfl, by simp [unavailableResult], by simp⟩
  · exact ⟨rfl, rfl, by simp [unavailableResult], by simp⟩
  · exact ⟨rfl, rfl, by simp [unavailableResult], by simp⟩
  · simpa using hcode

structure Settled (b : LlamaCppBackend) (isCancelled : Nat → Bool) (batchSize : Nat)
    (requests : List CppRequest) (out : CppOutcome) : Prop where
  calls : ∃ child, run Host.step {} out.calls = some { child := child } ∧
    (child = true → Lost out.calls)
  answers : (out.result.code = .ok ∧
      List.Forall₂ (b.Answers isCancelled batchSize) requests out.result.outputs ∧
      ¬ Raised isCancelled 0 out.polls) ∨
    (out.result.code ≠ .ok ∧ out.result.outputs = [] ∧
      (Raised isCancelled 0 out.polls → out.result.code = .cancelled))
  metadata : out.result.outputMetadata = []

structure Between (b : LlamaCppBackend) (isCancelled : Nat → Bool) (batchSize : Nat)
    (answered : List CppRequest) (out : CppOutcome) : Prop where
  calls : run Host.step {} out.calls = some {}
  code : out.result.code = .ok
  outputs : List.Forall₂ (b.Answers isCancelled batchSize) answered out.result.outputs
  metadata : out.result.outputMetadata = []
  quiet : ¬ Raised isCancelled 0 out.polls

theorem Between.raised {batchSize polls : Nat} {answered : List CppRequest} {out : CppOutcome}
    (h : b.Between isCancelled batchSize answered out) (hpoll : isCancelled out.polls ≠ true)
    (hraised : Raised isCancelled 0 polls) : Raised isCancelled (out.polls + 1) polls := by
  obtain ⟨k, -, hk, hk'⟩ := hraised
  refine ⟨k, ?_, hk, hk'⟩
  by_contra hlt
  obtain rfl | hlt : k = out.polls ∨ k < out.polls := by omega
  · exact hpoll hk'
  · exact h.quiet ⟨k, Nat.zero_le k, hlt, hk'⟩

theorem Between.succeeds {batchSize : Nat} {answered : List CppRequest} {out : CppOutcome}
    (h : b.Between isCancelled batchSize answered out) (hpoll : isCancelled out.polls ≠ true)
    {q : CppRequest} {r : ProcessRun}
    (hr : runProcess isCancelled (b.buildLlamaCppCommand q.request.prompt) q.child
      (out.polls + 1) = some r) (hcode : r.result.outcome = .exited 0) :
    b.Between isCancelled batchSize (answered ++ [q])
      { result := { out.result with
          outputs := out.result.outputs ++ [b.output batchSize q r.result] }
        calls := out.calls ++ r.calls
        polls := r.polls } := by
  have hsucceeds := runProcess_succeeds hr hcode
  obtain ⟨n, last, hs, hlast⟩ := hsucceeds
  refine ⟨(run_append _ _).mpr ⟨_, h.calls, (hs.reaped _ hlast).1⟩, h.code, ?_, h.metadata,
    fun hraised => ?_⟩
  · refine List.rel_append h.outputs (List.Forall₂.cons ?_ .nil)
    exact ⟨_, r, hr, ⟨n, last, hs, hlast⟩, rfl⟩
  · rw [runProcess_raised hr (h.raised hpoll hraised)] at hcode
    exact absurd hcode (by simp)

theorem processRequests_settled {batchSize : Nat} {answered rest : List CppRequest}
    {out out' : CppOutcome} (hout : b.Between isCancelled batchSize answered out)
    (h : b.processRequests isCancelled batchSize rest out = some out') :
    b.Settled isCancelled batchSize (answered ++ rest) out' := by
  induction rest generalizing answered out with
  | nil =>
    obtain rfl := Option.some.inj h
    rw [List.append_nil]
    exact ⟨⟨false, hout.calls, by simp⟩, Or.inl ⟨hout.code, hout.outputs, hout.quiet⟩,
      hout.metadata⟩
  | cons q rest ih =>
    unfold processRequests at h
    split_ifs at h with hpoll
    · obtain rfl := Option.some.inj h
      exact ⟨⟨false, hout.calls, by simp⟩,
        Or.inr ⟨by simp [cancelledResult], rfl, fun _ => rfl⟩, rfl⟩
    · cases hr : runProcess isCancelled (b.buildLlamaCppCommand q.request.prompt) q.child
          (out.polls + 1) with
      | none => simp [hr] at h
      | some r =>
        have hjudge := b.judgeProcess_spec r.result
        cases hresult : b.judgeProcess r.result with
        | none =>
          simp only [hr, hresult] at h hjudge
          have hrest := ih (hout.succeeds hpoll hr hjudge) h
          rwa [List.append_assoc] at hrest
        | some result =>
          simp only [hr, hresult, Option.some.injEq] at h hjudge
          obtain rfl := h
          obtain ⟨houtputs, hmetadata, hcode, hcancelled⟩ := hjudge
          obtain ⟨child, hcalls, hlost⟩ := runProcess_calls hr
          refine ⟨⟨child, (run_append _ _).mpr ⟨_, hout.calls, hcalls⟩, fun hchild => ?_⟩,
            Or.inr ⟨hcode, houtputs, fun hraised => hcancelled ?_⟩, hmetadata⟩
          · obtain ⟨error, hmem⟩ := hlost hchild
            exact ⟨error, List.mem_append_right _ hmem⟩
          · exact runProcess_raised hr (hout.raised hpoll hraised)

theorem processRequests_isSome {batchSize : Nat} {rest : List CppRequest}
    (hexpires : ∀ q ∈ rest, q.child.Expires) (out : CppOutcome) :
    (b.processRequests isCancelled batchSize rest out).isSome := by
  induction rest generalizing out with
  | nil => rfl
  | cons q rest ih =>
    unfold processRequests
    split_ifs with hpoll
    · rfl
    · have hprocess : (runProcess isCancelled (b.buildLlamaCppCommand q.request.prompt) q.child
          (out.polls + 1)).isSome := runProcess_isSome (hexpires q List.mem_cons_self)
      obtain ⟨r, hr⟩ := Option.isSome_iff_exists.mp hprocess
      simp only [hr]
      split
      · rfl
      · exact ih (fun q hq => hexpires q (List.mem_cons_of_mem _ hq)) _

theorem processBatch_outcome {b : LlamaCppBackend} {files : CppFiles} {isCancelled : Nat → Bool}
    {requests : List CppRequest} {out : CppOutcome}
    (h : b.processBatch files isCancelled requests = some out) :
    b.Settled isCancelled requests.length requests out := by
  have hrefused : ∀ message polls, ¬ Raised isCancelled 0 polls →
      b.Settled isCancelled requests.length requests
        { result := unavailableResult message, polls := polls } := fun message polls hquiet =>
    ⟨⟨false, rfl, by simp⟩,
      Or.inr ⟨by simp [unavailableResult], rfl, fun hraised => absurd hraised hquiet⟩, rfl⟩
  have hquiet : isCancelled 0 ≠ true → ¬ Raised isCancelled 0 1 := fun hpoll hraised =>
    hpoll ((raised_one isCancelled 0).mp hraised)
  unfold processBatch at h
  split_ifs at h with hpoll
  · obtain rfl := Option.some.inj h
    exact ⟨⟨false, rfl, by simp⟩, Or.inr ⟨by simp [cancelledResult], rfl, fun _ => rfl⟩, rfl⟩
  · obtain rfl := Option.some.inj h
    exact hrefused _ 1 (hquiet hpoll)
  · obtain rfl := Option.some.inj h
    exact hrefused _ 1 (hquiet hpoll)
  · obtain rfl := Option.some.inj h
    exact hrefused _ 1 (hquiet hpoll)
  · have hnone : b.Between isCancelled requests.length [] { polls := 1 } :=
      ⟨rfl, rfl, .nil, rfl, hquiet hpoll⟩
    exact processRequests_settled hnone h

/-- Whatever the processes of a batch do: the batch returns once each is found past its deadline,
unless one keeps its pipe full and holds a call of `ReadAvailable`; it has one process at a time,
leaves none behind unless the kernel loses it, and answers every request with what its process
wrote before it exited with 0, or no request at all. -/
theorem processBatch_settled (b : LlamaCppBackend) (files : CppFiles) (isCancelled : Nat → Bool)
    (requests : List CppRequest) :
    ((∀ q ∈ requests, q.child.Expires) →
      (b.processBatch files isCancelled requests).isSome) ∧
    ∀ out, b.processBatch files isCancelled requests = some out →
      b.Settled isCancelled requests.length requests out := by
  refine ⟨fun hexpires => ?_, fun out h => processBatch_outcome h⟩
  unfold processBatch
  split_ifs
  · rfl
  · rfl
  · rfl
  · rfl
  · exact processRequests_isSome hexpires _

end LlamaCppBackend

end Laminar.Backend
