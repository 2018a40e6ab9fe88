import Laminar.Backend.Continuous
import Laminar.Scheduler.CutShort

/-! A batch is answered whole or not at all, with one exception: the continuous backend returns
what it has got so far when it comes to a request that the scheduler rejected. -/
namespace Laminar.Backend
open Laminar.Llama Laminar.Polling Laminar.Scheduler

/-- One output for each request and no poll answered true, or no output at all. -/
def AllOrNothing (answers : BackendRequest → Bytes → Prop) (requests : List BackendRequest)
    (isCancelled : Nat → Bool) (out : BackendResult × Nat) : Prop :=
  (out.1.code = .ok ∧ List.Forall₂ answers requests out.1.outputs ∧
      (out.1.outputMetadata = [] ∨ out.1.outputMetadata.length = requests.length) ∧
      ¬ Raised isCancelled 0 out.2) ∨
    (out.1.code ≠ .ok ∧ out.1.outputs = [] ∧ out.1.outputMetadata = [] ∧
      (Raised isCancelled 0 out.2 → out.1.code = .cancelled))

theorem AllOrNothing.cancelled (answers : BackendRequest → Bytes → Prop)
    (requests : List BackendRequest) (isCancelled : Nat → Bool) (polls : Nat) :
    AllOrNothing answers requests isCancelled (cancelledResult, polls) :=
  Or.inr ⟨nofun, rfl, rfl, fun _ => rfl⟩

theorem outcome_raised {x : Polling BackendResult} {result : BackendResult} {n : Nat}
    (h : Yields x result n) {isCancelled : Nat → Bool} {polls : Nat}
    (hraised : Raised isCancelled polls (polls + n)) :
    ∃ last, outcome isCancelled x polls = (cancelledResult, last) := by
  refine ⟨(x isCancelled polls).2, ?_⟩
  rw [outcome, h.raised isCancelled polls hraised, Option.getD_none]

theorem outcome_quiet {x : Polling BackendResult} {result : BackendResult} {n : Nat}
    (h : Yields x result n) {isCancelled : Nat → Bool} {polls : Nat}
    (hquiet : ¬ Raised isCancelled polls (polls + n)) :
    outcome isCancelled x polls = (result, polls + n) := by
  rw [outcome, h.quiet isCancelled polls hquiet, Option.getD_some]

/-- A backend whose every early exit gives up answers all or nothing. -/
theorem Yields.allOrNothing {x : Polling BackendResult} {outputs : List Bytes} {n : Nat}
    (h : Yields x { outputs := outputs } n) {answers : BackendRequest → Bytes → Prop}
    {requests : List BackendRequest} (hanswers : List.Forall₂ answers requests outputs)
    (isCancelled : Nat → Bool) :
    AllOrNothing answers requests isCancelled (outcome isCancelled x 0) := by
  by_cases hraised : Raised isCancelled 0 (0 + n)
  · obtain ⟨last, hlast⟩ := outcome_raised h hraised
    rw [hlast]
    exact AllOrNothing.cancelled answers requests isCancelled last
  · rw [outcome_quiet h hraised]
    exact Or.inl ⟨rfl, hanswers, Or.inl rfl, hraised⟩

theorem waitLoop_yields (remainingLatencyMs : Int) :
    ∃ n, Yields (waitLoop remainingLatencyMs) () n := by
  induction remainingLatencyMs using waitLoop.induct with
  | case1 remaining hpos ih =>
    obtain ⟨n, hn⟩ := ih
    rw [waitLoop, if_pos hpos]
    exact ⟨1 + n, Yields.poll.bind hn⟩
  | case2 remaining hpos =>
    rw [waitLoop, if_neg hpos]
    exact ⟨0, Yields.pure ()⟩

theorem SimulatorBackend.processBatch_yields (b : SimulatorBackend)
    (requests : List BackendRequest) :
    ∃ n, Yields (b.processBatch requests)
      { outputs := requests.map (b.format requests.length) } n := by
  obtain ⟨n, hn⟩ := waitLoop_yields (b.totalLatencyMs requests.length)
  exact ⟨_, hn.bind (Yields.poll.bind (Yields.pure _))⟩

section
variable {Hidden : Type} (floats : TinyTextFloats Hidden)

/-- The output for a prompt when no poll answers true. -/
def TinyTextModelBackend.output (b : TinyTextModelBackend) (batchSize : Nat)
    (request : BackendRequest) : Bytes :=
  let best := floats.classify
    ((List.range b.iterations.val.toNat).foldl floats.layer (floats.hidden request.prompt))
  formatTinyModelOutput (text labels[best.1]) best.2 batchSize b.iterations.val

theorem TinyTextModelBackend.answer_yields (b : TinyTextModelBackend) (batchSize : Nat)
    (request : BackendRequest) :
    ∃ n, Yields (b.answer floats batchSize request) (b.output floats batchSize request) n := by
  have hlayers := Yields.pollLoop floats.layer (List.range b.iterations.val.toNat)
    (floats.hidden request.prompt)
  exact ⟨_, Yields.poll.bind (hlayers.bind (Yields.pure _))⟩

theorem TinyTextModelBackend.processBatch_yields (b : TinyTextModelBackend)
    (requests : List BackendRequest) :
    ∃ n, Yields (b.processBatch floats requests)
      { outputs := requests.map (b.output floats requests.length) } n := by
  obtain ⟨n, hn⟩ := Yields.mapM requests
    (fun request _ => b.answer_yields floats requests.length request)
  exact ⟨_, Yields.poll.bind (hn.bind (Yields.pure _))⟩

end

section
variable {Temperature Hidden : Type} (floats : TinyLLMFloats Temperature Hidden)
  (b : TinyLLMBackend Temperature)

def prefilled (tokenIds : List (Fin 64)) : List Hidden :=
  tokenIds.foldl (fun states tokenId =>
    states ++ [floats.nextState tokenId states.length states]) []

def decoded (prompt : Bytes) : Decoding Hidden :=
  (List.range b.maxGeneratedTokens.val.toNat).foldl
    (Decoding.next floats b (hashToken prompt))
    { tokenIds := tokenizeForTinyLLM prompt,
      states := prefilled floats (tokenizeForTinyLLM prompt) }

theorem tokenizeForTinyLLM_ne_nil (prompt : Bytes) : tokenizeForTinyLLM prompt ≠ [] := by
  rw [tokenizeForTinyLLM]
  split_ifs <;> simp

theorem prefilled_ne_nil (prompt : Bytes) : prefilled floats (tokenizeForTinyLLM prompt) ≠ [] := by
  have hgrows : ∀ (tokenIds : List (Fin 64)) (states : List Hidden),
      states.length ≤ (tokenIds.foldl (fun states tokenId =>
        states ++ [floats.nextState tokenId states.length states]) states).length := by
    intro tokenIds
    induction tokenIds with
    | nil => exact fun states => Nat.le_refl _
    | cons tokenId rest ih =>
      intro states
      have hrest := ih (states ++ [floats.nextState tokenId states.length states])
      rw [List.length_append] at hrest
      rw [List.foldl_cons]
      omega
  obtain ⟨tokenId, rest, h⟩ := List.exists_cons_of_ne_nil (tokenizeForTinyLLM_ne_nil prompt)
  have hone := hgrows rest ([] ++ [floats.nextState tokenId 0 []])
  rw [prefilled, h, List.foldl_cons, ← List.length_pos_iff]
  exact Nat.lt_of_lt_of_le Nat.zero_lt_one hone

/-- Each round of the decode loop generates one token. -/
theorem decode_grows (seed : UInt32) (steps : List Nat) {d : Decoding Hidden} (h : d.states ≠ []) :
    (steps.foldl (Decoding.next floats b seed) d).generatedIds.length =
        d.generatedIds.length + steps.length ∧
      (steps.foldl (Decoding.next floats b seed) d).tokenIds.length =
        d.tokenIds.length + steps.length := by
  induction steps generalizing d with
  | nil => exact ⟨rfl, rfl⟩
  | cons step rest ih =>
    obtain ⟨state, hstate⟩ := Option.isSome_iff_exists.mp (List.getLast?_isSome.mpr h)
    have hnext : (d.next floats b seed step).generatedIds.length = d.generatedIds.length + 1 ∧
        (d.next floats b seed step).tokenIds.length = d.tokenIds.length + 1 ∧
        (d.next floats b seed step).states ≠ [] := by
      simp [Decoding.next, hstate]
    obtain ⟨hgenerated, htokens⟩ := ih hnext.2.2
    rw [List.foldl_cons, hgenerated, htokens, hnext.1, hnext.2.1, List.length_cons]
    omega

theorem decoded_length (prompt : Bytes) :
    (decoded floats b prompt).generatedIds.length = b.maxGeneratedTokens.val.toNat ∧
      (decoded floats b prompt).tokenIds.length =
        (tokenizeForTinyLLM prompt).length + b.maxGeneratedTokens.val.toNat := by
  have hgrows := decode_grows floats b (hashToken prompt)
    (List.range b.maxGeneratedTokens.val.toNat)
    (d := { tokenIds := tokenizeForTinyLLM prompt
            states := prefilled floats (tokenizeForTinyLLM prompt) })
    (prefilled_ne_nil floats prompt)
  simpa only [decoded, List.length_nil, Nat.zero_add, List.length_range] using hgrows

/-- What comes after the prefill: it must end in nothing where the prefill left no state. -/
theorem Yields.afterPrefill {α : Type} {f : List Hidden → Polling α} {a : α} {n : Nat}
    (prompt : Bytes) (hf : Yields (f (prefilled floats (tokenizeForTinyLLM prompt))) a n)
    (hempty : GivesUp (f [])) :
    Yields (tinyLLMPrefill floats (tokenizeForTinyLLM prompt) >>= f) a
      ((tokenizeForTinyLLM prompt).length + n) := by
  have hprefill := Yields.pollLoop
    (fun states tokenId => states ++ [floats.nextState tokenId states.length states])
    (tokenizeForTinyLLM prompt) []
  exact hprefill.otherwise hf hempty

theorem decodeLoop_yields (prompt : Bytes) :
    Yields (decodeLoop floats b (hashToken prompt)
      { tokenIds := tokenizeForTinyLLM prompt
        states := prefilled floats (tokenizeForTinyLLM prompt) })
      (decoded floats b prompt) b.maxGeneratedTokens.val.toNat := by
  have hdecode := Yields.pollLoop (Decoding.next floats b (hashToken prompt))
    (List.range b.maxGeneratedTokens.val.toNat)
    { tokenIds := tokenizeForTinyLLM prompt
      states := prefilled floats (tokenizeForTinyLLM prompt) }
  rwa [List.length_range] at hdecode

def TinyLLMBackend.output (elapsed : Nat → Elapsed) (batchSize : Nat)
    (request : BackendRequest × Nat) : Bytes :=
  formatTinyLLMOutput floats b
    (joinGeneratedTokens (decoded floats b request.1.prompt).generatedIds)
    (tokenizeForTinyLLM request.1.prompt).length b.maxGeneratedTokens.val.toNat
    (elapsed request.2) batchSize

theorem TinyLLMBackend.answer_yields (elapsed : Nat → Elapsed) (batchSize : Nat)
    (request : BackendRequest × Nat) :
    ∃ n, Yields (b.answer floats elapsed batchSize request)
      (b.output floats elapsed batchSize request) n := by
  obtain ⟨hgenerated, htokens⟩ := decoded_length floats b request.1.prompt
  have hdecode := decodeLoop_yields floats b request.1.prompt
  refine ⟨_, Yields.poll.bind (Yields.afterPrefill floats request.1.prompt
    (n := 1 + (b.maxGeneratedTokens.val.toNat + 0)) (Yields.poll.bind ?_) ?_)⟩
  · rw [if_neg (prefilled_ne_nil floats request.1.prompt)]
    refine hdecode.bind ?_
    rw [hgenerated, htokens, Nat.add_sub_cancel]
    exact Yields.pure _
  · exact GivesUp.after poll (fun _ => by
      rw [if_pos rfl]
      exact givesUp_giveUp.bind _)

theorem TinyLLMBackend.processBatch_yields (elapsed : Nat → Elapsed)
    (requests : List BackendRequest) :
    ∃ n, Yields (b.processBatch floats elapsed requests)
      { outputs := requests.zipIdx.map (b.output floats elapsed requests.length) } n := by
  obtain ⟨n, hn⟩ := Yields.mapM requests.zipIdx
    (fun request _ => b.answer_yields floats elapsed requests.length request)
  exact ⟨_, Yields.poll.bind (hn.bind (Yields.pure _))⟩

def completion (prompt : Bytes) (elapsed : Elapsed) : TinyLLMGeneration :=
  { generated := joinGeneratedTokens (decoded floats b prompt).generatedIds
    promptTokens := (tokenizeForTinyLLM prompt).length
    generatedTokens := b.maxGeneratedTokens.val
    prefillMicros := elapsed.prefillMicros
    decodeMicros := elapsed.decodeMicros }

/-- A completion that was cut short has no tokens, which its caller must take for a reason to
give up. -/
theorem Yields.afterGenerate {α : Type} {f : TinyLLMGeneration → Polling α} {a : α} {n : Nat}
    (prompt : Bytes) (elapsed : Elapsed) (hf : Yields (f (completion floats b prompt elapsed)) a n)
    (hempty : ∀ generation, generation.generatedTokens = 0 → GivesUp (f generation)) :
    Yields (generateTinyLLMCompletion floats b prompt elapsed >>= f) a
      ((tokenizeForTinyLLM prompt).length + (1 + b.maxGeneratedTokens.val.toNat + n)) := by
  obtain ⟨hgenerated, -⟩ := decoded_length floats b prompt
  have hdecode := decodeLoop_yields floats b prompt
  have hmax : (b.maxGeneratedTokens.val.toNat : Int) = b.maxGeneratedTokens.val := by
    have hpos := b.maxGeneratedTokens.property.1
    omega
  rw [generateTinyLLMCompletion, bind_assoc]
  refine Yields.afterPrefill floats prompt ?_ ?_
  · refine Yields.otherwise (a := completion floats b prompt elapsed)
      (n := 1 + (b.maxGeneratedTokens.val.toNat + 0)) (Yields.poll.bind ?_) hf (hempty _ rfl)
    rw [if_neg (prefilled_ne_nil floats prompt)]
    refine hdecode.bind ?_
    rw [hgenerated, hmax]
    exact Yields.pure _
  · refine GivesUp.otherwise (GivesUp.after poll (fun _ => ?_)) (hempty _ rfl)
    rw [if_pos rfl]
    exact givesUp_giveUp.bind _

def continuousOutput (elapsed : Nat → Elapsed) (batchSize : Nat)
    (entry : (BackendRequest × SequenceResult) × Nat) : Bytes :=
  formatContinuousTinyLLMOutput floats b
    (completion floats b entry.1.1.prompt (elapsed entry.2)) batchSize
    entry.1.2.firstTokenStep entry.1.2.completionStep

def accepted (entry : (BackendRequest × SequenceResult) × Nat) : Bool :=
  decide (entry.1.2.status ≠ .rejected)

/-- The result after the requests up to the first that the scheduler rejected. -/
def answered (elapsed : Nat → Elapsed) (batchSize : Nat) (run : ContinuousBatchingRun)
    (entries : List ((BackendRequest × SequenceResult) × Nat)) (result : BackendResult) :
    BackendResult :=
  let served := entries.takeWhile accepted
  let result := { result with
    outputs := result.outputs ++ served.map (continuousOutput floats b elapsed batchSize)
    outputMetadata := result.outputMetadata ++
      served.map (fun entry => buildContinuousTinyLLMMetadata floats run entry.1.2) }
  match (entries.dropWhile accepted).head? with
  | none => result
  | some entry => { result with code := .unavailable, message := text entry.1.2.message }

def completionPolls (prompts : List Bytes) : Nat :=
  (prompts.map (fun prompt =>
    (tokenizeForTinyLLM prompt).length + b.maxGeneratedTokens.val.toNat + 2)).sum

theorem answerLoop_yields (elapsed : Nat → Elapsed) (batchSize : Nat) (run : ContinuousBatchingRun)
    (entries : List ((BackendRequest × SequenceResult) × Nat)) (result : BackendResult) :
    Yields (answerLoop floats b elapsed batchSize run entries result)
      (answered floats b elapsed batchSize run entries result)
      (completionPolls b ((entries.takeWhile accepted).map (fun entry => entry.1.1.prompt))) := by
  induction entries generalizing result with
  | nil => simpa [answerLoop, answered, completionPolls] using Yields.pure result
  | cons entry rest ih =>
    rw [answerLoop]
    by_cases hstatus : entry.1.2.status = .rejected
    · have haccepted : accepted entry = false := by simp [accepted, hstatus]
      rw [if_pos hstatus]
      simpa [answered, completionPolls, haccepted] using
        Yields.pure { result with code := .unavailable, message := text entry.1.2.message }
    · have haccepted : accepted entry = true := by simp [accepted, hstatus]
      have hrest := ih { result with
        outputs := result.outputs ++ [continuousOutput floats b elapsed batchSize entry]
        outputMetadata := result.outputMetadata ++
          [buildContinuousTinyLLMMetadata floats run entry.1.2] }
      have hanswered : answered floats b elapsed batchSize run (entry :: rest) result =
          answered floats b elapsed batchSize run rest { result with
            outputs := result.outputs ++ [continuousOutput floats b elapsed batchSize entry]
            outputMetadata := result.outputMetadata ++
              [buildContinuousTinyLLMMetadata floats run entry.1.2] } := by
        simp [answered, haccepted]
      have hpolls : completionPolls b
          (((entry :: rest).takeWhile accepted).map (fun entry => entry.1.1.prompt)) =
          (tokenizeForTinyLLM entry.1.1.prompt).length + (1 + b.maxGeneratedTokens.val.toNat +
            (1 + completionPolls b
              ((rest.takeWhile accepted).map (fun entry => entry.1.1.prompt)))) := by
        simp only [completionPolls, haccepted, List.takeWhile_cons_of_pos, List.map_cons,
          List.sum_cons]
        omega
      rw [if_neg hstatus, hanswered, hpolls]
      refine Yields.afterGenerate floats b entry.1.1.prompt (elapsed entry.2)
        (Yields.poll.bind ?_) (fun generation hgeneration => GivesUp.after poll (fun _ => ?_))
      · have hfull : ¬ (completion floats b entry.1.1.prompt (elapsed entry.2)).generatedTokens ≠
            b.maxGeneratedTokens.val := not_not.mpr rfl
        rw [if_neg hfull]
        exact hrest
      · have hpos := b.maxGeneratedTokens.property.1
        rw [if_pos (by omega)]
        exact givesUp_giveUp.bind _

def served (requests : List BackendRequest) (run : ContinuousBatchingRun) :
    List ((BackendRequest × SequenceResult) × Nat) :=
  (requests.zip run.results).zipIdx.takeWhile accepted

/-- The scheduler rejected a request, but not the first, and no poll answered true before the
backend came to it. -/
def HalfDone (requests : List BackendRequest) (run : ContinuousBatchingRun)
    (isCancelled : Nat → Bool) : Prop :=
  0 < (served requests run).length ∧ (served requests run).length < requests.length ∧
    ¬ Raised isCancelled 0 (run.steps.length + 1 +
      completionPolls b ((served requests run).map (fun entry => entry.1.1.prompt)))

def ContinuousAnswer (elapsed : Nat → Elapsed) (batchSize : Nat) (request : BackendRequest)
    (output : Bytes) : Prop :=
  ∃ sequence index,
    output = continuousOutput floats b elapsed batchSize ((request, sequence), index)

theorem entries_requests {requests : List BackendRequest} {run : ContinuousBatchingRun}
    (h : run.results.length = requests.length) :
    (requests.zip run.results).zipIdx.map (fun entry => entry.1.1) = requests := by
  have hmap : (requests.zip run.results).zipIdx.map (fun entry => entry.1.1) =
      ((requests.zip run.results).zipIdx.map Prod.fst).map Prod.fst := by
    rw [List.map_map]
    rfl
  rw [hmap, List.zipIdx_map_fst, List.map_fst_zip h.ge]

/-- When no poll answers true, what comes back is half done or in order. -/
theorem answered_allOrNothing_iff (elapsed : Nat → Elapsed) {requests : List BackendRequest}
    {run : ContinuousBatchingRun} (hlength : run.results.length = requests.length)
    {isCancelled : Nat → Bool} {polls : Nat} (hquiet : ¬ Raised isCancelled 0 polls) :
    AllOrNothing (ContinuousAnswer floats b elapsed requests.length) requests isCancelled
        (answered floats b elapsed requests.length run (requests.zip run.results).zipIdx {},
          polls) ↔
      ¬ (0 < (served requests run).length ∧ (served requests run).length < requests.length) := by
  have hrequests := entries_requests hlength
  have hentries : (requests.zip run.results).zipIdx.length = requests.length := by
    rw [← List.length_map (f := fun entry => entry.1.1), hrequests]
  have hsplit := List.takeWhile_append_dropWhile (p := accepted)
    (l := (requests.zip run.results).zipIdx)
  cases hdrop : (requests.zip run.results).zipIdx.dropWhile accepted with
  | nil =>
    rw [hdrop, List.append_nil] at hsplit
    have hserved : (served requests run).length = requests.length := by
      rw [served, hsplit, hentries]
    refine iff_of_true (Or.inl ⟨by simp [answered, hdrop], ?_, ?_, hquiet⟩) (by omega)
    · have hanswers : List.Forall₂ (ContinuousAnswer floats b elapsed requests.length)
          ((requests.zip run.results).zipIdx.map (fun entry => entry.1.1))
          ((requests.zip run.results).zipIdx.map
            (continuousOutput floats b elapsed requests.length)) := by
        rw [List.forall₂_map_left_iff, List.forall₂_map_right_iff, List.forall₂_same]
        exact fun entry _ => ⟨entry.1.2, entry.2, rfl⟩
      rw [hrequests] at hanswers
      simpa [answered, hdrop, hsplit] using hanswers
    · exact Or.inr (by simp [answered, hdrop, hsplit, hlength])
  | cons entry rest =>
    have hserved : (served requests run).length < requests.length := by
      have hsum := congrArg List.length hsplit
      rw [List.length_append, hdrop, List.length_cons, hentries] at hsum
      rw [served]
      omega
    constructor
    · rintro (⟨hcode, -⟩ | ⟨-, houtputs, -⟩) ⟨hpos, -⟩
      · simp [answered, hdrop] at hcode
      · simp only [answered, hdrop, List.head?_cons, List.nil_append, List.map_eq_nil_iff]
          at houtputs
        rw [served, houtputs] at hpos
        exact absurd hpos (Nat.lt_irrefl 0)
    · intro hnot
      have hnil : served requests run = [] := List.eq_nil_of_length_eq_zero (by omega)
      rw [served] at hnil
      exact Or.inr ⟨by simp [answered, hdrop], by simp [answered, hdrop, hnil],
        by simp [answered, hdrop, hnil], fun hraised => absurd hraised hquiet⟩

theorem answerLoop_allOrNothing_iff (elapsed : Nat → Elapsed) {requests : List BackendRequest}
    {run : ContinuousBatchingRun} (hlength : run.results.length = requests.length)
    {isCancelled : Nat → Bool} (hbefore : ¬ Raised isCancelled 0 (run.steps.length + 1)) :
    AllOrNothing (ContinuousAnswer floats b elapsed requests.length) requests isCancelled
        (outcome isCancelled (answerLoop floats b elapsed requests.length run
          (requests.zip run.results).zipIdx {}) (run.steps.length + 1)) ↔
      ¬ HalfDone b requests run isCancelled := by
  have hyields := answerLoop_yields floats b elapsed requests.length run
    (requests.zip run.results).zipIdx {}
  have hsplit := raised_split isCancelled 0 (run.steps.length + 1)
    (completionPolls b ((served requests run).map (fun entry => entry.1.1.prompt)))
  simp only [Nat.zero_add] at hsplit
  by_cases hraised : Raised isCancelled (run.steps.length + 1) (run.steps.length + 1 +
      completionPolls b ((served requests run).map (fun entry => entry.1.1.prompt)))
  · obtain ⟨last, hlast⟩ := outcome_raised hyields hraised
    rw [hlast]
    exact iff_of_true (AllOrNothing.cancelled _ _ _ _)
      (fun hhalf => hhalf.2.2 (hsplit.mpr (Or.inr hraised)))
  · have hquiet := hsplit.not.mpr (not_or.mpr ⟨hbefore, hraised⟩)
    have hout := outcome_quiet hyields hraised
    rw [← served] at hout
    rw [hout, answered_allOrNothing_iff floats b elapsed hlength hquiet, HalfDone]
    simp only [hquiet, not_false_eq_true, and_true]

end

section
variable {Temperature Hidden : Type} (floats : TinyLLMFloats Temperature Hidden)
  (b : ContinuousTinyLLMBackend Temperature)

/-- The continuous backend answers every batch, and leaves it half done exactly where a request
after the first is the first that its scheduler rejects. -/
theorem ContinuousTinyLLMBackend.allOrNothing_iff (elapsed : Nat → Elapsed)
    (requests : List BackendRequest) :
    ∃ whole, (∀ fuel, workBound (requests.map b.sequenceRequest) ≤ fuel →
        run b.schedulerConfig (requests.map b.sequenceRequest) (fun _ => false) fuel =
          some whole) ∧
      ∀ isCancelled, ∃ out, (∀ fuel, workBound (requests.map b.sequenceRequest) ≤ fuel →
          b.processBatch floats elapsed requests isCancelled fuel = some out) ∧
        (AllOrNothing (ContinuousAnswer floats b.toTinyLLMBackend elapsed requests.length) requests
            isCancelled out ↔
          ¬ HalfDone b.toTinyLLMBackend requests whole isCancelled) := by
  obtain ⟨N, whole, hwhole, hrun⟩ :=
    loop_terminates b.schedulerConfig (requests.map b.sequenceRequest) (fun _ => false)
  refine ⟨finish whole, fun fuel hfuel => by rw [run_eq, hrun fuel hfuel, Option.map_some],
    fun isCancelled => ?_⟩
  have hsteps := hwhole.steps_length
  cases hfirst : isCancelled 0 with
  | true =>
    refine ⟨(cancelledResult, 1), fun fuel _ => ?_,
      iff_of_true (AllOrNothing.cancelled _ _ _ _) (fun hhalf => hhalf.2.2 ?_)⟩
    · rw [processBatch, if_pos hfirst]
    · exact ⟨0, Nat.le_refl 0, by omega, hfirst⟩
  | false =>
    obtain ⟨n, out, hended, hout⟩ := loop_terminates b.schedulerConfig
      (requests.map b.sequenceRequest) (fun n => isCancelled (n + 1))
    have hrun' : ∀ fuel, workBound (requests.map b.sequenceRequest) ≤ fuel →
        run b.schedulerConfig (requests.map b.sequenceRequest) (fun n => isCancelled (n + 1))
          fuel = some (finish out) := by
      intro fuel hfuel
      rw [run_eq, hout fuel hfuel, Option.map_some]
    have hstart : ¬ isCancelled 0 = true := by rw [hfirst]; exact Bool.false_ne_true
    obtain ⟨rfl, rfl, hquiet⟩ | ⟨hlt, hpoll, r, hr, hcancelled⟩ := hended.whole_or_cut hwhole
    · -- no poll cut the schedule short: the completions decide
      have hnone : ¬ ((finish out).results.any
          (fun sequence => decide (sequence.status = .cancelled))) = true := by
        rw [List.any_eq_true]
        rintro ⟨r, hr, hcancelled⟩
        exact hwhole.none_cancelled hr (of_decide_eq_true hcancelled)
      have hlength : (finish out).results.length = requests.length := by
        rw [hended.results_length, List.length_map]
      refine ⟨_, fun fuel hfuel => by
        rw [processBatch, if_neg hstart, hrun' fuel hfuel, Option.map_some, if_neg hnone],
        answerLoop_allOrNothing_iff floats b.toTinyLLMBackend elapsed hlength ?_⟩
      rintro ⟨k, -, hk, hpoll⟩
      cases k with
      | zero => exact hstart hpoll
      | succ k =>
        rw [hsteps] at hk
        exact Bool.false_ne_true ((hquiet k (by omega)).symm.trans hpoll)
    · -- the scheduler reports cancelled sequences
      have hany : ((finish out).results.any
          (fun sequence => decide (sequence.status = .cancelled))) = true :=
        List.any_eq_true.mpr ⟨r, hr, decide_eq_true hcancelled⟩
      refine ⟨(cancelledResult, (finish out).steps.length + 2), fun fuel hfuel => ?_,
        iff_of_true (AllOrNothing.cancelled _ _ _ _) (fun hhalf => hhalf.2.2 ?_)⟩
      · rw [processBatch, if_neg hstart, hrun' fuel hfuel, Option.map_some, if_pos hany]
      · exact ⟨n + 1, Nat.zero_le _, by omega, hpoll⟩

end

theorem forall₂_zipIdx_map {α β : Type} {R : α → β → Prop} {f : α × Nat → β} (l : List α)
    (h : ∀ entry, R entry.1 (f entry)) : List.Forall₂ R l (l.zipIdx.map f) := by
  have hindexed : List.Forall₂ R (l.zipIdx.map Prod.fst) (l.zipIdx.map f) := by
    rw [List.forall₂_map_left_iff, List.forall₂_map_right_iff, List.forall₂_same]
    exact fun entry _ => h entry
  rwa [List.zipIdx_map_fst] at hindexed

/-- The simulator, the tiny text model and the tiny language model answer all or nothing. The
continuous backend does unless it comes to a rejected request with outputs already in hand. -/
theorem batches_allOrNothing_iff (requests : List BackendRequest) :
    (∀ (baseLatencyMs perRequestLatencyMs : Int) (isCancelled : Nat → Bool),
      let b := simulatorBackend baseLatencyMs perRequestLatencyMs
      AllOrNothing (fun request output => output = b.format requests.length request) requests
        isCancelled (outcome isCancelled (b.processBatch requests) 0)) ∧
    (∀ {Hidden : Type} (floats : TinyTextFloats Hidden) (iterations : Int)
      (isCancelled : Nat → Bool),
      let b := tinyTextModelBackend iterations
      AllOrNothing (fun request output => output = b.output floats requests.length request) requests
        isCancelled (outcome isCancelled (b.processBatch floats requests) 0)) ∧
    (∀ {Temperature Hidden : Type} (floats : TinyLLMFloats Temperature Hidden)
      (maxGeneratedTokens : Int) (temperature : Temperature) (topK : Int) (elapsed : Nat → Elapsed)
      (isCancelled : Nat → Bool),
      let b := tinyLLMBackend floats maxGeneratedTokens temperature topK
      AllOrNothing
        (fun request output => ∃ index, output =
          b.output floats elapsed requests.length (request, index)) requests
        isCancelled (outcome isCancelled (b.processBatch floats elapsed requests) 0)) ∧
    (∀ {Temperature Hidden : Type} (floats : TinyLLMFloats Temperature Hidden)
      (maxGeneratedTokens : Int) (temperature : Temperature) (topK maxPrefillTokensPerStep
        maxDecodeSequencesPerStep kvCacheBlocks kvBlockTokens prefixCacheTokens : Int)
      (elapsed : Nat → Elapsed),
      let b := continuousTinyLLMBackend floats maxGeneratedTokens temperature topK
        maxPrefillTokensPerStep maxDecodeSequencesPerStep kvCacheBlocks kvBlockTokens
        prefixCacheTokens
      ∃ whole, (∀ fuel, workBound (requests.map b.sequenceRequest) ≤ fuel →
          run b.schedulerConfig (requests.map b.sequenceRequest) (fun _ => false) fuel =
            some whole) ∧
        ∀ isCancelled, ∃ out, (∀ fuel, workBound (requests.map b.sequenceRequest) ≤ fuel →
            b.processBatch floats elapsed requests isCancelled fuel = some out) ∧
          (AllOrNothing (ContinuousAnswer floats b.toTinyLLMBackend elapsed requests.length)
              requests isCancelled out ↔
            ¬ HalfDone b.toTinyLLMBackend requests whole isCancelled)) := by
  refine ⟨fun baseLatencyMs perRequestLatencyMs isCancelled => ?_,
    fun floats iterations isCancelled => ?_,
    fun floats maxGeneratedTokens temperature topK elapsed isCancelled => ?_,
    fun floats _ _ _ _ _ _ _ _ elapsed =>
      ContinuousTinyLLMBackend.allOrNothing_iff floats _ elapsed requests⟩
  · obtain ⟨n, hn⟩ := (simulatorBackend baseLatencyMs perRequestLatencyMs).processBatch_yields
      requests
    refine Yields.allOrNothing hn ?_ isCancelled
    rw [List.forall₂_map_right_iff, List.forall₂_same]
    exact fun request _ => rfl
  · obtain ⟨n, hn⟩ := (tinyTextModelBackend iterations).processBatch_yields floats requests
    refine Yields.allOrNothing hn ?_ isCancelled
    rw [List.forall₂_map_right_iff, List.forall₂_same]
    exact fun request _ => rfl
  · obtain ⟨n, hn⟩ := (tinyLLMBackend floats maxGeneratedTokens temperature
      topK).processBatch_yields floats elapsed requests
    refine Yields.allOrNothing hn ?_ isCancelled
    exact forall₂_zipIdx_map requests (fun request => ⟨request.2, rfl⟩)

def constantFloats : TinyLLMFloats Unit Unit where
  clampTemperature := id
  fixed _ := text "0.800"
  nextState _ _ _ := ()
  ranked _ _ _ _ := tokenId []
  averageDecodeBatchSize _ _ := text "1.00"

/-- Two blocks of four tokens: beside the first prompt there is no room for the second. The batch
fails, with the output for the first request in its result. -/
theorem rejectedSecond_keepsFirst :
    ∃ out, (continuousTinyLLMBackend constantFloats 1 () 1 64 8 2 4 0).processBatch constantFloats
        (fun _ => ⟨0, 0⟩) [{ id := text "a", prompt := text "cache" },
          { id := text "b", prompt := text "one two three four" }] (fun _ => false) 12 = some out ∧
      out.1.code = .unavailable ∧ out.1.outputs.length = 1 ∧
      ∀ answers, ¬ AllOrNothing answers [{ id := text "a", prompt := text "cache" },
        { id := text "b", prompt := text "one two three four" }] (fun _ => false) out := by
  have hrun : ((continuousTinyLLMBackend constantFloats 1 () 1 64 8 2 4 0).processBatch
      constantFloats (fun _ => ⟨0, 0⟩) [{ id := text "a", prompt := text "cache" },
        { id := text "b", prompt := text "one two three four" }] (fun _ => false) 12).map
      (fun out => (out.1.code, out.1.outputs.length)) = some (.unavailable, 1) := by
    decide +kernel
  obtain ⟨out, hout, hfields⟩ := Option.map_eq_some_iff.mp hrun
  obtain ⟨hcode, hlength⟩ := Prod.mk.inj hfields
  refine ⟨out, hout, hcode, hlength, fun answers hall => ?_⟩
  rcases hall with ⟨hok, -⟩ | ⟨-, hnil, -⟩
  · rw [hcode] at hok
    exact absurd hok (by decide)
  · rw [hnil] at hlength
    exact absurd hlength (by decide)

end Laminar.Backend
