import Laminar.Backend.AllOrNothing
import Laminar.Backend.Cpp
import Laminar.Library.Quoted
import Laminar.Llama.StreamProtocol

/-! What a reader gets back out of the outputs of the backends that generate text: the text,
whatever is in it. -/
namespace Laminar.Backend
open Laminar.Llama Laminar.Quoted Laminar.Polling Laminar.Scheduler

/-- The text in the first quotes of an output. -/
def generatedText (output : Bytes) : Option Bytes := (firstQuoted 92 39 output).map Prod.fst

/-- `EscapeSingleQuoted` without the escapes. -/
def blank (c : UInt8) : UInt8 := if c = 10 ∨ c = 13 ∨ c = 9 then 32 else c

theorem escapeSingleQuoted_eq (value : Bytes) :
    escapeSingleQuoted value = quoted 92 39 (value.map blank) := by
  unfold escapeSingleQuoted quoted
  rw [List.flatMap_map]
  refine List.flatMap_congr fun c _ => ?_
  by_cases hspace : c = 10 ∨ c = 13 ∨ c = 9
  · have hplain : ¬ (c = 92 ∨ c = 39) := by
      rcases hspace with rfl | rfl | rfl <;> decide
    rw [blank, if_pos hspace, if_neg hplain, if_pos hspace]
    rfl
  · rw [blank, if_neg hspace, if_neg hspace]

theorem isSpace_collapse (value : Bytes) (previousSpace : Bool) :
    ∀ c ∈ collapseWhitespace.collapse previousSpace value, isSpace c = true → c = 32 := by
  induction value generalizing previousSpace with
  | nil => simp [collapseWhitespace.collapse]
  | cons x rest ih =>
    rw [collapseWhitespace.collapse]
    intro c hc hspace
    split_ifs at hc with hx hprevious
    · exact ih true c hc hspace
    · rcases List.mem_cons.mp hc with rfl | hc
      · rfl
      · exact ih true c hc hspace
    · rcases List.mem_cons.mp hc with rfl | hc
      · exact absurd hspace hx
      · exact ih false c hc hspace

theorem mem_trimWhitespace {value : Bytes} {c : UInt8} (h : c ∈ trimWhitespace value) :
    c ∈ value := by
  unfold trimWhitespace at h
  have hfront := (List.dropWhile_sublist _).subset (List.mem_reverse.mp h)
  exact (List.dropWhile_sublist _).subset (List.mem_reverse.mp hfront)

/-- Collapsed text has no line break for `EscapeSingleQuoted` to blank out. -/
theorem blank_collapseWhitespace (value : Bytes) :
    (collapseWhitespace value).map blank = collapseWhitespace value := by
  have hkeep : ∀ c ∈ collapseWhitespace value, blank c = id c := by
    intro c hc
    have hcollapse : isSpace c = true → c = 32 :=
      isSpace_collapse value false c (mem_trimWhitespace hc)
    unfold blank
    split_ifs with hspace
    · exact (hcollapse (by rcases hspace with rfl | rfl | rfl <;> decide)).symm
    · rfl
  rw [List.map_congr_left hkeep, List.map_id]

theorem escape_collapseWhitespace (value : Bytes) :
    escapeSingleQuoted (collapseWhitespace value) = quoted 92 39 (collapseWhitespace value) := by
  rw [escapeSingleQuoted_eq, blank_collapseWhitespace]

/-- An output is read up to the quote that ends its first field. -/
theorem generatedText_field (header rest : Bytes) {opening closing generated : Bytes}
    (hopening : opening = header ++ [39]) (hclosing : closing = 39 :: rest) (hheader : 39 ∉ header)
    (fields : Bytes) :
    generatedText (opening ++ (quoted 92 39 generated ++ (closing ++ fields))) =
      some generated := by
  have hfirst := firstQuoted_append (by decide : (92 : UInt8) ≠ 39) hheader generated
    (rest ++ fields)
  rw [hopening, hclosing]
  simp [generatedText, hfirst]

theorem generatedText_llamaServer (b : LlamaServerBackend) (stream : Bool)
    (content endpoint : Bytes) (promptChars durationMicros batchSize ttftMicros : Int)
    (completion : LlamaServerCompletion) :
    generatedText (formatLlamaServerOutput b stream (collapseWhitespace content) endpoint
      promptChars durationMicros batchSize ttftMicros completion) =
      some (collapseWhitespace content) := by
  unfold formatLlamaServerOutput
  rw [escape_collapseWhitespace]
  simp only [List.append_assoc]
  rw [generatedText_field (text "LlamaServer(backend=llama_server, generated=")
    (text ", prompt_chars=") (by decide) (by decide) (by decide)]

def Completes (b : LlamaServerBackend) (isCancelled : Nat → Bool)
    (entry : BackendRequest × Connection) (completion : LlamaServerCompletion) : Prop :=
  ∃ polls response last, httpPostJson isCancelled (parseHttpUrl b.serverUrl)
      (requestBody b entry.1 b.stream) entry.2 polls = (response, last) ∧
    judgeResponse b isCancelled response last = (none, completion)

structure Readable (b : LlamaServerBackend) (isCancelled : Nat → Bool)
    (answered : List (BackendRequest × Connection)) (result : BackendResult) : Prop where
  code : result.code = .ok
  outputs : List.Forall₂
    (fun entry output => ∃ completion, Completes b isCancelled entry completion ∧
    completion.content ≠ [] ∧ generatedText output = some (collapseWhitespace completion.content))
    answered result.outputs
  metadata : result.outputMetadata.length = answered.length

def Refused (result : BackendResult) : Prop :=
  result.code ≠ .ok ∧ result.outputs = [] ∧ result.outputMetadata = []

theorem refused_cancelled : Refused cancelledResult := by
  simp [Refused, cancelledResult]

theorem refused_unavailable (message : Bytes) : Refused (unavailableResult message) := by
  simp [Refused, unavailableResult]

section
variable (b : LlamaServerBackend) (isCancelled : Nat → Bool)

theorem judgeResponse_refused {response : HttpResponse} {polls : Nat} {result : BackendResult}
    (h : (judgeResponse b isCancelled response polls).1 = some result) : Refused result := by
  unfold judgeResponse at h
  split_ifs at h
  · obtain rfl := Option.some.inj h
    exact refused_cancelled
  · obtain rfl := Option.some.inj h
    exact refused_unavailable _
  · simp only at h
    split_ifs at h
    obtain rfl := Option.some.inj h
    exact refused_unavailable _

theorem judgeResponse_content {response : HttpResponse} {polls : Nat}
    (h : (judgeResponse b isCancelled response polls).1 = none) :
    (judgeResponse b isCancelled response polls).2.content ≠ [] := by
  unfold judgeResponse at h ⊢
  split_ifs at h ⊢
  simp only at h ⊢
  split_ifs at h ⊢ with hcontent
  exact hcontent

theorem processRequests_readable (batchSize : Nat) {answered : List (BackendRequest × Connection)}
    (rest : List (BackendRequest × Connection)) {outcome : BatchOutcome} (polls : Nat)
    (h : Readable b isCancelled answered outcome.result) :
    let result := (processRequests b isCancelled (parseHttpUrl b.serverUrl) batchSize rest outcome
      polls).result
    Readable b isCancelled (answered ++ rest) result ∨ Refused result := by
  induction rest generalizing answered outcome polls with
  | nil =>
    rw [List.append_nil]
    exact Or.inl h
  | cons entry rest ih =>
    obtain ⟨request, c⟩ := entry
    unfold processRequests
    by_cases hpoll : isCancelled polls = true
    · rw [if_pos hpoll]
      exact Or.inr refused_cancelled
    · rw [if_neg hpoll]
      simp only
      generalize hr : httpPostJson isCancelled (parseHttpUrl b.serverUrl)
        (requestBody b request b.stream) c (polls + 1) = r
      cases hjudged : (judgeResponse b isCancelled r.1 r.2).1 with
      | some result => exact Or.inr (judgeResponse_refused b isCancelled hjudged)
      | none =>
        rw [List.append_cons]
        refine ih _ ⟨h.code, List.rel_append h.outputs (.cons ?_ .nil), by simp [h.metadata]⟩
        refine ⟨(judgeResponse b isCancelled r.1 r.2).2, ⟨polls + 1, r.1, r.2, hr, ?_⟩,
          judgeResponse_content b isCancelled hjudged, generatedText_llamaServer b _ _ _ _ _ _ _ _⟩
        exact Prod.ext hjudged rfl

/-- All requests of a batch get an output that reads as their completion, or none does. -/
theorem processBatch_readable (requests : List (BackendRequest × Connection)) :
    Readable b isCancelled requests (processBatch b isCancelled requests).result ∨
      Refused (processBatch b isCancelled requests).result := by
  unfold processBatch
  split_ifs with hpoll
  · exact Or.inr refused_cancelled
  · simp only
    split_ifs with hurl
    · exact Or.inr (refused_unavailable _)
    · have hnone : Readable b isCancelled [] (BatchOutcome.result {}) := ⟨rfl, .nil, rfl⟩
      exact processRequests_readable b isCancelled requests.length requests 1 hnone

end

theorem mem_intercalate {separator : Bytes} {words : List Bytes} {c : UInt8}
    (h : c ∈ separator.intercalate words) : c ∈ separator ∨ ∃ word ∈ words, c ∈ word := by
  induction words with
  | nil => simp at h
  | cons word rest ih =>
    cases rest with
    | nil =>
      rw [List.intercalate_singleton] at h
      exact Or.inr ⟨word, List.mem_singleton_self _, h⟩
    | cons next rest =>
      rw [List.intercalate_cons_cons] at h
      rcases List.mem_append.mp h with h | h
      · rcases List.mem_append.mp h with h | h
        · exact Or.inr ⟨word, List.mem_cons_self, h⟩
        · exact Or.inl h
      · exact (ih h).imp_right fun ⟨w, hw, hc⟩ => ⟨w, List.mem_cons_of_mem _ hw, hc⟩

/-- No word of the vocabulary has a quote or a backslash. -/
theorem quoted_joinGeneratedTokens (tokenIds : List (Fin 64)) :
    quoted 92 39 (joinGeneratedTokens tokenIds) = joinGeneratedTokens tokenIds := by
  have hwords : ∀ tokenId : Fin 64,
      (text vocabulary[tokenId]).all (fun c => c != 92 && c != 39) = true := by
    decide +kernel
  refine quoted_plain fun c hc => ?_
  rcases mem_intercalate hc with hc | ⟨word, hword, hc⟩
  · have hseparator : text " " = [32] := by decide
    rw [hseparator] at hc
    obtain rfl := List.mem_singleton.mp hc
    decide
  · obtain ⟨tokenId, -, rfl⟩ := List.mem_map.mp hword
    simpa using List.all_eq_true.mp (hwords tokenId) c hc

section
variable {Temperature Hidden : Type} (floats : TinyLLMFloats Temperature Hidden)
  (b : TinyLLMBackend Temperature)

theorem generatedText_tinyLLM (tokenIds : List (Fin 64)) (promptTokens generatedTokens : Nat)
    (elapsed : Elapsed) (batchSize : Nat) :
    generatedText (formatTinyLLMOutput floats b (joinGeneratedTokens tokenIds) promptTokens
      generatedTokens elapsed batchSize) = some (joinGeneratedTokens tokenIds) := by
  have hgenerated := quoted_joinGeneratedTokens tokenIds
  generalize joinGeneratedTokens tokenIds = generated at hgenerated ⊢
  unfold formatTinyLLMOutput
  simp only [List.append_assoc]
  nth_rewrite 1 [← hgenerated]
  rw [generatedText_field (text "TinyLLM(backend=tiny_llm, generated=")
    (text ", prompt_tokens=") (by decide) (by decide) (by decide)]

theorem generatedText_continuous (generation : TinyLLMGeneration) (tokenIds : List (Fin 64))
    (h : generation.generated = joinGeneratedTokens tokenIds) (batchSize : Nat)
    (firstTokenStep completionStep : Int) :
    generatedText (formatContinuousTinyLLMOutput floats b generation batchSize firstTokenStep
      completionStep) = some (joinGeneratedTokens tokenIds) := by
  have hgenerated := quoted_joinGeneratedTokens tokenIds
  unfold formatContinuousTinyLLMOutput
  rw [h]
  generalize joinGeneratedTokens tokenIds = generated at hgenerated ⊢
  simp only [List.append_assoc]
  nth_rewrite 1 [← hgenerated]
  rw [generatedText_field
    (text "ContinuousTinyLLM(backend=continuous_tiny_llm, generated=")
    (text ", prompt_tokens=") (by decide) (by decide) (by decide)]

def completionText (prompt : Bytes) : Bytes :=
  joinGeneratedTokens (decoded floats b prompt).generatedIds

theorem generatedText_output (elapsed : Nat → Elapsed) (batchSize : Nat)
    (request : BackendRequest × Nat) :
    generatedText (b.output floats elapsed batchSize request) =
      some (completionText floats b request.1.prompt) :=
  generatedText_tinyLLM floats b (decoded floats b request.1.prompt).generatedIds _ _ _ _

theorem generatedText_continuousOutput (elapsed : Nat → Elapsed) (batchSize : Nat)
    (entry : (BackendRequest × SequenceResult) × Nat) :
    generatedText (continuousOutput floats b elapsed batchSize entry) =
      some (completionText floats b entry.1.1.prompt) :=
  generatedText_continuous floats b _ (decoded floats b entry.1.1.prompt).generatedIds rfl _ _ _

theorem continuous_outputs {b : ContinuousTinyLLMBackend Temperature} {elapsed : Nat → Elapsed}
    {requests : List BackendRequest} {isCancelled : Nat → Bool} {fuel polls : Nat}
    {result : BackendResult}
    (h : b.processBatch floats elapsed requests isCancelled fuel = some (result, polls))
    (hok : result.code = .ok) :
    ∃ entries : List ((BackendRequest × SequenceResult) × Nat),
      entries.map (fun entry => entry.1.1) = requests ∧ result.outputs =
        entries.map (continuousOutput floats b.toTinyLLMBackend elapsed requests.length) ∧
      result.outputMetadata.length = entries.length := by
  have hcancelled : ∀ last, (cancelledResult, last) ≠ (result, polls) := by
    rintro last heq
    obtain ⟨rfl, -⟩ := Prod.mk.inj heq
    exact absurd hok (by simp [cancelledResult])
  unfold ContinuousTinyLLMBackend.processBatch at h
  split_ifs at h with hpoll
  · exact absurd (Option.some.inj h) (hcancelled 1)
  obtain ⟨whole, hrun, hout⟩ := Option.map_eq_some_iff.mp h
  split_ifs at hout with hany
  · exact absurd hout (hcancelled _)
  obtain ⟨steps, out, hended, rfl⟩ := run_ended hrun
  have hlength : (finish out).results.length = requests.length := by
    rw [hended.results_length, List.length_map]
  have hyields := answerLoop_yields floats b.toTinyLLMBackend elapsed requests.length (finish out)
    (requests.zip (finish out).results).zipIdx {}
  by_cases hraised : Raised isCancelled ((finish out).steps.length + 1)
      ((finish out).steps.length + 1 + completionPolls b.toTinyLLMBackend
        (((requests.zip (finish out).results).zipIdx.takeWhile accepted).map
          (fun entry => entry.1.1.prompt)))
  · obtain ⟨last, hlast⟩ := outcome_raised hyields hraised
    exact absurd (hlast.symm.trans hout) (hcancelled last)
  rw [outcome_quiet hyields hraised] at hout
  obtain ⟨rfl, -⟩ := Prod.mk.inj hout
  refine ⟨_, entries_requests hlength, ?_⟩
  unfold answered at hok ⊢
  generalize (requests.zip (finish out).results).zipIdx = entries at hok ⊢
  cases hrest : (entries.dropWhile accepted).head? with
  | some entry => simp [hrest] at hok
  | none =>
    have hall : entries.takeWhile accepted = entries := by
      have hsplit := List.takeWhile_append_dropWhile (p := accepted) (l := entries)
      rwa [List.head?_eq_none_iff.mp hrest, List.append_nil] at hsplit
    simp [hall]

/-- Continuous batching changes nothing about the text: whatever the scheduler's limits, whatever it
schedules when, and whoever polls, a batch that succeeds has the text of the plain backend for
every request. -/
theorem continuous_agrees {b : ContinuousTinyLLMBackend Temperature} {elapsed : Nat → Elapsed}
    {requests : List BackendRequest} {isCancelled : Nat → Bool} {fuel polls : Nat}
    {result : BackendResult}
    (h : b.processBatch floats elapsed requests isCancelled fuel = some (result, polls))
    (hok : result.code = .ok) (elapsed' : Nat → Elapsed) :
    result.outputs.map generatedText =
      (outcome (fun _ => false) (b.toTinyLLMBackend.processBatch floats elapsed' requests)
        0).1.outputs.map generatedText ∧ none ∉ result.outputs.map generatedText := by
  obtain ⟨entries, hrequests, houtputs, -⟩ := continuous_outputs floats h hok
  obtain ⟨n, hplain⟩ := b.toTinyLLMBackend.processBatch_yields floats elapsed' requests
  have hquiet : ¬ Raised (fun _ => false) 0 (0 + n) := by
    rintro ⟨k, -, -, hk⟩
    exact Bool.false_ne_true hk
  have hcontinuous : result.outputs.map generatedText = requests.map fun request =>
      some (completionText floats b.toTinyLLMBackend request.prompt) := by
    conv_rhs => rw [← hrequests]
    rw [houtputs, List.map_map, List.map_map]
    refine List.map_congr_left fun entry _ => ?_
    rw [Function.comp_apply, Function.comp_apply, generatedText_continuousOutput]
  have hsequential : (requests.zipIdx.map
      (b.toTinyLLMBackend.output floats elapsed' requests.length)).map generatedText =
      requests.map fun request =>
        some (completionText floats b.toTinyLLMBackend request.prompt) := by
    conv_rhs => rw [← List.zipIdx_map_fst 0 requests]
    rw [List.map_map, List.map_map]
    refine List.map_congr_left fun entry _ => ?_
    rw [Function.comp_apply, Function.comp_apply, generatedText_output]
  rw [hcontinuous, outcome_quiet hplain hquiet]
  exact ⟨hsequential.symm, by simp⟩

end

/-- Two prompts, decoded one at a time with a word for a prefill. -/
theorem continuous_agrees_pair :
    ∃ result polls, (continuousTinyLLMBackend constantFloats 1 () 1 1 1 2 64 0).processBatch
        constantFloats (fun _ => ⟨0, 0⟩) [{ id := text "a", prompt := text "cache" },
          { id := text "b", prompt := text "one two" }] (fun _ => false) 24 =
        some (result, polls) ∧ result.code = .ok ∧
      result.outputs.map generatedText =
        (outcome (fun _ => false)
          ((continuousTinyLLMBackend constantFloats 1 () 1 1 1 2 64 0).toTinyLLMBackend.processBatch
            constantFloats (fun _ => ⟨7, 9⟩) [{ id := text "a", prompt := text "cache" },
              { id := text "b", prompt := text "one two" }]) 0).1.outputs.map generatedText ∧
      none ∉ result.outputs.map generatedText := by
  have hrun : ((continuousTinyLLMBackend constantFloats 1 () 1 1 1 2 64 0).processBatch
      constantFloats (fun _ => ⟨0, 0⟩) [{ id := text "a", prompt := text "cache" },
        { id := text "b", prompt := text "one two" }] (fun _ => false) 24).map
      (fun out => out.1.code) = some .ok := by
    decide +kernel
  obtain ⟨⟨result, polls⟩, hout, hcode⟩ := Option.map_eq_some_iff.mp hrun
  exact ⟨result, polls, hout, hcode, continuous_agrees constantFloats hout hcode _⟩

end Laminar.Backend
