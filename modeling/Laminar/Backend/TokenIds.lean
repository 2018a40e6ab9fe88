import Laminar.Backend.Continuous
import Laminar.Library.PartialSort

/-! The decoder of the tiny language model with its ids as plain integers and its tables read
unchecked: a read out of range has no value. Every read turns out to be in range. -/
namespace Laminar.Backend
open Laminar.Llama Laminar.Polling

structure TinyLLMNumerics (Logit Temperature Hidden : Type) where
  nextState : Int → Nat → List Hidden → Hidden
  logits : Hidden → Temperature → Vector Logit 64

namespace Unchecked

def tokenId (token : Bytes) : Int := 2 + ((hashToken token % (64 - 2)).toNat : Int)

def tokenizeForTinyLLM (prompt : Bytes) : List Int :=
  let tokenIds := 0 :: (tokenize prompt).map tokenId
  if tokenIds.length = 1 then tokenIds ++ [tokenId prompt] else tokenIds

def word (tokenId : Int) : Option String :=
  if tokenId < 0 then none else vocabulary[tokenId.toNat]?

def joinGeneratedTokens (tokenIds : List Int) : Option Bytes :=
  (tokenIds.mapM word).map fun words => (text " ").intercalate (words.map text)

structure Decoding (Hidden : Type) where
  tokenIds : List Int
  generatedIds : List Int := []
  states : List Hidden

section
variable {Logit Temperature Hidden : Type} [LinearOrder Logit]

def Before (lhs rhs : Logit × Int) : Prop :=
  if lhs.1 = rhs.1 then lhs.2 < rhs.2 else lhs.1 > rhs.1

instance : DecidableRel (@Before Logit _) := fun lhs rhs => by
  unfold Before
  infer_instance

def ranked (logits : Vector Logit 64) : List (Logit × Int) :=
  ((List.finRange 64).drop 2).map fun token => (logits.get token, (token.val : Int))

variable (ranking : PartialSort (@Before Logit _))

def tinyLLMSelectToken (logits : Vector Logit 64) (topK : Int) (seed : UInt32) (step : Nat) :
    Option Int :=
  let ranked := ranked logits
  let sorted := ranking.sort (min topK ranked.length).toNat ranked
  let cappedTopK := max 1 (min topK ranked.length)
  let offset := (seed + UInt32.ofNat (step * 17)) % UInt32.ofNat cappedTopK.toNat
  sorted[offset.toNat]?.map Prod.snd

variable (numerics : TinyLLMNumerics Logit Temperature Hidden) (temperature : Temperature)
  (topK : Int) (seed : UInt32)

def tinyLLMPrefill (tokenIds : List Int) : Polling (List Hidden) :=
  Polling.otherwise
    (tokenIds.foldlM
      (fun states tokenId => do
        poll
        pure (states ++ [numerics.nextState tokenId states.length states]))
      [])
    []

def Decoding.next (d : Decoding Hidden) (step : Nat) : Option (Decoding Hidden) := do
  let state ← d.states.getLast?
  let nextToken ← tinyLLMSelectToken ranking (numerics.logits state temperature) topK seed step
  pure { tokenIds := d.tokenIds ++ [nextToken]
         generatedIds := d.generatedIds ++ [nextToken]
         states := d.states ++ [numerics.nextState nextToken d.tokenIds.length d.states] }

def decodeLoop (maxGeneratedTokens : Nat) (d : Decoding Hidden) :
    Polling (Option (Decoding Hidden)) :=
  (List.range maxGeneratedTokens).foldlM
    (fun d step => do
      poll
      pure (d.bind fun d => d.next ranking numerics temperature topK seed step))
    (some d)

/-- What follows the prefill; every early return leaves its fields alone. -/
def finishGeneration (prompt : Bytes) (maxGeneratedTokens : Nat) (elapsed : Elapsed)
    (states : List Hidden) : Polling (Option TinyLLMGeneration) :=
  let tokenIds := tokenizeForTinyLLM prompt
  let generation : TinyLLMGeneration :=
    { promptTokens := tokenIds.length, prefillMicros := elapsed.prefillMicros }
  Polling.otherwise (do
      poll
      if states = [] then giveUp
      let d ← decodeLoop ranking numerics temperature topK (hashToken prompt) maxGeneratedTokens
        { tokenIds := tokenIds, states := states }
      pure (d.bind fun d => (joinGeneratedTokens d.generatedIds).map fun generated =>
        { generation with
          generated := generated
          generatedTokens := d.generatedIds.length
          decodeMicros := elapsed.decodeMicros }))
    (some generation)

def generateTinyLLMCompletion (prompt : Bytes) (maxGeneratedTokens : Nat) (elapsed : Elapsed) :
    Polling (Option TinyLLMGeneration) := do
  let states ← tinyLLMPrefill numerics (tokenizeForTinyLLM prompt)
  finishGeneration ranking numerics temperature topK prompt maxGeneratedTokens elapsed states

/-- Token `a` goes before token `b`: its logit is higher, or the same and its id smaller. -/
def Outranks (logits : Vector Logit 64) (a b : Fin 64) : Prop :=
  logits.get b < logits.get a ∨ logits.get a = logits.get b ∧ a < b

instance (logits : Vector Logit 64) : DecidableRel (Outranks logits) := fun a b => by
  unfold Outranks
  infer_instance

/-- The candidates of a step: the ids from 2 on that fewer than `topK` others outrank. -/
def Candidate (logits : Vector Logit 64) (topK id : Int) : Prop :=
  ∃ t : Fin 64, (t.val : Int) = id ∧ 2 ≤ t.val ∧
    (Finset.card {u : Fin 64 | 2 ≤ u.val ∧ Outranks logits u t} : Int) < topK

theorem tokenId_bounds (token : Bytes) : 2 ≤ tokenId token ∧ tokenId token < 64 := by
  have hmod : (hashToken token % (64 - 2)).toNat < 62 := by
    rw [UInt32.toNat_mod]
    exact Nat.mod_lt _ (by decide)
  unfold tokenId
  omega

/-- A prompt has at least two ids: the first is 0, the others are words. -/
theorem tokenizeForTinyLLM_spec (prompt : Bytes) :
    ∃ words, tokenizeForTinyLLM prompt = 0 :: words ∧ words ≠ [] ∧
      ∀ id ∈ words, 2 ≤ id ∧ id < 64 := by
  unfold tokenizeForTinyLLM
  cases htokens : tokenize prompt with
  | nil =>
    refine ⟨[tokenId prompt], rfl, List.cons_ne_nil _ _, fun id hid => ?_⟩
    rw [List.mem_singleton.mp hid]
    exact tokenId_bounds prompt
  | cons token rest =>
    refine ⟨(token :: rest).map tokenId, if_neg (by simp), by simp, fun id hid => ?_⟩
    obtain ⟨word, -, rfl⟩ := List.mem_map.mp hid
    exact tokenId_bounds word

theorem word_isSome {id : Int} (hlow : 0 ≤ id) (hhigh : id < 64) : ∃ w, word id = some w := by
  rw [word, if_neg (Int.not_lt.mpr hlow)]
  exact ⟨_, getElem?_pos vocabulary id.toNat (by omega)⟩

theorem joinGeneratedTokens_isSome {ids : List Int} (h : ∀ id ∈ ids, 2 ≤ id ∧ id < 64) :
    ∃ generated, joinGeneratedTokens ids = some generated := by
  have hwords : ∃ words, ids.mapM word = some words := by
    induction ids with
    | nil => exact ⟨[], rfl⟩
    | cons id ids ih =>
      obtain ⟨hid, hids⟩ := List.forall_mem_cons.mp h
      obtain ⟨w, hw⟩ := word_isSome (Int.le_trans (by decide) hid.1) hid.2
      obtain ⟨words, hwords⟩ := ih hids
      exact ⟨w :: words, by simp [List.mapM_cons, hw, hwords]⟩
  obtain ⟨words, hwords⟩ := hwords
  exact ⟨_, by rw [joinGeneratedTokens, hwords, Option.map_some]⟩

theorem mem_drop_finRange (t : Fin 64) : t ∈ (List.finRange 64).drop 2 ↔ 2 ≤ t.val := by
  revert t
  decide

omit [LinearOrder Logit] in
theorem length_ranked (logits : Vector Logit 64) : (ranked logits).length = 62 := by
  simp [ranked]

theorem before_irrefl (a : Logit × Int) : ¬ Before a a := by
  simp [Before]

theorem before_iff (logits : Vector Logit 64) (u t : Fin 64) :
    Before (logits.get u, (u.val : Int)) (logits.get t, (t.val : Int)) ↔ Outranks logits u t := by
  by_cases heq : logits.get u = logits.get t
  · rw [Before, if_pos heq, Outranks, heq]
    simp
  · rw [Before, if_neg heq, Outranks]
    simp only [heq, false_and, or_false, gt_iff_lt]

def fullSort : PartialSort (@Before Logit _) :=
  PartialSort.ofInsertionSort (fun a b => by unfold Before; grind)
    (fun a b c => by unfold Before; grind)

example : tinyLLMSelectToken fullSort (Vector.replicate 64 (0 : Int)) 3 5 1 = some 3 := by
  decide +kernel

/-- The ids that outrank a token are counted in the list that is ranked. -/
theorem card_outranks (logits : Vector Logit 64) (t : Fin 64) :
    Finset.card {u : Fin 64 | 2 ≤ u.val ∧ Outranks logits u t} =
      (ranked logits).countP (fun p => decide (Before p (logits.get t, (t.val : Int)))) := by
  have hnodup : ((List.finRange 64).drop 2).Nodup :=
    (List.nodup_finRange 64).sublist (List.drop_sublist 2 _)
  rw [ranked, List.countP_map, List.countP_eq_length_filter,
    ← List.toFinset_card_of_nodup (hnodup.filter _)]
  congr 1
  ext u
  simp only [Finset.mem_filter_univ, List.mem_toFinset, List.mem_filter, mem_drop_finRange,
    Function.comp_apply, before_iff, decide_eq_true_eq]

/-- Whatever seed and step are, the token that is selected exists and is a candidate. -/
theorem tinyLLMSelectToken_spec (logits : Vector Logit 64) {topK : Int} (hlow : 1 ≤ topK)
    (hhigh : topK ≤ 62) (seed : UInt32) (step : Nat) :
    ∃ id, tinyLLMSelectToken ranking logits topK seed step = some id ∧
      Candidate logits topK id := by
  have hmin : min topK ((ranked logits).length : Int) = topK := by
    rw [length_ranked]
    omega
  have hmiddle : topK.toNat ≤ (ranked logits).length := by
    rw [length_ranked]
    omega
  have hoffset : ((seed + UInt32.ofNat (step * 17)) % UInt32.ofNat topK.toNat).toNat <
      topK.toNat := by
    have hsize : (UInt32.ofNat topK.toNat).toNat = topK.toNat := by
      rw [UInt32.toNat_ofNat']
      omega
    rw [UInt32.toNat_mod, hsize]
    exact Nat.mod_lt _ (by omega)
  simp only [tinyLLMSelectToken, hmin, max_eq_right hlow]
  set offset := ((seed + UInt32.ofNat (step * 17)) % UInt32.ofNat topK.toNat).toNat
  obtain ⟨p, hp⟩ := ranking.getElem?_isSome topK.toNat (hoffset.trans_le hmiddle)
  have hcount := ranking.countP_lt before_irrefl hmiddle hoffset hp
  obtain ⟨t, ht, rfl⟩ := List.mem_map.mp (ranking.mem_of_getElem? hp)
  refine ⟨t.val, by rw [hp, Option.map_some], t, rfl, (mem_drop_finRange t).mp ht, ?_⟩
  rw [card_outranks]
  omega

theorem Candidate.bounds {logits : Vector Logit 64} {topK id : Int}
    (h : Candidate logits topK id) : 2 ≤ id ∧ id < 64 := by
  obtain ⟨t, rfl, hlow, -⟩ := h
  have hlt := t.isLt
  omega

def prefilled (tokenIds : List Int) : List Hidden :=
  tokenIds.foldl
    (fun states tokenId => states ++ [numerics.nextState tokenId states.length states]) []

def begun (prompt : Bytes) : Decoding Hidden :=
  { tokenIds := tokenizeForTinyLLM prompt
    states := prefilled numerics (tokenizeForTinyLLM prompt) }

def decoded (prompt : Bytes) (k : Nat) : Option (Decoding Hidden) :=
  (List.range k).foldl
    (fun d step => d.bind fun d =>
      d.next ranking numerics temperature topK (hashToken prompt) step)
    (some (begun numerics prompt))

omit [LinearOrder Logit] in
theorem length_prefilled (tokenIds : List Int) :
    (prefilled numerics tokenIds).length = tokenIds.length := by
  have hfold : ∀ states : List Hidden,
      (tokenIds.foldl
        (fun states tokenId => states ++ [numerics.nextState tokenId states.length states])
        states).length = states.length + tokenIds.length := by
    induction tokenIds with
    | nil => exact fun states => rfl
    | cons tokenId tokenIds ih =>
      intro states
      rw [List.foldl_cons, ih, List.length_append, List.length_singleton, List.length_cons]
      omega
  exact (hfold []).trans (Nat.zero_add _)

structure Generated (prompt : Bytes) (k : Nat) (d : Decoding Hidden) : Prop where
  tokens : d.tokenIds = tokenizeForTinyLLM prompt ++ d.generatedIds
  count : d.generatedIds.length = k
  states : d.states.length = d.tokenIds.length
  candidate : ∀ i id, d.generatedIds[i]? = some id →
    ∃ state, d.states[(tokenizeForTinyLLM prompt).length - 1 + i]? = some state ∧
      Candidate (numerics.logits state temperature) topK id

variable {topK}

theorem Generated.next {prompt : Bytes} {k : Nat} {d : Decoding Hidden}
    (h : Generated numerics temperature topK prompt k d) (hlow : 1 ≤ topK) (hhigh : topK ≤ 62) :
    ∃ d', d.next ranking numerics temperature topK seed k = some d' ∧
      Generated numerics temperature topK prompt (k + 1) d' := by
  obtain ⟨words, hwords, -⟩ := tokenizeForTinyLLM_spec prompt
  have hprompt : 0 < (tokenizeForTinyLLM prompt).length := by
    rw [hwords]
    exact Nat.succ_pos _
  have hlength : d.states.length = (tokenizeForTinyLLM prompt).length + k := by
    rw [h.states, h.tokens, List.length_append, h.count]
  obtain ⟨state, hstate⟩ : ∃ state,
      d.states[(tokenizeForTinyLLM prompt).length - 1 + k]? = some state :=
    ⟨_, List.getElem?_eq_getElem (by omega)⟩
  have hlast : d.states.getLast? = some state := by
    rw [List.getLast?_eq_getElem?, hlength, ← hstate]
    congr 1
    omega
  obtain ⟨id, hid, hcandidate⟩ :=
    tinyLLMSelectToken_spec ranking (numerics.logits state temperature) hlow hhigh seed k
  refine ⟨_, by simp only [Decoding.next, hlast, hid, Option.bind_eq_bind, Option.bind_some]; rfl,
    ?_, ?_, ?_, ?_⟩
  · rw [h.tokens, List.append_assoc]
  · rw [List.length_append, h.count, List.length_singleton]
  · rw [List.length_append, List.length_append, h.states, List.length_singleton,
      List.length_singleton]
  · intro i id' hget
    rw [List.getElem?_append] at hget
    split_ifs at hget with hi
    · obtain ⟨state', hstate', hcandidate'⟩ := h.candidate i id' hget
      refine ⟨state', ?_, hcandidate'⟩
      rw [List.getElem?_append_left (List.getElem?_eq_some_iff.mp hstate').1]
      exact hstate'
    · rw [List.getElem?_singleton] at hget
      split_ifs at hget with hlast
      obtain rfl := Option.some.inj hget
      obtain rfl : i = k := by
        rw [h.count] at hi hlast
        omega
      refine ⟨state, ?_, hcandidate⟩
      rw [List.getElem?_append_left (List.getElem?_eq_some_iff.mp hstate).1]
      exact hstate

/-- Any number of rounds goes through. -/
theorem decoded_spec (prompt : Bytes) (hlow : 1 ≤ topK) (hhigh : topK ≤ 62) (k : Nat) :
    ∃ d, decoded ranking numerics temperature topK prompt k = some d ∧
      Generated numerics temperature topK prompt k d := by
  induction k with
  | zero =>
    exact ⟨begun numerics prompt, rfl, (List.append_nil _).symm, rfl, length_prefilled numerics _,
      fun i id hget => by simp [begun] at hget⟩
  | succ k ih =>
    obtain ⟨d, hd, hgenerated⟩ := ih
    obtain ⟨d', hnext, hgenerated'⟩ :=
      hgenerated.next ranking numerics temperature (hashToken prompt) hlow hhigh
    refine ⟨d', ?_, hgenerated'⟩
    rw [decoded, List.range_succ, List.foldl_append, ← decoded, hd]
    exact hnext

theorem Generated.bounds {prompt : Bytes} {k : Nat} {d : Decoding Hidden}
    (h : Generated numerics temperature topK prompt k d) :
    ∀ id ∈ d.generatedIds, 2 ≤ id ∧ id < 64 := by
  intro id hid
  obtain ⟨i, hi, rfl⟩ := List.getElem_of_mem hid
  obtain ⟨state, -, hcandidate⟩ := h.candidate i _ (List.getElem?_eq_getElem hi)
  exact hcandidate.bounds

/-- With the states of the prefill the rest of a generation goes through, unless it is cancelled. -/
theorem finishGeneration_spec (prompt : Bytes) (maxGeneratedTokens : Nat) (elapsed : Elapsed)
    (hlow : 1 ≤ topK) (hhigh : topK ≤ 62) (isCancelled : Nat → Bool) (polls : Nat) :
    ∃ g last, finishGeneration ranking numerics temperature topK prompt maxGeneratedTokens elapsed
        (prefilled numerics (tokenizeForTinyLLM prompt)) isCancelled polls =
          (some (some g), last) ∧
      (¬ Raised isCancelled polls (polls + (1 + maxGeneratedTokens)) →
        g.generatedTokens = maxGeneratedTokens ∧
        ∃ d, decoded ranking numerics temperature topK prompt maxGeneratedTokens = some d ∧
          d.generatedIds.length = maxGeneratedTokens ∧
          joinGeneratedTokens d.generatedIds = some g.generated) := by
  obtain ⟨d, hd, hgenerated⟩ :=
    decoded_spec ranking numerics temperature prompt hlow hhigh maxGeneratedTokens
  obtain ⟨generated, hjoin⟩ :=
    joinGeneratedTokens_isSome (hgenerated.bounds numerics temperature)
  obtain ⟨words, hwords, -⟩ := tokenizeForTinyLLM_spec prompt
  have hne : prefilled numerics (tokenizeForTinyLLM prompt) ≠ [] := by
    rw [← List.length_pos_iff, length_prefilled, hwords]
    exact Nat.succ_pos _
  have hloop := Yields.pollLoop
    (fun d step => d.bind fun d =>
      Decoding.next ranking numerics temperature topK (hashToken prompt) d step)
    (List.range maxGeneratedTokens) (some (begun numerics prompt))
  rw [List.length_range, show List.foldl _ _ _ = some d from hd] at hloop
  obtain ⟨x, early, g, heq, hx, hg⟩ :
      ∃ (x : Polling (Option TinyLLMGeneration)) (early g : TinyLLMGeneration),
        finishGeneration ranking numerics temperature topK prompt maxGeneratedTokens elapsed
          (prefilled numerics (tokenizeForTinyLLM prompt)) = x.otherwise (some early) ∧
        Yields x (some g) (1 + maxGeneratedTokens) ∧
        g.generatedTokens = maxGeneratedTokens ∧ g.generated = generated := by
    refine ⟨_, _, { promptTokens := (tokenizeForTinyLLM prompt).length
                    prefillMicros := elapsed.prefillMicros
                    generated := generated
                    generatedTokens := maxGeneratedTokens
                    decodeMicros := elapsed.decodeMicros }, rfl, Yields.poll.bind ?_, rfl, rfl⟩
    rw [if_neg hne, ← Nat.add_zero maxGeneratedTokens]
    refine hloop.bind ?_
    rw [Option.bind_some, hjoin, Option.map_some, hgenerated.count]
    exact Yields.pure _
  rw [heq, Polling.otherwise]
  by_cases hraised : Raised isCancelled polls (polls + (1 + maxGeneratedTokens))
  · rw [hx.raised isCancelled polls hraised]
    exact ⟨early, _, rfl, fun h => absurd hraised h⟩
  · rw [hx.quiet isCancelled polls hraised]
    exact ⟨g, _, rfl, fun _ => ⟨hg.1, d, hd, hgenerated.count, hg.2 ▸ hjoin⟩⟩

theorem finishGeneration_nil (prompt : Bytes) (maxGeneratedTokens : Nat) (elapsed : Elapsed)
    (isCancelled : Nat → Bool) (polls : Nat) :
    ∃ g last,
      finishGeneration ranking numerics temperature topK prompt maxGeneratedTokens elapsed []
      isCancelled polls = (some (some g), last) := by
  obtain ⟨x, early, heq, hx⟩ :
      ∃ (x : Polling (Option TinyLLMGeneration)) (early : TinyLLMGeneration),
        finishGeneration ranking numerics temperature topK prompt maxGeneratedTokens elapsed [] =
          x.otherwise (some early) ∧ GivesUp x :=
    ⟨_, _, rfl, GivesUp.after poll fun _ => by
      rw [if_pos rfl]
      exact givesUp_giveUp.bind _⟩
  rw [heq, Polling.otherwise, hx isCancelled polls]
  exact ⟨early, _, rfl⟩

/-- A generation never reads out of range. Unless it is cancelled it selects all its tokens. -/
theorem generateTinyLLMCompletion_spec (prompt : Bytes) (maxGeneratedTokens : Nat)
    (elapsed : Elapsed) (hlow : 1 ≤ topK) (hhigh : topK ≤ 62) (isCancelled : Nat → Bool)
    (polls : Nat) :
    ∃ g last, generateTinyLLMCompletion ranking numerics temperature topK prompt maxGeneratedTokens
        elapsed isCancelled polls = (some (some g), last) ∧
      (¬ Raised isCancelled polls
          (polls + ((tokenizeForTinyLLM prompt).length + (1 + maxGeneratedTokens))) →
        g.generatedTokens = maxGeneratedTokens ∧
        ∃ d, decoded ranking numerics temperature topK prompt maxGeneratedTokens = some d ∧
          d.generatedIds.length = maxGeneratedTokens ∧
          joinGeneratedTokens d.generatedIds = some g.generated) := by
  have hprefill := Yields.pollLoop
    (fun states tokenId => states ++ [numerics.nextState tokenId states.length states])
    (tokenizeForTinyLLM prompt) []
  rw [raised_split, not_or]
  by_cases hearly : Raised isCancelled polls (polls + (tokenizeForTinyLLM prompt).length)
  · -- a cancelled prefill leaves no state
    have hstates : ∃ n, tinyLLMPrefill numerics (tokenizeForTinyLLM prompt) isCancelled polls =
        (some [], n) :=
      ⟨_, by rw [tinyLLMPrefill, Polling.otherwise, hprefill.raised isCancelled polls hearly]; rfl⟩
    obtain ⟨n, hn⟩ := hstates
    obtain ⟨g, last, hg⟩ := finishGeneration_nil ranking numerics temperature prompt
      maxGeneratedTokens elapsed isCancelled n
    exact ⟨g, last, (bind_some hn).trans hg, fun h => absurd hearly h.1⟩
  · have hstates : tinyLLMPrefill numerics (tokenizeForTinyLLM prompt) isCancelled polls =
        (some (prefilled numerics (tokenizeForTinyLLM prompt)),
          polls + (tokenizeForTinyLLM prompt).length) := by
      rw [tinyLLMPrefill, Polling.otherwise, hprefill.quiet isCancelled polls hearly]
      rfl
    obtain ⟨g, last, hg, hwhole⟩ := finishGeneration_spec ranking numerics temperature prompt
      maxGeneratedTokens elapsed hlow hhigh isCancelled
      (polls + (tokenizeForTinyLLM prompt).length)
    exact ⟨g, last, (bind_some hstates).trans hg, fun h => hwhole h.2⟩

/-- Every id that is tokenized or generated names a word, every token selected is among the `topK`
candidates of its step, nothing is read out of range, and an uncancelled generation is as long as
asked for. -/
theorem tinyLLM_tokens_safe (prompt : Bytes) (maxGeneratedTokens : Nat) (topK : Clamped 1 62)
    (elapsed : Elapsed) :
    (∃ words, tokenizeForTinyLLM prompt = 0 :: words ∧ words ≠ [] ∧
      ∀ id ∈ words, 2 ≤ id ∧ id < 64) ∧
    (∀ (logits : Vector Logit 64) (seed : UInt32) (step : Nat), ∃ id,
      tinyLLMSelectToken ranking logits topK.val seed step = some id ∧
        Candidate logits topK.val id) ∧
    (∀ k, ∃ d, decoded ranking numerics temperature topK.val prompt k = some d ∧
      Generated numerics temperature topK.val prompt k d ∧
      (∀ id ∈ d.generatedIds, 2 ≤ id ∧ id < 64) ∧
      ∃ generated, joinGeneratedTokens d.generatedIds = some generated) ∧
    ∀ isCancelled polls, ∃ g last,
      generateTinyLLMCompletion ranking numerics temperature topK.val prompt maxGeneratedTokens
        elapsed isCancelled polls = (some (some g), last) ∧
      (¬ Raised isCancelled polls
          (polls + ((tokenizeForTinyLLM prompt).length + (1 + maxGeneratedTokens))) →
        g.generatedTokens = maxGeneratedTokens ∧
        ∃ d, decoded ranking numerics temperature topK.val prompt maxGeneratedTokens = some d ∧
          d.generatedIds.length = maxGeneratedTokens ∧
          joinGeneratedTokens d.generatedIds = some g.generated) := by
  obtain ⟨hlow, hhigh⟩ := topK.property
  refine ⟨tokenizeForTinyLLM_spec prompt, fun logits seed step => ?_, fun k => ?_,
    fun isCancelled polls => ?_⟩
  · exact tinyLLMSelectToken_spec ranking logits hlow hhigh seed step
  · obtain ⟨d, hd, hgenerated⟩ := decoded_spec ranking numerics temperature prompt hlow hhigh k
    have hbounds := hgenerated.bounds numerics temperature
    exact ⟨d, hd, hgenerated, hbounds, joinGeneratedTokens_isSome hbounds⟩
  · exact generateTinyLLMCompletion_spec ranking numerics temperature prompt maxGeneratedTokens
      elapsed hlow hhigh isCancelled polls

variable (topK)

def rankedToken (logits : Vector Logit 64) (i : Nat) : Fin 64 :=
  match (ranking.sort (min topK (ranked logits).length).toNat (ranked logits))[i]? with
  | some p => if h : 0 ≤ p.2 ∧ p.2 < 64 then ⟨p.2.toNat, by omega⟩ else Backend.tokenId []
  | none => Backend.tokenId []

def floats (base : TinyLLMFloats Temperature Hidden) : TinyLLMFloats Temperature Hidden :=
  { base with
    nextState := fun tokenId => numerics.nextState (tokenId.val : Int)
    ranked := fun state temperature topK =>
      rankedToken ranking topK (numerics.logits state temperature) }

variable {topK} (base : TinyLLMFloats Temperature Hidden)

def unchecked (tokenId : Fin 64) : Int := tokenId.val

def Decoding.ofChecked (d : Backend.Decoding Hidden) : Decoding Hidden :=
  { tokenIds := d.tokenIds.map unchecked
    generatedIds := d.generatedIds.map unchecked
    states := d.states }

theorem tokenizeForTinyLLM_eq (prompt : Bytes) :
    tokenizeForTinyLLM prompt = (Backend.tokenizeForTinyLLM prompt).map unchecked := by
  have hid : ∀ token, tokenId token = unchecked (Backend.tokenId token) := by
    intro token
    simp only [tokenId, unchecked, Backend.tokenId, UInt32.toNat_mod]
    rfl
  unfold tokenizeForTinyLLM Backend.tokenizeForTinyLLM
  cases tokenize prompt with
  | nil => simp [hid, unchecked]
  | cons token rest => simp [hid, unchecked, Function.comp_def]

theorem joinGeneratedTokens_eq (tokenIds : List (Fin 64)) :
    joinGeneratedTokens (tokenIds.map unchecked) =
      some (Backend.joinGeneratedTokens tokenIds) := by
  have hwords : (tokenIds.map unchecked).mapM word =
      some (tokenIds.map fun tokenId => vocabulary[tokenId]) := by
    induction tokenIds with
    | nil => rfl
    | cons tokenId rest ih =>
      have hword : word (unchecked tokenId) = some vocabulary[tokenId] := by
        rw [word, unchecked, if_neg (Int.not_lt.mpr (Int.natCast_nonneg _))]
        exact getElem?_pos vocabulary tokenId.val tokenId.isLt
      simp [List.mapM_cons, hword, ih]
  rw [joinGeneratedTokens, hwords, Option.map_some, Backend.joinGeneratedTokens, List.map_map]
  rfl

theorem tinyLLMSelectToken_eq (b : TinyLLMBackend Temperature) (state : Hidden) (seed : UInt32)
    (step : Nat) :
    tinyLLMSelectToken ranking (numerics.logits state b.temperature) b.topK.val seed step =
      some (unchecked
        (Backend.tinyLLMSelectToken (floats ranking numerics base) b state seed step)) := by
  obtain ⟨hlow, hhigh⟩ := b.topK.property
  obtain ⟨id, hid, hcandidate⟩ := tinyLLMSelectToken_spec ranking
    (numerics.logits state b.temperature) hlow hhigh seed step
  have hbounds := hcandidate.bounds
  have hcap : max 1 (min b.topK.val ((ranked (numerics.logits state b.temperature)).length : Int)) =
      b.topK.val := by
    rw [length_ranked]
    omega
  rw [hid]
  simp only [tinyLLMSelectToken, hcap] at hid
  obtain ⟨p, hp, rfl⟩ := Option.map_eq_some_iff.mp hid
  simp only [Backend.tinyLLMSelectToken, floats, rankedToken, hp,
    dif_pos (show 0 ≤ p.2 ∧ p.2 < 64 by omega), unchecked]
  congr 1
  omega

theorem Decoding.next_eq (b : TinyLLMBackend Temperature) {d : Backend.Decoding Hidden}
    (hd : d.states ≠ []) (step : Nat) :
    (ofChecked d).next ranking numerics b.temperature b.topK.val seed step =
        some (ofChecked (d.next (floats ranking numerics base) b seed step)) ∧
      (d.next (floats ranking numerics base) b seed step).states ≠ [] := by
  obtain ⟨state, hstate⟩ := Option.isSome_iff_exists.mp (List.getLast?_isSome.mpr hd)
  have hselect := tinyLLMSelectToken_eq ranking numerics base b state seed step
  simp [Decoding.next, Backend.Decoding.next, ofChecked, hstate, hselect, floats, unchecked]

theorem decodeLoop_eq (b : TinyLLMBackend Temperature) {d : Backend.Decoding Hidden}
    (hd : d.states ≠ []) :
    decodeLoop ranking numerics b.temperature b.topK.val seed b.maxGeneratedTokens.val.toNat
        (Decoding.ofChecked d) =
      (fun d => some (Decoding.ofChecked d)) <$>
        Backend.decodeLoop (floats ranking numerics base) b seed d := by
  unfold decodeLoop Backend.decodeLoop
  induction List.range b.maxGeneratedTokens.val.toNat generalizing d with
  | nil => simp
  | cons step rest ih =>
    obtain ⟨hnext, hstates⟩ := Decoding.next_eq ranking numerics seed base b hd step
    simp only [List.foldlM_cons, bind_assoc, pure_bind, Option.bind_some, hnext, map_bind,
      ih hstates]

/-- The unchecked generation is the checked one of the model that `ProcessBatch` runs. -/
theorem generateTinyLLMCompletion_eq (b : TinyLLMBackend Temperature) (prompt : Bytes)
    (elapsed : Elapsed) :
    generateTinyLLMCompletion ranking numerics b.temperature b.topK.val prompt
        b.maxGeneratedTokens.val.toNat elapsed =
      some <$> Backend.generateTinyLLMCompletion (floats ranking numerics base) b prompt
        elapsed := by
  have hprefill : tinyLLMPrefill numerics (tokenizeForTinyLLM prompt) =
      Backend.tinyLLMPrefill (floats ranking numerics base)
        (Backend.tokenizeForTinyLLM prompt) := by
    rw [tinyLLMPrefill, Backend.tinyLLMPrefill, tokenizeForTinyLLM_eq, List.foldlM_map]
    rfl
  rw [generateTinyLLMCompletion, hprefill, Backend.generateTinyLLMCompletion]
  simp only [map_bind, ← Polling.otherwise_map]
  refine bind_congr fun states => ?_
  rw [finishGeneration, tokenizeForTinyLLM_eq, List.length_map]
  refine congrArg (Polling.otherwise · _) (bind_congr fun _ => ?_)
  by_cases hstates : states = []
  · simp only [if_pos hstates]
    rfl
  · simp only [if_neg hstates]
    rw [show (⟨(Backend.tokenizeForTinyLLM prompt).map unchecked, [], states⟩ : Decoding Hidden) =
      Decoding.ofChecked ⟨Backend.tokenizeForTinyLLM prompt, [], states⟩ from rfl,
      decodeLoop_eq ranking numerics (hashToken prompt) base b hstates]
    simp only [bind_map_left, map_bind, map_pure, Option.bind_some, Decoding.ofChecked,
      joinGeneratedTokens_eq, Option.map_some, List.length_map]

end

end Unchecked

end Laminar.Backend
