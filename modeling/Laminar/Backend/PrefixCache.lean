import Laminar.Backend.Continuous
import Laminar.Llama.RequestBody
import Laminar.Scheduler.Prefixes

/-! A prefix key names the first ids of a prompt and nothing else, so the sequences that share a
block of the cache begin alike. -/
namespace Laminar.Backend
open Laminar.Kv Laminar.Llama Laminar.Scheduler Laminar.Decimal

theorem decimal_injective : Function.Injective decimal := by
  intro v w h
  have hdigits : ∀ m n : Nat, digits m ≠ 45 :: digits n := by
    intro m n hm
    have hrange := digits_range m 45 (by rw [hm]; exact List.mem_cons_self)
    exact absurd hrange.1 (by decide)
  cases v with
  | ofNat m =>
    cases w with
    | ofNat n => exact congrArg Int.ofNat (digits_injective h)
    | negSucc n =>
      rw [decimal_negSucc] at h
      exact absurd h (hdigits m (n + 1))
  | negSucc m =>
    rw [decimal_negSucc] at h
    cases w with
    | ofNat n => exact absurd h.symm (hdigits n (m + 1))
    | negSucc n =>
      rw [decimal_negSucc] at h
      have hmn := digits_injective (List.cons_inj_right 45 |>.mp h)
      exact congrArg Int.negSucc (Nat.succ_injective hmn)

theorem colon_notMem_decimal (v : Int) : 58 ∉ decimal v := by
  have hdigits : ∀ n : Nat, (58 : UInt8) ∉ digits n :=
    fun n hn => absurd (digits_range n 58 hn).2 (by decide)
  cases v with
  | ofNat n => exact hdigits n
  | negSucc n =>
    rw [decimal_negSucc, List.mem_cons, not_or]
    exact ⟨by decide, hdigits (n + 1)⟩

theorem prefixCacheKey_nil_iff (tokenIds : List Int) (k : Int) :
    prefixCacheKey tokenIds k = [] ↔ k ≤ 0 ∨ (tokenIds.length : Int) < k := by
  rw [prefixCacheKey]
  split_ifs with hshort
  · exact iff_of_true rfl hshort
  · exact iff_of_false (fun h => absurd (List.append_eq_nil_iff.mp h).1 (by decide)) hshort

theorem prefixCacheKey_eq {tokenIds : List Int} {k : Int}
    (h : ¬ (k ≤ 0 ∨ (tokenIds.length : Int) < k)) :
    prefixCacheKey tokenIds k = text "tiny_llm" ++
      (tokenIds.take k.toNat).flatMap (fun tokenId => 58 :: decimal tokenId) := by
  rw [prefixCacheKey, if_neg h]
  rfl

/-- Two prompts have the same key exactly if it was made of the same number of the same ids. -/
theorem prefixCacheKey_eq_iff (a b : List Int) (k m : Int) :
    (prefixCacheKey a k = prefixCacheKey b m ∧ prefixCacheKey a k ≠ []) ↔
      0 < k ∧ k = m ∧ k ≤ a.length ∧ k ≤ b.length ∧ a.take k.toNat = b.take k.toNat := by
  constructor
  · rintro ⟨heq, hne⟩
    have ha := (prefixCacheKey_nil_iff a k).not.mp hne
    have hb := (prefixCacheKey_nil_iff b m).not.mp (heq ▸ hne)
    rw [prefixCacheKey_eq ha, prefixCacheKey_eq hb] at heq
    have hids := Lines.separated_injective decimal_injective colon_notMem_decimal
      (List.append_cancel_left heq)
    have hlength := congrArg List.length hids
    rw [List.length_take, List.length_take] at hlength
    obtain rfl : k = m := by omega
    exact ⟨by omega, rfl, by omega, by omega, hids⟩
  · rintro ⟨hpos, rfl, hka, hkb, hids⟩
    have ha : ¬ (k ≤ 0 ∨ (a.length : Int) < k) := by omega
    have hb : ¬ (k ≤ 0 ∨ (b.length : Int) < k) := by omega
    refine ⟨?_, (prefixCacheKey_nil_iff a k).not.mpr ha⟩
    rw [prefixCacheKey_eq ha, prefixCacheKey_eq hb, hids]

section
variable {Temperature : Type} (b : ContinuousTinyLLMBackend Temperature)
  (requests : List BackendRequest)

def tokenIdsOf (request : BackendRequest) : List Int :=
  (tokenizeForTinyLLM request.prompt).map (fun tokenId => (tokenId.val : Int))

theorem sequenceRequest_key (request : BackendRequest) :
    (b.sequenceRequest request).prefixCacheKey =
      prefixCacheKey (tokenIdsOf request) b.prefixCacheTokens.val := rfl

def SamePrefix (i j : Nat) : Prop :=
  ∃ r r', requests[i]? = some r ∧ requests[j]? = some r' ∧ 0 < b.prefixCacheTokens.val ∧
    b.prefixCacheTokens.val ≤ (tokenIdsOf r).length ∧
    b.prefixCacheTokens.val ≤ (tokenIdsOf r').length ∧
    (tokenIdsOf r).take b.prefixCacheTokens.val.toNat =
      (tokenIdsOf r').take b.prefixCacheTokens.val.toNat

theorem samePrefix_of_key {i j : Nat}
    (hne : keyAt (requests.map b.sequenceRequest) i ≠ [])
    (heq : keyAt (requests.map b.sequenceRequest) i = keyAt (requests.map b.sequenceRequest) j) :
    SamePrefix b requests i j := by
  have hrequest : ∀ n, keyAt (requests.map b.sequenceRequest) n ≠ [] →
      ∃ r, requests[n]? = some r ∧ keyAt (requests.map b.sequenceRequest) n =
        prefixCacheKey (tokenIdsOf r) b.prefixCacheTokens.val := by
    intro n hn
    cases hr : requests[n]? with
    | none => exact absurd (by simp [keyAt, hr]) hn
    | some r => exact ⟨r, rfl, by simp [keyAt, hr, sequenceRequest_key]⟩
  obtain ⟨r, hr, hkey⟩ := hrequest i hne
  obtain ⟨r', hr', hkey'⟩ := hrequest j (heq ▸ hne)
  rw [hkey, hkey'] at heq
  rw [hkey] at hne
  obtain ⟨hpos, -, hle, hle', hids⟩ := (prefixCacheKey_eq_iff _ _ _ _).mp ⟨heq, hne⟩
  exact ⟨r, r', hr, hr', hpos, hle, hle', hids⟩

theorem sequenceRequests_uniform :
    Uniform b.prefixCacheTokens.val (requests.map b.sequenceRequest) := by
  intro q hq hkey
  obtain ⟨r, -, rfl⟩ := List.mem_map.mp hq
  have hlong := (prefixCacheKey_nil_iff _ _).not.mp hkey
  refine ⟨if_neg hkey, b.prefixCacheTokens.property.1, ?_⟩
  have hlength : (b.sequenceRequest r).promptTokens = (tokenIdsOf r).length := rfl
  rw [hlength]
  change ¬ (_ ∨ ((tokenIdsOf r).length : Int) < _) at hlong
  omega

/-- What the cache of a batch shares, at a moment when `log` tells the prompts admitted. -/
structure SharesPrefixes (log : List Admission) (m : Machine) : Prop where
  /-- Two live sequences share a block only if their prompts begin alike. -/
  blocks : ∀ (i j : Nat) (s t : State) (p q : Sequence) (block : Nat), m.states[i]? = some s →
    m.states[j]? = some t → i ≠ j → s.Live → t.Live → m.allocator.Live s.request.id p →
    m.allocator.Live t.request.id q → block ∈ p.blockIds → block ∈ q.blockIds →
      SamePrefix b requests i j
  /-- A hit attached the prefix blocks that an earlier sequence with these ids allocated. -/
  hits : ∀ (t : Nat) (a : Admission), log[t]? = some a → a.cacheHit = true →
    ∃ u c, u < t ∧ log[u]? = some c ∧ c.cacheHit = false ∧ SamePrefix b requests a.index c.index ∧
      a.sequence.sharedPart = c.sequence.sharedPart
  /-- A sequence is reported as a hit only if it was one. -/
  reported : ∀ (i : Nat) (s : State) (r : SequenceResult), m.Slot i s r →
    r.prefixCacheHit = true → ∃ a ∈ log, a.index = i ∧ a.cacheHit = true
  /-- Every entry that the cache ever has is of the one token count. -/
  entries : ∀ key e, m.allocator.Cached key e → e.tokenCount = b.prefixCacheTokens.val

theorem ending_sharesPrefixes {log : List Admission} {m : Machine}
    (h : Ending b.schedulerConfig (requests.map b.sequenceRequest) log m) :
    SharesPrefixes b requests log m := by
  have hu := sequenceRequests_uniform b requests
  have hshelved := h.shelved hu
  refine ⟨fun i j s t p q block hs ht hne hsl htl hp hq hbp hbq => ?_, fun t a hta ha => ?_,
    hshelved.reported, fun key e he => (hshelved.entries key e he).1⟩
  · obtain ⟨hkey, heq⟩ := h.shared_key hu hs ht hne hsl htl hp hq hbp hbq
    exact samePrefix_of_key b requests hkey heq
  · obtain ⟨hkey, u, c, hut, hc, hmiss, heq, hshared⟩ := hshelved.hits t a hta ha
    exact ⟨u, c, hut, hc, hmiss, samePrefix_of_key b requests hkey heq.symm, hshared.symm⟩

/-- Prefix keys are injective; so in every run that a batch of the continuous backend starts, under
any polls, blocks are shared between equal prefixes only. -/
theorem prefixes_shared_equal :
    (∀ (a b : List Int) (k m : Int),
      (prefixCacheKey a k = prefixCacheKey b m ∧ prefixCacheKey a k ≠ []) ↔
        0 < k ∧ k = m ∧ k ≤ a.length ∧ k ≤ b.length ∧ a.take k.toNat = b.take k.toNat) ∧
    (∀ log m, Ending b.schedulerConfig (requests.map b.sequenceRequest) log m →
      SharesPrefixes b requests log m) ∧
    (∀ n, ∃ log, History b.schedulerConfig (requests.map b.sequenceRequest) n log
      (machineAt b.schedulerConfig (requests.map b.sequenceRequest) n)) ∧
    ∀ isCancelled, ∃ n out log,
      Ended b.schedulerConfig (requests.map b.sequenceRequest) isCancelled n out ∧
      (∀ fuel, workBound (requests.map b.sequenceRequest) ≤ fuel →
        run b.schedulerConfig (requests.map b.sequenceRequest) isCancelled fuel =
          some (finish out)) ∧
      Ending b.schedulerConfig (requests.map b.sequenceRequest) log out.1 := by
  refine ⟨prefixCacheKey_eq_iff, fun log m h => ending_sharesPrefixes b requests h,
    machineAt_history _ _, fun isCancelled => ?_⟩
  obtain ⟨n, out, hended, hout⟩ := loop_terminates b.schedulerConfig
    (requests.map b.sequenceRequest) isCancelled
  obtain ⟨log, hlog⟩ := hended.ending
  exact ⟨n, out, log, hended, fun fuel hfuel => by rw [run_eq, hout fuel hfuel, Option.map_some],
    hlog⟩

end

end Laminar.Backend
