import Laminar.Kv.Capacity

/-! What a call adds to the counters of the cache, told by the answer it gives, and the high
watermark, which is never below the blocks in use. -/
namespace Laminar.Kv
open Laminar.ListUpdate

structure Tallied (s t : Impl) (hits misses failures : Int) : Prop where
  hits : t.stats.prefixCacheHits = s.stats.prefixCacheHits + hits
  misses : t.stats.prefixCacheMisses = s.stats.prefixCacheMisses + misses
  failures : t.stats.allocationFailures = s.stats.allocationFailures + failures
  length : t.blocks.length = s.blocks.length
  rises : s.stats.highWatermarkBlocks ≤ t.stats.highWatermarkBlocks
  used : s.usedBlockCount ≤ s.stats.highWatermarkBlocks →
    t.usedBlockCount ≤ t.stats.highWatermarkBlocks
  high : s.stats.highWatermarkBlocks ≤ s.blocks.length →
    t.stats.highWatermarkBlocks ≤ t.blocks.length

theorem Tallied.refl (s : Impl) : Tallied s s 0 0 0 :=
  ⟨by omega, by omega, by omega, rfl, le_rfl, id, id⟩

theorem Tallied.trans {s t u : Impl} {hits misses failures hits' misses' failures' : Int}
    (h : Tallied s t hits misses failures) (h' : Tallied t u hits' misses' failures') :
    Tallied s u (hits + hits') (misses + misses') (failures + failures') := by
  have hhits := h.hits
  have hmisses := h.misses
  have hfailures := h.failures
  refine ⟨?_, ?_, ?_, h'.length.trans h.length, h.rises.trans h'.rises, fun hused =>
    h'.used (h.used hused), fun hhigh => h'.high (h.high hhigh)⟩
  · rw [h'.hits, hhits]
    omega
  · rw [h'.misses, hmisses]
    omega
  · rw [h'.failures, hfailures]
    omega

theorem Tallied.blocks {s t : Impl} (hstats : t.stats = s.stats)
    (hlength : t.blocks.length = s.blocks.length) (hused : t.usedBlockCount ≤ s.usedBlockCount) :
    Tallied s t 0 0 0 := by
  refine ⟨by simp [hstats], by simp [hstats], by simp [hstats], hlength, by simp [hstats],
    fun h => ?_, fun h => ?_⟩
  · rw [hstats]
    exact hused.trans h
  · rwa [hstats, hlength]

theorem Tallied.modifyAll (s : Impl) {f : Block → Block}
    (hf : ∀ b, b.occupied = false → (f b).occupied = false) (ids : List Nat) :
    Tallied s { s with blocks := modifyAll f ids s.blocks } 0 0 0 := by
  have hwithin := within_modifyAll s f hf ids
  have hused := hwithin.used
  exact .blocks rfl hwithin.length (by omega)

theorem Tallied.of_same {s t u : Impl} {hits misses failures : Int}
    (h : Tallied s t hits misses failures) (hblocks : u.blocks = t.blocks)
    (hstats : u.stats = t.stats) : Tallied s u hits misses failures := by
  obtain ⟨config, blocks, sequences, prefixCache, stats⟩ := u
  obtain rfl : blocks = t.blocks := hblocks
  obtain rfl : stats = t.stats := hstats
  exact ⟨h.hits, h.misses, h.failures, h.length, h.rises, h.used, h.high⟩

theorem Tallied.evictEntry (s : Impl) (key : Bytes) (entry : PrefixEntry) :
    Tallied s (s.evictEntry key entry) 0 0 0 := by
  have hfreed := Tallied.modifyAll s (f := fun _ => {}) (fun _ _ => rfl) entry.blockIds
  exact ⟨hfreed.hits, hfreed.misses, hfreed.failures, hfreed.length, hfreed.rises, hfreed.used,
    hfreed.high⟩

theorem Tallied.evictLoop (required : Int) (entries : List (Bytes × PrefixEntry)) (s : Impl) :
    Tallied s (evictLoop required entries s) 0 0 0 := by
  induction entries generalizing s with
  | nil => exact .refl s
  | cons head rest ih =>
    obtain ⟨key, entry⟩ := head
    rw [Kv.evictLoop]
    split_ifs
    · exact (Tallied.evictEntry s key entry).trans (ih _)
    · exact ih s
    · exact .refl s

theorem Tallied.ensureFreeBlocks (s : Impl) (blockCount : Int) :
    Tallied s (s.ensureFreeBlocks blockCount).2 0 0 0 := by
  unfold Impl.ensureFreeBlocks
  split_ifs
  · exact .refl s
  · exact .evictLoop blockCount _ s

theorem ensureFreeBlocks_found {s : Impl} {blockCount : Int}
    (h : (s.ensureFreeBlocks blockCount).1 = true) :
    blockCount ≤ (s.ensureFreeBlocks blockCount).2.freeBlockCount := by
  unfold Impl.ensureFreeBlocks at h ⊢
  split_ifs at h ⊢ with hle
  · exact hle
  · exact of_decide_eq_true h

theorem Tallied.refreshHighWatermark (s : Impl) (blocks : List Block)
    (hlength : blocks.length = s.blocks.length) :
    Tallied s { s with blocks := blocks }.refreshHighWatermark 0 0 0 := by
  have hused : ({ s with blocks := blocks } : Impl).usedBlockCount ≤ s.blocks.length := by
    simp only [Impl.usedBlockCount, Impl.freeBlockCount, hlength]
    omega
  refine ⟨?_, ?_, ?_, hlength, le_max_left _ _, fun _ => le_max_right _ _, fun hhigh => ?_⟩
  · simp [Impl.refreshHighWatermark]
  · simp [Impl.refreshHighWatermark]
  · simp [Impl.refreshHighWatermark]
  · simp only [Impl.refreshHighWatermark, hlength]
    exact max_le hhigh hused

/-- Blocks that were asked for are found, or the failure is counted. -/
theorem Tallied.allocateBlocks (s : Impl) {blockCount : Int} (h : 0 ≤ blockCount) (key : Bytes) :
    Tallied s (s.allocateBlocks blockCount key).2 0 0
      (if ((s.allocateBlocks blockCount key).1.length : Int) = blockCount then 0 else 1) := by
  by_cases hle : blockCount ≤ 0
  · have hnone : s.allocateBlocks blockCount key = ([], s) := if_pos hle
    rw [hnone, if_pos (by simp only [List.length_nil]; omega)]
    exact .refl s
  have hensure := Tallied.ensureFreeBlocks s blockCount
  by_cases hok : (s.ensureFreeBlocks blockCount).1 = true
  · have hfree := ensureFreeBlocks_found hok
    have hids := length_takeFree_ids key 0 blockCount.toNat (s.ensureFreeBlocks blockCount).2.blocks
    rw [allocateBlocks_enough s blockCount key hle hok]
    simp only [Impl.freeBlockCount] at hfree
    rw [if_pos (by simp only; omega)]
    exact hensure.trans (.refreshHighWatermark _ _ (length_takeFree key 0 _ _))
  · rw [allocateBlocks_short s blockCount key hle hok]
    rw [if_neg (by simp only [List.length_nil]; omega)]
    exact ⟨hensure.hits, hensure.misses, by simp [hensure.failures], hensure.length, hensure.rises,
      hensure.used, hensure.high⟩

theorem Tallied.miss (s : Impl) : Tallied s { s with stats := { s.stats with
    prefixCacheMisses := s.stats.prefixCacheMisses + 1 } } 0 1 0 :=
  ⟨by simp, rfl, by simp, rfl, le_rfl, id, id⟩

def exhausted : String := "kv cache exhausted"

def KvAllocation.hits (a : KvAllocation) : Int := if a.cacheHit then 1 else 0

def KvAllocation.failures (a : KvAllocation) : Int := if a.message = exhausted then 1 else 0

structure KvAllocation.Explained (a : KvAllocation) : Prop where
  refused : a.ok = false → a.message = exhausted
  accepted : a.ok = true → a.failures = 0

theorem explained_error : (allocationError exhausted).Explained := ⟨fun _ => rfl, nofun⟩

theorem explained_ok (attachedBlocks : Int) (cacheHit : Bool) :
    (allocationOk attachedBlocks cacheHit).Explained :=
  ⟨nofun, fun _ => if_neg (by decide : ¬ "" = exhausted)⟩

theorem Tallied.allocateShared (s : Impl) (id : Bytes) (sequence : Sequence) (entry : PrefixEntry)
    {suffixBlockCount : Int} (h : 0 ≤ suffixBlockCount) :
    let r := s.allocateShared id sequence entry suffixBlockCount
    Tallied s r.2 r.1.hits 0 r.1.failures ∧ r.1.cacheHit = r.1.ok ∧ r.1.Explained := by
  have hretained := Tallied.modifyAll s (f := retainBlock) (fun _ h => h) entry.blockIds
  have hblocks := hretained.trans (Tallied.allocateBlocks _ h [])
  unfold Impl.allocateShared
  simp only
  split_ifs with hshort
  · rw [if_neg hshort] at hblocks
    exact ⟨hblocks.trans (Tallied.modifyAll _ (f := unretainBlock) (fun _ h => h) _), rfl,
      explained_error⟩
  · rw [if_pos (not_not.mp hshort)] at hblocks
    refine ⟨⟨?_, hblocks.misses, hblocks.failures, hblocks.length, hblocks.rises, hblocks.used,
      hblocks.high⟩, rfl, explained_ok _ _⟩
    simp [hblocks.hits, KvAllocation.hits, allocationOk]

theorem Tallied.allocateFresh (s : Impl) (id key : Bytes) {sequence : Sequence} (cacheable : Int)
    {suffixBlockCount : Int} (hcached : 0 ≤ sequence.prefixBlockCount) (h : 0 ≤ suffixBlockCount) :
    let r := s.allocateFresh id key sequence cacheable suffixBlockCount
    Tallied s r.2 0 0 r.1.failures ∧ r.1.cacheHit = false ∧ r.1.Explained := by
  have hcommon := Tallied.allocateBlocks s hcached key
  have hblocks := hcommon.trans (Tallied.allocateBlocks _ h [])
  unfold Impl.allocateFresh
  simp only
  by_cases hshort :
      ((s.allocateBlocks sequence.prefixBlockCount key).1.length : Int) ≠ sequence.prefixBlockCount
  · rw [if_pos hshort]
    rw [if_neg hshort] at hcommon
    exact ⟨hcommon, rfl, explained_error⟩
  rw [if_neg hshort]
  rw [if_pos (not_not.mp hshort)] at hblocks
  by_cases hshort' : (((s.allocateBlocks sequence.prefixBlockCount key).2.allocateBlocks
      suffixBlockCount []).1.length : Int) ≠ suffixBlockCount
  · rw [if_pos hshort']
    rw [if_neg hshort'] at hblocks
    exact ⟨hblocks.trans (Tallied.modifyAll _ (f := fun _ => {}) (fun _ _ => rfl) _), rfl,
      explained_error⟩
  · rw [if_neg hshort']
    rw [if_pos (not_not.mp hshort')] at hblocks
    exact ⟨hblocks.of_same rfl rfl, rfl, explained_ok _ _⟩

def Prefixed (promptTokens : Int) (key : Bytes) (prefixTokens : Int) : Prop :=
  key ≠ [] ∧ cacheableTokens (max 0 promptTokens) key prefixTokens > 0

instance (promptTokens : Int) (key : Bytes) (prefixTokens : Int) :
    Decidable (Prefixed promptTokens key prefixTokens) := by
  unfold Prefixed
  infer_instance

inductive Refusal (s : Impl) (id : Bytes) : String → Prop where
  | unnamed (h : id = []) : Refusal s id "sequence id is required"
  | taken (h : id ≠ []) (hlive : s.sequences.contains id = true) :
      Refusal s id "sequence already exists"
  | exhausted (h : id ≠ []) (hnew : s.sequences[id]? = none) : Refusal s id exhausted

/-- The answer to a prompt, with what it adds to the counters: one that asks for a cached prefix
counts as a hit or as a miss, and may go uncounted only when it is refused. -/
structure Counted (s : Impl) (id : Bytes) (asked : Int) (r : KvAllocation × Impl) : Prop where
  tallied : ∃ misses, Tallied s r.2 r.1.hits misses r.1.failures ∧ 0 ≤ r.1.hits + misses ∧
    r.1.hits + misses ≤ asked ∧ (r.1.ok = true → r.1.hits + misses = asked)
  refused : r.1.ok = false → r.1.cacheHit = false ∧ Refusal s id r.1.message
  accepted : r.1.ok = true → r.1.failures = 0

def lookups (promptTokens : Int) (key : Bytes) (prefixTokens : Int) : Int :=
  if Prefixed promptTokens key prefixTokens then 1 else 0

theorem lookups_nonneg (promptTokens : Int) (key : Bytes) (prefixTokens : Int) :
    0 ≤ lookups promptTokens key prefixTokens := by
  unfold lookups
  split_ifs <;> omega

theorem Counted.refuse (s : Impl) (id : Bytes) {asked : Int} (h : 0 ≤ asked) {message : String}
    (hrefusal : Refusal s id message) (hother : message ≠ exhausted) :
    Counted s id asked (allocationError message, s) := by
  have hfailures : (allocationError message).failures = 0 := if_neg hother
  refine ⟨⟨0, ?_, le_rfl, h, nofun⟩, fun _ => ⟨rfl, hrefusal⟩, nofun⟩
  rw [hfailures]
  exact .refl s

theorem Counted.allocateShared {s : Impl} {id : Bytes} (hid : id ≠ [])
    (hnew : s.sequences[id]? = none) (sequence : Sequence) (entry : PrefixEntry)
    {suffixBlockCount : Int} (h : 0 ≤ suffixBlockCount) :
    Counted s id 1 (s.allocateShared id sequence entry suffixBlockCount) := by
  obtain ⟨htallied, hhit, hexplained⟩ := Tallied.allocateShared s id sequence entry h
  generalize s.allocateShared id sequence entry suffixBlockCount = r at htallied hhit hexplained ⊢
  refine ⟨⟨0, htallied, ?_⟩, fun hok => ⟨hhit.trans hok, ?_⟩, hexplained.accepted⟩
  · cases hok : r.1.ok with
    | false => simp [KvAllocation.hits, hhit, hok]
    | true => simp [KvAllocation.hits, hhit, hok]
  · rw [hexplained.refused hok]
    exact .exhausted hid hnew

theorem Counted.allocateFresh {s t : Impl} {id : Bytes} (hid : id ≠ [])
    (hnew : s.sequences[id]? = none) {asked : Int} (hmissed : Tallied s t 0 asked 0)
    (hasked : 0 ≤ asked) (key : Bytes) {sequence : Sequence} (cacheable : Int)
    {suffixBlockCount : Int} (hcached : 0 ≤ sequence.prefixBlockCount) (h : 0 ≤ suffixBlockCount) :
    Counted s id asked (t.allocateFresh id key sequence cacheable suffixBlockCount) := by
  obtain ⟨htallied, hhit, hexplained⟩ := Tallied.allocateFresh t id key cacheable hcached h
  generalize t.allocateFresh id key sequence cacheable suffixBlockCount = r
    at htallied hhit hexplained ⊢
  have hall := hmissed.trans htallied
  have hnone : r.1.hits = 0 := by simp [KvAllocation.hits, hhit]
  simp only [Int.zero_add, Int.add_zero] at hall
  rw [← hnone] at hall
  refine ⟨⟨asked, hall, by omega, by omega, fun _ => by omega⟩, fun hok => ⟨hhit, ?_⟩,
    hexplained.accepted⟩
  rw [hexplained.refused hok]
  exact .exhausted hid hnew

theorem Counted.allocatePrompt {s : Impl} (hconfig : 0 < s.config.tokensPerBlock) (id : Bytes)
    (promptTokens : Int) (key : Bytes) (prefixTokens : Int) :
    Counted s id (lookups promptTokens key prefixTokens)
      (s.allocatePrompt id promptTokens key prefixTokens) := by
  have hcached := ceilDiv_nonneg (cacheableTokens (max 0 promptTokens) key prefixTokens) _ hconfig
  have hsuffix := ceilDiv_nonneg
    (max 0 promptTokens - cacheableTokens (max 0 promptTokens) key prefixTokens) _ hconfig
  have hasked := lookups_nonneg promptTokens key prefixTokens
  unfold Impl.allocatePrompt
  by_cases hid : id = []
  · rw [if_pos hid]
    exact .refuse s id hasked (.unnamed hid) (by decide)
  rw [if_neg hid]
  by_cases hlive : s.sequences.contains id = true
  · rw [if_pos hlive]
    exact .refuse s id hasked (.taken hid hlive) (by decide)
  rw [if_neg hlive]
  have hnew : s.sequences[id]? = none := by
    rw [Std.ExtTreeMap.contains_eq_isSome_getElem?] at hlive
    simpa using hlive
  by_cases hprefixed : key ≠ [] ∧ cacheableTokens (max 0 promptTokens) key prefixTokens > 0
  · have hone : lookups promptTokens key prefixTokens = 1 := if_pos hprefixed
    simp only [hone]
    rw [if_pos hprefixed]
    split
    · exact .allocateShared hid hnew _ _ hsuffix
    · exact .allocateFresh hid hnew (.miss s) Int.one_nonneg key _ hcached hsuffix
  · have hzero : lookups promptTokens key prefixTokens = 0 := if_neg hprefixed
    simp only [hzero]
    rw [if_neg hprefixed]
    exact .allocateFresh hid hnew (.refl s) le_rfl key _ hcached hsuffix

theorem Tallied.appendTokens {s : Impl} {id : Bytes} {q : Sequence} (hq : s.Live id q)
    (hconfig : 0 < s.config.tokensPerBlock) {tokenCount : Int} (hpos : 0 < tokenCount) :
    let r := s.appendTokens id tokenCount
    Tallied s r.2 0 0 r.1.failures ∧ r.1.Explained := by
  have hmono := ceilDiv_mono q.generatedTokens (q.generatedTokens + tokenCount)
    s.config.tokensPerBlock hconfig (by omega)
  have hblocks := Tallied.allocateBlocks s (Int.sub_nonneg_of_le hmono) []
  unfold Impl.appendTokens
  rw [show s.sequences[id]? = some q from hq]
  simp only [if_neg (Int.not_le.mpr hpos)]
  split_ifs with hshort
  · rw [if_neg hshort] at hblocks
    exact ⟨hblocks, explained_error⟩
  · rw [if_pos (not_not.mp hshort)] at hblocks
    exact ⟨hblocks.of_same rfl rfl, explained_ok _ _⟩

theorem Tallied.releaseSequence (s : Impl) (id : Bytes) :
    Tallied s (s.releaseSequence id) 0 0 0 := by
  have hwithin := releaseSequence_within s id
  have hused := hwithin.used
  have hstats : (s.releaseSequence id).stats = s.stats := by
    unfold Impl.releaseSequence
    split <;> rfl
  exact .blocks hstats hwithin.length (by omega)

end Laminar.Kv
