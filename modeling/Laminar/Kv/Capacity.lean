import Laminar.Kv.Sequences

/-! A call that asks for no more blocks than are free succeeds, and takes no more than it
asks for. Sharing, retained prefixes and replaced entries only lower what is taken. -/
namespace Laminar.Kv
open Laminar.ListUpdate

/-- Going from `s` to `t` at most `count` more blocks of the same cache came into use. -/
structure Within (s t : Impl) (count : Int) : Prop where
  config : t.config = s.config
  length : t.blocks.length = s.blocks.length
  used : t.usedBlockCount ≤ s.usedBlockCount + count

def Impl.HasRoom (s : Impl) (count : Int) : Prop := s.usedBlockCount + count ≤ s.blocks.length

theorem Within.trans {s t u : Impl} {a b : Int} (h : Within s t a) (h' : Within t u b) :
    Within s u (a + b) := by
  refine ⟨h'.config.trans h.config, h'.length.trans h.length, ?_⟩
  have hst := h.used
  have htu := h'.used
  omega

theorem Within.hasRoom {s t : Impl} {a b : Int} (h : Within s t a) (hroom : s.HasRoom (a + b)) :
    t.HasRoom b := by
  have hused := h.used
  have hlength := h.length
  unfold Impl.HasRoom at *
  omega

theorem Within.of_stats {s t : Impl} {stats : KvCacheStats} {count : Int}
    (h : Within { s with stats := stats } t count) : Within s t count :=
  ⟨h.config, h.length, h.used⟩

theorem allocateBlocks_room {s : Impl} {blockCount : Int} (hroom : s.HasRoom blockCount)
    (h : 0 ≤ blockCount) (key : Bytes) :
    ((s.allocateBlocks blockCount key).1.length : Int) = blockCount ∧
      Within s (s.allocateBlocks blockCount key).2 blockCount := by
  by_cases hle : blockCount ≤ 0
  · rw [show s.allocateBlocks blockCount key = ([], s) from if_pos hle]
    refine ⟨?_, rfl, rfl, ?_⟩ <;> simp only [List.length_nil] <;> omega
  have hfree : blockCount ≤ s.freeBlockCount := by
    simp only [Impl.HasRoom, Impl.usedBlockCount] at hroom
    omega
  have hensure : s.ensureFreeBlocks blockCount = (true, s) := if_pos hfree
  rw [allocateBlocks_enough s blockCount key hle (by rw [hensure]), hensure]
  have hids := length_takeFree_ids key 0 blockCount.toNat s.blocks
  have hcount := countP_takeFree key 0 blockCount.toNat s.blocks
  simp only [Impl.freeBlockCount] at hfree
  refine ⟨by simp only; omega, rfl, length_takeFree key 0 _ _, ?_⟩
  simp only [Impl.usedBlockCount, Impl.freeBlockCount, Impl.refreshHighWatermark, hcount,
    length_takeFree]
  omega

theorem within_modifyAll (s : Impl) (f : Block → Block)
    (hf : ∀ b, b.occupied = false → (f b).occupied = false) (ids : List Nat) :
    Within s { s with blocks := modifyAll f ids s.blocks } 0 := by
  refine ⟨rfl, length_modifyAll f ids s.blocks, ?_⟩
  have hcount := countP_le_modifyAll (fun b : Block => !b.occupied) f
    (by simpa using hf) ids s.blocks
  simp only [Impl.usedBlockCount, Impl.freeBlockCount, length_modifyAll]
  omega

theorem releaseSequence_within (s : Impl) (id : Bytes) : Within s (s.releaseSequence id) 0 := by
  unfold Impl.releaseSequence
  split
  · exact ⟨rfl, rfl, by omega⟩
  rename_i q hq
  obtain ⟨-, hlength, hused⟩ := within_modifyAll s releaseBlock (fun b hb => by
    unfold releaseBlock
    simp only
    split_ifs <;> first | rfl | exact hb) q.blockIds
  exact ⟨rfl, hlength, hused⟩

theorem allocateShared_room {s : Impl} {id : Bytes} {sequence : Sequence} {entry : PrefixEntry}
    {suffixBlockCount : Int} (hroom : s.HasRoom suffixBlockCount) (h : 0 ≤ suffixBlockCount) :
    (s.allocateShared id sequence entry suffixBlockCount).1.ok = true ∧
      Within s (s.allocateShared id sequence entry suffixBlockCount).2 suffixBlockCount := by
  have hretain := within_modifyAll s retainBlock (fun b hb => hb) entry.blockIds
  obtain ⟨hlength, hwithin⟩ := allocateBlocks_room
    (hretain.hasRoom (by rwa [Int.zero_add])) h []
  have hall := hretain.trans hwithin
  rw [Int.zero_add] at hall
  unfold Impl.allocateShared
  simp only
  rw [if_neg (not_not.mpr hlength)]
  exact ⟨rfl, hall.config, hall.length, hall.used⟩

theorem allocateFresh_room {s : Impl} {id key : Bytes} {sequence : Sequence}
    {cacheable suffixBlockCount : Int} (hcached : 0 ≤ sequence.prefixBlockCount)
    (hsuffix : 0 ≤ suffixBlockCount)
    (hroom : s.HasRoom (sequence.prefixBlockCount + suffixBlockCount)) :
    (s.allocateFresh id key sequence cacheable suffixBlockCount).1.ok = true ∧
      Within s (s.allocateFresh id key sequence cacheable suffixBlockCount).2
        (sequence.prefixBlockCount + suffixBlockCount) := by
  have hfirst : s.HasRoom sequence.prefixBlockCount := by
    unfold Impl.HasRoom at *
    omega
  obtain ⟨hplength, hpwithin⟩ := allocateBlocks_room hfirst hcached key
  obtain ⟨hslength, hswithin⟩ := allocateBlocks_room (hpwithin.hasRoom hroom) hsuffix []
  have hall := hpwithin.trans hswithin
  unfold Impl.allocateFresh
  simp only
  rw [if_neg (not_not.mpr hplength), if_neg (not_not.mpr hslength)]
  exact ⟨rfl, hall.config, hall.length, hall.used⟩

def promptBlocks (tokensPerBlock promptTokens : Int) (key : Bytes) (prefixTokens : Int) : Int :=
  let cacheable := cacheableTokens (max 0 promptTokens) key prefixTokens
  ceilDiv cacheable tokensPerBlock + ceilDiv (max 0 promptTokens - cacheable) tokensPerBlock

theorem allocatePrompt_room {s : Impl} {id : Bytes} {promptTokens : Int} {key : Bytes}
    {prefixTokens : Int} (hconfig : 0 < s.config.tokensPerBlock) (hid : id ≠ [])
    (hnew : s.sequences[id]? = none)
    (hroom : s.HasRoom (promptBlocks s.config.tokensPerBlock promptTokens key prefixTokens)) :
    (s.allocatePrompt id promptTokens key prefixTokens).1.ok = true ∧
      Within s (s.allocatePrompt id promptTokens key prefixTokens).2
        (promptBlocks s.config.tokensPerBlock promptTokens key prefixTokens) := by
  have hcontains : ¬ s.sequences.contains id = true := by
    rw [Std.ExtTreeMap.contains_eq_isSome_getElem?, hnew]
    simp
  unfold Impl.allocatePrompt
  rw [if_neg hid, if_neg hcontains]
  simp only
  have hcached := ceilDiv_nonneg (cacheableTokens (max 0 promptTokens) key prefixTokens) _ hconfig
  have hsuffix := ceilDiv_nonneg
    (max 0 promptTokens - cacheableTokens (max 0 promptTokens) key prefixTokens) _ hconfig
  unfold promptBlocks at hroom ⊢
  simp only at hroom ⊢
  split_ifs
  · split
    · have hless : s.HasRoom (ceilDiv (max 0 promptTokens -
          cacheableTokens (max 0 promptTokens) key prefixTokens) s.config.tokensPerBlock) := by
        unfold Impl.HasRoom at *
        omega
      obtain ⟨hok, hconf, hlength, hused⟩ := allocateShared_room hless hsuffix
      exact ⟨hok, hconf, hlength, hused.trans (by omega)⟩
    · exact (allocateFresh_room hcached hsuffix hroom).imp_right Within.of_stats
  · exact allocateFresh_room hcached hsuffix hroom

theorem appendTokens_room {s : Impl} {id : Bytes} {q : Sequence} (hq : s.Live id q)
    {tokenCount : Int} (h : 0 < tokenCount) (hconfig : 0 < s.config.tokensPerBlock)
    (hroom : s.HasRoom (ceilDiv (q.generatedTokens + tokenCount) s.config.tokensPerBlock -
      ceilDiv q.generatedTokens s.config.tokensPerBlock)) :
    (s.appendTokens id tokenCount).1.ok = true ∧ Within s (s.appendTokens id tokenCount).2
      (ceilDiv (q.generatedTokens + tokenCount) s.config.tokensPerBlock -
        ceilDiv q.generatedTokens s.config.tokensPerBlock) := by
  have hmono := ceilDiv_mono q.generatedTokens (q.generatedTokens + tokenCount)
    s.config.tokensPerBlock hconfig (by omega)
  obtain ⟨hlength, hwithin⟩ := allocateBlocks_room hroom (by omega) []
  unfold Impl.appendTokens
  rw [hq]
  simp only
  rw [if_neg (Int.not_le.mpr h), if_neg (not_not.mpr hlength)]
  exact ⟨rfl, hwithin.config, hwithin.length, hwithin.used⟩

end Laminar.Kv
