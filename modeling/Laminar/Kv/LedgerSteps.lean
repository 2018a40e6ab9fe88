import Laminar.Kv.Ledger

/-! What the building blocks of the allocator's operations do to the ledger. -/
namespace Laminar.Kv
open Std Laminar.ListUpdate

def takenBlock (key : Bytes) : Block :=
  { occupied := true, refCount := 1, cachedPrefixKey := key }

theorem Ledger.transfer {s t : Impl} {pending pending' : List Nat} (h : Ledger s pending)
    (hconf : t.config = s.config) (hlive : ∀ id q, t.Live id q → s.Live id q)
    (hcache : ∀ key e, t.Cached key e → s.Cached key e)
    (hblank : ∀ i b, t.BlockAt i b → b.occupied = false → b = {})
    (hrefs : ∀ i b, t.BlockAt i b → b.refCount = t.holders i + pending'.count i)
    (hkeep : ∀ i, (∃ id q, t.Live id q ∧ i ∈ q.blockIds) ∨
        (∃ key e, t.Cached key e ∧ i ∈ e.blockIds) →
      ∀ b, s.BlockAt i b → ∃ b', t.BlockAt i b' ∧ b'.occupied = b.occupied ∧
        b'.cachedPrefixKey = b.cachedPrefixKey) :
    Ledger t pending' := by
  refine ⟨by rw [hconf]; exact h.tokens, hblank, hrefs, ?_, ?_, ?_⟩
  · intro id q hq
    exact (h.held id q (hlive id q hq)).transfer (fun i hi => hkeep i (Or.inl ⟨id, q, hq, hi⟩))
  · intro id id' q q' hq hq' hne
    exact h.apart id id' q q' (hlive id q hq) (hlive id' q' hq') hne
  · intro key e he
    exact (h.cached key e (hcache key e he)).transfer hconf
      (fun i hi => hkeep i (Or.inr ⟨key, e, he, hi⟩))

theorem Ledger.stats {s : Impl} {pending : List Nat} (h : Ledger s pending) (stats : KvCacheStats) :
    Ledger { s with stats := stats } pending :=
  h.transfer rfl (fun _ _ hq => hq) (fun _ _ he => he) h.blank h.refs
    (fun _ _ b hb => ⟨b, hb, rfl, rfl⟩)

theorem idle_iff (s : Impl) (e : PrefixEntry) :
    s.prefixEntryIsIdle e = true ↔ ∀ i ∈ e.blockIds, ∃ b, s.BlockAt i b ∧ b.refCount = 0 := by
  simp only [Impl.prefixEntryIsIdle, List.all_eq_true, Impl.BlockAt]
  refine forall₂_congr fun i _ => ?_
  cases hb : s.blocks[i]? <;> simp

theorem blockAt_modifyAll {s : Impl} (f : Block → Block) {ids : List Nat} (hn : ids.Nodup)
    (i : Nat) (b : Block) :
    (modifyAll f ids s.blocks)[i]? = some b ↔
      if i ∈ ids then ∃ a, s.BlockAt i a ∧ f a = b else s.BlockAt i b := by
  rw [getElem?_modifyAll f ids _ hn]
  split <;> simp [Impl.BlockAt]

/-- Erasing an idle entry and blanking its blocks. -/
theorem Ledger.evictEntry {s : Impl} {pending : List Nat} (h : Ledger s pending) {key : Bytes}
    {e : PrefixEntry} (he : s.Cached key e) (hidle : s.prefixEntryIsIdle e = true) :
    Ledger (s.evictEntry key e) pending := by
  have hn := (h.cached key e he).nodup
  have hcache : ∀ k e', (s.evictEntry key e).Cached k e' → key ≠ k ∧ s.Cached k e' := by
    intro k e' he'
    simp only [Impl.Cached, Impl.evictEntry, OrderedMap.getElem?_erase] at he'
    split at he'
    · simp at he'
    · exact ⟨‹_›, he'⟩
  have hblock : ∀ i b, (s.evictEntry key e).BlockAt i b ↔
      if i ∈ e.blockIds then ∃ a, s.BlockAt i a ∧ ({} : Block) = b else s.BlockAt i b :=
    fun i b => blockAt_modifyAll _ hn i b
  refine h.transfer rfl (fun _ _ hq => hq) (fun k e' he' => (hcache k e' he').2) ?_ ?_ ?_
  · intro i b hb ho
    rw [hblock] at hb
    split at hb
    · obtain ⟨-, -, rfl⟩ := hb
      rfl
    · exact h.blank i b hb ho
  · intro i b hb
    rw [hblock] at hb
    split at hb
    · rename_i hi
      obtain ⟨a, ha, rfl⟩ := hb
      obtain ⟨a', ha', h0⟩ := (idle_iff s e).mp hidle i hi
      exact h0.symm.trans (h.refs i a' ha')
    · exact h.refs i b hb
  · intro i hi b hb
    refine ⟨b, (hblock i b).mpr ?_, rfl, rfl⟩
    rw [if_neg]
    · exact hb
    intro hmem
    obtain ⟨a, ha, h0⟩ := (idle_iff s e).mp hidle i hmem
    rcases hi with ⟨id, q, hq, hi⟩ | ⟨k, e', he', hi⟩
    · exact (h.unreferenced ha h0).1 id q hq hi
    · obtain ⟨hk, he'⟩ := hcache k e' he'
      exact h.entries_disjoint he he' hk i hmem hi

theorem length_takeFree (key : Bytes) (index count : Nat) (blocks : List Block) :
    (takeFree key index count blocks).2.length = blocks.length := by
  induction blocks generalizing index count with
  | nil => rfl
  | cons b rest ih =>
    simp only [takeFree]
    split_ifs <;> simp [ih]

theorem mem_takeFree (key : Bytes) (index count : Nat) (blocks : List Block) (i : Nat)
    (hi : i ∈ (takeFree key index count blocks).1) :
    ∃ j b, i = index + j ∧ blocks[j]? = some b ∧ b.occupied = false := by
  induction blocks generalizing index count with
  | nil => simp [takeFree] at hi
  | cons b rest ih =>
    have hrest : ∀ c, i ∈ (takeFree key (index + 1) c rest).1 →
        ∃ j b', i = index + j ∧ (b :: rest)[j]? = some b' ∧ b'.occupied = false := by
      intro c hc
      obtain ⟨j, b', hj, hb', ho⟩ := ih (index + 1) c hc
      exact ⟨j + 1, b', by omega, by simpa using hb', ho⟩
    simp only [takeFree] at hi
    split_ifs at hi with h0 hocc
    · simp at hi
    · exact hrest count hi
    · rcases List.mem_cons.mp hi with rfl | hi
      · exact ⟨0, b, by omega, by simp, by simpa using hocc⟩
      · exact hrest (count - 1) hi

theorem nodup_takeFree (key : Bytes) (index count : Nat) (blocks : List Block) :
    (takeFree key index count blocks).1.Nodup := by
  induction blocks generalizing index count with
  | nil => simp [takeFree]
  | cons b rest ih =>
    simp only [takeFree]
    split_ifs
    · simp
    · exact ih (index + 1) count
    · refine List.nodup_cons.mpr ⟨?_, ih (index + 1) (count - 1)⟩
      intro hmem
      obtain ⟨j, -, hj, -⟩ := mem_takeFree key (index + 1) (count - 1) rest index hmem
      omega

theorem length_takeFree_ids (key : Bytes) (index count : Nat) (blocks : List Block) :
    (takeFree key index count blocks).1.length =
      min count (blocks.countP (fun b => !b.occupied)) := by
  induction blocks generalizing index count with
  | nil => simp [takeFree]
  | cons b rest ih =>
    simp only [takeFree]
    split_ifs with h0 hocc
    · simp [h0]
    · simp [ih, hocc]
    · simp only [List.length_cons, ih, List.countP_cons]
      simp only [hocc, Bool.not_false, if_true]
      omega

/-- The scan turns the blocks it returns from free to occupied. -/
theorem countP_takeFree (key : Bytes) (index count : Nat) (blocks : List Block) :
    (takeFree key index count blocks).2.countP (fun b => !b.occupied) =
      blocks.countP (fun b => !b.occupied) - count := by
  induction blocks generalizing index count with
  | nil => simp [takeFree]
  | cons b rest ih =>
    simp only [takeFree]
    split_ifs with h0 hocc
    · simp [h0]
    · simp [ih, hocc]
    · simp only [List.countP_cons, ih]
      simp only [hocc, Bool.not_false, Bool.not_true, if_true, Bool.false_eq_true, if_false]
      omega

/-- The scan replaces exactly the blocks whose indices it returns. -/
theorem getElem?_takeFree (key : Bytes) (index count : Nat) (blocks : List Block) (j : Nat) :
    (takeFree key index count blocks).2[j]? =
      if index + j ∈ (takeFree key index count blocks).1 then some (takenBlock key)
      else blocks[j]? := by
  induction blocks generalizing index count j with
  | nil => simp [takeFree]
  | cons b rest ih =>
    have hnot : ∀ c, index ∉ (takeFree key (index + 1) c rest).1 := by
      intro c hmem
      obtain ⟨k, -, hk, -⟩ := mem_takeFree key (index + 1) c rest index hmem
      omega
    by_cases h0 : count = 0
    · simp [takeFree, h0]
    cases j with
    | zero => by_cases hocc : b.occupied = true <;> simp [takeFree, h0, hocc, hnot, takenBlock]
    | succ j =>
      have hs : index + (j + 1) = index + 1 + j := by omega
      have hne : index + 1 + j ≠ index := by omega
      by_cases hocc : b.occupied = true <;> simp [takeFree, h0, hocc, hs, hne, ih]

/-- A property kept by every eviction of an idle entry is kept by the whole loop. -/
theorem evictLoop_induct {motive : Impl → Prop}
    (hstep : ∀ t key e, motive t → t.Cached key e → t.prefixEntryIsIdle e = true →
      motive (t.evictEntry key e))
    (required : Int) (entries : List (Bytes × PrefixEntry)) (s : Impl) (hm : motive s)
    (hc : ∀ p ∈ entries, s.Cached p.1 p.2)
    (hk : entries.Pairwise (fun p q => p.1 ≠ q.1)) :
    motive (evictLoop required entries s) := by
  induction entries generalizing s with
  | nil => exact hm
  | cons p rest ih =>
    obtain ⟨key, e⟩ := p
    obtain ⟨hhead, htail⟩ := List.pairwise_cons.mp hk
    have hrest : ∀ p ∈ rest, s.Cached p.1 p.2 := fun p hp => hc p (List.mem_cons_of_mem _ hp)
    rw [evictLoop]
    split_ifs with hfree hidle
    · refine ih _ (hstep s key e hm (hc (key, e) (by simp)) hidle) ?_ htail
      intro p hp
      simp only [Impl.Cached, Impl.evictEntry, OrderedMap.getElem?_erase]
      rw [if_neg (hhead p hp)]
      exact hrest p hp
    · exact ih s hm hrest htail
    · exact hm

theorem cached_of_mem_toList {s : Impl} {p : Bytes × PrefixEntry}
    (hp : p ∈ s.prefixCache.toList) : s.Cached p.1 p.2 := OrderedMap.mem_toList.mp hp

theorem keys_ne (s : Impl) : s.prefixCache.toList.Pairwise (fun p q => p.1 ≠ q.1) := by
  have h : s.prefixCache.toList.Pairwise (fun p q => ¬ compare p.1 q.1 = .eq) :=
    ExtTreeMap.distinct_keys_toList
  refine h.imp ?_
  intro p q hpq heq
  exact hpq (by rw [heq]; exact ReflCmp.compare_self)

structure Frame (s t : Impl) : Prop where
  sequences : t.sequences = s.sequences
  config : t.config = s.config
  cached : ∀ key e, t.Cached key e → s.Cached key e
  referenced : ∀ i b, s.BlockAt i b → 0 < b.refCount → t.BlockAt i b
  kept : ∀ key e, s.Cached key e → (∃ i ∈ e.blockIds, ∃ b, s.BlockAt i b ∧ 0 < b.refCount) →
    t.Cached key e

theorem Frame.refl (s : Impl) : Frame s s :=
  ⟨rfl, rfl, fun _ _ h => h, fun _ _ h _ => h, fun _ _ h _ => h⟩

theorem Frame.trans {s t u : Impl} (h : Frame s t) (h' : Frame t u) : Frame s u := by
  refine ⟨h'.sequences.trans h.sequences, h'.config.trans h.config,
    fun key e he => h.cached key e (h'.cached key e he),
    fun i b hb hpos => h'.referenced i b (h.referenced i b hb hpos) hpos, ?_⟩
  rintro key e he ⟨i, hi, b, hb, hpos⟩
  exact h'.kept key e (h.kept key e he ⟨i, hi, b, hb, hpos⟩)
    ⟨i, hi, b, h.referenced i b hb hpos, hpos⟩

theorem Frame.stats {s t : Impl} (h : Frame s t) (stats : KvCacheStats) :
    Frame s { t with stats := stats } :=
  ⟨h.sequences, h.config, h.cached, h.referenced, h.kept⟩

theorem Frame.fresh {s t : Impl} (h : Frame s t) {ids : List Nat} (hf : Fresh s ids) :
    Fresh t ids := by
  refine ⟨?_, fun key e he => hf.entry key e (h.cached key e he)⟩
  intro id q hq
  rw [Impl.Live, h.sequences] at hq
  exact hf.sequence id q hq

theorem Frame.tagged {s t : Impl} (h : Frame s t) {pending ids : List Nat} {key : Bytes}
    (hl : Ledger s pending) (hids : ∀ i ∈ ids, i ∈ pending) (ht : Tagged s key ids) :
    Tagged t key ids := by
  refine ht.transfer ?_
  intro i hi b hb
  exact ⟨b, h.referenced i b hb (hl.referenced_pos hb (Or.inr (hids i hi))), rfl, rfl⟩

theorem Frame.evictEntry {s : Impl} {pending : List Nat} (h : Ledger s pending) {key : Bytes}
    {e : PrefixEntry} (he : s.Cached key e) (hidle : s.prefixEntryIsIdle e = true) :
    Frame s (s.evictEntry key e) := by
  have hzero : ∀ i ∈ e.blockIds, ∀ b, s.BlockAt i b → b.refCount = 0 := by
    intro i hi b hb
    obtain ⟨a, ha, h0⟩ := (idle_iff s e).mp hidle i hi
    obtain rfl := hb.unique ha
    exact h0
  refine ⟨rfl, rfl, ?_, ?_, ?_⟩
  · intro k e' he'
    simp only [Impl.Cached, Impl.evictEntry, OrderedMap.getElem?_erase] at he'
    split at he'
    · simp at he'
    · exact he'
  · intro i b hb hpos
    refine (blockAt_modifyAll _ (h.cached key e he).nodup i b).mpr ?_
    rw [if_neg]
    · exact hb
    intro hi
    have h0 := hzero i hi b hb
    omega
  · rintro k e' he' ⟨i, hi, b, hb, hpos⟩
    simp only [Impl.Cached, Impl.evictEntry, OrderedMap.getElem?_erase]
    rw [if_neg]
    · exact he'
    rintro rfl
    obtain rfl := Option.some.inj (he.symm.trans he')
    have h0 := hzero i hi b hb
    omega

theorem evictIdlePrefixesUntil_spec {s : Impl} {pending : List Nat} (h : Ledger s pending)
    (required : Int) :
    Ledger (s.evictIdlePrefixesUntil required) pending ∧
      Frame s (s.evictIdlePrefixesUntil required) := by
  refine evictLoop_induct (motive := fun t => Ledger t pending ∧ Frame s t) ?_ required _ s
    ⟨h, Frame.refl s⟩ (fun p hp => cached_of_mem_toList hp) (keys_ne s)
  rintro t key e ⟨hl, hf⟩ he hidle
  exact ⟨hl.evictEntry he hidle, hf.trans (Frame.evictEntry hl he hidle)⟩

theorem ensureFreeBlocks_spec {s : Impl} {pending : List Nat} (h : Ledger s pending)
    (blockCount : Int) :
    Ledger (s.ensureFreeBlocks blockCount).2 pending ∧ Frame s (s.ensureFreeBlocks blockCount).2 ∧
      ((s.ensureFreeBlocks blockCount).1 = true ↔
        blockCount ≤ (s.ensureFreeBlocks blockCount).2.freeBlockCount) := by
  unfold Impl.ensureFreeBlocks
  split_ifs with hle
  · exact ⟨h, Frame.refl s, by simpa using hle⟩
  · obtain ⟨hl, hf⟩ := evictIdlePrefixesUntil_spec h blockCount
    exact ⟨hl, hf, by simp⟩

structure Allocated (t : Impl) (pending ids : List Nat) (key : Bytes) : Prop where
  nodup : ids.Nodup
  tagged : Tagged t key ids
  fresh : Fresh t ids
  apart : ∀ i ∈ ids, i ∉ pending
  ledger : Ledger t (pending ++ ids)

theorem Allocated.stats {t : Impl} {pending ids : List Nat} {key : Bytes}
    (h : Allocated t pending ids key) (stats : KvCacheStats) :
    Allocated { t with stats := stats } pending ids key :=
  ⟨h.nodup, h.tagged, ⟨h.fresh.sequence, h.fresh.entry⟩, h.apart, h.ledger.stats stats⟩

/-- The scan over the blocks of a state takes free blocks only. -/
theorem takeFree_spec {t : Impl} {pending : List Nat} (h : Ledger t pending) (key : Bytes)
    (count : Nat) :
    Allocated { t with blocks := (takeFree key 0 count t.blocks).2 } pending
        (takeFree key 0 count t.blocks).1 key ∧
      Frame t { t with blocks := (takeFree key 0 count t.blocks).2 } := by
  set ids := (takeFree key 0 count t.blocks).1 with hids
  set u : Impl := { t with blocks := (takeFree key 0 count t.blocks).2 } with hu
  have hn : ids.Nodup := nodup_takeFree key 0 count t.blocks
  have hblock : ∀ i b, u.BlockAt i b ↔ if i ∈ ids then b = takenBlock key else t.BlockAt i b := by
    intro i b
    simp only [Impl.BlockAt, hu, getElem?_takeFree, Nat.zero_add, ← hids]
    split <;> simp [eq_comm]
  have hfree : ∀ i ∈ ids, ∃ a, t.BlockAt i a ∧ a.occupied = false := by
    intro i hi
    obtain ⟨j, a, hj, ha, ho⟩ := mem_takeFree key 0 count t.blocks i hi
    obtain rfl : i = j := by omega
    exact ⟨a, ha, ho⟩
  have hunused : ∀ i ∈ ids, (∀ id q, t.Live id q → i ∉ q.blockIds) ∧ i ∉ pending ∧
      ∀ k e, t.Cached k e → i ∉ e.blockIds := by
    intro i hi
    obtain ⟨a, ha, ho⟩ := hfree i hi
    obtain ⟨h0, hentry⟩ := h.free_unreferenced ha ho
    obtain ⟨hseq, hpend⟩ := h.unreferenced ha h0
    exact ⟨hseq, hpend, hentry⟩
  have hledger : Ledger u (pending ++ ids) := by
    refine h.transfer rfl (fun _ _ hq => hq) (fun _ _ he => he) ?_ ?_ ?_
    · intro i b hb ho
      rw [hblock] at hb
      split at hb
      · subst hb
        simp [takenBlock] at ho
      · exact h.blank i b hb ho
    · intro i b hb
      rw [hblock] at hb
      rw [List.count_append]
      split at hb
      · rename_i hi
        obtain ⟨hseq, hpend, -⟩ := hunused i hi
        subst hb
        have hz : u.holders i = 0 := (holders_eq_zero_iff u i).mpr hseq
        rw [hz, List.count_eq_zero.mpr hpend, List.count_eq_one_of_mem hn hi]
        simp [takenBlock]
      · rename_i hi
        rw [h.refs i b hb, List.count_eq_zero.mpr hi]
        rfl
    · intro i hi b hb
      refine ⟨b, (hblock i b).mpr ?_, rfl, rfl⟩
      rw [if_neg]
      · exact hb
      intro hmem
      obtain ⟨hseq, -, hentry⟩ := hunused i hmem
      rcases hi with ⟨id, q, hq, hi⟩ | ⟨k, e, he, hi⟩
      · exact hseq id q hq hi
      · exact hentry k e he hi
  refine ⟨⟨hn, ?_, ⟨?_, ?_⟩, fun i hi => (hunused i hi).2.1, hledger⟩, rfl, rfl,
    fun _ _ he => he, ?_, fun _ _ he _ => he⟩
  · intro i hi
    exact ⟨takenBlock key, (hblock i _).mpr (by rw [if_pos hi]), rfl, rfl⟩
  · exact fun id q hq i hi => (hunused i hi).1 id q hq
  · exact fun k e he i hi => (hunused i hi).2.2 k e he
  · intro i b hb hpos
    refine (hblock i b).mpr ?_
    rw [if_neg]
    · exact hb
    intro hi
    obtain ⟨a, ha, ho⟩ := hfree i hi
    obtain rfl := hb.unique ha
    have h0 := (h.free_unreferenced ha ho).1
    omega

theorem allocateBlocks_enough (s : Impl) (blockCount : Int) (key : Bytes) (hle : ¬ blockCount ≤ 0)
    (hok : (s.ensureFreeBlocks blockCount).1 = true) :
    s.allocateBlocks blockCount key =
      ((takeFree key 0 blockCount.toNat (s.ensureFreeBlocks blockCount).2.blocks).1,
        { (s.ensureFreeBlocks blockCount).2 with
          blocks := (takeFree key 0 blockCount.toNat
            (s.ensureFreeBlocks blockCount).2.blocks).2 }.refreshHighWatermark) := by
  simp [Impl.allocateBlocks, hle, hok]

theorem allocateBlocks_short (s : Impl) (blockCount : Int) (key : Bytes) (hle : ¬ blockCount ≤ 0)
    (hok : ¬ (s.ensureFreeBlocks blockCount).1 = true) :
    s.allocateBlocks blockCount key =
      ([], { (s.ensureFreeBlocks blockCount).2 with
        stats := { (s.ensureFreeBlocks blockCount).2.stats with
          allocationFailures :=
            (s.ensureFreeBlocks blockCount).2.stats.allocationFailures + 1 } }) := by
  simp [Impl.allocateBlocks, hle, hok]

/-- `AllocateBlocks` either takes the number of blocks asked for or takes none. -/
theorem allocateBlocks_spec {s : Impl} {pending : List Nat} (h : Ledger s pending)
    (blockCount : Int) (key : Bytes) :
    Frame s (s.allocateBlocks blockCount key).2 ∧
      (((s.allocateBlocks blockCount key).1 = [] ∧ 0 < blockCount ∧
          Ledger (s.allocateBlocks blockCount key).2 pending) ∨
        ((s.allocateBlocks blockCount key).1.length = blockCount.toNat ∧
          Allocated (s.allocateBlocks blockCount key).2 pending
            (s.allocateBlocks blockCount key).1 key)) := by
  obtain ⟨hl, hf, henough⟩ := ensureFreeBlocks_spec h blockCount
  by_cases hle : blockCount ≤ 0
  · have he : s.allocateBlocks blockCount key = ([], s) := if_pos hle
    rw [he]
    refine ⟨Frame.refl s, Or.inr ⟨?_, ⟨by simp, ?_, ⟨?_, ?_⟩, by simp, by simpa using h⟩⟩⟩
    · simp only [List.length_nil]
      omega
    · exact fun i hi => absurd hi (by simp)
    · exact fun _ _ _ i hi => absurd hi (by simp)
    · exact fun _ _ _ i hi => absurd hi (by simp)
  by_cases hok : (s.ensureFreeBlocks blockCount).1 = true
  · obtain ⟨ht, hft⟩ := takeFree_spec hl key blockCount.toNat
    rw [allocateBlocks_enough s blockCount key hle hok]
    refine ⟨(hf.trans hft).stats _, Or.inr ⟨?_, ht.stats _⟩⟩
    have hfree := henough.mp hok
    simp only [Impl.freeBlockCount] at hfree
    simp only [length_takeFree_ids]
    omega
  · rw [allocateBlocks_short s blockCount key hle hok]
    exact ⟨hf.stats _, Or.inl ⟨rfl, by omega, hl.stats _⟩⟩

end Laminar.Kv
