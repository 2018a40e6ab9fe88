import Laminar.Kv.LedgerOps

/-! Safety of the allocator over every history of calls: the reference counts are exact
and sequences meet only in shared prefixes. -/
namespace Laminar.Kv
open Laminar.ListUpdate

theorem ceilDiv_nonneg (value divisor : Int) (h : 0 < divisor) : 0 ≤ ceilDiv value divisor := by
  unfold ceilDiv
  split_ifs with hv
  · exact Int.le_refl 0
  · exact Int.tdiv_nonneg (by omega) (by omega)

theorem ceilDiv_mono (a b divisor : Int) (h : 0 < divisor) (hab : a ≤ b) :
    ceilDiv a divisor ≤ ceilDiv b divisor := by
  by_cases ha : a ≤ 0
  · simpa [ceilDiv, ha] using ceilDiv_nonneg b divisor h
  · have hb : ¬ b ≤ 0 := by omega
    simp only [ceilDiv, if_neg ha, if_neg hb]
    rw [Int.tdiv_eq_ediv_of_nonneg (by omega), Int.tdiv_eq_ediv_of_nonneg (by omega)]
    exact Int.ediv_le_ediv h (by omega)

theorem HeldBy.of_parts {t : Impl} {q : Sequence} {shared owned : List Nat}
    (hids : q.blockIds = shared ++ owned) (hcount : q.prefixBlockCount.toNat = shared.length)
    (hs : shared.Nodup) (ho : owned.Nodup) (hd : ∀ i ∈ owned, i ∉ shared)
    (hkey : ∃ key, key ≠ [] ∧ Tagged t key shared) (ht : Tagged t [] owned) :
    HeldBy t q ∧ q.privatePart = owned := by
  have hsp : q.sharedPart = shared := by
    rw [Sequence.sharedPart, hids, hcount, List.take_left]
  have hpp : q.privatePart = owned := by
    rw [Sequence.privatePart, hids, hcount, List.drop_left]
  refine ⟨⟨?_, ?_, by rw [hsp]; exact hkey, by rw [hpp]; exact ht⟩, hpp⟩
  · rw [hids, hcount, List.length_append]
    omega
  · rw [hids]
    exact List.nodup_append.mpr ⟨hs, ho, fun a ha b hb hab => hd b hb (hab ▸ ha)⟩

theorem Ledger.allocateShared {s : Impl} (h : Ledger s []) {id key : Bytes} {sequence : Sequence}
    {e : PrefixEntry} (he : s.Cached key e) (hid : s.sequences[id]? = none)
    (hcount : sequence.prefixBlockCount.toNat = e.blockIds.length) {suffixBlockCount : Int}
    (hsuffix : 0 ≤ suffixBlockCount) :
    Ledger (s.allocateShared id sequence e suffixBlockCount).2 [] := by
  have hn := (h.cached key e he).nodup
  have h1 := h.retain he
  set s1 : Impl := { s with blocks := ListUpdate.modifyAll retainBlock e.blockIds s.blocks }
  obtain ⟨hf, hout⟩ := allocateBlocks_spec h1 suffixBlockCount []
  have htag : Tagged (s1.allocateBlocks suffixBlockCount []).2 key e.blockIds :=
    hf.tagged h1 (fun i hi => hi) (h1.cached key e he).tagged
  unfold Impl.allocateShared
  rcases hout with ⟨hnil, hpos, hl⟩ | ⟨hlen, ha⟩
  · rw [if_pos (by rw [hnil]; simp only [List.length_nil]; omega)]
    exact hl.unretain hn
  · rw [if_neg (by rw [hlen]; simp only [not_not]; omega)]
    obtain ⟨hheld, hpriv⟩ := HeldBy.of_parts
      (q := { sequence with
        blockIds := e.blockIds ++ (s1.allocateBlocks suffixBlockCount []).1 })
      rfl hcount hn ha.nodup ha.apart ⟨key, (h.cached key e he).key_ne, htag⟩ ha.tagged
    have hnone : (s1.allocateBlocks suffixBlockCount []).2.sequences[id]? = none := by
      rw [hf.sequences]
      exact hid
    have hl := Ledger.insertSequence ha.ledger hnone hheld (by rw [hpriv]; exact ha.fresh)
    exact hl.stats _

theorem Ledger.allocateFresh {s : Impl} (h : Ledger s []) {id key : Bytes} {sequence : Sequence}
    (hid : s.sequences[id]? = none) {cacheable suffixBlockCount : Int}
    (hcount : sequence.prefixBlockCount = ceilDiv cacheable s.config.tokensPerBlock)
    (hkey : key = [] → cacheable = 0) (hsuffix : 0 ≤ suffixBlockCount) :
    Ledger (s.allocateFresh id key sequence cacheable suffixBlockCount).2 [] := by
  have hpre : 0 ≤ sequence.prefixBlockCount := by
    rw [hcount]
    exact ceilDiv_nonneg _ _ h.tokens
  obtain ⟨hf, hout⟩ := allocateBlocks_spec h sequence.prefixBlockCount key
  unfold Impl.allocateFresh
  set p := s.allocateBlocks sequence.prefixBlockCount key
  rcases hout with ⟨hnil, hpos, hl⟩ | ⟨hlen, ha⟩
  · rw [if_pos (by rw [hnil]; simp only [List.length_nil]; omega)]
    exact hl
  rw [if_neg (by rw [hlen]; simp only [not_not]; omega)]
  have hl : Ledger p.2 p.1 := ha.ledger
  obtain ⟨hf', hout'⟩ := allocateBlocks_spec hl suffixBlockCount []
  set r := p.2.allocateBlocks suffixBlockCount []
  rcases hout' with ⟨hnil, hpos, hl'⟩ | ⟨hlen', ha'⟩
  · rw [if_pos (by rw [hnil]; simp only [List.length_nil]; omega)]
    exact hl'.free ha.nodup (hf'.fresh ha.fresh)
  rw [if_neg (by rw [hlen']; simp only [not_not]; omega)]
  have hid' : r.2.sequences[id]? = none := by
    rw [hf'.sequences, hf.sequences]
    exact hid
  have htag : Tagged r.2 key p.1 := hf'.tagged hl (fun i hi => hi) ha.tagged
  have hheld : ∀ key', key' ≠ [] → Tagged r.2 key' p.1 →
      HeldBy r.2 { sequence with blockIds := p.1 ++ r.1 } ∧
        Sequence.privatePart { sequence with blockIds := p.1 ++ r.1 } = r.1 :=
    fun key' hk ht => HeldBy.of_parts rfl hlen.symm ha.nodup ha'.nodup ha'.apart ⟨key', hk, ht⟩
      ha'.tagged
  by_cases hstore : key ≠ [] ∧ cacheable > 0
  · simp only [if_pos hstore]
    have hentry : CachedAs r.2 key ⟨cacheable, p.1⟩ := by
      refine ⟨hstore.1, hstore.2, ?_, ha.nodup, htag⟩
      rw [hf'.config, hf.config, ← hcount, hlen]
      omega
    obtain ⟨hq, hpriv⟩ := hheld key hstore.1 htag
    have hl2 := ha'.ledger.insertPrefix hentry
    have hfresh : Fresh { r.2 with
        prefixCache := r.2.prefixCache.insert key ⟨cacheable, p.1⟩ } r.1 := by
      refine ⟨ha'.fresh.sequence, ?_⟩
      intro k e he i hi
      simp only [Impl.Cached, OrderedMap.getElem?_insert] at he
      split at he
      · obtain rfl := Option.some.inj he
        exact ha'.apart i hi
      · exact ha'.fresh.entry k e he i hi
    exact Ledger.insertSequence (q := { sequence with blockIds := p.1 ++ r.1 }) hl2 hid'
      (hq.transfer (fun i _ b hb => ⟨b, hb, rfl, rfl⟩)) (by rw [hpriv]; exact hfresh)
  · simp only [if_neg hstore]
    have hzero : cacheable ≤ 0 := by
      by_contra hpos
      refine hstore ⟨?_, by omega⟩
      intro hk
      have := hkey hk
      omega
    have hnil : p.1 = [] := by
      have hc : sequence.prefixBlockCount = 0 := by
        rw [hcount, ceilDiv, if_pos hzero]
      rw [hc] at hlen
      exact List.length_eq_zero_iff.mp hlen
    obtain ⟨hq, hpriv⟩ := hheld [0] (by simp) (by rw [hnil]; exact fun i hi => absurd hi (by simp))
    exact Ledger.insertSequence ha'.ledger hid' hq (by rw [hpriv]; exact ha'.fresh)

theorem cacheableTokens_nil (promptTokens prefixTokens : Int) :
    cacheableTokens promptTokens [] prefixTokens = 0 := by
  simp [cacheableTokens]

theorem cachedPrefix_some {s : Impl} {key : Bytes} {cacheable : Int} {e : PrefixEntry}
    (h : s.cachedPrefix key cacheable = some e) : s.Cached key e ∧ e.tokenCount = cacheable := by
  unfold Impl.cachedPrefix at h
  split at h
  · simp at h
  · rename_i e' he'
    split at h
    · obtain rfl := Option.some.inj h
      exact ⟨he', ‹_›⟩
    · simp at h

theorem Ledger.allocatePrompt {s : Impl} (h : Ledger s []) (id : Bytes) (promptTokens : Int)
    (key : Bytes) (prefixTokens : Int) :
    Ledger (s.allocatePrompt id promptTokens key prefixTokens).2 [] := by
  unfold Impl.allocatePrompt
  split
  · exact h
  split
  · exact h
  rename_i hlive
  have hid : s.sequences[id]? = none := by simpa using hlive
  have hsuffix := fun v => ceilDiv_nonneg v _ h.tokens
  simp only
  split
  · split
    · rename_i e he
      obtain ⟨hc, htok⟩ := cachedPrefix_some he
      refine h.allocateShared hc hid ?_ (hsuffix _)
      have hlen := (h.cached key e hc).length
      rw [htok] at hlen
      simp only
      omega
    · have hmiss := h.stats
        { s.stats with prefixCacheMisses := s.stats.prefixCacheMisses + 1 }
      refine hmiss.allocateFresh hid ?_ ?_ (hsuffix _)
      · rfl
      · rintro rfl
        exact cacheableTokens_nil _ _
  · refine h.allocateFresh hid rfl ?_ (hsuffix _)
    rintro rfl
    exact cacheableTokens_nil _ _

theorem Ledger.appendTokens {s : Impl} (h : Ledger s []) (id : Bytes) (tokenCount : Int) :
    Ledger (s.appendTokens id tokenCount).2 [] := by
  unfold Impl.appendTokens
  split
  · exact h
  rename_i q hq
  split
  · exact h
  simp only
  set count := ceilDiv (q.generatedTokens + tokenCount) s.config.tokensPerBlock -
    ceilDiv q.generatedTokens s.config.tokensPerBlock with hcount
  have hnonneg : 0 ≤ count := by
    have hm := ceilDiv_mono q.generatedTokens (q.generatedTokens + tokenCount)
      s.config.tokensPerBlock h.tokens (by omega)
    omega
  obtain ⟨hf, hout⟩ := allocateBlocks_spec h count []
  rcases hout with ⟨hnil, hpos, hl⟩ | ⟨hlen, ha⟩
  · rw [if_pos (by rw [hnil]; simp only [List.length_nil]; omega)]
    exact hl
  · rw [if_neg (by rw [hlen]; simp only [not_not]; omega)]
    have hq' : (s.allocateBlocks count []).2.Live id q := by
      rw [Impl.Live, hf.sequences]
      exact hq
    exact Ledger.extendSequence ha.ledger hq' _ ha.nodup ha.tagged ha.fresh

theorem Ledger.exec {s : Impl} (h : Ledger s []) (call : Call) : Ledger (s.exec call) [] := by
  cases call with
  | allocatePrompt id promptTokens key prefixTokens =>
    exact h.allocatePrompt id promptTokens key prefixTokens
  | appendTokens id tokenCount => exact h.appendTokens id tokenCount
  | releaseSequence id => exact h.releaseSequence id

theorem ledger_foldl (calls : List Call) (s : Impl) (h : Ledger s []) :
    Ledger (calls.foldl Impl.exec s) [] := by
  induction calls generalizing s with
  | nil => exact h
  | cons call calls ih => exact ih _ (h.exec call)

theorem ledger_run (config : KvCacheConfig) (calls : List Call) :
    Ledger (runCalls config calls) [] := ledger_foldl calls _ (ledger_new config)

theorem evictIdlePrefixesUntil_sequences (s : Impl) (required : Int) :
    (s.evictIdlePrefixesUntil required).sequences = s.sequences :=
  evictLoop_induct (motive := fun t => t.sequences = s.sequences) (fun _ _ _ h _ _ => h) required
    _ s rfl (fun _ hp => cached_of_mem_toList hp) (keys_ne s)

@[simp] theorem allocateBlocks_sequences (s : Impl) (blockCount : Int) (key : Bytes) :
    (s.allocateBlocks blockCount key).2.sequences = s.sequences := by
  have hensure : (s.ensureFreeBlocks blockCount).2.sequences = s.sequences := by
    unfold Impl.ensureFreeBlocks
    split_ifs
    · rfl
    · exact evictIdlePrefixesUntil_sequences s blockCount
  by_cases hle : blockCount ≤ 0
  · rw [show s.allocateBlocks blockCount key = ([], s) from if_pos hle]
  by_cases hok : (s.ensureFreeBlocks blockCount).1 = true
  · rw [allocateBlocks_enough s blockCount key hle hok]
    exact hensure
  · rw [allocateBlocks_short s blockCount key hle hok]
    exact hensure

theorem allocatePrompt_sequences (s : Impl) (id : Bytes) (promptTokens : Int) (key : Bytes)
    (prefixTokens : Int) :
    (s.allocatePrompt id promptTokens key prefixTokens).2.sequences = s.sequences ∨
      ∃ q, (s.allocatePrompt id promptTokens key prefixTokens).2.sequences =
        s.sequences.insert id q := by
  have hfresh : ∀ (t : Impl) sequence cacheable suffix, t.sequences = s.sequences →
      (t.allocateFresh id key sequence cacheable suffix).2.sequences = s.sequences ∨
        ∃ q, (t.allocateFresh id key sequence cacheable suffix).2.sequences =
          s.sequences.insert id q := by
    intro t sequence cacheable suffix ht
    unfold Impl.allocateFresh
    simp only
    split_ifs
    all_goals simp only [allocateBlocks_sequences, ht]
    all_goals first
      | exact Or.inl trivial
      | exact Or.inr ⟨_, rfl⟩
  unfold Impl.allocatePrompt
  simp only
  split_ifs
  · exact Or.inl rfl
  · exact Or.inl rfl
  · split
    · unfold Impl.allocateShared
      simp only
      split_ifs
      · exact Or.inl (by simp only [allocateBlocks_sequences])
      · exact Or.inr ⟨_, by simp only [allocateBlocks_sequences]; rfl⟩
    · exact hfresh _ _ _ _ rfl
  · exact hfresh _ _ _ _ rfl

theorem appendTokens_sequences (s : Impl) (id : Bytes) (tokenCount : Int) :
    (s.appendTokens id tokenCount).2.sequences = s.sequences ∨
      ∃ q, (s.appendTokens id tokenCount).2.sequences = s.sequences.insert id q := by
  unfold Impl.appendTokens
  split
  · exact Or.inl rfl
  simp only
  split_ifs
  · exact Or.inl rfl
  · exact Or.inl (by simp only [allocateBlocks_sequences])
  · exact Or.inr ⟨_, by simp only [allocateBlocks_sequences]; rfl⟩

/-- A call touches no sequence but the one it names. -/
theorem exec_others (s : Impl) (call : Call) (id : Bytes) (hne : id ≠ call.id) :
    (s.exec call).sequences[id]? = s.sequences[id]? := by
  have hinsert : ∀ (t : Impl) callId, id ≠ callId →
      (t.sequences = s.sequences ∨ ∃ q, t.sequences = s.sequences.insert callId q) →
      t.sequences[id]? = s.sequences[id]? := by
    rintro t callId hid (ht | ⟨q, ht⟩)
    · rw [ht]
    · rw [ht, OrderedMap.getElem?_insert, if_neg (Ne.symm hid)]
  cases call with
  | allocatePrompt callId promptTokens key prefixTokens =>
    exact hinsert _ callId hne (allocatePrompt_sequences s callId promptTokens key prefixTokens)
  | appendTokens callId tokenCount =>
    exact hinsert _ callId hne (appendTokens_sequences s callId tokenCount)
  | releaseSequence callId =>
    simp only [Impl.exec, Impl.releaseSequence]
    split
    · rfl
    · exact (OrderedMap.getElem?_erase _ _ _).trans (if_neg (Ne.symm hne))

structure SafeState (s : Impl) : Prop where
  refCount : ∀ i b, s.BlockAt i b →
    b.refCount = OrderedMap.count s.sequences (fun q => decide (i ∈ q.blockIds))
  nodup : ∀ id q, s.Live id q → q.blockIds.Nodup
  occupied : ∀ id q, s.Live id q → ∀ i ∈ q.blockIds, ∃ b, s.BlockAt i b ∧ b.occupied = true
  shared : ∀ id id' q q', s.Live id q → s.Live id' q' → id ≠ id' →
    ∀ i ∈ q.blockIds, i ∈ q'.blockIds → i ∈ q.sharedPart ∧ i ∈ q'.sharedPart ∧
      ∃ b, s.BlockAt i b ∧ b.cachedPrefixKey ≠ []
  cached : ∀ key e, s.Cached key e → ∀ i ∈ e.blockIds,
    ∃ b, s.BlockAt i b ∧ b.occupied = true ∧ b.cachedPrefixKey = key
  disjoint : ∀ key key' e e', s.Cached key e → s.Cached key' e' → key ≠ key' →
    ∀ i ∈ e.blockIds, i ∉ e'.blockIds
  owned : ∀ key e id q, s.Cached key e → s.Live id q →
    ∀ i ∈ e.blockIds, i ∉ q.privatePart

theorem Ledger.safe {s : Impl} (h : Ledger s []) : SafeState s := by
  refine ⟨?_, fun id q hq => (h.held id q hq).nodup, fun id q hq => (h.held id q hq).occupied,
    ?_, ?_, fun key key' e e' he he' hk => h.entries_disjoint he he' hk, ?_⟩
  · intro i b hb
    rw [h.refs i b hb]
    simp [Impl.holders]
  · intro id id' q q' hq hq' hne i hi hi'
    have hs : i ∈ q.sharedPart := by
      refine ((q.mem_blockIds i).mp hi).resolve_right ?_
      exact fun hp => h.apart id id' q q' hq hq' hne i hp hi'
    have hs' : i ∈ q'.sharedPart := by
      refine ((q'.mem_blockIds i).mp hi').resolve_right ?_
      exact fun hp => h.apart id' id q' q hq' hq (Ne.symm hne) i hp hi
    obtain ⟨key, hk, ht⟩ := (h.held id q hq).shared
    obtain ⟨b, hb, -, htag⟩ := ht i hs
    exact ⟨hs, hs', b, hb, by rw [htag]; exact hk⟩
  · intro key e he
    exact (h.cached key e he).tagged
  · intro key e id q he hq i hi hp
    obtain ⟨b, hb, -, htag⟩ := (h.cached key e he).tagged i hi
    obtain ⟨b', hb', -, htag'⟩ := (h.held id q hq).owned i hp
    obtain rfl := hb.unique hb'
    exact (h.cached key e he).key_ne (htag.symm.trans htag')

/-- Safety over every history, and isolation of the sequences a call does not name. -/
theorem allocator_safe (config : KvCacheConfig) (calls : List Call) :
    SafeState (runCalls config calls) ∧
      ∀ call id q, id ≠ call.id → (runCalls config calls).Live id q →
        ((runCalls config calls).exec call).Live id q := by
  refine ⟨(ledger_run config calls).safe, ?_⟩
  intro call id q hne hq
  rw [Impl.Live, exec_others _ call id hne]
  exact hq

end Laminar.Kv
