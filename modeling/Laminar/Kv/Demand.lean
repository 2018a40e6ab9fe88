import Laminar.Kv.Leak

/-! The blocks that a call must take newly, and when the allocator can find them. What it
evicts on the way is read off the cache and the eviction counter. -/
namespace Laminar.Kv
open Std Laminar.ListUpdate

def Impl.hits (s : Impl) (promptTokens : Int) (key : Bytes) (prefixTokens : Int) : Bool :=
  let cacheable := cacheableTokens (max 0 promptTokens) key prefixTokens
  decide (key ≠ [] ∧ cacheable > 0) && (s.cachedPrefix key cacheable).isSome

def Impl.need (s : Impl) : Call → Int
  | .allocatePrompt _ promptTokens key prefixTokens =>
    let cacheable := cacheableTokens (max 0 promptTokens) key prefixTokens
    let suffixBlockCount := ceilDiv (max 0 promptTokens - cacheable) s.config.tokensPerBlock
    if s.hits promptTokens key prefixTokens then suffixBlockCount
    else ceilDiv cacheable s.config.tokensPerBlock + suffixBlockCount
  | .appendTokens id tokenCount =>
    match s.sequences[id]? with
    | none => 0
    | some q => ceilDiv (q.generatedTokens + max 0 tokenCount) s.config.tokensPerBlock -
        ceilDiv q.generatedTokens s.config.tokensPerBlock
  | .releaseSequence _ => 0

/-- The keys whose entries a call may evict: all but that of the entry it shares. -/
def Impl.evictable (s : Impl) : Call → Bytes → Bool
  | .allocatePrompt _ promptTokens key prefixTokens => fun k =>
    !(s.hits promptTokens key prefixTokens && decide (k = key))
  | .appendTokens _ _ => everyKey
  | .releaseSequence _ => everyKey

/-- `evicted` are the entries evicted on the way from `s` to `t`: as many as the counter counts,
none of them in the cache any more, and all others still there unless one was stored over. -/
structure Evictions (s t : Impl) (evicted : List (Bytes × PrefixEntry)) : Prop where
  nodup : evicted.Nodup
  gone : ∀ p ∈ evicted, s.Cached p.1 p.2 ∧ ¬ t.Cached p.1 p.2
  counted : t.stats.evictions = s.stats.evictions + evicted.length
  kept : ∀ key e, s.Cached key e → (key, e) ∉ evicted →
    t.Cached key e ∨ ∃ e', t.Cached key e' ∧ ¬ s.Cached key e'

structure Sweep (s t : Impl) : Prop where
  frame : Frame s t
  counted : t.stats.evictions + t.prefixCache.size = s.stats.evictions + s.prefixCache.size

theorem Sweep.refl (s : Impl) : Sweep s s := ⟨Frame.refl s, rfl⟩

theorem Sweep.trans {s t u : Impl} (h : Sweep s t) (h' : Sweep t u) : Sweep s u :=
  ⟨h.frame.trans h'.frame, h'.counted.trans h.counted⟩

theorem Sweep.evictEntry {s : Impl} {pending : List Nat} (h : Ledger s pending) {key : Bytes}
    {e : PrefixEntry} (he : s.Cached key e) (hidle : s.prefixEntryIsIdle e = true) :
    Sweep s (s.evictEntry key e) := by
  refine ⟨Frame.evictEntry h he hidle, ?_⟩
  have hsize := OrderedMap.size_erase s.prefixCache key e he
  simp only [Impl.evictEntry, hsize]
  omega

theorem ensureFreeBlocks_sweep {s : Impl} {pending : List Nat} (h : Ledger s pending)
    (blockCount : Int) : Sweep s (s.ensureFreeBlocks blockCount).2 := by
  unfold Impl.ensureFreeBlocks
  split_ifs
  · exact Sweep.refl s
  · have hloop := evictLoop_induct (motive := fun t => Ledger t pending ∧ Sweep s t)
      (fun t key e ht he hi => ⟨ht.1.evictEntry he hi, ht.2.trans (Sweep.evictEntry ht.1 he hi)⟩)
      blockCount _ s ⟨h, Sweep.refl s⟩ (fun p hp => cached_of_mem_toList hp) (keys_ne s)
    exact hloop.2

theorem allocateBlocks_sweep {s : Impl} {pending : List Nat} (h : Ledger s pending)
    (blockCount : Int) (key : Bytes) : Sweep s (s.allocateBlocks blockCount key).2 := by
  refine ⟨(allocateBlocks_spec h blockCount key).1, ?_⟩
  have hsweep := (ensureFreeBlocks_sweep h blockCount).counted
  by_cases hle : blockCount ≤ 0
  · rw [show s.allocateBlocks blockCount key = ([], s) from if_pos hle]
  by_cases hok : (s.ensureFreeBlocks blockCount).1 = true
  · rw [allocateBlocks_enough s blockCount key hle hok]
    exact hsweep
  · rw [allocateBlocks_short s blockCount key hle hok]
    exact hsweep

def Impl.lost (s t : Impl) : List (Bytes × PrefixEntry) :=
  s.prefixCache.toList.filter (fun p => !t.prefixCache.contains p.1)

theorem mem_lost {s t : Impl} {key : Bytes} {e : PrefixEntry} :
    (key, e) ∈ s.lost t ↔ s.Cached key e ∧ t.prefixCache[key]? = none := by
  simp only [Impl.lost, List.mem_filter, OrderedMap.mem_toList, Bool.not_eq_true',
    ExtTreeMap.contains_eq_isSome_getElem?, Option.isSome_eq_false_iff, Option.isNone_iff_eq_none]

theorem Sweep.evictions {s t : Impl} (h : Sweep s t) : Evictions s t (s.lost t) := by
  refine ⟨(OrderedMap.nodup_toList _).filter _, ?_, ?_, ?_⟩
  · rintro ⟨key, e⟩ hp
    obtain ⟨he, hnone⟩ := mem_lost.mp hp
    refine ⟨he, fun ht => ?_⟩
    simp only [Impl.Cached, hnone] at ht
    exact absurd ht (by simp)
  · have hsize := OrderedMap.size_of_submap s.prefixCache t.prefixCache h.frame.cached
    have hcounted := h.counted
    simp only [Impl.lost]
    omega
  · intro key e he hout
    obtain ⟨e', he'⟩ := Option.ne_none_iff_exists'.mp (fun hnone => hout (mem_lost.mpr ⟨he, hnone⟩))
    obtain rfl := Option.some.inj (he.symm.trans (h.frame.cached key e' he'))
    exact Or.inl he'

theorem Evictions.congr {s s' t t' : Impl} {evicted : List (Bytes × PrefixEntry)}
    (h : Evictions s t evicted) (hs : s'.prefixCache = s.prefixCache)
    (hcount : s'.stats.evictions = s.stats.evictions) (ht : t'.prefixCache = t.prefixCache)
    (hcount' : t'.stats.evictions = t.stats.evictions) : Evictions s' t' evicted := by
  have hs' : ∀ key e, s'.Cached key e ↔ s.Cached key e := fun key e => by rw [Impl.Cached, hs]
  have ht' : ∀ key e, t'.Cached key e ↔ t.Cached key e := fun key e => by rw [Impl.Cached, ht]
  refine ⟨h.nodup, fun p hp => ?_, by rw [hcount', hcount, h.counted], fun key e he hout => ?_⟩
  · rw [hs', ht']
    exact h.gone p hp
  · simp only [ht', hs']
    exact h.kept key e ((hs' key e).mp he) hout

/-- Storing an entry that was not there before evicts nothing further. -/
theorem Evictions.store {s t u : Impl} {evicted : List (Bytes × PrefixEntry)}
    (h : Evictions s t evicted) {key : Bytes} {e : PrefixEntry} (hnew : ¬ s.Cached key e)
    (hcount : u.stats.evictions = t.stats.evictions)
    (hcache : u.prefixCache = t.prefixCache.insert key e) : Evictions s u evicted := by
  have hother : ∀ k e', key ≠ k → (u.Cached k e' ↔ t.Cached k e') := by
    intro k e' hk
    rw [Impl.Cached, hcache, OrderedMap.getElem?_insert, if_neg hk]
  have hown : u.Cached key e := by simp [Impl.Cached, hcache]
  refine ⟨h.nodup, fun p hp => ?_, hcount.trans h.counted, fun k e' he' hout => ?_⟩
  · obtain ⟨hs, ht⟩ := h.gone p hp
    refine ⟨hs, fun hu => ?_⟩
    by_cases hk : key = p.1
    · subst hk
      obtain rfl := Option.some.inj (hown.symm.trans hu)
      exact hnew hs
    · exact ht ((hother p.1 p.2 hk).mp hu)
  · by_cases hk : key = k
    · subst hk
      exact Or.inr ⟨e, hown, hnew⟩
    · rcases h.kept k e' he' hout with ht | ⟨e'', ht, hs⟩
      · exact Or.inl ((hother k e' hk).mpr ht)
      · exact Or.inr ⟨e'', (hother k e'' hk).mpr ht, hs⟩

/-- On the way from `s` to `t` only unreferenced entries with an evictable key were evicted,
and none when the free blocks covered `need`. -/
structure Spares (s t : Impl) (need : Int) (evictable : Bytes → Bool)
    (evicted : List (Bytes × PrefixEntry)) : Prop where
  evictions : Evictions s t evicted
  quiet : need ≤ s.freeBlockCount → evicted = []
  idle : ∀ p ∈ evicted, evictable p.1 = true ∧
    ∀ i ∈ p.2.blockIds, ∀ b, s.BlockAt i b → b.refCount = 0

theorem Spares.congr {s t u : Impl} {need : Int} {evictable : Bytes → Bool}
    {evicted : List (Bytes × PrefixEntry)} (h : Spares s t need evictable evicted)
    (hcache : u.prefixCache = t.prefixCache) (hcount : u.stats.evictions = t.stats.evictions) :
    Spares s u need evictable evicted :=
  ⟨h.evictions.congr rfl rfl hcache hcount, h.quiet, h.idle⟩

theorem Spares.of_stats {s t : Impl} {stats : KvCacheStats} {need : Int} {evictable : Bytes → Bool}
    {evicted : List (Bytes × PrefixEntry)}
    (h : Spares { s with stats := stats } t need evictable evicted)
    (hcount : s.stats.evictions = stats.evictions) : Spares s t need evictable evicted :=
  ⟨h.evictions.congr rfl hcount rfl rfl, h.quiet, h.idle⟩

theorem Spares.store {s t u : Impl} {need : Int} {evictable : Bytes → Bool}
    {evicted : List (Bytes × PrefixEntry)} (h : Spares s t need evictable evicted) {key : Bytes}
    {e : PrefixEntry} (hnew : ¬ s.Cached key e) (hcount : u.stats.evictions = t.stats.evictions)
    (hcache : u.prefixCache = t.prefixCache.insert key e) : Spares s u need evictable evicted :=
  ⟨h.evictions.store hnew hcount hcache, h.quiet, h.idle⟩

theorem Sweep.unreferenced {s t : Impl} (h : Sweep s t) {pending : List Nat}
    (hl : Ledger s pending) {key : Bytes} {e : PrefixEntry} (hp : (key, e) ∈ s.lost t) :
    ∀ i ∈ e.blockIds, ∀ b, s.BlockAt i b → b.refCount = 0 := by
  intro i hi b hb
  obtain ⟨he, hnone⟩ := mem_lost.mp hp
  by_contra hne
  have hrefs := hl.refs i b hb
  have hkept := h.frame.kept key e he ⟨i, hi, b, hb, by omega⟩
  rw [Impl.Cached, hnone] at hkept
  exact absurd hkept (by simp)

theorem lost_eq_nil {s t : Impl} (h : ∀ key e, s.Cached key e → t.Cached key e) :
    s.lost t = [] := by
  refine List.eq_nil_iff_forall_not_mem.mpr ?_
  rintro ⟨key, e⟩ hp
  obtain ⟨he, hnone⟩ := mem_lost.mp hp
  have hkept := h key e he
  rw [Impl.Cached, hnone] at hkept
  exact absurd hkept (by simp)

theorem Sweep.spares {s t : Impl} (h : Sweep s t) {pending : List Nat} (hl : Ledger s pending)
    {need : Int} (hquiet : need ≤ s.freeBlockCount → ∀ key e, s.Cached key e → t.Cached key e) :
    Spares s t need everyKey (s.lost t) :=
  ⟨h.evictions, fun hneed => lost_eq_nil (hquiet hneed),
    fun _ hp => ⟨rfl, h.unreferenced hl hp⟩⟩

/-- A request that the free blocks cover keeps every entry. -/
theorem allocateBlocks_quiet {s : Impl} {pending : List Nat} (h : Ledger s pending)
    {blockCount : Int} (hcount : 0 ≤ blockCount) (key : Bytes)
    (hfree : blockCount ≤ s.freeBlockCount) (k : Bytes) (e : PrefixEntry) (he : s.Cached k e) :
    (s.allocateBlocks blockCount key).2.Cached k e :=
  ((allocateBlocks_outcome h hcount key).kept k e he).mpr
    (Or.inr (hfree.trans (freeBlockCount_le_available s _)))

def Impl.retained (s : Impl) (e : PrefixEntry) : Impl :=
  { s with blocks := modifyAll retainBlock e.blockIds s.blocks }

theorem retained_free (s : Impl) (e : PrefixEntry) :
    (s.retained e).freeBlockCount = s.freeBlockCount :=
  congrArg Nat.cast (countP_modifyAll_eq (fun b => !b.occupied) retainBlock (fun _ => rfl)
    e.blockIds s.blocks)

/-- A shared entry is in use; the others are as idle as before. -/
theorem retained_idle {s : Impl} (h : Ledger s []) {key k : Bytes} {e e' : PrefixEntry}
    (he : s.Cached key e) (he' : s.Cached k e') :
    (s.retained e).prefixEntryIsIdle e' = (!decide (k = key) && s.prefixEntryIsIdle e') := by
  have hc := h.cached key e he
  by_cases hk : k = key
  · subst hk
    obtain rfl := Option.some.inj (he.symm.trans he')
    obtain ⟨i, hi⟩ := hc.exists_block h.tokens
    simp only [decide_true, Bool.not_true, Bool.false_and, ← Bool.not_eq_true, idle_iff]
    intro hidle
    obtain ⟨b, hb, h0⟩ := hidle i hi
    have hpos := (h.retain he).referenced_pos hb (Or.inr hi)
    omega
  · simp only [hk, decide_false, Bool.not_false, Bool.true_and]
    refine idle_congr fun i hi => ?_
    simp only [Impl.retained, getElem?_modifyAll _ _ _ hc.nodup]
    rw [if_neg (h.entries_disjoint he' he hk i hi)]

theorem retained_available {s : Impl} (h : Ledger s []) {key : Bytes} {e : PrefixEntry}
    (he : s.Cached key e) :
    (s.retained e).available everyKey = s.available (fun k => !decide (k = key)) := by
  unfold Impl.available
  rw [retained_free]
  refine congrArg (fun n : Nat => s.freeBlockCount + (n : Int)) ?_
  refine OrderedMap.total_congr s.prefixCache _ _ fun k e' he' => ?_
  rw [retained_idle h he he', everyKey, Bool.true_and]

/-- Sharing an entry takes the suffix blocks alone, and never evicts the entry shared. -/
theorem allocateShared_demand {s : Impl} (h : Ledger s []) (id : Bytes) {key : Bytes}
    (sequence : Sequence) {e : PrefixEntry} (he : s.Cached key e) {suffixBlockCount : Int}
    (hsuffix : 0 ≤ suffixBlockCount) :
    ((s.allocateShared id sequence e suffixBlockCount).1.ok = true ↔
        suffixBlockCount ≤ s.available (fun k => !decide (k = key))) ∧
      ∃ evicted, Spares s (s.allocateShared id sequence e suffixBlockCount).2 suffixBlockCount
        (fun k => !decide (k = key)) evicted := by
  have hl : Ledger (s.retained e) e.blockIds := h.retain he
  have hout := allocateBlocks_outcome hl hsuffix []
  have hsweep := allocateBlocks_sweep hl suffixBlockCount []
  have hquiet := allocateBlocks_quiet hl hsuffix []
  rw [retained_free] at hquiet
  have hspares : Spares s ((s.retained e).allocateBlocks suffixBlockCount []).2 suffixBlockCount
      (fun k => !decide (k = key))
      ((s.retained e).lost ((s.retained e).allocateBlocks suffixBlockCount []).2) := by
    refine ⟨hsweep.evictions.congr rfl rfl rfl rfl, fun hneed => lost_eq_nil (hquiet hneed), ?_⟩
    rintro ⟨k, e'⟩ hp
    have hunref := hsweep.unreferenced hl hp
    have he' : s.Cached k e' := (mem_lost.mp hp).1
    have hidle : (s.retained e).prefixEntryIsIdle e' = true := by
      refine (idle_iff _ e').mpr fun i hi => ?_
      obtain ⟨b, hb, -⟩ := (hl.cached k e' he').tagged i hi
      exact ⟨b, hb, hunref i hi b hb⟩
    rw [retained_idle h he he', Bool.and_eq_true] at hidle
    refine ⟨hidle.1, fun i hi b hb => ?_⟩
    obtain ⟨b', hb', h0⟩ := (idle_iff s e').mp hidle.2 i hi
    rw [hb.unique hb', h0]
  rw [← retained_available h he, ← hout.success]
  unfold Impl.allocateShared
  simp only
  split_ifs with hlen
  · exact ⟨iff_of_false Bool.false_ne_true hlen, _, hspares.congr rfl rfl⟩
  · exact ⟨iff_of_true rfl (not_not.mp hlen), _, hspares.congr rfl rfl⟩

/-- Two requests in a row succeed exactly when one request for both would. -/
theorem allocateTwice_success {s : Impl} (h : Ledger s []) {prefixBlocks suffixBlocks : Int}
    (hpre : 0 ≤ prefixBlocks) (hsuffix : 0 ≤ suffixBlocks) (key : Bytes) :
    (((s.allocateBlocks prefixBlocks key).1.length : Int) = prefixBlocks ∧
      (((s.allocateBlocks prefixBlocks key).2.allocateBlocks suffixBlocks []).1.length : Int) =
        suffixBlocks) ↔ prefixBlocks + suffixBlocks ≤ s.available everyKey := by
  refine ⟨fun hboth => ?_, fun hfit => ?_⟩
  · have hfirst := allocateBlocks_outcome h hpre key
    have hrest := hfirst.rest (hfirst.success.mp hboth.1)
    obtain ⟨-, hout⟩ := allocateBlocks_spec h prefixBlocks key
    have hl :
        Ledger (s.allocateBlocks prefixBlocks key).2 (s.allocateBlocks prefixBlocks key).1 := by
      rcases hout with ⟨hnil, -, hl⟩ | ⟨-, ha⟩
      · rw [hnil]
        exact hl
      · exact ha.ledger
    have hsecond := (allocateBlocks_outcome hl hsuffix []).success.mp hboth.2
    omega
  · obtain ⟨hlen, hlen', -⟩ := allocateTwice_outcome h hpre hsuffix key hfit
    exact ⟨hlen, hlen'⟩

theorem allocateFresh_demand {s : Impl} (h : Ledger s []) (id key : Bytes) {sequence : Sequence}
    {cacheable suffixBlockCount : Int} (hpre : 0 ≤ sequence.prefixBlockCount)
    (hsuffix : 0 ≤ suffixBlockCount)
    (hmiss : 0 < cacheable → ∀ e, s.Cached key e → e.tokenCount ≠ cacheable) :
    ((s.allocateFresh id key sequence cacheable suffixBlockCount).1.ok = true ↔
        sequence.prefixBlockCount + suffixBlockCount ≤ s.available everyKey) ∧
      ∃ evicted, Spares s (s.allocateFresh id key sequence cacheable suffixBlockCount).2
        (sequence.prefixBlockCount + suffixBlockCount) everyKey evicted := by
  rw [← allocateTwice_success h hpre hsuffix key]
  have hfree := freeBlockCount_le_available s everyKey
  have hfit := allocateTwice_outcome h hpre hsuffix key
  have hsweep := allocateBlocks_sweep h sequence.prefixBlockCount key
  have hkeep := allocateBlocks_quiet h hpre key
  obtain ⟨-, hout⟩ := allocateBlocks_spec h sequence.prefixBlockCount key
  unfold Impl.allocateFresh
  simp only
  set p := s.allocateBlocks sequence.prefixBlockCount key
  split_ifs with hlen hlen'
  · exact ⟨iff_of_false Bool.false_ne_true fun hboth => hlen hboth.1, _,
      hsweep.spares h fun hneed => hkeep (by omega)⟩
  all_goals
    have hl : Ledger p.2 p.1 := by
      rcases hout with ⟨hnil, -, hl⟩ | ⟨-, ha⟩
      · rw [hnil]
        exact hl
      · exact ha.ledger
    have hboth := hsweep.trans (allocateBlocks_sweep hl suffixBlockCount [])
    have hspares : Spares s _ (sequence.prefixBlockCount + suffixBlockCount) everyKey _ :=
      hboth.spares h fun hneed k e he => ((hfit (by omega)).2.2 k e).mpr
        ⟨he, Or.inr (hneed.trans (freeBlockCount_le_available s _))⟩
  · exact ⟨iff_of_false Bool.false_ne_true fun hboth => hlen' hboth.2, _, hspares.congr rfl rfl⟩
  · rename_i hstore
    refine ⟨iff_of_true rfl ⟨not_not.mp hlen, not_not.mp hlen'⟩, _, hspares.store ?_ rfl rfl⟩
    exact fun he => hmiss hstore.2 _ he rfl
  · exact ⟨iff_of_true rfl ⟨not_not.mp hlen, not_not.mp hlen'⟩, _, hspares.congr rfl rfl⟩

theorem Spares.refl (s : Impl) (need : Int) (evictable : Bytes → Bool) :
    Spares s s need evictable [] :=
  ⟨⟨List.nodup_nil, by simp, by simp, fun _ _ he _ => Or.inl he⟩, fun _ => rfl, by simp⟩

theorem cachedPrefix_eq_none {s : Impl} {key : Bytes} {cacheable : Int}
    (h : s.cachedPrefix key cacheable = none) (e : PrefixEntry) (he : s.Cached key e) :
    e.tokenCount ≠ cacheable := by
  intro htok
  have hhit : s.prefixCache[key]? = some e := he
  simp [Impl.cachedPrefix, hhit, htok] at h

theorem hits_iff (s : Impl) (promptTokens : Int) (key : Bytes) (prefixTokens : Int) :
    s.hits promptTokens key prefixTokens = true ↔
      (key ≠ [] ∧ cacheableTokens (max 0 promptTokens) key prefixTokens > 0) ∧
        ∃ e,
          s.cachedPrefix key (cacheableTokens (max 0 promptTokens) key prefixTokens) = some e := by
  simp only [Impl.hits, Bool.and_eq_true, decide_eq_true_eq, Option.isSome_iff_exists]

theorem allocatePrompt_demand {s : Impl} (h : Ledger s []) {id : Bytes} (hid : id ≠ [])
    (hnew : s.sequences[id]? = none) (promptTokens : Int) (key : Bytes) (prefixTokens : Int) :
    ((s.allocatePrompt id promptTokens key prefixTokens).1.ok = true ↔
        s.need (.allocatePrompt id promptTokens key prefixTokens) ≤
          s.available (s.evictable (.allocatePrompt id promptTokens key prefixTokens))) ∧
      ∃ evicted, Spares s (s.allocatePrompt id promptTokens key prefixTokens).2
        (s.need (.allocatePrompt id promptTokens key prefixTokens))
        (s.evictable (.allocatePrompt id promptTokens key prefixTokens)) evicted := by
  have hlive : ¬ s.sequences.contains id = true := by simpa using hnew
  have hnonneg := fun v => ceilDiv_nonneg v _ h.tokens
  unfold Impl.allocatePrompt
  rw [if_neg hid, if_neg hlive]
  simp only [Impl.need, Impl.evictable]
  have hhits := hits_iff s promptTokens key prefixTokens
  have hzero : ∀ prompt, key = [] → cacheableTokens prompt key prefixTokens = 0 := by
    rintro prompt rfl
    exact cacheableTokens_nil _ _
  cases hhit : s.hits promptTokens key prefixTokens with
  | true =>
    obtain ⟨hstore, e, he⟩ := hhits.mp hhit
    simp only [if_pos hstore, he, if_true, Bool.true_and]
    exact allocateShared_demand h id _ (cachedPrefix_some he).1 (hnonneg _)
  | false =>
    simp only [Bool.false_and, Bool.not_false, Bool.false_eq_true, if_false]
    by_cases hstore : key ≠ [] ∧ cacheableTokens (max 0 promptTokens) key prefixTokens > 0
    · have hmiss := Option.eq_none_iff_forall_ne_some.mpr fun e he =>
        absurd (hhits.mpr ⟨hstore, e, he⟩) (by simp [hhit])
      simp only [if_pos hstore, hmiss]
      refine And.imp_right (Exists.imp fun evicted hspares => hspares.of_stats rfl)
        (allocateFresh_demand (h.stats _) id key (hnonneg _) (hnonneg _) fun _ => ?_)
      exact cachedPrefix_eq_none hmiss
    · simp only [if_neg hstore]
      refine allocateFresh_demand h id key (hnonneg _) (hnonneg _) fun hpos => ?_
      refine absurd ⟨fun hk => ?_, hpos⟩ hstore
      have h0 := hzero (max 0 promptTokens) hk
      omega

theorem need_appendTokens {s : Impl} {id : Bytes} {q : Sequence} (hq : s.Live id q)
    (tokenCount : Int) : s.need (.appendTokens id tokenCount) =
      ceilDiv (q.generatedTokens + max 0 tokenCount) s.config.tokensPerBlock -
        ceilDiv q.generatedTokens s.config.tokensPerBlock := by
  simp only [Impl.need, hq]

theorem appendTokens_demand {s : Impl} (h : Ledger s []) (id : Bytes) (tokenCount : Int) :
    (∀ q, s.Live id q → ((s.appendTokens id tokenCount).1.ok = true ↔
        s.need (.appendTokens id tokenCount) ≤ s.available everyKey)) ∧
      ∃ evicted, Spares s (s.appendTokens id tokenCount).2 (s.need (.appendTokens id tokenCount))
        everyKey evicted := by
  unfold Impl.appendTokens
  split
  · rename_i hnone
    refine ⟨fun q hq => ?_, [], Spares.refl s _ _⟩
    rw [Impl.Live, hnone] at hq
    exact absurd hq (by simp)
  rename_i q hq
  rw [need_appendTokens hq]
  split
  · rename_i hle
    have hzero : q.generatedTokens + max 0 tokenCount = q.generatedTokens := by omega
    rw [hzero, Int.sub_self]
    exact ⟨fun _ _ => iff_of_true rfl (available_nonneg s _), [], Spares.refl s _ _⟩
  rename_i hpos
  have hmax : max 0 tokenCount = tokenCount := by omega
  have hmono := ceilDiv_mono q.generatedTokens (q.generatedTokens + tokenCount)
    s.config.tokensPerBlock h.tokens (by omega)
  simp only [hmax]
  set count := ceilDiv (q.generatedTokens + tokenCount) s.config.tokensPerBlock -
    ceilDiv q.generatedTokens s.config.tokensPerBlock
  have hcount : 0 ≤ count := by omega
  have hout := allocateBlocks_outcome h hcount []
  have hspares := (allocateBlocks_sweep h count []).spares h (allocateBlocks_quiet h hcount [])
  rw [← hout.success]
  split_ifs with hlen
  · exact ⟨fun _ _ => iff_of_false Bool.false_ne_true hlen, _, hspares⟩
  · exact ⟨fun _ _ => iff_of_true rfl (not_not.mp hlen), _, hspares.congr rfl rfl⟩

theorem allocatePrompt_refused {s : Impl} {id : Bytes}
    (h : id = [] ∨ s.sequences.contains id = true) (promptTokens : Int) (key : Bytes)
    (prefixTokens : Int) : (s.allocatePrompt id promptTokens key prefixTokens).2 = s := by
  unfold Impl.allocatePrompt
  by_cases hid : id = []
  · rw [if_pos hid]
  · rw [if_neg hid, if_pos (h.resolve_left hid)]

theorem exec_spares {s : Impl} (h : Ledger s []) (call : Call) :
    ∃ evicted, Spares s (s.exec call) (s.need call) (s.evictable call) evicted := by
  cases call with
  | allocatePrompt id promptTokens key prefixTokens =>
    by_cases hrefused : id = [] ∨ s.sequences.contains id = true
    · refine ⟨[], ?_⟩
      rw [Impl.exec, allocatePrompt_refused hrefused]
      exact Spares.refl s _ _
    · obtain ⟨hid, hlive⟩ := not_or.mp hrefused
      exact (allocatePrompt_demand h hid (by simpa using hlive) promptTokens key prefixTokens).2
  | appendTokens id tokenCount => exact (appendTokens_demand h id tokenCount).2
  | releaseSequence id =>
    refine ⟨[], (Spares.refl s _ _).congr ?_ ?_⟩
    all_goals
      simp only [Impl.exec, Impl.releaseSequence]
      split <;> rfl

structure FindsMemory (s : Impl) : Prop where
  prompt : ∀ id promptTokens key prefixTokens, id ≠ [] → s.sequences[id]? = none →
    ((s.allocatePrompt id promptTokens key prefixTokens).1.ok = true ↔
      s.need (.allocatePrompt id promptTokens key prefixTokens) ≤
        s.available (s.evictable (.allocatePrompt id promptTokens key prefixTokens)))
  append : ∀ id q tokenCount, s.Live id q →
    ((s.appendTokens id tokenCount).1.ok = true ↔
      s.need (.appendTokens id tokenCount) ≤ s.available everyKey)
  spares : ∀ call, ∃ evicted, Evictions s (s.exec call) evicted ∧
    (s.need call ≤ s.freeBlockCount → evicted = []) ∧
    ∀ p ∈ evicted, s.evictable call p.1 = true ∧
      ∀ i ∈ p.2.blockIds, ∀ b, s.BlockAt i b → b.refCount = 0

/-- In every reachable state a call succeeds if and only if the free blocks and those of the
idle entries it may evict cover what it needs. -/
theorem allocation_exact (config : KvCacheConfig) (calls : List Call) :
    FindsMemory (runCalls config calls) := by
  have h := ledger_run config calls
  refine ⟨fun id promptTokens key prefixTokens hid hnew =>
    (allocatePrompt_demand h hid hnew promptTokens key prefixTokens).1,
    fun id q tokenCount hq => (appendTokens_demand h id tokenCount).1 q hq, fun call => ?_⟩
  obtain ⟨evicted, hspares⟩ := exec_spares h call
  exact ⟨evicted, hspares.evictions, hspares.quiet, hspares.idle⟩

end Laminar.Kv
