import Laminar.Kv.Demand

/-! What a failed call leaves behind. The rollbacks restore every block and every sequence;
the prefixes evicted in vain stay lost. -/
namespace Laminar.Kv
open Std Laminar.ListUpdate

structure SameMemory (s t : Impl) : Prop where
  config : t.config = s.config
  blocks : t.blocks = s.blocks
  sequences : t.sequences = s.sequences
  prefixCache : t.prefixCache = s.prefixCache

def Impl.fails (s : Impl) : Call → Bool
  | .allocatePrompt id promptTokens key prefixTokens =>
    !(s.allocatePrompt id promptTokens key prefixTokens).1.ok
  | .appendTokens id tokenCount => !(s.appendTokens id tokenCount).1.ok
  | .releaseSequence _ => false

def Impl.refuses (s : Impl) : Call → Bool
  | .allocatePrompt id _ _ _ => decide (id = []) || s.sequences.contains id
  | .appendTokens id _ => !s.sequences.contains id
  | .releaseSequence _ => false

def Impl.NothingIdle (s : Impl) (call : Call) : Prop :=
  ∀ key e, s.Cached key e → s.evictable call key = true → s.prefixEntryIsIdle e = false

theorem SameMemory.of_stats (s : Impl) (stats : KvCacheStats) :
    SameMemory s { s with stats := stats } := ⟨rfl, rfl, rfl, rfl⟩

theorem SameMemory.refl (s : Impl) : SameMemory s s := SameMemory.of_stats s s.stats

theorem SameMemory.trans {s t u : Impl} (h : SameMemory s t) (h' : SameMemory t u) :
    SameMemory s u :=
  ⟨h'.config.trans h.config, h'.blocks.trans h.blocks, h'.sequences.trans h.sequences,
    h'.prefixCache.trans h.prefixCache⟩

theorem SameMemory.cached {s t : Impl} (h : SameMemory s t) {key : Bytes} {e : PrefixEntry}
    (he : s.Cached key e) : t.Cached key e := by
  rw [Impl.Cached, h.prefixCache]
  exact he

/-- A failed request has evicted every idle entry. -/
theorem allocateBlocks_fails_lost {s : Impl} {pending : List Nat} (h : Ledger s pending)
    {blockCount : Int} (hcount : 0 ≤ blockCount) (key : Bytes)
    (hfail : ((s.allocateBlocks blockCount key).1.length : Int) ≠ blockCount) {k : Bytes}
    {e : PrefixEntry} (he : s.Cached k e) (hidle : s.prefixEntryIsIdle e = true) :
    ¬ (s.allocateBlocks blockCount key).2.Cached k e := by
  have hout := allocateBlocks_outcome h hcount key
  have hshort := hout.success.not.mp hfail
  rw [hout.kept k e he]
  rintro (hbusy | hfit)
  · exact absurd hidle (by simp [hbusy])
  · exact hshort (hfit.trans (available_le s _))

theorem evictLoop_busy (required : Int) (entries : List (Bytes × PrefixEntry)) (s : Impl)
    (h : ∀ p ∈ entries, s.prefixEntryIsIdle p.2 = false) : evictLoop required entries s = s := by
  induction entries with
  | nil => rfl
  | cons p rest ih =>
    obtain ⟨key, e⟩ := p
    have he : s.prefixEntryIsIdle e = false := h (key, e) (by simp)
    simp only [evictLoop, he, Bool.false_eq_true, if_false, ite_self,
      ih fun p hp => h p (List.mem_cons_of_mem _ hp)]

theorem ensureFreeBlocks_busy {s : Impl}
    (h : ∀ key e, s.Cached key e → s.prefixEntryIsIdle e = false) (blockCount : Int) :
    s.ensureFreeBlocks blockCount = (decide (blockCount ≤ s.freeBlockCount), s) := by
  have hloop : s.evictIdlePrefixesUntil blockCount = s :=
    evictLoop_busy blockCount _ s fun p hp => h p.1 p.2 (cached_of_mem_toList hp)
  unfold Impl.ensureFreeBlocks
  split_ifs with hle
  · simp [hle]
  · simp [hloop]

/-- With nothing idle a failed request changes the statistics alone. -/
theorem allocateBlocks_fails_busy {s : Impl}
    (h : ∀ key e, s.Cached key e → s.prefixEntryIsIdle e = false) (blockCount : Int) (key : Bytes)
    (hfail : ((s.allocateBlocks blockCount key).1.length : Int) ≠ blockCount) :
    (s.allocateBlocks blockCount key).1 = [] ∧
      SameMemory s (s.allocateBlocks blockCount key).2 := by
  have hensure := ensureFreeBlocks_busy h blockCount
  by_cases hle : blockCount ≤ 0
  · rw [show s.allocateBlocks blockCount key = ([], s) from if_pos hle]
    exact ⟨rfl, SameMemory.refl s⟩
  by_cases hok : (s.ensureFreeBlocks blockCount).1 = true
  · refine absurd ?_ hfail
    rw [allocateBlocks_enough s blockCount key hle hok, hensure]
    rw [hensure] at hok
    have hfree : blockCount ≤ s.freeBlockCount := by simpa using hok
    simp only [Impl.freeBlockCount] at hfree
    simp only [length_takeFree_ids]
    omega
  · rw [allocateBlocks_short s blockCount key hle hok, hensure]
    exact ⟨rfl, SameMemory.of_stats s _⟩

/-- With nothing idle a request that succeeds only takes free blocks. -/
theorem allocateBlocks_busy {s : Impl}
    (h : ∀ key e, s.Cached key e → s.prefixEntryIsIdle e = false) {blockCount : Int}
    (hcount : 0 ≤ blockCount) (key : Bytes)
    (hok : ((s.allocateBlocks blockCount key).1.length : Int) = blockCount) :
    (s.allocateBlocks blockCount key).1 = (takeFree key 0 blockCount.toNat s.blocks).1 ∧
      SameMemory { s with blocks := (takeFree key 0 blockCount.toNat s.blocks).2 }
        (s.allocateBlocks blockCount key).2 := by
  have hensure := ensureFreeBlocks_busy h blockCount
  by_cases hle : blockCount ≤ 0
  · obtain rfl : blockCount = 0 := by omega
    have hzero : takeFree key 0 (0 : Int).toNat s.blocks = ([], s.blocks) := by
      cases s.blocks <;> rfl
    rw [hzero, show s.allocateBlocks 0 key = ([], s) from if_pos hle]
    exact ⟨rfl, SameMemory.refl s⟩
  by_cases hfound : (s.ensureFreeBlocks blockCount).1 = true
  · rw [allocateBlocks_enough s blockCount key hle hfound, hensure]
    exact ⟨rfl, SameMemory.of_stats _ _⟩
  · rw [allocateBlocks_short s blockCount key hle hfound] at hok
    simp only [List.length_nil] at hok
    omega

/-- Freeing the blocks just taken restores what was there: a free block is blank. -/
theorem freeBlocks_takeFree {s : Impl} {pending : List Nat} (h : Ledger s pending) (key : Bytes)
    (count : Nat) :
    freeBlocks (takeFree key 0 count s.blocks).1 (takeFree key 0 count s.blocks).2 = s.blocks := by
  refine List.ext_getElem? fun i => ?_
  rw [freeBlocks, getElem?_modifyAll _ _ _ (nodup_takeFree key 0 count s.blocks),
    getElem?_takeFree, Nat.zero_add]
  split_ifs with hi
  · obtain ⟨j, b, hj, hb, ho⟩ := mem_takeFree key 0 count s.blocks i hi
    rw [Nat.zero_add] at hj
    subst hj
    rw [hb, h.blank i b hb ho]
    rfl
  · rfl

theorem unretain_retain (ids : List Nat) (hn : ids.Nodup) (blocks : List Block) :
    modifyAll unretainBlock ids (modifyAll retainBlock ids blocks) = blocks := by
  refine List.ext_getElem? fun i => ?_
  rw [getElem?_modifyAll _ _ _ hn, getElem?_modifyAll _ _ _ hn]
  split_ifs
  · cases blocks[i]? with
    | none => rfl
    | some b => simp [retainBlock, unretainBlock]
  · rfl

theorem allocateShared_atomic {s : Impl} (h : Ledger s []) (id : Bytes) {key : Bytes}
    (sequence : Sequence) {e : PrefixEntry} (he : s.Cached key e) {suffixBlockCount : Int}
    (hsuffix : 0 ≤ suffixBlockCount)
    (hfail : (s.allocateShared id sequence e suffixBlockCount).1.ok = false) :
    SameMemory s (s.allocateShared id sequence e suffixBlockCount).2 ↔
      ∀ k e', s.Cached k e' → (!decide (k = key)) = true → s.prefixEntryIsIdle e' = false := by
  have hl : Ledger (s.retained e) e.blockIds := h.retain he
  have hlost := fun k e' => allocateBlocks_fails_lost hl hsuffix [] (k := k) (e := e')
  have hbusy := fun hb => allocateBlocks_fails_busy (s := s.retained e) hb suffixBlockCount []
  have hundo := unretain_retain e.blockIds (h.cached key e he).nodup s.blocks
  revert hfail
  unfold Impl.allocateShared
  simp only
  split_ifs with hlen
  · refine fun _ => ⟨fun hsame k e' he' hk => ?_, fun hnone => ?_⟩
    · by_contra hidle
      refine hlost k e' hlen he' ?_ (hsame.cached he')
      rw [retained_idle h he he', hk, Bool.true_and]
      simpa using hidle
    · obtain ⟨-, hsame⟩ := hbusy (fun k e' he' => by
        rw [retained_idle h he he']
        cases hk : (!decide (k = key)) with
        | false => rfl
        | true => exact (Bool.true_and _).trans (hnone k e' he' hk)) hlen
      exact ⟨hsame.config, (congrArg _ hsame.blocks).trans hundo, hsame.sequences,
        hsame.prefixCache⟩
  · exact fun hok => absurd hok (by simp [allocationOk])

theorem allocateFresh_atomic {s : Impl} (h : Ledger s []) (id key : Bytes) {sequence : Sequence}
    {cacheable suffixBlockCount : Int} (hpre : 0 ≤ sequence.prefixBlockCount)
    (hsuffix : 0 ≤ suffixBlockCount)
    (hfail : (s.allocateFresh id key sequence cacheable suffixBlockCount).1.ok = false) :
    SameMemory s (s.allocateFresh id key sequence cacheable suffixBlockCount).2 ↔
      ∀ k e, s.Cached k e → s.prefixEntryIsIdle e = false := by
  have hfirst := allocateBlocks_outcome h hpre key
  have hlost := fun k e => allocateBlocks_fails_lost h hpre key (k := k) (e := e)
  have hbusy := fun hb => allocateBlocks_fails_busy (s := s) hb sequence.prefixBlockCount key
  have htaken := fun hb => allocateBlocks_busy (s := s) hb hpre key
  obtain ⟨-, hout⟩ := allocateBlocks_spec h sequence.prefixBlockCount key
  revert hfail
  unfold Impl.allocateFresh
  simp only
  set p := s.allocateBlocks sequence.prefixBlockCount key
  split_ifs with hlen hlen'
  · refine fun _ => ⟨fun hsame k e he => ?_, fun hnone => (hbusy hnone hlen).2⟩
    by_contra hidle
    exact hlost k e hlen he (by simpa using hidle) (hsame.cached he)
  · have hl : Ledger p.2 p.1 := by
      rcases hout with ⟨hnil, -, hl⟩ | ⟨-, ha⟩
      · rw [hnil]
        exact hl
      · exact ha.ledger
    refine fun _ => ⟨fun hsame k e he => ?_, fun hnone => ?_⟩
    · by_contra hidle
      have hstill : (p.2.allocateBlocks suffixBlockCount []).2.Cached k e := hsame.cached he
      have hkept := (allocateBlocks_sweep hl suffixBlockCount []).frame.cached k e hstill
      refine allocateBlocks_fails_lost hl hsuffix [] hlen' hkept ?_ hstill
      rw [hfirst.idle k e he hkept]
      simpa using hidle
    · obtain ⟨hids, htook⟩ := htaken hnone (not_not.mp hlen)
      have hidle : ∀ k e, p.2.Cached k e → p.2.prefixEntryIsIdle e = false := by
        intro k e he
        have hs : s.Cached k e := by
          rw [Impl.Cached, htook.prefixCache] at he
          exact he
        rw [hfirst.idle k e hs he]
        exact hnone k e hs
      obtain ⟨-, hsame⟩ := allocateBlocks_fails_busy hidle suffixBlockCount [] hlen'
      have hall := htook.trans hsame
      refine ⟨hall.config, ?_, hall.sequences, hall.prefixCache⟩
      rw [hall.blocks, hids]
      exact freeBlocks_takeFree h key _
  · exact fun hok => absurd hok (by simp [allocationOk])
  · exact fun hok => absurd hok (by simp [allocationOk])

theorem appendTokens_atomic {s : Impl} (h : Ledger s []) {id : Bytes} {q : Sequence}
    (hq : s.Live id q) {tokenCount : Int} (hfail : (s.appendTokens id tokenCount).1.ok = false) :
    SameMemory s (s.appendTokens id tokenCount).2 ↔
      ∀ k e, s.Cached k e → s.prefixEntryIsIdle e = false := by
  have hmono := ceilDiv_mono q.generatedTokens (q.generatedTokens + tokenCount)
    s.config.tokensPerBlock h.tokens
  revert hfail
  unfold Impl.appendTokens
  rw [hq]
  simp only
  split_ifs with hle hlen
  · exact fun hok => absurd hok (by simp [allocationOk])
  · refine fun _ => ⟨fun hsame k e he => ?_,
      fun hnone => (allocateBlocks_fails_busy hnone _ [] hlen).2⟩
    by_contra hidle
    exact allocateBlocks_fails_lost h (by omega) [] hlen he (by simpa using hidle) (hsame.cached he)
  · exact fun hok => absurd hok (by simp [allocationOk])

theorem allocatePrompt_atomic {s : Impl} (h : Ledger s []) {id : Bytes} (hid : id ≠ [])
    (hnew : s.sequences[id]? = none) (promptTokens : Int) (key : Bytes) (prefixTokens : Int)
    (hfail : (s.allocatePrompt id promptTokens key prefixTokens).1.ok = false) :
    SameMemory s (s.allocatePrompt id promptTokens key prefixTokens).2 ↔
      s.NothingIdle (.allocatePrompt id promptTokens key prefixTokens) := by
  have hlive : ¬ s.sequences.contains id = true := by simpa using hnew
  have hnonneg := fun v => ceilDiv_nonneg v _ h.tokens
  have hhits := hits_iff s promptTokens key prefixTokens
  revert hfail
  unfold Impl.allocatePrompt
  rw [if_neg hid, if_neg hlive]
  simp only [Impl.NothingIdle, Impl.evictable]
  cases hhit : s.hits promptTokens key prefixTokens with
  | true =>
    obtain ⟨hstore, e, he⟩ := hhits.mp hhit
    simp only [if_pos hstore, he, Bool.true_and]
    exact allocateShared_atomic h id _ (cachedPrefix_some he).1 (hnonneg _)
  | false =>
    simp only [Bool.false_and, Bool.not_false, true_implies]
    by_cases hstore : key ≠ [] ∧ cacheableTokens (max 0 promptTokens) key prefixTokens > 0
    · have hmiss := Option.eq_none_iff_forall_ne_some.mpr fun e he =>
        absurd (hhits.mpr ⟨hstore, e, he⟩) (by simp [hhit])
      simp only [if_pos hstore, hmiss]
      have hstats := h.stats { s.stats with prefixCacheMisses := s.stats.prefixCacheMisses + 1 }
      refine fun hfail => Iff.trans ⟨fun hsame => ?_, fun hsame => ?_⟩
        (allocateFresh_atomic hstats id key (hnonneg _) (hnonneg _) hfail)
      · exact ⟨hsame.config, hsame.blocks, hsame.sequences, hsame.prefixCache⟩
      · exact ⟨hsame.config, hsame.blocks, hsame.sequences, hsame.prefixCache⟩
    · simp only [if_neg hstore]
      exact allocateFresh_atomic h id key (hnonneg _) (hnonneg _)

/-- A failed call leaves the memory as it was exactly when it was refused for its id or found
nothing idle to evict. -/
theorem failed_atomic_iff (config : KvCacheConfig) (calls : List Call) (call : Call)
    (hfail : (runCalls config calls).fails call = true) :
    SameMemory (runCalls config calls) ((runCalls config calls).exec call) ↔
      (runCalls config calls).refuses call = true ∨ (runCalls config calls).NothingIdle call := by
  have h := ledger_run config calls
  set s := runCalls config calls
  cases call with
  | allocatePrompt id promptTokens key prefixTokens =>
    simp only [Impl.fails, Bool.not_eq_true'] at hfail
    by_cases hrefused : s.refuses (.allocatePrompt id promptTokens key prefixTokens) = true
    · refine iff_of_true ?_ (Or.inl hrefused)
      simp only [Impl.refuses, Bool.or_eq_true, decide_eq_true_eq] at hrefused
      rw [Impl.exec, allocatePrompt_refused hrefused]
      exact SameMemory.refl s
    · have hrun := hrefused
      simp only [Impl.refuses, Bool.or_eq_true, decide_eq_true_eq, not_or] at hrun
      rw [or_iff_right hrefused]
      exact allocatePrompt_atomic h hrun.1 (by simpa using hrun.2) promptTokens key prefixTokens
        hfail
  | appendTokens id tokenCount =>
    simp only [Impl.fails, Bool.not_eq_true'] at hfail
    cases hq : s.sequences[id]? with
    | none =>
      refine iff_of_true ?_ (Or.inl ?_)
      · simp only [Impl.exec, Impl.appendTokens, hq]
        exact SameMemory.refl s
      · simp [Impl.refuses, ExtTreeMap.contains_eq_isSome_getElem?, hq]
    | some q =>
      have hrefused : ¬ s.refuses (.appendTokens id tokenCount) = true := by
        simp [Impl.refuses, ExtTreeMap.contains_eq_isSome_getElem?, hq]
      rw [or_iff_right hrefused, Impl.exec, appendTokens_atomic h hq hfail]
      simp only [Impl.NothingIdle, Impl.evictable, everyKey, true_implies]
  | releaseSequence id => simp [Impl.fails] at hfail

def idlePrefix : List Call := [.allocatePrompt [97] 4 [107] (-1), .releaseSequence [97]]

def oversizedPrompt : Call := .allocatePrompt [98] 12 [] (-1)

/-- The prompt is rejected and the cached prefix is gone. -/
theorem oversizedPrompt_evicts : (runCalls ⟨2, 4⟩ idlePrefix).fails oversizedPrompt = true ∧
    ¬ SameMemory (runCalls ⟨2, 4⟩ idlePrefix)
      ((runCalls ⟨2, 4⟩ idlePrefix).exec oversizedPrompt) := by
  refine ⟨by decide, fun hsame => ?_⟩
  have hempty := congrArg (fun m => m.isEmpty) hsame.prefixCache
  exact absurd hempty (by decide)

theorem oversizedPrompt_not_atomic :
    SameMemory (runCalls ⟨2, 4⟩ idlePrefix) ((runCalls ⟨2, 4⟩ idlePrefix).exec oversizedPrompt) ↔
      (runCalls ⟨2, 4⟩ idlePrefix).refuses oversizedPrompt = true ∨
        (runCalls ⟨2, 4⟩ idlePrefix).NothingIdle oversizedPrompt :=
  failed_atomic_iff ⟨2, 4⟩ idlePrefix oversizedPrompt (by decide)

end Laminar.Kv
