import Laminar.Kv.LedgerSteps

/-! Which idle prefixes an allocation evicts, and when it finds the blocks it asks for. -/
namespace Laminar.Kv
open Std Laminar.ListUpdate

/-- The free blocks together with the blocks of the idle entries whose key is `visited`. -/
def Impl.available (s : Impl) (visited : Bytes → Bool) : Int :=
  s.freeBlockCount + OrderedMap.total s.prefixCache
    (fun key e => if visited key && s.prefixEntryIsIdle e then e.blockIds.length else 0)

def everyKey (_ : Bytes) : Bool := true

def before (key k : Bytes) : Bool := compare k key == .lt

theorem freeBlockCount_le_available (s : Impl) (visited : Bytes → Bool) :
    s.freeBlockCount ≤ s.available visited := by
  unfold Impl.available
  omega

theorem available_le (s : Impl) (visited : Bytes → Bool) :
    s.available visited ≤ s.available everyKey := by
  have hmono := OrderedMap.total_mono s.prefixCache
    (fun key e => if visited key && s.prefixEntryIsIdle e then e.blockIds.length else 0)
    (fun key e => if everyKey key && s.prefixEntryIsIdle e then e.blockIds.length else 0) (by
      intro key e _
      cases visited key <;> simp [everyKey])
  unfold Impl.available
  omega

theorem freeBlockCount_nonneg (s : Impl) : 0 ≤ s.freeBlockCount := by
  unfold Impl.freeBlockCount
  omega

/-- An entry is as idle as before when its blocks are as they were. -/
theorem idle_congr {s t : Impl} {e : PrefixEntry}
    (h : ∀ i ∈ e.blockIds, t.blocks[i]? = s.blocks[i]?) :
    t.prefixEntryIsIdle e = s.prefixEntryIsIdle e := by
  rw [Bool.eq_iff_iff, idle_iff, idle_iff]
  refine forall₂_congr fun i hi => ?_
  simp only [Impl.BlockAt, h i hi]

theorem evictEntry_cached (s : Impl) (key k : Bytes) (e e' : PrefixEntry) :
    (s.evictEntry key e).Cached k e' ↔ key ≠ k ∧ s.Cached k e' := by
  simp only [Impl.Cached, Impl.evictEntry, OrderedMap.getElem?_erase]
  split_ifs with hk <;> simp [hk]

theorem evictEntry_idle {s : Impl} {pending : List Nat} (h : Ledger s pending) {key k : Bytes}
    {e e' : PrefixEntry} (he : s.Cached key e) (he' : s.Cached k e') (hk : key ≠ k) :
    (s.evictEntry key e).prefixEntryIsIdle e' = s.prefixEntryIsIdle e' := by
  refine idle_congr fun i hi => ?_
  simp only [Impl.evictEntry, freeBlocks, getElem?_modifyAll _ _ _ (h.cached key e he).nodup]
  rw [if_neg (h.entries_disjoint he' he (Ne.symm hk) i hi)]

/-- Evicting an idle entry turns its blocks into free ones. -/
theorem evictEntry_free {s : Impl} {pending : List Nat} (h : Ledger s pending) {key : Bytes}
    {e : PrefixEntry} (he : s.Cached key e) :
    (s.evictEntry key e).freeBlockCount = s.freeBlockCount + e.blockIds.length := by
  have hc := h.cached key e he
  have hcount := countP_modifyAll (fun b : Block => !b.occupied) (fun _ => {}) e.blockIds s.blocks
    hc.nodup (by
      intro i hi
      obtain ⟨b, hb, ho, -⟩ := hc.tagged i hi
      exact ⟨b, hb, by simp [ho], rfl⟩)
  simp only [Impl.freeBlockCount, Impl.evictEntry, freeBlocks, hcount]
  omega

theorem evictEntry_available {s : Impl} {pending : List Nat} (h : Ledger s pending) {key : Bytes}
    {e : PrefixEntry} (he : s.Cached key e) (hidle : s.prefixEntryIsIdle e = true)
    (visited : Bytes → Bool) (hv : visited key = true) :
    (s.evictEntry key e).available visited = s.available visited := by
  have htotal := OrderedMap.total_erase s.prefixCache
    (fun k e => if visited k && s.prefixEntryIsIdle e then e.blockIds.length else 0) key e he
  have hcongr := OrderedMap.total_congr (s.prefixCache.erase key)
    (fun k e' => if visited k && (s.evictEntry key e).prefixEntryIsIdle e'
      then e'.blockIds.length else 0)
    (fun k e' => if visited k && s.prefixEntryIsIdle e' then e'.blockIds.length else 0) (by
      intro k e' he'
      obtain ⟨hk, hold⟩ := (evictEntry_cached s key k e e').mp he'
      simp only [evictEntry_idle h he hold hk])
  simp only [hv, hidle, Bool.and_self, if_true] at htotal
  unfold Impl.available
  rw [evictEntry_free h he, htotal]
  have hcache : (s.evictEntry key e).prefixCache = s.prefixCache.erase key := rfl
  rw [hcache, hcongr]
  omega

structure EvictionOutcome (required : Int) (s t : Impl) : Prop where
  available : t.available everyKey = s.available everyKey
  enough : required ≤ t.freeBlockCount ↔ required ≤ s.available everyKey
  kept : ∀ key e, s.Cached key e →
    (t.Cached key e ↔ s.prefixEntryIsIdle e = false ∨ required ≤ s.available (before key))
  idle : ∀ key e, s.Cached key e → t.Cached key e →
    t.prefixEntryIsIdle e = s.prefixEntryIsIdle e
  ahead : ∀ key e, s.Cached key e → t.Cached key e → s.prefixEntryIsIdle e = true →
    t.available (before key) = s.available (before key)

theorem EvictionOutcome.stop {required : Int} {s : Impl} (h : required ≤ s.freeBlockCount) :
    EvictionOutcome required s s := by
  have hle := fun visited => h.trans (freeBlockCount_le_available s visited)
  exact ⟨rfl, by simp [h, hle], fun key e he => iff_of_true he (Or.inr (hle _)),
    fun _ _ _ _ => rfl, fun _ _ _ _ _ => rfl⟩

theorem EvictionOutcome.none_idle {required : Int} {s : Impl}
    (h : ∀ key e, s.Cached key e → s.prefixEntryIsIdle e = false) :
    EvictionOutcome required s s := by
  have hfree : s.available everyKey = s.freeBlockCount := by
    unfold Impl.available
    rw [OrderedMap.total_eq_zero]
    · simp
    · intro key e he
      simp [h key e he]
  exact ⟨rfl, by rw [hfree], fun key e he => iff_of_true he (Or.inl (h key e he)),
    fun _ _ _ _ => rfl, fun _ _ _ _ _ => rfl⟩

theorem before_of_lt {key k : Bytes} (h : compare k key = .lt) : before key k = true := by
  simp [before, h]

theorem available_before_first {s : Impl} {key : Bytes}
    (h : ∀ k e, s.Cached k e → s.prefixEntryIsIdle e = true → compare k key ≠ .lt) :
    s.available (before key) = s.freeBlockCount := by
  unfold Impl.available
  rw [OrderedMap.total_eq_zero]
  · simp
  · intro k e he
    by_cases hidle : s.prefixEntryIsIdle e = true
    · have hk := h k e he hidle
      simp [before, hk]
    · simp [hidle]

theorem evictLoop_outcome (required : Int) (entries : List (Bytes × PrefixEntry)) (s : Impl)
    {pending : List Nat} (h : Ledger s pending) (hc : ∀ p ∈ entries, s.Cached p.1 p.2)
    (hsorted : entries.Pairwise (fun p q => compare p.1 q.1 = .lt))
    (hahead : ∀ key e, s.Cached key e → s.prefixEntryIsIdle e = true → (key, e) ∈ entries) :
    EvictionOutcome required s (evictLoop required entries s) := by
  induction entries generalizing s with
  | nil =>
    refine EvictionOutcome.none_idle fun key e he => ?_
    by_contra hidle
    exact absurd (hahead key e he (by simpa using hidle)) (by simp)
  | cons p rest ih =>
    obtain ⟨k, ek⟩ := p
    obtain ⟨hfirst, hrest⟩ := List.pairwise_cons.mp hsorted
    have hck : s.Cached k ek := hc (k, ek) (by simp)
    have hne : ∀ p ∈ rest, k ≠ p.1 := by
      intro p hp heq
      have hlt := hfirst p hp
      rw [← heq] at hlt
      simp [ReflCmp.compare_self] at hlt
    rw [evictLoop]
    split_ifs with hfree hidle
    · -- the head is evicted; nothing idle lies before it
      have hahead' : ∀ key e, (s.evictEntry k ek).Cached key e →
          (s.evictEntry k ek).prefixEntryIsIdle e = true → (key, e) ∈ rest := by
        intro key e he hi
        obtain ⟨hk, hold⟩ := (evictEntry_cached s k key ek e).mp he
        rw [evictEntry_idle h hck hold hk] at hi
        rcases List.mem_cons.mp (hahead key e hold hi) with heq | hm
        · exact absurd (Prod.mk.inj heq).1.symm hk
        · exact hm
      have hout := ih (s.evictEntry k ek) (h.evictEntry hck hidle) (fun p hp =>
        (evictEntry_cached s k p.1 ek p.2).mpr ⟨hne p hp, hc p (List.mem_cons_of_mem _ hp)⟩)
        hrest hahead'
      have hav := fun visited => evictEntry_available h hck hidle visited
      have hgone : ∀ e, ¬ (evictLoop required rest (s.evictEntry k ek)).Cached k e := by
        intro e he
        have hl := evictLoop_induct
          (motive := fun t => Ledger t pending ∧ Frame (s.evictEntry k ek) t)
          (fun t key e ht he hi =>
            ⟨ht.1.evictEntry he hi, ht.2.trans (Frame.evictEntry ht.1 he hi)⟩)
          required rest _ ⟨h.evictEntry hck hidle, Frame.refl _⟩
          (fun p hp => (evictEntry_cached s k p.1 ek p.2).mpr
            ⟨hne p hp, hc p (List.mem_cons_of_mem _ hp)⟩)
          (hrest.imp fun {p q} hlt heq => by
            rw [heq] at hlt
            simp [ReflCmp.compare_self] at hlt)
        exact ((evictEntry_cached s k k ek e).mp (hl.2.cached k e he)).1 rfl
      have hbefore : ∀ key e, k ≠ key → s.Cached key e → s.prefixEntryIsIdle e = true →
          (s.evictEntry k ek).available (before key) = s.available (before key) := by
        intro key e hk he hi
        rcases List.mem_cons.mp (hahead key e he hi) with heq | hm
        · exact absurd (Prod.mk.inj heq).1.symm hk
        · exact hav _ (before_of_lt (hfirst (key, e) hm))
      refine ⟨hout.available.trans (hav _ rfl), ?_, ?_, ?_, ?_⟩
      · rw [hout.enough, hav _ rfl]
      · intro key e he
        by_cases hk : k = key
        · subst hk
          obtain rfl := Option.some.inj (hck.symm.trans he)
          have hfirst' : s.available (before k) = s.freeBlockCount := by
            refine available_before_first fun k' e' he' hi hlt => ?_
            rcases List.mem_cons.mp (hahead k' e' he' hi) with heq | hm
            · rw [(Prod.mk.inj heq).1] at hlt
              simp [ReflCmp.compare_self] at hlt
            · have hgt := hfirst (k', e') hm
              have := OrientedCmp.gt_of_lt hgt
              simp [this] at hlt
          simp only [hgone, hidle, hfirst', false_iff, not_or]
          exact ⟨by simp, by omega⟩
        · have he' := (evictEntry_cached s k key ek e).mpr ⟨hk, he⟩
          rw [hout.kept key e he', evictEntry_idle h hck he hk]
          by_cases hi : s.prefixEntryIsIdle e = true
          · rw [hbefore key e hk he hi]
          · simp [hi]
      · intro key e he ht
        have hk : k ≠ key := by
          rintro rfl
          exact hgone e ht
        rw [hout.idle key e ((evictEntry_cached s k key ek e).mpr ⟨hk, he⟩) ht,
          evictEntry_idle h hck he hk]
      · intro key e he ht hi
        have hk : k ≠ key := by
          rintro rfl
          exact hgone e ht
        have he' := (evictEntry_cached s k key ek e).mpr ⟨hk, he⟩
        rw [hout.ahead key e he' ht (by rw [evictEntry_idle h hck he hk]; exact hi),
          hbefore key e hk he hi]
    · refine ih s h (fun p hp => hc p (List.mem_cons_of_mem _ hp)) hrest ?_
      intro key e he hi
      rcases List.mem_cons.mp (hahead key e he hi) with heq | hm
      · rw [(Prod.mk.inj heq).2] at hi
        exact absurd hi hidle
      · exact hm
    · exact EvictionOutcome.stop (by omega)

theorem keys_lt (s : Impl) :
    s.prefixCache.toList.Pairwise (fun p q => compare p.1 q.1 = .lt) :=
  ExtTreeMap.ordered_keys_toList

theorem evictIdlePrefixesUntil_outcome {s : Impl} {pending : List Nat} (h : Ledger s pending)
    (required : Int) : EvictionOutcome required s (s.evictIdlePrefixesUntil required) :=
  evictLoop_outcome required _ s h (fun _ hp => cached_of_mem_toList hp) (keys_lt s)
    (fun _ _ he _ => OrderedMap.mem_toList.mpr he)

theorem ensureFreeBlocks_outcome {s : Impl} {pending : List Nat} (h : Ledger s pending)
    (blockCount : Int) :
    EvictionOutcome blockCount s (s.ensureFreeBlocks blockCount).2 := by
  unfold Impl.ensureFreeBlocks
  split_ifs with hle
  · exact EvictionOutcome.stop hle
  · exact evictIdlePrefixesUntil_outcome h blockCount

/-- Taking free blocks leaves the blocks of cached entries as they are. -/
theorem takeFree_idle {t : Impl} {pending : List Nat} (h : Ledger t pending) (key : Bytes)
    (count : Nat) {k : Bytes} {e : PrefixEntry} (he : t.Cached k e) :
    Impl.prefixEntryIsIdle { t with blocks := (takeFree key 0 count t.blocks).2 } e =
      t.prefixEntryIsIdle e := by
  obtain ⟨ha, -⟩ := takeFree_spec h key count
  refine idle_congr fun i hi => ?_
  rw [getElem?_takeFree, Nat.zero_add, if_neg]
  exact fun hmem => ha.fresh.entry k e he i hmem hi

theorem takeFree_available {t : Impl} {pending : List Nat} (h : Ledger t pending) (key : Bytes)
    (count : Nat) (hcount : (count : Int) ≤ t.freeBlockCount) (visited : Bytes → Bool) :
    Impl.available { t with blocks := (takeFree key 0 count t.blocks).2 } visited =
      t.available visited - count := by
  have hfree : Impl.freeBlockCount { t with blocks := (takeFree key 0 count t.blocks).2 } =
      t.freeBlockCount - count := by
    have hc := countP_takeFree key 0 count t.blocks
    simp only [Impl.freeBlockCount] at hcount ⊢
    omega
  unfold Impl.available
  rw [hfree, OrderedMap.total_congr t.prefixCache _
    (fun k e => if visited k && t.prefixEntryIsIdle e then e.blockIds.length else 0)]
  · omega
  · intro k e he
    rw [takeFree_idle h key count he]

structure AllocationOutcome (blockCount : Int) (s t : Impl) (ids : List Nat) : Prop where
  success : (ids.length : Int) = blockCount ↔ blockCount ≤ s.available everyKey
  rest : blockCount ≤ s.available everyKey →
    t.available everyKey = s.available everyKey - blockCount
  kept : ∀ key e, s.Cached key e →
    (t.Cached key e ↔ s.prefixEntryIsIdle e = false ∨ blockCount ≤ s.available (before key))
  idle : ∀ key e, s.Cached key e → t.Cached key e →
    t.prefixEntryIsIdle e = s.prefixEntryIsIdle e
  ahead : blockCount ≤ s.available everyKey → ∀ key e, s.Cached key e → t.Cached key e →
    s.prefixEntryIsIdle e = true →
    t.available (before key) = s.available (before key) - blockCount

theorem available_nonneg (s : Impl) (visited : Bytes → Bool) : 0 ≤ s.available visited :=
  (freeBlockCount_nonneg s).trans (freeBlockCount_le_available s visited)

theorem allocateBlocks_outcome {s : Impl} {pending : List Nat} (h : Ledger s pending)
    {blockCount : Int} (hcount : 0 ≤ blockCount) (key : Bytes) :
    AllocationOutcome blockCount s (s.allocateBlocks blockCount key).2
      (s.allocateBlocks blockCount key).1 := by
  obtain ⟨hl, -, henough⟩ := ensureFreeBlocks_spec h blockCount
  have hout := ensureFreeBlocks_outcome h blockCount
  by_cases hle : blockCount ≤ 0
  · obtain rfl : blockCount = 0 := by omega
    rw [show s.allocateBlocks 0 key = ([], s) from if_pos hle]
    have hpos := available_nonneg s
    exact ⟨iff_of_true rfl (hpos _), fun _ => (Int.sub_zero _).symm,
      fun k e he => iff_of_true he (Or.inr (hpos _)), fun _ _ _ _ => rfl,
      fun _ _ _ _ _ _ => (Int.sub_zero _).symm⟩
  set t := (s.ensureFreeBlocks blockCount).2 with ht
  by_cases hok : (s.ensureFreeBlocks blockCount).1 = true
  · have hfree := henough.mp hok
    have hav := hout.enough.mp hfree
    have hnat : (blockCount.toNat : Int) = blockCount := by omega
    rw [allocateBlocks_enough s blockCount key hle hok, ← ht]
    have htake := takeFree_available hl key blockCount.toNat (by omega)
    refine ⟨iff_of_true ?_ hav, fun _ => ?_, hout.kept, fun k e he hk => ?_,
      fun _ k e he hk hi => ?_⟩
    · simp only [length_takeFree_ids]
      simp only [Impl.freeBlockCount] at hfree
      omega
    · rw [← hout.available, ← hnat]
      exact htake everyKey
    · exact (takeFree_idle hl key _ hk).trans (hout.idle k e he hk)
    · rw [← hout.ahead k e he hk hi]
      exact (htake (before k)).trans (by rw [hnat])
  · have hfree := fun hf => hok (henough.mpr hf)
    have hav := fun ha => hfree (hout.enough.mpr ha)
    rw [allocateBlocks_short s blockCount key hle hok, ← ht]
    refine ⟨iff_of_false ?_ hav, fun ha => absurd ha hav, hout.kept, hout.idle,
      fun ha => absurd ha hav⟩
    simp only [List.length_nil]
    omega

end Laminar.Kv
