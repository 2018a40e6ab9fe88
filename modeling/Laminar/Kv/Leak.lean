import Laminar.Kv.Eviction
import Laminar.Kv.Safety

/-! Who answers for an occupied block. A call that stores a prefix over an entry still
cached orphans the blocks of that entry; no other call loses a block. -/
namespace Laminar.Kv
open Std Laminar.ListUpdate

/-- Every occupied block is pending, belongs to a live sequence if it carries no tag, and to
the current entry of its tag if it carries one. -/
def Accounted (s : Impl) (pending : List Nat) : Prop :=
  ∀ i b, s.BlockAt i b → b.occupied = true → i ∈ pending ∨
    (b.cachedPrefixKey = [] ∧ ∃ id q, s.Live id q ∧ i ∈ q.blockIds) ∨
    ∃ e, s.Cached b.cachedPrefixKey e ∧ i ∈ e.blockIds

theorem accounted_new (config : KvCacheConfig) : Accounted (Impl.new config) [] := by
  intro i b hb ho
  have hmem : b ∈ (Impl.new config).blocks := List.mem_of_getElem? hb
  rw [List.eq_of_mem_replicate hmem] at ho
  simp at ho

/-- An update in place that neither occupies a block nor changes a tag. -/
theorem Accounted.modifyAll {s : Impl} {pending ids : List Nat} (h : Accounted s pending)
    (f : Block → Block) (hn : ids.Nodup)
    (hf : ∀ a, (f a).occupied = true →
      a.occupied = true ∧ (f a).cachedPrefixKey = a.cachedPrefixKey) :
    Accounted { s with blocks := ListUpdate.modifyAll f ids s.blocks } pending := by
  intro i b hb ho
  rw [Impl.BlockAt, blockAt_modifyAll _ hn] at hb
  split at hb
  · obtain ⟨a, ha, rfl⟩ := hb
    obtain ⟨hoa, htag⟩ := hf a ho
    rw [htag]
    exact h i a ha hoa
  · exact h i b hb ho

theorem Accounted.free {s : Impl} {ids : List Nat} (h : Accounted s ids) (hn : ids.Nodup) :
    Accounted { s with blocks := freeBlocks ids s.blocks } [] := by
  intro i b hb ho
  rw [Impl.BlockAt, freeBlocks, blockAt_modifyAll _ hn] at hb
  split at hb
  · obtain ⟨-, -, rfl⟩ := hb
    simp at ho
  · rename_i hi
    exact Or.inr ((h i b hb ho).resolve_left hi)

theorem Accounted.evictEntry {s : Impl} {pending pending' : List Nat} (h : Accounted s pending')
    (hl : Ledger s pending) {key : Bytes} {e : PrefixEntry} (he : s.Cached key e) :
    Accounted (s.evictEntry key e) pending' := by
  intro i b hb ho
  have hn := (hl.cached key e he).nodup
  rw [Impl.BlockAt, Impl.evictEntry, freeBlocks, blockAt_modifyAll _ hn] at hb
  split at hb
  · obtain ⟨-, -, rfl⟩ := hb
    simp at ho
  rename_i hi
  rcases h i b hb ho with hp | hq | ⟨e', he', hmem⟩
  · exact Or.inl hp
  · exact Or.inr (Or.inl hq)
  · refine Or.inr (Or.inr ⟨e', (evictEntry_cached s key _ e e').mpr ⟨?_, he'⟩, hmem⟩)
    rintro rfl
    obtain rfl := Option.some.inj (he.symm.trans he')
    exact hi hmem

theorem Accounted.takeFree {s : Impl} {pending : List Nat} (h : Accounted s pending) (key : Bytes)
    (count : Nat) :
    Accounted { s with blocks := (takeFree key 0 count s.blocks).2 }
      (pending ++ (Kv.takeFree key 0 count s.blocks).1) := by
  intro i b hb ho
  simp only [Impl.BlockAt, getElem?_takeFree, Nat.zero_add] at hb
  split at hb
  · exact Or.inl (List.mem_append_right _ ‹_›)
  · rcases h i b hb ho with hp | hrest
    · exact Or.inl (List.mem_append_left _ hp)
    · exact Or.inr hrest

theorem Accounted.ensureFreeBlocks {s : Impl} {pending pending' : List Nat}
    (h : Accounted s pending') (hl : Ledger s pending) (blockCount : Int) :
    Accounted (s.ensureFreeBlocks blockCount).2 pending' := by
  unfold Impl.ensureFreeBlocks
  split_ifs
  · exact h
  · have hloop := evictLoop_induct
      (motive := fun t => Ledger t pending ∧ Accounted t pending')
      (fun t key e ht he hi => ⟨ht.1.evictEntry he hi, ht.2.evictEntry ht.1 he⟩) blockCount _ s
      ⟨hl, h⟩ (fun p hp => cached_of_mem_toList hp) (keys_ne s)
    exact hloop.2

/-- The blocks that `AllocateBlocks` takes are pending; those it had accounted for still are. -/
theorem Accounted.allocateBlocks {s : Impl} {pending pending' : List Nat}
    (h : Accounted s pending') (hl : Ledger s pending) (blockCount : Int) (key : Bytes) :
    Accounted (s.allocateBlocks blockCount key).2
      (pending' ++ (s.allocateBlocks blockCount key).1) := by
  have hensure := h.ensureFreeBlocks hl blockCount
  by_cases hle : blockCount ≤ 0
  · rw [show s.allocateBlocks blockCount key = ([], s) from if_pos hle]
    simpa using h
  by_cases hok : (s.ensureFreeBlocks blockCount).1 = true
  · rw [allocateBlocks_enough s blockCount key hle hok]
    exact hensure.takeFree key blockCount.toNat
  · rw [allocateBlocks_short s blockCount key hle hok, List.append_nil]
    exact hensure

/-- Untagged pending blocks are settled by a sequence that lists them. -/
theorem Accounted.insertSequence {s : Impl} {ids : List Nat} (h : Accounted s ids)
    (ht : Tagged s [] ids) {id : Bytes} {q : Sequence} (hids : ∀ i ∈ ids, i ∈ q.blockIds)
    (hold : ∀ q', s.Live id q' → ∀ i ∈ q'.blockIds, i ∈ q.blockIds) :
    Accounted { s with sequences := s.sequences.insert id q } [] := by
  have hnew : ({ s with sequences := s.sequences.insert id q } : Impl).Live id q := by
    simp [Impl.Live]
  intro i b hb ho
  rcases h i b hb ho with hp | ⟨htag, id', q', hq', hi⟩ | he
  · obtain ⟨b', hb', -, htag⟩ := ht i hp
    obtain rfl := hb'.unique hb
    exact Or.inr (Or.inl ⟨htag, id, q, hnew, hids i hp⟩)
  · refine Or.inr (Or.inl ⟨htag, ?_⟩)
    by_cases hid : id = id'
    · subst hid
      exact ⟨id, q, hnew, hold q' hq' i hi⟩
    · exact ⟨id', q', by simpa [Impl.Live, OrderedMap.getElem?_insert, hid] using hq', hi⟩
  · exact Or.inr (Or.inr he)

/-- Pending blocks tagged with a key are settled by a first entry for that key. -/
theorem Accounted.insertPrefix {s : Impl} {ids rest : List Nat} (h : Accounted s (ids ++ rest))
    {key : Bytes} (ht : Tagged s key ids) (hnone : s.prefixCache[key]? = none) (tokenCount : Int) :
    Accounted { s with prefixCache := s.prefixCache.insert key ⟨tokenCount, ids⟩ } rest := by
  intro i b hb ho
  rcases h i b hb ho with hp | hq | ⟨e, he, hi⟩
  · rcases List.mem_append.mp hp with hi | hi
    · obtain ⟨b', hb', -, htag⟩ := ht i hi
      obtain rfl := hb'.unique hb
      refine Or.inr (Or.inr ⟨⟨tokenCount, ids⟩, ?_, hi⟩)
      simp [Impl.Cached, htag]
    · exact Or.inl hi
  · exact Or.inr (Or.inl hq)
  · refine Or.inr (Or.inr ⟨e, ?_, hi⟩)
    have hk : key ≠ b.cachedPrefixKey := by
      rintro rfl
      rw [Impl.Cached, hnone] at he
      simp at he
    rw [Impl.Cached, OrderedMap.getElem?_insert, if_neg hk]
    exact he

theorem Accounted.releaseSequence {s : Impl} (h : Accounted s []) (hl : Ledger s []) (id : Bytes) :
    Accounted (s.releaseSequence id) [] := by
  have hl' := hl.releaseSequence id
  revert hl'
  unfold Impl.releaseSequence
  split
  · exact fun _ => h
  rename_i q hq
  intro hl' i b hb ho
  have hold : ∃ a, s.BlockAt i a ∧ a.occupied = true ∧ a.cachedPrefixKey = b.cachedPrefixKey ∧
      (a.cachedPrefixKey = [] → 0 < a.refCount → b.refCount ≠ 0) := by
    rw [Impl.BlockAt, blockAt_modifyAll _ (hl.held id q hq).nodup] at hb
    split at hb
    · rename_i hi
      obtain ⟨a, ha, rfl⟩ := hb
      have hheld := releaseBlock_held a (hl.referenced_pos ha (Or.inl ⟨id, q, hq, hi⟩))
      refine ⟨a, ha, ?_⟩
      split_ifs at hheld with hfree
      · simp [hheld] at ho
      · rw [hheld] at ho ⊢
        exact ⟨ho, rfl, fun hnil _ h0 => hfree ⟨h0, hnil⟩⟩
    · exact ⟨b, hb, ho, rfl, fun _ hpos => by omega⟩
  obtain ⟨a, ha, hoa, htag, href⟩ := hold
  refine Or.inr ?_
  rw [← htag]
  rcases h i a ha hoa with hp | ⟨hnil, id', q', hq', hi⟩ | he
  · simp at hp
  · -- an untagged block that stays occupied still has a holder
    refine Or.inl ⟨hnil, ?_⟩
    have hpos := href hnil (hl.referenced_pos ha (Or.inl ⟨id', q', hq', hi⟩))
    by_contra hnone
    have hzero := (holders_eq_zero_iff _ i).mpr
      (fun id' q' hq' hi => hnone ⟨id', q', hq', hi⟩)
    have hrefs := hl'.refs i b hb
    rw [hzero] at hrefs
    exact hpos (by simpa using hrefs)
  · exact Or.inr he

theorem Accounted.allocateShared {s : Impl} (h : Accounted s []) (hl : Ledger s []) {id key : Bytes}
    {sequence : Sequence} {e : PrefixEntry} (he : s.Cached key e) (hid : s.sequences[id]? = none)
    {suffixBlockCount : Int} (hsuffix : 0 ≤ suffixBlockCount) :
    Accounted (s.allocateShared id sequence e suffixBlockCount).2 [] := by
  have hn := (hl.cached key e he).nodup
  have hl1 := hl.retain he
  have h1 := h.modifyAll retainBlock hn (fun a ho => ⟨ho, rfl⟩)
  set s1 : Impl := { s with blocks := ListUpdate.modifyAll retainBlock e.blockIds s.blocks }
  obtain ⟨hf, hout⟩ := allocateBlocks_spec hl1 suffixBlockCount []
  have h2 := h1.allocateBlocks hl1 suffixBlockCount []
  rw [List.nil_append] at h2
  unfold Impl.allocateShared
  rcases hout with ⟨hnil, hpos, -⟩ | ⟨hlen, ha⟩
  · rw [if_pos (by rw [hnil]; simp only [List.length_nil]; omega)]
    rw [hnil] at h2
    exact h2.modifyAll unretainBlock hn (fun a ho => ⟨ho, rfl⟩)
  · rw [if_neg (by rw [hlen]; simp only [not_not]; omega)]
    refine h2.insertSequence ha.tagged (fun i hi => List.mem_append_right _ hi) ?_
    intro q' hq'
    rw [Impl.Live, hf.sequences, show s1.sequences = s.sequences from rfl, hid] at hq'
    simp at hq'

/-- The prefix blocks are settled by the new entry unless it replaces one still cached. -/
theorem Accounted.allocateFresh {s : Impl} (h : Accounted s []) (hl : Ledger s []) {id key : Bytes}
    {sequence : Sequence} (hid : s.sequences[id]? = none) {cacheable suffixBlockCount : Int}
    (hcount : sequence.prefixBlockCount = ceilDiv cacheable s.config.tokensPerBlock)
    (hkey : key = [] → cacheable = 0) (hsuffix : 0 ≤ suffixBlockCount)
    (hnone : 0 < cacheable →
      sequence.prefixBlockCount + suffixBlockCount ≤ s.available everyKey → ∀ e, ¬
      ((s.allocateBlocks sequence.prefixBlockCount key).2.allocateBlocks
        suffixBlockCount []).2.Cached key e) :
    Accounted (s.allocateFresh id key sequence cacheable suffixBlockCount).2 [] := by
  have hpre : 0 ≤ sequence.prefixBlockCount := by
    rw [hcount]
    exact ceilDiv_nonneg _ _ hl.tokens
  obtain ⟨hf, hout⟩ := allocateBlocks_spec hl sequence.prefixBlockCount key
  have hfirst := allocateBlocks_outcome hl hpre key
  have h1 := h.allocateBlocks hl sequence.prefixBlockCount key
  rw [List.nil_append] at h1
  unfold Impl.allocateFresh
  set p := s.allocateBlocks sequence.prefixBlockCount key
  rcases hout with ⟨hnil, hpos, -⟩ | ⟨hlen, ha⟩
  · rw [if_pos (by rw [hnil]; simp only [List.length_nil]; omega)]
    rw [hnil] at h1
    exact h1
  rw [if_neg (by rw [hlen]; simp only [not_not]; omega)]
  have hl1 : Ledger p.2 p.1 := ha.ledger
  obtain ⟨hf', hout'⟩ := allocateBlocks_spec hl1 suffixBlockCount []
  have hsecond := allocateBlocks_outcome hl1 hsuffix []
  have h2 := h1.allocateBlocks hl1 suffixBlockCount []
  set r := p.2.allocateBlocks suffixBlockCount []
  rcases hout' with ⟨hnil, hpos, -⟩ | ⟨hlen', ha'⟩
  · rw [if_pos (by rw [hnil]; simp only [List.length_nil]; omega)]
    rw [hnil, List.append_nil] at h2
    exact h2.free ha.nodup
  rw [if_neg (by rw [hlen']; simp only [not_not]; omega)]
  have hnew : ∀ q', r.2.Live id q' → ∀ i ∈ q'.blockIds, i ∈ p.1 ++ r.1 := by
    intro q' hq'
    rw [Impl.Live, hf'.sequences, hf.sequences, hid] at hq'
    simp at hq'
  have hmem : ∀ i ∈ r.1, i ∈ p.1 ++ r.1 := fun i hi => List.mem_append_right _ hi
  by_cases hstore : key ≠ [] ∧ cacheable > 0
  · simp only [if_pos hstore]
    have hfit := hfirst.success.mp (by rw [hlen]; omega)
    have hrest := hfirst.rest hfit
    have hfit' := hsecond.success.mp (by rw [hlen']; omega)
    have hgone : r.2.prefixCache[key]? = none := by
      have hno := hnone hstore.2 (by omega)
      cases hc : r.2.prefixCache[key]? with
      | none => rfl
      | some e => exact absurd hc (hno e)
    have htag : Tagged r.2 key p.1 := hf'.tagged hl1 (fun i hi => hi) ha.tagged
    have h3 := h2.insertPrefix htag hgone cacheable
    exact h3.insertSequence (q := { sequence with blockIds := p.1 ++ r.1 })
      (ha'.tagged.transfer (fun i _ b hb => ⟨b, hb, rfl, rfl⟩)) hmem hnew
  · simp only [if_neg hstore]
    have hzero : cacheable ≤ 0 := by
      by_contra hpos
      refine hstore ⟨?_, by omega⟩
      intro hk
      have := hkey hk
      omega
    have hnil : p.1 = [] := by
      have hc : sequence.prefixBlockCount = 0 := by
        rw [hcount, ceilDiv, if_pos hzero]
      rw [hc] at hlen
      exact List.length_eq_zero_iff.mp hlen
    rw [hnil, List.nil_append] at h2
    exact h2.insertSequence (q := { sequence with blockIds := p.1 ++ r.1 }) ha'.tagged hmem hnew

theorem Accounted.appendTokens {s : Impl} (h : Accounted s []) (hl : Ledger s []) (id : Bytes)
    (tokenCount : Int) : Accounted (s.appendTokens id tokenCount).2 [] := by
  unfold Impl.appendTokens
  split
  · exact h
  rename_i q hq
  split
  · exact h
  simp only
  set count := ceilDiv (q.generatedTokens + tokenCount) s.config.tokensPerBlock -
    ceilDiv q.generatedTokens s.config.tokensPerBlock
  have h1 := h.allocateBlocks hl count []
  rw [List.nil_append] at h1
  obtain ⟨hf, hout⟩ := allocateBlocks_spec hl count []
  have hnonneg : 0 ≤ count := by
    have hm := ceilDiv_mono q.generatedTokens (q.generatedTokens + tokenCount)
      s.config.tokensPerBlock hl.tokens (by omega)
    omega
  rcases hout with ⟨hnil, hpos, -⟩ | ⟨hlen, ha⟩
  · rw [if_pos (by rw [hnil]; simp only [List.length_nil]; omega)]
    rw [hnil] at h1
    exact h1
  · rw [if_neg (by rw [hlen]; simp only [not_not]; omega)]
    refine h1.insertSequence ha.tagged (fun i hi => List.mem_append_right _ hi) ?_
    intro q' hq' i hi
    rw [Impl.Live, hf.sequences, hq] at hq'
    obtain rfl := Option.some.inj hq'
    exact List.mem_append_left _ hi

/-- Both phases of an allocation succeed, and an entry survives both, as a single request for
all the blocks would decide. -/
theorem allocateTwice_outcome {s : Impl} (hl : Ledger s []) {prefixBlocks suffixBlocks : Int}
    (hpre : 0 ≤ prefixBlocks) (hsuffix : 0 ≤ suffixBlocks) (key : Bytes)
    (hfit : prefixBlocks + suffixBlocks ≤ s.available everyKey) :
    ((s.allocateBlocks prefixBlocks key).1.length : Int) = prefixBlocks ∧
      (((s.allocateBlocks prefixBlocks key).2.allocateBlocks suffixBlocks []).1.length : Int) =
        suffixBlocks ∧
      ∀ k e, ((s.allocateBlocks prefixBlocks key).2.allocateBlocks suffixBlocks []).2.Cached k e ↔
        s.Cached k e ∧
          (s.prefixEntryIsIdle e = false ∨
            prefixBlocks + suffixBlocks ≤ s.available (before k)) := by
  have hfirst := allocateBlocks_outcome hl hpre key
  obtain ⟨hf, hout⟩ := allocateBlocks_spec hl prefixBlocks key
  have hfit1 : prefixBlocks ≤ s.available everyKey := by omega
  have hlen := hfirst.success.mpr hfit1
  set p := s.allocateBlocks prefixBlocks key
  have hl1 : Ledger p.2 p.1 := by
    rcases hout with ⟨hnil, hpos, -⟩ | ⟨-, ha⟩
    · rw [hnil] at hlen
      simp only [List.length_nil] at hlen
      omega
    · exact ha.ledger
  have hsecond := allocateBlocks_outcome hl1 hsuffix []
  obtain ⟨hf', -⟩ := allocateBlocks_spec hl1 suffixBlocks []
  have hrest := hfirst.rest hfit1
  refine ⟨hlen, hsecond.success.mpr (by omega), fun k e => ?_⟩
  set r := p.2.allocateBlocks suffixBlocks []
  have hback : r.2.Cached k e → p.2.Cached k e ∧ s.Cached k e :=
    fun he => ⟨hf'.cached k e he, hf.cached k e (hf'.cached k e he)⟩
  by_cases hs : s.Cached k e
  · by_cases hp : p.2.Cached k e
    · rw [hsecond.kept k e hp, hfirst.idle k e hs hp, and_iff_right hs]
      by_cases hi : s.prefixEntryIsIdle e = true
      · have hahead := hfirst.ahead hfit1 k e hs hp hi
        simp only [hi, Bool.true_eq_false, false_or]
        omega
      · simp [hi]
    · have hgone := (hfirst.kept k e hs).not.mp hp
      refine iff_of_false (fun he => hp (hback he).1) ?_
      rintro ⟨-, hi | hav⟩
      · exact hgone (Or.inl hi)
      · exact hgone (Or.inr (by omega))
  · exact iff_of_false (fun he => hs (hback he).2) (fun he => hs he.1)

def Impl.promptBlocks (s : Impl) (promptTokens cacheable : Int) : Int :=
  ceilDiv cacheable s.config.tokensPerBlock +
    ceilDiv (promptTokens - cacheable) s.config.tokensPerBlock

/-- The call is an `AllocatePrompt` that goes through while the cache holds an entry for its key
with another token count, and the eviction it needs stops short of that entry. -/
def Impl.OverwritesPrefix (s : Impl) : Call → Prop
  | .allocatePrompt id promptTokens key prefixTokens =>
    let promptTokens := max 0 promptTokens
    let cacheable := cacheableTokens promptTokens key prefixTokens
    id ≠ [] ∧ s.sequences[id]? = none ∧ 0 < cacheable ∧
      s.promptBlocks promptTokens cacheable ≤ s.available everyKey ∧
      ∃ e, s.Cached key e ∧ e.tokenCount ≠ cacheable ∧
        (s.prefixEntryIsIdle e = false ∨
          s.promptBlocks promptTokens cacheable ≤ s.available (before key))
  | .appendTokens _ _ => False
  | .releaseSequence _ => False

theorem Accounted.allocatePrompt {s : Impl} (h : Accounted s []) (hl : Ledger s []) (id : Bytes)
    (promptTokens : Int) (key : Bytes) (prefixTokens : Int)
    (hno : ¬ s.OverwritesPrefix (.allocatePrompt id promptTokens key prefixTokens)) :
    Accounted (s.allocatePrompt id promptTokens key prefixTokens).2 [] := by
  revert hno
  unfold Impl.allocatePrompt
  split
  · exact fun _ => h
  split
  · exact fun _ => h
  rename_i hidne hlive
  have hid : s.sequences[id]? = none := by simpa using hlive
  have hnonneg := fun v => ceilDiv_nonneg v _ hl.tokens
  simp only [Impl.OverwritesPrefix]
  set prompt := max 0 promptTokens
  set cacheable := cacheableTokens prompt key prefixTokens
  intro hno
  have hkey : key = [] → cacheable = 0 := by
    rintro rfl
    exact cacheableTokens_nil _ _
  split
  · rename_i hcond
    split
    · rename_i e he
      exact h.allocateShared hl (cachedPrefix_some he).1 hid (hnonneg _)
    · rename_i hmiss
      set t : Impl := { s with stats := { s.stats with
        prefixCacheMisses := s.stats.prefixCacheMisses + 1 } }
      have hlt : Ledger t [] := hl.stats _
      refine Accounted.allocateFresh (s := t) h hlt hid rfl hkey (hnonneg _) ?_
      intro hpos hfit e he
      obtain ⟨hc, hsurvive⟩ :=
        ((allocateTwice_outcome hlt (hnonneg _) (hnonneg _) key hfit).2.2 key e).mp he
      refine hno ⟨hidne, hid, hpos, hfit, e, hc, ?_, hsurvive⟩
      intro htok
      have hhit : s.prefixCache[key]? = some e := hc
      simp [Impl.cachedPrefix, hhit, htok] at hmiss
  · rename_i hcond
    refine h.allocateFresh hl hid rfl hkey (hnonneg _) ?_
    intro hpos
    exact absurd ⟨fun hk => by have := hkey hk; omega, hpos⟩ hcond

theorem Accounted.exec {s : Impl} (h : Accounted s []) (hl : Ledger s []) (call : Call)
    (hno : ¬ s.OverwritesPrefix call) : Accounted (s.exec call) [] := by
  cases call with
  | allocatePrompt id promptTokens key prefixTokens =>
    exact h.allocatePrompt hl id promptTokens key prefixTokens hno
  | appendTokens id tokenCount => exact h.appendTokens hl id tokenCount
  | releaseSequence id => exact h.releaseSequence hl id

theorem ceilDiv_pos (value divisor : Int) (h : 0 < divisor) (hv : 0 < value) :
    0 < ceilDiv value divisor := by
  rw [ceilDiv, if_neg (by omega), Int.tdiv_eq_ediv_of_nonneg (by omega)]
  have hone : 1 ≤ (value + divisor - 1) / divisor := (Int.le_ediv_iff_mul_le h).mpr (by omega)
  omega

theorem CachedAs.exists_block {s : Impl} {key : Bytes} {e : PrefixEntry} (h : CachedAs s key e)
    (htokens : 0 < s.config.tokensPerBlock) : ∃ i, i ∈ e.blockIds := by
  refine List.exists_mem_of_length_pos ?_
  have hlength := h.length
  have hceil := ceilDiv_pos e.tokenCount _ htokens h.positive
  omega

def Orphan (s : Impl) (i : Nat) : Prop :=
  ∃ b, s.BlockAt i b ∧ b.occupied = true ∧ b.cachedPrefixKey ≠ [] ∧
    ∀ key e, s.Cached key e → i ∉ e.blockIds

theorem accounted_foldl (calls : List Call) (s : Impl) (h : Accounted s []) (hl : Ledger s [])
    (hno : ∀ n (hn : n < calls.length),
      ¬ ((calls.take n).foldl Impl.exec s).OverwritesPrefix calls[n]) :
    Accounted (calls.foldl Impl.exec s) [] := by
  induction calls generalizing s with
  | nil => exact h
  | cons call calls ih =>
    refine ih _ (h.exec hl call (hno 0 (by simp))) (hl.exec call) ?_
    intro n hn
    exact hno (n + 1) (by simpa using hn)

/-- Storing a prefix over an entry that is still cached orphans the blocks of that entry. -/
theorem allocateFresh_orphans {s : Impl} (hl : Ledger s []) (id : Bytes) {key : Bytes}
    {sequence : Sequence} {cacheable suffixBlockCount : Int} (hpos : 0 < cacheable)
    (hpre : 0 ≤ sequence.prefixBlockCount) (hsuffix : 0 ≤ suffixBlockCount)
    (hfit : sequence.prefixBlockCount + suffixBlockCount ≤ s.available everyKey)
    {e : PrefixEntry} (he : s.Cached key e)
    (hsurvive : s.prefixEntryIsIdle e = false ∨
      sequence.prefixBlockCount + suffixBlockCount ≤ s.available (before key)) :
    ∃ i, Orphan (s.allocateFresh id key sequence cacheable suffixBlockCount).2 i := by
  have hc := hl.cached key e he
  obtain ⟨hlen, hlen', hkept⟩ := allocateTwice_outcome hl hpre hsuffix key hfit
  obtain ⟨hf, hout⟩ := allocateBlocks_spec hl sequence.prefixBlockCount key
  unfold Impl.allocateFresh
  set p := s.allocateBlocks sequence.prefixBlockCount key
  have hstill := (hkept key e).mpr ⟨he, hsurvive⟩
  have ha : Allocated p.2 [] p.1 key := by
    rcases hout with ⟨hnil, hlt, -⟩ | ⟨-, ha⟩
    · rw [hnil] at hlen
      simp only [List.length_nil] at hlen
      omega
    · exact ha
  have hl1 : Ledger p.2 p.1 := ha.ledger
  obtain ⟨hf', hout'⟩ := allocateBlocks_spec hl1 suffixBlockCount []
  set r := p.2.allocateBlocks suffixBlockCount []
  have hl2 : ∃ pending, Ledger r.2 pending := by
    rcases hout' with ⟨-, -, hl2⟩ | ⟨-, ha'⟩
    · exact ⟨_, hl2⟩
    · exact ⟨_, ha'.ledger⟩
  obtain ⟨pending, hl2⟩ := hl2
  have hentry := hl2.cached key e hstill
  obtain ⟨i, hi⟩ := hentry.exists_block hl2.tokens
  obtain ⟨b, hb, ho, htag⟩ := hentry.tagged i hi
  rw [if_neg (not_not.mpr hlen), if_neg (not_not.mpr hlen')]
  simp only [if_pos (And.intro hc.key_ne hpos)]
  refine ⟨i, b, hb, ho, by rw [htag]; exact hc.key_ne, ?_⟩
  intro k e' he' hi'
  simp only [Impl.Cached, OrderedMap.getElem?_insert] at he'
  split at he'
  · obtain rfl := Option.some.inj he'
    exact ha.fresh.entry key e (hf'.cached key e hstill) i hi' hi
  · exact hl2.entries_disjoint hstill he' ‹_› i hi hi'

theorem overwrite_orphans {s : Impl} (hl : Ledger s []) {call : Call}
    (h : s.OverwritesPrefix call) : ∃ i, Orphan (s.exec call) i := by
  cases call with
  | appendTokens id tokenCount => exact h.elim
  | releaseSequence id => exact h.elim
  | allocatePrompt id promptTokens key prefixTokens =>
    obtain ⟨hidne, hid, hpos, hfit, e, he, htok, hsurvive⟩ := h
    have hnonneg := fun v => ceilDiv_nonneg v _ hl.tokens
    have hlive : id ∉ s.sequences := by simpa using hid
    have hhit : s.prefixCache[key]? = some e := he
    have hmiss : s.cachedPrefix key (cacheableTokens (max 0 promptTokens) key prefixTokens) =
        none := by
      simp [Impl.cachedPrefix, hhit, htok]
    have hstore := And.intro (hl.cached key e he).key_ne hpos
    simp only [Impl.exec, Impl.allocatePrompt, if_neg hidne, ExtTreeMap.contains_iff_mem,
      if_neg hlive,
      if_pos hstore, hmiss]
    exact allocateFresh_orphans
      (hl.stats { s.stats with prefixCacheMisses := s.stats.prefixCacheMisses + 1 }) id hpos
      (hnonneg _) (hnonneg _) hfit he hsurvive

/-- Releasing a sequence frees no tagged block and changes no entry. -/
theorem Orphan.releaseSequence {s : Impl} {i : Nat} (h : Orphan s i) (hl : Ledger s [])
    (id : Bytes) : Orphan (s.releaseSequence id) i := by
  obtain ⟨b, hb, ho, htag, hout⟩ := h
  unfold Impl.releaseSequence
  split
  · exact ⟨b, hb, ho, htag, hout⟩
  rename_i q hq
  have hblock := fun b' =>
    blockAt_modifyAll (s := s) releaseBlock (hl.held id q hq).nodup i b'
  by_cases hi : i ∈ q.blockIds
  · have hpos := hl.referenced_pos hb (Or.inl ⟨id, q, hq, hi⟩)
    obtain ⟨ho', htag'⟩ := releaseBlock_kept b hpos (Or.inr htag)
    exact ⟨releaseBlock b, (hblock _).mpr (by rw [if_pos hi]; exact ⟨b, hb, rfl⟩),
      ho'.trans ho, by rw [htag']; exact htag, hout⟩
  · exact ⟨b, (hblock b).mpr (by rw [if_neg hi]; exact hb), ho, htag, hout⟩

theorem releaseSequence_sequences (s : Impl) (id id' : Bytes) :
    (s.releaseSequence id).sequences[id']? = if id = id' then none else s.sequences[id']? := by
  unfold Impl.releaseSequence
  split
  · rename_i hnone
    split_ifs with hid
    · rw [← hid, hnone]
    · rfl
  · exact OrderedMap.getElem?_erase _ _ _

/-- Releasing every sequence keeps an orphan and leaves no live sequence. -/
theorem Orphan.releaseAll {i : Nat} (ids : List Bytes) (s : Impl) (h : Orphan s i)
    (hl : Ledger s []) (hids : ∀ id q, s.Live id q → id ∈ ids) :
    Orphan ((ids.map Call.releaseSequence).foldl Impl.exec s) i ∧
      ((ids.map Call.releaseSequence).foldl Impl.exec s).sequences = ∅ := by
  induction ids generalizing s with
  | nil =>
    refine ⟨h, ExtTreeMap.ext_getElem? fun id => ?_⟩
    cases hq : s.sequences[id]? with
    | none => simp [hq]
    | some q => exact absurd (hids id q hq) (by simp)
  | cons id ids ih =>
    refine ih _ (h.releaseSequence hl id) (hl.releaseSequence id) ?_
    intro id' q hq
    rw [Impl.Live, Impl.exec, releaseSequence_sequences] at hq
    split at hq
    · simp at hq
    · rename_i hne
      exact (List.mem_cons.mp (hids id' q hq)).resolve_left (Ne.symm hne)

structure NoLeak (s : Impl) : Prop where
  owned : ∀ i b, s.BlockAt i b → b.occupied = true →
    (∃ id q, s.Live id q ∧ i ∈ q.blockIds) ∨ ∃ key e, s.Cached key e ∧ i ∈ e.blockIds
  used : s.sequences = ∅ →
    s.snapshotStats.usedBlocks = OrderedMap.total s.prefixCache (fun _ e => e.blockIds.length)

theorem usedBlockCount_eq (s : Impl) :
    s.usedBlockCount = s.blocks.countP (fun b => b.occupied) := by
  have hsplit := List.length_eq_countP_add_countP (fun b : Block => b.occupied) (l := s.blocks)
  simp only [Bool.not_eq_true] at hsplit
  simp only [Impl.usedBlockCount, Impl.freeBlockCount]
  have hfree : s.blocks.countP (fun b => !b.occupied) =
      s.blocks.countP (fun b => decide (b.occupied = false)) :=
    List.countP_congr (fun b _ => by simp)
  omega

theorem Accounted.noLeak {s : Impl} (h : Accounted s []) (hl : Ledger s []) : NoLeak s := by
  refine ⟨?_, fun hempty => ?_⟩
  · intro i b hb ho
    rcases h i b hb ho with hp | ⟨-, hq⟩ | ⟨e, he, hi⟩
    · simp at hp
    · exact Or.inl hq
    · exact Or.inr ⟨_, e, he, hi⟩
  · show s.usedBlockCount = _
    rw [usedBlockCount_eq, ← OrderedMap.length_flatMap s.prefixCache PrefixEntry.blockIds]
    refine congrArg _ (countP_eq_length _ _ _ ?_ fun i => ?_)
    · exact OrderedMap.nodup_flatMap _ _ (fun key e he => (hl.cached key e he).nodup)
        (fun key key' e e' he he' hk => hl.entries_disjoint he he' hk)
    · rw [OrderedMap.mem_flatMap]
      refine ⟨?_, ?_⟩
      · rintro ⟨key, e, he, hi⟩
        obtain ⟨b, hb, ho, -⟩ := (hl.cached key e he).tagged i hi
        exact ⟨b, hb, ho⟩
      · rintro ⟨b, hb, ho⟩
        rcases h i b hb ho with hp | ⟨-, id, q, hq, -⟩ | ⟨e, he, hi⟩
        · simp at hp
        · rw [Impl.Live, hempty] at hq
          simp at hq
        · exact ⟨_, e, he, hi⟩

theorem Orphan.leaks {s : Impl} {i : Nat} (h : Orphan s i) (hempty : s.sequences = ∅) :
    ¬ NoLeak s := by
  obtain ⟨b, hb, ho, -, hout⟩ := h
  intro hno
  rcases hno.owned i b hb ho with ⟨id, q, hq, -⟩ | ⟨key, e, he, hi⟩
  · rw [Impl.Live, hempty] at hq
    simp at hq
  · exact hout key e he hi

/-- Blocks never leak along a history, nor once sequences are released at any point of it,
exactly when no call of the history stores a prefix over an entry that is still cached. -/
theorem never_leaks_iff (config : KvCacheConfig) (calls : List Call) :
    (∀ n (ids : List Bytes),
      NoLeak (runCalls config (calls.take n ++ ids.map Call.releaseSequence))) ↔
      ∀ n (hn : n < calls.length),
        ¬ (runCalls config (calls.take n)).OverwritesPrefix calls[n] := by
  refine ⟨fun h n hn hover => ?_, fun h n ids => ?_⟩
  · have hstep : runCalls config (calls.take (n + 1)) =
        (runCalls config (calls.take n)).exec calls[n] := by
      rw [List.take_succ_eq_append_getElem hn, runCalls, List.foldl_append]
      rfl
    obtain ⟨i, hi⟩ := overwrite_orphans (ledger_run config _) hover
    rw [← hstep] at hi
    set s := runCalls config (calls.take (n + 1)) with hs
    obtain ⟨horphan, hempty⟩ := hi.releaseAll s.sequences.keys s (ledger_run config _) (by
      intro id q hq
      have hmem : id ∈ s.sequences := by
        rw [ExtTreeMap.mem_iff_isSome_getElem?, hq]
        rfl
      simpa using hmem)
    have hno := h (n + 1) s.sequences.keys
    rw [runCalls, List.foldl_append, ← runCalls, ← hs] at hno
    exact horphan.leaks hempty hno
  · have hreach :
        Accounted (runCalls config (calls.take n ++ ids.map Call.releaseSequence)) [] := by
      refine accounted_foldl _ _ (accounted_new config) (ledger_new config) ?_
      intro m hm hover
      by_cases hlt : m < (calls.take n).length
      · rw [List.length_take] at hlt
        rw [List.getElem_append_left (by simpa using hlt), List.getElem_take,
          List.take_append_of_le_length (by simp; omega), List.take_take,
          min_eq_left (by omega)] at hover
        exact h m (by omega) hover
      · rw [List.getElem_append_right (by omega), List.getElem_map] at hover
        exact hover
    exact hreach.noLeak (ledger_run config _)

/-- A prompt of one block is cached and released, then a longer one under the same key. -/
def regrownPrefix : List Call :=
  [.allocatePrompt [97] 4 [107] (-1), .releaseSequence [97],
    .allocatePrompt [98] 8 [107] (-1), .releaseSequence [98]]

/-- Three blocks stay in use, two of them in the cache. -/
theorem regrownPrefix_leaks : ¬ NoLeak (runCalls ⟨3, 4⟩ regrownPrefix) := by
  intro h
  have hempty : (runCalls ⟨3, 4⟩ regrownPrefix).sequences.isEmpty = true := by decide
  have hused := h.used (ExtTreeMap.isEmpty_iff.mp hempty)
  exact absurd hused (by decide)

end Laminar.Kv
