import Laminar.Kv.Sequences

/-! What the operations do to the shared prefixes: which blocks a new sequence shares, which
entries the cache gains, and that the blocks of a live sequence keep their tags. -/
namespace Laminar.Kv
open Laminar.ListUpdate

def KeepsTags (s t : Impl) : Prop :=
  ∀ id q i b, s.Live id q → i ∈ q.blockIds → s.BlockAt i b → b.cachedPrefixKey ≠ [] →
    ∃ b', t.BlockAt i b' ∧ b'.occupied = b.occupied ∧ b'.cachedPrefixKey = b.cachedPrefixKey

theorem KeepsTags.refl (s : Impl) : KeepsTags s s := fun _ _ _ b _ _ hb _ => ⟨b, hb, rfl, rfl⟩

theorem KeepsTags.tagged {s t : Impl} (h : KeepsTags s t) {id key : Bytes} {q : Sequence}
    (hq : s.Live id q) (hkey : key ≠ []) {ids : List Nat} (hids : ∀ i ∈ ids, i ∈ q.blockIds)
    (ht : Tagged s key ids) : Tagged t key ids := by
  intro i hi
  obtain ⟨b, hb, ho, hk⟩ := ht i hi
  obtain ⟨b', hb', ho', hk'⟩ := h id q i b hq (hids i hi) hb (hk ▸ hkey)
  exact ⟨b', hb', ho'.trans ho, hk'.trans hk⟩

theorem KeepsTags.congr {s t u : Impl} (h : KeepsTags s t) (hu : u.blocks = t.blocks) :
    KeepsTags s u := by
  intro id q i b hq hi hb hk
  obtain ⟨b', hb', htags⟩ := h id q i b hq hi hb hk
  exact ⟨b', by rw [Impl.BlockAt, hu]; exact hb', htags⟩

theorem Frame.keepsTags {s t : Impl} (hf : Frame s t) {pending : List Nat}
    (h : Ledger s pending) : KeepsTags s t := fun id q i b hq hi hb _ =>
  ⟨b, hf.referenced i b hb (h.referenced_pos hb (Or.inl ⟨id, q, hq, hi⟩)), rfl, rfl⟩

theorem appendTokens_keepsTags {s : Impl} (h : Ledger s []) (id : Bytes) (tokenCount : Int) :
    KeepsTags s (s.appendTokens id tokenCount).2 := by
  unfold Impl.appendTokens
  split
  · exact KeepsTags.refl s
  simp only
  split_ifs
  · exact KeepsTags.refl s
  · exact (allocateBlocks_spec h _ []).1.keepsTags h
  · exact ((allocateBlocks_spec h _ []).1.keepsTags h).congr rfl

theorem appendTokens_cached {s : Impl} (h : Ledger s []) (id : Bytes) (tokenCount : Int)
    {key : Bytes} {e : PrefixEntry} (he : (s.appendTokens id tokenCount).2.Cached key e) :
    s.Cached key e := by
  unfold Impl.appendTokens at he
  split at he
  · exact he
  simp only at he
  split_ifs at he
  · exact he
  · exact (allocateBlocks_spec h _ []).1.cached key e he
  · exact (allocateBlocks_spec h _ []).1.cached key e he

/-- New tokens leave the shared part of their sequence alone. -/
theorem appendTokens_shared {s : Impl} (h : Ledger s []) {id : Bytes} (tokenCount : Int)
    {q q' : Sequence} (hq : s.Live id q) (hq' : (s.appendTokens id tokenCount).2.Live id q') :
    q'.sharedPart = q.sharedPart := by
  have hsame : ∀ {t : Impl}, t.sequences = s.sequences → t.Live id q' →
      q'.sharedPart = q.sharedPart := by
    intro t ht hlive
    rw [Impl.Live, ht] at hlive
    rw [Option.some.inj (hlive.symm.trans hq)]
  simp only [Impl.appendTokens, show s.sequences[id]? = some q from hq] at hq'
  split_ifs at hq'
  · exact hsame rfl hq'
  · exact hsame (allocateBlocks_sequences s _ []) hq'
  · simp only [Impl.Live, OrderedMap.getElem?_insert, if_true, Option.some.injEq] at hq'
    rw [← hq']
    exact List.take_append_of_le_length (h.held id q hq).split

theorem appendTokens_live {s : Impl} (h : Ledger s []) (id : Bytes) (tokenCount : Int) {id' : Bytes}
    {q : Sequence} (hq : (s.appendTokens id tokenCount).2.Live id' q) :
    ∃ p, s.Live id' p ∧ q.sharedPart = p.sharedPart := by
  by_cases hid : id' = id
  · subst hid
    cases hs : s.sequences[id']? with
    | none =>
      simp only [Impl.appendTokens, hs] at hq
      exact absurd (hs.symm.trans hq) (by simp)
    | some p => exact ⟨p, hs, appendTokens_shared h tokenCount hs hq⟩
  · exact ⟨q, (exec_others s (.appendTokens id tokenCount) id' hid).symm.trans hq, rfl⟩

theorem releaseBlock_tag (b : Block) (h : b.cachedPrefixKey ≠ []) :
    (releaseBlock b).occupied = b.occupied ∧
      (releaseBlock b).cachedPrefixKey = b.cachedPrefixKey := by
  unfold releaseBlock
  simp only
  split_ifs with hpos hfree hfree
  · exact absurd hfree.2 h
  · exact ⟨rfl, rfl⟩
  · exact absurd hfree.2 h
  · exact ⟨rfl, rfl⟩

theorem KeepsTags.release {s t : Impl} (h : KeepsTags s t) (hl : Ledger t []) (id : Bytes) :
    KeepsTags s (t.releaseSequence id) := by
  unfold Impl.releaseSequence
  split
  · exact h
  rename_i q hq
  have hblock := fun i b => blockAt_modifyAll (s := t) releaseBlock (hl.held id q hq).nodup i b
  intro id' q' i b hq' hi hb hk
  obtain ⟨b', hb', ho, htag⟩ := h id' q' i b hq' hi hb hk
  by_cases hmem : i ∈ q.blockIds
  · obtain ⟨ho', htag'⟩ := releaseBlock_tag b' (htag ▸ hk)
    exact ⟨releaseBlock b', (hblock i _).mpr (by rw [if_pos hmem]; exact ⟨b', hb', rfl⟩),
      ho'.trans ho, htag'.trans htag⟩
  · exact ⟨b', (hblock i b').mpr (by rw [if_neg hmem]; exact hb'), ho, htag⟩

theorem releaseSequence_cached (s : Impl) (id : Bytes) {key : Bytes} {e : PrefixEntry}
    (he : (s.releaseSequence id).Cached key e) : s.Cached key e := by
  unfold Impl.releaseSequence at he
  split at he
  · exact he
  · exact he

theorem releaseSequence_live (s : Impl) (id : Bytes) {id' : Bytes} {q : Sequence}
    (hq : (s.releaseSequence id).Live id' q) : s.Live id' q := by
  rw [Impl.Live, releaseSequence_getElem?] at hq
  split_ifs at hq
  exact hq

theorem allocateShared_keepsTags {s : Impl} (h : Ledger s []) (id : Bytes) {key : Bytes}
    (sequence : Sequence) {e : PrefixEntry} (he : s.Cached key e) (suffixBlockCount : Int) :
    KeepsTags s (s.allocateShared id sequence e suffixBlockCount).2 := by
  have hn := (h.cached key e he).nodup
  have h1 := h.retain he
  have hretain := fun i b => blockAt_modifyAll (s := s) retainBlock hn i b
  have hf := (allocateBlocks_spec h1 suffixBlockCount []).1
  unfold Impl.allocateShared
  set s1 : Impl := { s with blocks := modifyAll retainBlock e.blockIds s.blocks }
  set r := s1.allocateBlocks suffixBlockCount []
  -- a block of a live sequence is retained, if at all, and then found as it was left
  have hkept : ∀ id q i b, s.Live id q → i ∈ q.blockIds → s.BlockAt i b →
      r.2.BlockAt i (if i ∈ e.blockIds then retainBlock b else b) := by
    intro id q i b hq hi hb
    have hmid : s1.BlockAt i (if i ∈ e.blockIds then retainBlock b else b) := by
      rw [Impl.BlockAt, hretain]
      split_ifs
      · exact ⟨b, hb, rfl⟩
      · exact hb
    exact hf.referenced i _ hmid (h1.referenced_pos hmid (Or.inl ⟨id, q, hq, hi⟩))
  have htags : KeepsTags s r.2 := by
    intro id q i b hq hi hb _
    refine ⟨_, hkept id q i b hq hi hb, ?_⟩
    split_ifs <;> exact ⟨rfl, rfl⟩
  simp only
  split_ifs
  · intro id q i b hq hi hb hk
    obtain ⟨b', hb', ho, htag⟩ := htags id q i b hq hi hb hk
    have hunretain := fun b => blockAt_modifyAll (s := r.2) unretainBlock hn i b
    by_cases hmem : i ∈ e.blockIds
    · exact ⟨unretainBlock b', (hunretain _).mpr (by rw [if_pos hmem]; exact ⟨b', hb', rfl⟩),
        ho, htag⟩
    · exact ⟨b', (hunretain _).mpr (by rw [if_neg hmem]; exact hb'), ho, htag⟩
  · exact htags.congr rfl

theorem allocateFresh_keepsTags {s : Impl} (h : Ledger s []) (id key : Bytes) (sequence : Sequence)
    (cacheable suffixBlockCount : Int) :
    KeepsTags s (s.allocateFresh id key sequence cacheable suffixBlockCount).2 := by
  obtain ⟨hf, hout⟩ := allocateBlocks_spec h sequence.prefixBlockCount key
  unfold Impl.allocateFresh
  set p := s.allocateBlocks sequence.prefixBlockCount key
  simp only
  by_cases hshort : (p.1.length : Int) ≠ sequence.prefixBlockCount
  · rw [if_pos hshort]
    exact hf.keepsTags h
  obtain ⟨hnil, hpos, -⟩ | ⟨-, ha⟩ := hout
  · rw [hnil, List.length_nil] at hshort
    omega
  have hf' := (allocateBlocks_spec ha.ledger suffixBlockCount []).1
  set r := p.2.allocateBlocks suffixBlockCount []
  have hkeeps := (hf.trans hf').keepsTags h
  rw [if_neg hshort]
  split_ifs
  · intro id q i b hq hi hb hk
    obtain ⟨b', hb', htags⟩ := hkeeps id q i b hq hi hb hk
    have hlive : p.2.Live id q := by
      rw [Impl.Live, hf.sequences]
      exact hq
    refine ⟨b', (blockAt_modifyAll (s := r.2) _ ha.nodup i b').mpr ?_, htags⟩
    rw [if_neg (fun hmem => ha.fresh.sequence id q hlive i hmem hi)]
    exact hb'
  · exact hkeeps.congr rfl
  · exact hkeeps.congr rfl

theorem allocatePrompt_keepsTags {s : Impl} (h : Ledger s []) (id : Bytes) (promptTokens : Int)
    (key : Bytes) (prefixTokens : Int) :
    KeepsTags s (s.allocatePrompt id promptTokens key prefixTokens).2 := by
  unfold Impl.allocatePrompt
  simp only
  split_ifs
  · exact KeepsTags.refl s
  · exact KeepsTags.refl s
  · split
    · rename_i e he
      exact allocateShared_keepsTags h id _ (cachedPrefix_some he).1 _
    · have hmiss := h.stats { s.stats with prefixCacheMisses := s.stats.prefixCacheMisses + 1 }
      exact allocateFresh_keepsTags hmiss id key _ _ _
  · exact allocateFresh_keepsTags h id key _ _ _

theorem allocateShared_admits {s : Impl} (h : Ledger s []) (id : Bytes) {key : Bytes}
    {sequence : Sequence} {e : PrefixEntry} (he : s.Cached key e)
    (hcount : sequence.prefixBlockCount.toNat = e.blockIds.length) {suffixBlockCount : Int}
    (hok : (s.allocateShared id sequence e suffixBlockCount).1.ok = true) :
    (s.allocateShared id sequence e suffixBlockCount).1.cacheHit = true ∧
      ∃ q, (s.allocateShared id sequence e suffixBlockCount).2.Live id q ∧
        q.sharedPart = e.blockIds ∧
        Tagged (s.allocateShared id sequence e suffixBlockCount).2 key q.sharedPart := by
  have h1 := h.retain he
  have hf := (allocateBlocks_spec h1 suffixBlockCount []).1
  have htag := hf.tagged h1 (fun i hi => hi) (h1.cached key e he).tagged
  unfold Impl.allocateShared at hok ⊢
  simp only at hok ⊢
  split_ifs at hok ⊢ with hshort
  · exact absurd hok Bool.false_ne_true
  refine ⟨rfl, _, (OrderedMap.getElem?_insert _ _ _ _).trans (if_pos rfl), ?_⟩
  have hshared : Sequence.sharedPart { sequence with blockIds := e.blockIds ++
      (Impl.allocateBlocks { s with blocks := modifyAll retainBlock e.blockIds s.blocks }
        suffixBlockCount []).1 } = e.blockIds := by
    rw [Sequence.sharedPart, hcount, List.take_left]
  exact ⟨hshared, by rw [hshared]; exact htag⟩

theorem allocateShared_cached {s : Impl} (h : Ledger s []) (id : Bytes) {key k : Bytes}
    (sequence : Sequence) {e e' : PrefixEntry} (he : s.Cached key e) (suffixBlockCount : Int)
    (he' : (s.allocateShared id sequence e suffixBlockCount).2.Cached k e') : s.Cached k e' := by
  have hf := (allocateBlocks_spec (h.retain he) suffixBlockCount []).1
  unfold Impl.allocateShared at he'
  simp only at he'
  split_ifs at he'
  · exact hf.cached k e' he'
  · exact hf.cached k e' he'

/-- A prompt that does not find its prefix in the cache has new blocks, and the cache an entry for
those of its prefix. -/
theorem allocateFresh_admits {s : Impl} (h : Ledger s []) (id : Bytes) {key : Bytes}
    {sequence : Sequence} {cacheable suffixBlockCount : Int}
    (hcount : sequence.prefixBlockCount = ceilDiv cacheable s.config.tokensPerBlock)
    (hkey : key = [] → cacheable = 0)
    (hok : (s.allocateFresh id key sequence cacheable suffixBlockCount).1.ok = true) :
    (s.allocateFresh id key sequence cacheable suffixBlockCount).1.cacheHit = false ∧
      ∃ q, (s.allocateFresh id key sequence cacheable suffixBlockCount).2.Live id q ∧
        (key = [] → q.sharedPart = []) ∧
        Tagged (s.allocateFresh id key sequence cacheable suffixBlockCount).2 key q.sharedPart ∧
        ∀ k e, (s.allocateFresh id key sequence cacheable suffixBlockCount).2.Cached k e →
          s.Cached k e ∨ (k = key ∧ key ≠ [] ∧ e = ⟨cacheable, q.sharedPart⟩) := by
  obtain ⟨hf, hout⟩ := allocateBlocks_spec h sequence.prefixBlockCount key
  unfold Impl.allocateFresh at hok ⊢
  set p := s.allocateBlocks sequence.prefixBlockCount key
  simp only at hok ⊢
  by_cases hshort : (p.1.length : Int) ≠ sequence.prefixBlockCount
  · rw [if_pos hshort] at hok
    exact absurd hok Bool.false_ne_true
  obtain ⟨hnil, hpos, -⟩ | ⟨hlen, ha⟩ := hout
  · rw [hnil, List.length_nil] at hshort
    omega
  have hl : Ledger p.2 p.1 := ha.ledger
  have hf' := (allocateBlocks_spec hl suffixBlockCount []).1
  set r := p.2.allocateBlocks suffixBlockCount []
  have htag : Tagged r.2 key p.1 := hf'.tagged hl (fun i hi => hi) ha.tagged
  have hshared : Sequence.sharedPart { sequence with blockIds := p.1 ++ r.1 } = p.1 := by
    rw [Sequence.sharedPart, ← hlen, List.take_left]
  have hback : ∀ k e, r.2.Cached k e → s.Cached k e :=
    fun k e he => hf.cached k e (hf'.cached k e he)
  rw [if_neg hshort] at hok ⊢
  by_cases hshort' : (r.1.length : Int) ≠ suffixBlockCount
  · rw [if_pos hshort'] at hok
    exact absurd hok Bool.false_ne_true
  rw [if_neg hshort']
  refine ⟨rfl, _, (OrderedMap.getElem?_insert _ _ _ _).trans (if_pos rfl), ?_, ?_, ?_⟩
  · intro hnil
    have hzero : sequence.prefixBlockCount = 0 := by rw [hcount, hkey hnil, ceilDiv, if_pos le_rfl]
    rw [hshared, ← List.length_eq_zero_iff, hlen, hzero]
    rfl
  · rw [hshared]
    exact htag
  · intro k e he
    by_cases hstore : key ≠ [] ∧ cacheable > 0
    · simp only [if_pos hstore, Impl.Cached, OrderedMap.getElem?_insert] at he
      split_ifs at he with hk
      · exact Or.inr ⟨hk.symm, hstore.1, by rw [hshared]; exact (Option.some.inj he).symm⟩
      · exact Or.inl (hback k e he)
    · simp only [if_neg hstore] at he
      exact Or.inl (hback k e he)

theorem allocateFresh_refused {s : Impl} (h : Ledger s []) (id key : Bytes) (sequence : Sequence)
    (cacheable suffixBlockCount : Int)
    (hok : (s.allocateFresh id key sequence cacheable suffixBlockCount).1.ok = false) {k : Bytes}
    {e : PrefixEntry}
    (he : (s.allocateFresh id key sequence cacheable suffixBlockCount).2.Cached k e) :
    s.Cached k e := by
  obtain ⟨hf, hout⟩ := allocateBlocks_spec h sequence.prefixBlockCount key
  unfold Impl.allocateFresh at hok he
  simp only at hok he
  by_cases hshort : ((s.allocateBlocks sequence.prefixBlockCount key).1.length : Int) ≠
      sequence.prefixBlockCount
  · rw [if_pos hshort] at he
    exact hf.cached k e he
  obtain ⟨hnil, hpos, -⟩ | ⟨-, ha⟩ := hout
  · rw [hnil, List.length_nil] at hshort
    omega
  have hf' := (allocateBlocks_spec ha.ledger suffixBlockCount []).1
  rw [if_neg hshort] at hok he
  split_ifs at hok he
  · exact hf.cached k e (hf'.cached k e he)
  · exact absurd hok.symm Bool.false_ne_true
  · exact absurd hok.symm Bool.false_ne_true

/-- How a prompt with prefix key `key` came by the prefix blocks of its sequence `q`: from the cache
entry of its key, or new, with an entry for the sequences to come. -/
def CameBy (s t : Impl) (key : Bytes) (cacheable : Int) (q : Sequence) (cacheHit : Bool) : Prop :=
  if cacheHit then
    key ≠ [] ∧ s.Cached key ⟨cacheable, q.sharedPart⟩ ∧ ∀ k e, t.Cached k e → s.Cached k e
  else ∀ k e, t.Cached k e →
    s.Cached k e ∨ (k = key ∧ key ≠ [] ∧ e = ⟨cacheable, q.sharedPart⟩)

theorem allocatePrompt_admits {s : Impl} (h : Ledger s []) (id : Bytes) (promptTokens : Int)
    (key : Bytes) (prefixTokens : Int)
    (hok : (s.allocatePrompt id promptTokens key prefixTokens).1.ok = true) :
    ∃ q, (s.allocatePrompt id promptTokens key prefixTokens).2.Live id q ∧
      (key = [] → q.sharedPart = []) ∧
      Tagged (s.allocatePrompt id promptTokens key prefixTokens).2 key q.sharedPart ∧
      CameBy s (s.allocatePrompt id promptTokens key prefixTokens).2 key
        (cacheableTokens (max 0 promptTokens) key prefixTokens) q
        (s.allocatePrompt id promptTokens key prefixTokens).1.cacheHit := by
  have hnil : key = [] → cacheableTokens (max 0 promptTokens) key prefixTokens = 0 := by
    rintro rfl
    exact cacheableTokens_nil _ _
  unfold Impl.allocatePrompt at hok ⊢
  simp only at hok ⊢
  split_ifs at hok ⊢ with hid hlive hkey
  · exact absurd hok Bool.false_ne_true
  · exact absurd hok Bool.false_ne_true
  · cases hcached : s.cachedPrefix key (cacheableTokens (max 0 promptTokens) key prefixTokens) with
    | some e =>
      simp only [hcached] at hok ⊢
      obtain ⟨he, htokens⟩ := cachedPrefix_some hcached
      have hlength := (h.cached key e he).length
      rw [htokens] at hlength
      obtain ⟨hhit, q, hq, hshared, htag⟩ := allocateShared_admits h id he
        (by simp only; omega) hok
      refine ⟨q, hq, fun hk => absurd hk hkey.1, htag, ?_⟩
      rw [CameBy, if_pos hhit, hshared, ← htokens]
      exact ⟨hkey.1, he, fun k e' he' => allocateShared_cached h id _ he _ he'⟩
    | none =>
      simp only [hcached] at hok ⊢
      have hmiss := h.stats { s.stats with prefixCacheMisses := s.stats.prefixCacheMisses + 1 }
      obtain ⟨hhit, q, hq, hempty, htag, hcame⟩ := allocateFresh_admits hmiss id rfl hnil hok
      refine ⟨q, hq, hempty, htag, ?_⟩
      rw [CameBy, if_neg (by rw [hhit]; exact Bool.false_ne_true)]
      exact hcame
  · obtain ⟨hhit, q, hq, hempty, htag, hcame⟩ := allocateFresh_admits h id rfl hnil hok
    refine ⟨q, hq, hempty, htag, ?_⟩
    rw [CameBy, if_neg (by rw [hhit]; exact Bool.false_ne_true)]
    exact hcame

/-- A prompt that is refused leaves no entry behind. -/
theorem allocatePrompt_refused_cached {s : Impl} (h : Ledger s []) (id : Bytes) (promptTokens : Int)
    (key : Bytes) (prefixTokens : Int)
    (hok : (s.allocatePrompt id promptTokens key prefixTokens).1.ok = false) {k : Bytes}
    {e : PrefixEntry}
    (he : (s.allocatePrompt id promptTokens key prefixTokens).2.Cached k e) : s.Cached k e := by
  unfold Impl.allocatePrompt at hok he
  simp only at hok he
  split_ifs at hok he with hid hlive hkey
  · exact he
  · exact he
  · cases hcached : s.cachedPrefix key (cacheableTokens (max 0 promptTokens) key prefixTokens) with
    | some e' =>
      simp only [hcached] at he
      exact allocateShared_cached h id _ (cachedPrefix_some hcached).1 _ he
    | none =>
      simp only [hcached] at hok he
      have hmiss := h.stats { s.stats with prefixCacheMisses := s.stats.prefixCacheMisses + 1 }
      exact allocateFresh_refused hmiss id key _ _ _ hok he
  · exact allocateFresh_refused h id key _ _ _ hok he

end Laminar.Kv
