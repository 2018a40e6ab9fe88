import Laminar.Kv.LedgerSteps

/-! The allocator's three operations keep the ledger, on every path through them. -/
namespace Laminar.Kv
open Std Laminar.ListUpdate

theorem Ledger.modifyAll {s : Impl} {pending pending' ids : List Nat} (h : Ledger s pending)
    (f : Block → Block) (hn : ids.Nodup)
    (hblank : ∀ i ∈ ids, ∀ a, s.BlockAt i a → (f a).occupied = false → f a = {})
    (hrefs : ∀ i ∈ ids, ∀ a, s.BlockAt i a → (f a).refCount = s.holders i + pending'.count i)
    (hout : ∀ i, i ∉ ids → pending'.count i = pending.count i)
    (hkeep : ∀ i ∈ ids, (∃ id q, s.Live id q ∧ i ∈ q.blockIds) ∨
        (∃ key e, s.Cached key e ∧ i ∈ e.blockIds) →
      ∀ a, s.BlockAt i a → (f a).occupied = a.occupied ∧
        (f a).cachedPrefixKey = a.cachedPrefixKey) :
    Ledger { s with blocks := ListUpdate.modifyAll f ids s.blocks } pending' := by
  refine h.transfer rfl (fun _ _ hq => hq) (fun _ _ he => he) ?_ ?_ ?_
  · intro i b hb ho
    rw [Impl.BlockAt, blockAt_modifyAll _ hn] at hb
    split at hb
    · rename_i hi
      obtain ⟨a, ha, rfl⟩ := hb
      exact hblank i hi a ha ho
    · exact h.blank i b hb ho
  · intro i b hb
    rw [Impl.BlockAt, blockAt_modifyAll _ hn] at hb
    split at hb
    · rename_i hi
      obtain ⟨a, ha, rfl⟩ := hb
      exact hrefs i hi a ha
    · rename_i hi
      rw [h.refs i b hb, hout i hi]
      rfl
  · intro i huse b hb
    by_cases hi : i ∈ ids
    · exact ⟨f b, (blockAt_modifyAll _ hn i _).mpr (by rw [if_pos hi]; exact ⟨b, hb, rfl⟩),
        hkeep i hi huse b hb⟩
    · exact ⟨b, (blockAt_modifyAll _ hn i _).mpr (by rw [if_neg hi]; exact hb), rfl, rfl⟩

theorem Ledger.retain {s : Impl} (h : Ledger s []) {key : Bytes} {e : PrefixEntry}
    (he : s.Cached key e) :
    Ledger { s with blocks := ListUpdate.modifyAll retainBlock e.blockIds s.blocks }
      e.blockIds := by
  have hn := (h.cached key e he).nodup
  refine h.modifyAll retainBlock hn ?_ ?_ ?_ (fun _ _ _ _ _ => ⟨rfl, rfl⟩)
  · intro i hi a ha ho
    obtain ⟨a', ha', ho', -⟩ := (h.cached key e he).tagged i hi
    obtain rfl := ha.unique ha'
    simp [retainBlock, ho'] at ho
  · intro i hi a ha
    have hr := h.refs i a ha
    rw [List.count_eq_one_of_mem hn hi]
    simp only [retainBlock, hr, List.count_nil]
    omega
  · intro i hi
    simp [List.count_eq_zero.mpr hi]

theorem Ledger.unretain {s : Impl} {ids : List Nat} (h : Ledger s ids) (hn : ids.Nodup) :
    Ledger { s with blocks := ListUpdate.modifyAll unretainBlock ids s.blocks } [] := by
  refine h.modifyAll unretainBlock hn ?_ ?_ ?_ (fun _ _ _ _ _ => ⟨rfl, rfl⟩)
  · intro i hi a ha ho
    have hpos := h.referenced_pos ha (Or.inr hi)
    have hblank := h.blank i a ha ho
    simp [hblank] at hpos
  · intro i hi a ha
    have hr := h.refs i a ha
    rw [List.count_eq_one_of_mem hn hi] at hr
    simp only [unretainBlock, hr, List.count_nil]
    omega
  · intro i hi
    simp [List.count_eq_zero.mpr hi]

theorem Ledger.free {s : Impl} {ids : List Nat} (h : Ledger s ids) (hn : ids.Nodup)
    (hf : Fresh s ids) : Ledger { s with blocks := freeBlocks ids s.blocks } [] := by
  refine h.modifyAll _ hn (fun _ _ _ _ _ => rfl) ?_ ?_ ?_
  · intro i hi a _
    have hz : s.holders i = 0 :=
      (holders_eq_zero_iff s i).mpr (fun id q hq => hf.sequence id q hq i hi)
    simp [hz]
  · intro i hi
    simp [List.count_eq_zero.mpr hi]
  · rintro i hmem (⟨id, q, hq, hi⟩ | ⟨k, e, he, hi⟩)
    · exact absurd hi (hf.sequence id q hq i hmem)
    · exact absurd hi (hf.entry k e he i hmem)

/-- Storing a prefix whose blocks are occupied and tagged with its key. -/
theorem Ledger.insertPrefix {s : Impl} {pending : List Nat} (h : Ledger s pending) {key : Bytes}
    {e : PrefixEntry} (he : CachedAs s key e) :
    Ledger { s with prefixCache := s.prefixCache.insert key e } pending := by
  refine ⟨h.tokens, h.blank, h.refs, fun id q hq => ?_, h.apart, fun k e' he' => ?_⟩
  · exact (h.held id q hq).transfer (fun i _ b hb => ⟨b, hb, rfl, rfl⟩)
  · simp only [Impl.Cached, OrderedMap.getElem?_insert] at he'
    split at he'
    · rename_i hk
      obtain rfl := Option.some.inj he'
      subst hk
      exact he.transfer rfl (fun i _ b hb => ⟨b, hb, rfl, rfl⟩)
    · exact (h.cached k e' he').transfer rfl (fun i _ b hb => ⟨b, hb, rfl, rfl⟩)

theorem mem_count_decide (i : Nat) (ids : List Nat) (hn : ids.Nodup) :
    ids.count i = if i ∈ ids then 1 else 0 := by
  split_ifs with hi
  · exact List.count_eq_one_of_mem hn hi
  · exact List.count_eq_zero.mpr hi

/-- The pending blocks become the block list of a new live sequence. -/
theorem Ledger.insertSequence {s : Impl} {q : Sequence} (h : Ledger s q.blockIds) {id : Bytes}
    (hid : s.sequences[id]? = none) (hq : HeldBy s q) (hf : Fresh s q.privatePart) :
    Ledger { s with sequences := s.sequences.insert id q } [] := by
  have hlive : ∀ id' q', ({ s with sequences := s.sequences.insert id q } : Impl).Live id' q' →
      (id' = id ∧ q' = q) ∨ s.Live id' q' := by
    intro id' q' hq'
    simp only [Impl.Live, OrderedMap.getElem?_insert] at hq'
    split at hq'
    · rename_i hk
      exact Or.inl ⟨hk.symm, (Option.some.inj hq').symm⟩
    · exact Or.inr hq'
  have hold : ∀ id' q', s.Live id' q' → ∀ i ∈ q'.privatePart, i ∉ q.blockIds := by
    intro id' q' hq' i hi hmem
    rcases (q.mem_blockIds i).mp hmem with hs | hp
    · obtain ⟨key, hk, ht⟩ := hq.shared
      obtain ⟨b, hb, -, htag⟩ := ht i hs
      obtain ⟨b', hb', -, htag'⟩ := (h.held id' q' hq').owned i hi
      obtain rfl := hb.unique hb'
      exact hk (htag.symm.trans htag')
    · exact hf.sequence id' q' hq' i hp ((q'.mem_blockIds i).mpr (Or.inr hi))
  have hsame : ∀ r : Sequence, HeldBy s r →
      HeldBy { s with sequences := s.sequences.insert id q } r :=
    fun r hr => hr.transfer (fun i _ b hb => ⟨b, hb, rfl, rfl⟩)
  refine ⟨h.tokens, h.blank, ?_, ?_, ?_, fun k e he =>
    (h.cached k e he).transfer rfl (fun i _ b hb => ⟨b, hb, rfl, rfl⟩)⟩
  · intro i b hb
    rw [h.refs i b hb, mem_count_decide i _ hq.nodup]
    simp only [Impl.holders, OrderedMap.count_insert _ _ id q hid, decide_eq_true_eq]
    split_ifs <;> simp
  · intro id' q' hq'
    rcases hlive id' q' hq' with ⟨rfl, rfl⟩ | hq'
    · exact hsame _ hq
    · exact hsame _ (h.held id' q' hq')
  · intro id₁ id₂ q₁ q₂ h₁ h₂ hne i hi
    rcases hlive id₁ q₁ h₁ with ⟨e₁, e₁'⟩ | k₁ <;> rcases hlive id₂ q₂ h₂ with ⟨e₂, e₂'⟩ | k₂
    · exact absurd (e₁.trans e₂.symm) hne
    · rw [e₁'] at hi
      exact hf.sequence id₂ q₂ k₂ i hi
    · rw [e₂']
      exact hold id₁ q₁ k₁ i hi
    · exact h.apart id₁ id₂ q₁ q₂ k₁ k₂ hne i hi

def Sequence.extend (q : Sequence) (generated : Int) (ids : List Nat) : Sequence :=
  { q with generatedTokens := generated, blockIds := q.blockIds ++ ids }

theorem HeldBy.extend {s : Impl} {q : Sequence} (h : HeldBy s q) (generated : Int) {ids : List Nat}
    (hn : ids.Nodup) (ht : Tagged s [] ids) (hd : ∀ i ∈ ids, i ∉ q.blockIds) :
    HeldBy s (q.extend generated ids) ∧
      (q.extend generated ids).privatePart = q.privatePart ++ ids := by
  have hs : (q.extend generated ids).sharedPart = q.sharedPart :=
    List.take_append_of_le_length h.split
  have hp : (q.extend generated ids).privatePart = q.privatePart ++ ids :=
    List.drop_append_of_le_length h.split
  refine ⟨⟨?_, ?_, by rw [hs]; exact h.shared, by rw [hp]; exact h.owned.append ht⟩, hp⟩
  · have hlen : (q.extend generated ids).blockIds.length = q.blockIds.length + ids.length :=
      List.length_append
    have hsplit := h.split
    simp only [hlen]
    exact Nat.le_add_right_of_le hsplit
  · exact List.nodup_append.mpr ⟨h.nodup, hn, fun a ha b hb hab => hd b hb (hab ▸ ha)⟩

theorem Ledger.extendSequence {s : Impl} {ids : List Nat} (h : Ledger s ids) {id : Bytes}
    {q : Sequence} (hq : s.Live id q) (generated : Int) (hn : ids.Nodup) (ht : Tagged s [] ids)
    (hf : Fresh s ids) :
    Ledger { s with sequences := s.sequences.insert id (q.extend generated ids) } [] := by
  have hd : ∀ i ∈ ids, i ∉ q.blockIds := fun i hi => hf.sequence id q hq i hi
  obtain ⟨hheld, hpriv⟩ := (h.held id q hq).extend generated hn ht hd
  have hmem : ∀ i, i ∈ (q.extend generated ids).blockIds ↔ i ∈ q.blockIds ∨ i ∈ ids :=
    fun i => List.mem_append
  have hlive : ∀ id' q', ({ s with
      sequences := s.sequences.insert id (q.extend generated ids) } : Impl).Live id' q' →
      (id' = id ∧ q' = q.extend generated ids) ∨ (id' ≠ id ∧ s.Live id' q') := by
    intro id' q' hq'
    simp only [Impl.Live, OrderedMap.getElem?_insert] at hq'
    split at hq'
    · rename_i hk
      exact Or.inl ⟨hk.symm, (Option.some.inj hq').symm⟩
    · rename_i hk
      exact Or.inr ⟨Ne.symm hk, hq'⟩
  have hsame : ∀ r : Sequence, HeldBy s r →
      HeldBy { s with sequences := s.sequences.insert id (q.extend generated ids) } r :=
    fun r hr => hr.transfer (fun i _ b hb => ⟨b, hb, rfl, rfl⟩)
  refine ⟨h.tokens, h.blank, ?_, ?_, ?_, fun k e he =>
    (h.cached k e he).transfer rfl (fun i _ b hb => ⟨b, hb, rfl, rfl⟩)⟩
  · intro i b hb
    have hc := OrderedMap.count_replace s.sequences (fun r => decide (i ∈ r.blockIds)) id q
      (q.extend generated ids) hq
    rw [h.refs i b hb, mem_count_decide i _ hn]
    simp only [Impl.holders, List.count_nil, decide_eq_true_eq, hmem] at hc ⊢
    by_cases hi : i ∈ ids
    · simp only [hi, hd i hi, or_true, if_true, if_false] at hc ⊢
      omega
    · simp only [hi, or_false, if_false] at hc ⊢
      omega
  · intro id' q' hq'
    rcases hlive id' q' hq' with ⟨rfl, rfl⟩ | ⟨-, hq'⟩
    · exact hsame _ hheld
    · exact hsame _ (h.held id' q' hq')
  · intro id₁ id₂ q₁ q₂ h₁ h₂ hne i hi
    rcases hlive id₁ q₁ h₁ with ⟨e₁, e₁'⟩ | ⟨-, k₁⟩ <;>
      rcases hlive id₂ q₂ h₂ with ⟨e₂, e₂'⟩ | ⟨-, k₂⟩
    · exact absurd (e₁.trans e₂.symm) hne
    · rw [e₁', hpriv, List.mem_append] at hi
      rcases hi with hi | hi
      · exact h.apart id id₂ q q₂ hq k₂ (e₁ ▸ hne) i hi
      · exact hf.sequence id₂ q₂ k₂ i hi
    · rw [e₂', hmem]
      rintro (hi' | hi')
      · exact h.apart id₁ id q₁ q k₁ hq (e₂ ▸ hne) i hi hi'
      · exact hf.sequence id₁ q₁ k₁ i hi' ((q₁.mem_blockIds i).mpr (Or.inr hi))
    · exact h.apart id₁ id₂ q₁ q₂ k₁ k₂ hne i hi

theorem releaseBlock_held (b : Block) (h : 0 < b.refCount) :
    releaseBlock b = if b.refCount - 1 = 0 ∧ b.cachedPrefixKey = [] then {}
      else { b with refCount := b.refCount - 1 } := by
  simp [releaseBlock, h]

theorem releaseBlock_refCount (b : Block) (h : 0 < b.refCount) :
    (releaseBlock b).refCount = b.refCount - 1 := by
  rw [releaseBlock_held b h]
  split_ifs with hfree
  · exact hfree.1.symm
  · rfl

/-- A block is freed only with its last reference and only without a tag. -/
theorem releaseBlock_kept (b : Block) (h : 0 < b.refCount)
    (hkeep : 1 < b.refCount ∨ b.cachedPrefixKey ≠ []) :
    (releaseBlock b).occupied = b.occupied ∧
      (releaseBlock b).cachedPrefixKey = b.cachedPrefixKey := by
  rw [releaseBlock_held b h, if_neg]
  · exact ⟨rfl, rfl⟩
  rintro ⟨h0, hk⟩
  rcases hkeep with hkeep | hkeep
  · omega
  · exact hkeep hk

theorem releaseBlock_blank (b : Block) (h : 0 < b.refCount) (ho : b.occupied = true)
    (hb : (releaseBlock b).occupied = false) : releaseBlock b = {} := by
  rw [releaseBlock_held b h] at hb ⊢
  split_ifs at hb ⊢
  · rfl
  · simp [ho] at hb

theorem Ledger.releaseSequence {s : Impl} (h : Ledger s []) (id : Bytes) :
    Ledger (s.releaseSequence id) [] := by
  unfold Impl.releaseSequence
  split
  · exact h
  rename_i q hq
  have hn := (h.held id q hq).nodup
  set t : Impl := { s with
    blocks := ListUpdate.modifyAll releaseBlock q.blockIds s.blocks
    sequences := s.sequences.erase id } with ht
  have hlive : ∀ id' q', t.Live id' q' → id' ≠ id ∧ s.Live id' q' := by
    intro id' q' hq'
    simp only [Impl.Live, ht, OrderedMap.getElem?_erase] at hq'
    split at hq'
    · simp at hq'
    · rename_i hk
      exact ⟨Ne.symm hk, hq'⟩
  have hblock : ∀ i b, t.BlockAt i b ↔
      if i ∈ q.blockIds then ∃ a, s.BlockAt i a ∧ releaseBlock a = b else s.BlockAt i b :=
    fun i b => blockAt_modifyAll _ hn i b
  have hcount : ∀ i, s.holders i = t.holders i + if i ∈ q.blockIds then 1 else 0 := by
    intro i
    have hc := OrderedMap.count_erase s.sequences (fun r => decide (i ∈ r.blockIds)) id q hq
    simpa [Impl.holders] using hc
  refine h.transfer rfl (fun id' q' hq' => (hlive id' q' hq').2) (fun _ _ he => he) ?_ ?_ ?_
  · intro i b hb ho
    rw [hblock] at hb
    split at hb
    · rename_i hi
      obtain ⟨a, ha, rfl⟩ := hb
      obtain ⟨a', ha', ho'⟩ := (h.held id q hq).occupied i hi
      obtain rfl := ha.unique ha'
      exact releaseBlock_blank a (h.referenced_pos ha (Or.inl ⟨id, q, hq, hi⟩)) ho' ho
    · exact h.blank i b hb ho
  · intro i b hb
    have hc := hcount i
    rw [hblock] at hb
    split at hb
    · rename_i hi
      obtain ⟨a, ha, rfl⟩ := hb
      have hr := h.refs i a ha
      rw [if_pos hi] at hc
      rw [releaseBlock_refCount a (h.referenced_pos ha (Or.inl ⟨id, q, hq, hi⟩)), hr]
      simp only [List.count_nil]
      omega
    · rename_i hi
      rw [if_neg hi] at hc
      rw [h.refs i b hb, hc]
      rfl
  · intro i huse b hb
    by_cases hi : i ∈ q.blockIds
    · refine ⟨releaseBlock b, (hblock i _).mpr (by rw [if_pos hi]; exact ⟨b, hb, rfl⟩), ?_⟩
      apply releaseBlock_kept b (h.referenced_pos hb (Or.inl ⟨id, q, hq, hi⟩))
      rcases huse with ⟨id', q', hq', hi'⟩ | ⟨k, e, he, hi'⟩
      · have hpos : t.holders i ≠ 0 := fun hz => (holders_eq_zero_iff t i).mp hz id' q' hq' hi'
        have hc := hcount i
        rw [if_pos hi] at hc
        have hr := h.refs i b hb
        simp only [List.count_nil] at hr
        exact Or.inl (by omega)
      · have hk : s.Cached k e := he
        obtain ⟨b', hb', -, htag⟩ := (h.cached k e hk).tagged i hi'
        obtain rfl := hb.unique hb'
        exact Or.inr (by rw [htag]; exact (h.cached k e hk).key_ne)
    · exact ⟨b, (hblock i _).mpr (by rw [if_neg hi]; exact hb), rfl, rfl⟩

end Laminar.Kv
