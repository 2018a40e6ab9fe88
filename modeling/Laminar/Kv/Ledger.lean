import Laminar.Kv.Allocator

/-! The ownership ledger behind the allocator's reference counts. Half-built sequences
appear as a list of pending blocks, so the invariant also holds in the middle of a call. -/
namespace Laminar.Kv
open Std Laminar.ListUpdate

abbrev Impl.Live (s : Impl) (id : Bytes) (q : Sequence) : Prop :=
  s.sequences[id]? = some q

abbrev Impl.Cached (s : Impl) (key : Bytes) (e : PrefixEntry) : Prop :=
  s.prefixCache[key]? = some e

abbrev Impl.BlockAt (s : Impl) (i : Nat) (b : Block) : Prop := s.blocks[i]? = some b

theorem Impl.BlockAt.unique {s : Impl} {i : Nat} {b b' : Block} (h : s.BlockAt i b)
    (h' : s.BlockAt i b') : b = b' := Option.some.inj (h.symm.trans h')

def Impl.holders (s : Impl) (i : Nat) : Nat :=
  OrderedMap.count s.sequences (fun q => decide (i ∈ q.blockIds))

def Tagged (s : Impl) (key : Bytes) (ids : List Nat) : Prop :=
  ∀ i ∈ ids, ∃ b, s.BlockAt i b ∧ b.occupied = true ∧ b.cachedPrefixKey = key

def Sequence.sharedPart (q : Sequence) : List Nat := q.blockIds.take q.prefixBlockCount.toNat

def Sequence.privatePart (q : Sequence) : List Nat := q.blockIds.drop q.prefixBlockCount.toNat

structure HeldBy (s : Impl) (q : Sequence) : Prop where
  split : q.prefixBlockCount.toNat ≤ q.blockIds.length
  nodup : q.blockIds.Nodup
  shared : ∃ key, key ≠ [] ∧ Tagged s key q.sharedPart
  owned : Tagged s [] q.privatePart

structure CachedAs (s : Impl) (key : Bytes) (e : PrefixEntry) : Prop where
  key_ne : key ≠ []
  positive : 0 < e.tokenCount
  length : (e.blockIds.length : Int) = ceilDiv e.tokenCount s.config.tokensPerBlock
  nodup : e.blockIds.Nodup
  tagged : Tagged s key e.blockIds

structure Fresh (s : Impl) (ids : List Nat) : Prop where
  sequence : ∀ id q, s.Live id q → ∀ i ∈ ids, i ∉ q.blockIds
  entry : ∀ key e, s.Cached key e → ∀ i ∈ ids, i ∉ e.blockIds

/-- The allocator's invariant, with the blocks `pending` held by an unfinished call. -/
structure Ledger (s : Impl) (pending : List Nat) : Prop where
  tokens : 0 < s.config.tokensPerBlock
  blank : ∀ i b, s.BlockAt i b → b.occupied = false → b = {}
  refs : ∀ i b, s.BlockAt i b → b.refCount = s.holders i + pending.count i
  held : ∀ id q, s.Live id q → HeldBy s q
  apart : ∀ id id' q q', s.Live id q → s.Live id' q' → id ≠ id' →
    ∀ i ∈ q.privatePart, i ∉ q'.blockIds
  cached : ∀ key e, s.Cached key e → CachedAs s key e

theorem Tagged.append {s : Impl} {key : Bytes} {ids ids' : List Nat}
    (h : Tagged s key ids) (h' : Tagged s key ids') : Tagged s key (ids ++ ids') := by
  intro i hi
  rcases List.mem_append.mp hi with hi | hi
  · exact h i hi
  · exact h' i hi

theorem Tagged.transfer {s t : Impl} {key : Bytes} {ids : List Nat} (h : Tagged s key ids)
    (hst : ∀ i ∈ ids, ∀ b, s.BlockAt i b →
      ∃ b', t.BlockAt i b' ∧ b'.occupied = b.occupied ∧
        b'.cachedPrefixKey = b.cachedPrefixKey) :
    Tagged t key ids := by
  intro i hi
  obtain ⟨b, hb, ho, hk⟩ := h i hi
  obtain ⟨b', hb', ho', hk'⟩ := hst i hi b hb
  exact ⟨b', hb', ho'.trans ho, hk'.trans hk⟩

theorem Sequence.shared_append_private (q : Sequence) :
    q.sharedPart ++ q.privatePart = q.blockIds := List.take_append_drop _ _

theorem Sequence.mem_blockIds (q : Sequence) (i : Nat) :
    i ∈ q.blockIds ↔ i ∈ q.sharedPart ∨ i ∈ q.privatePart := by
  rw [← List.mem_append, q.shared_append_private]

theorem HeldBy.occupied {s : Impl} {q : Sequence} (h : HeldBy s q) (i : Nat)
    (hi : i ∈ q.blockIds) : ∃ b, s.BlockAt i b ∧ b.occupied = true := by
  obtain ⟨key, -, hs⟩ := h.shared
  rcases (q.mem_blockIds i).mp hi with hi | hi
  · obtain ⟨b, hb, ho, -⟩ := hs i hi
    exact ⟨b, hb, ho⟩
  · obtain ⟨b, hb, ho, -⟩ := h.owned i hi
    exact ⟨b, hb, ho⟩

theorem HeldBy.transfer {s t : Impl} {q : Sequence} (h : HeldBy s q)
    (hst : ∀ i ∈ q.blockIds, ∀ b, s.BlockAt i b →
      ∃ b', t.BlockAt i b' ∧ b'.occupied = b.occupied ∧
        b'.cachedPrefixKey = b.cachedPrefixKey) :
    HeldBy t q := by
  obtain ⟨key, hk, hs⟩ := h.shared
  refine ⟨h.split, h.nodup, ⟨key, hk, hs.transfer ?_⟩, h.owned.transfer ?_⟩
  · exact fun i hi => hst i ((q.mem_blockIds i).mpr (Or.inl hi))
  · exact fun i hi => hst i ((q.mem_blockIds i).mpr (Or.inr hi))

theorem CachedAs.transfer {s t : Impl} {key : Bytes} {e : PrefixEntry} (h : CachedAs s key e)
    (hc : t.config = s.config)
    (hst : ∀ i ∈ e.blockIds, ∀ b, s.BlockAt i b →
      ∃ b', t.BlockAt i b' ∧ b'.occupied = b.occupied ∧
        b'.cachedPrefixKey = b.cachedPrefixKey) :
    CachedAs t key e :=
  ⟨h.key_ne, h.positive, by rw [hc]; exact h.length, h.nodup, h.tagged.transfer hst⟩

theorem holders_eq_zero_iff (s : Impl) (i : Nat) :
    s.holders i = 0 ↔ ∀ id q, s.Live id q → i ∉ q.blockIds := by
  simp [Impl.holders, OrderedMap.count_eq_zero_iff]

/-- A block without references belongs to no live sequence and is not pending. -/
theorem Ledger.unreferenced {s : Impl} {pending : List Nat} (h : Ledger s pending) {i : Nat}
    {b : Block} (hb : s.BlockAt i b) (h0 : b.refCount = 0) :
    (∀ id q, s.Live id q → i ∉ q.blockIds) ∧ i ∉ pending := by
  have hr := h.refs i b hb
  have hz : s.holders i = 0 := by omega
  have hp : pending.count i = 0 := by omega
  exact ⟨(holders_eq_zero_iff s i).mp hz, List.count_eq_zero.mp hp⟩

theorem Ledger.free_unreferenced {s : Impl} {pending : List Nat} (h : Ledger s pending) {i : Nat}
    {b : Block} (hb : s.BlockAt i b) (hf : b.occupied = false) :
    b.refCount = 0 ∧ ∀ key e, s.Cached key e → i ∉ e.blockIds := by
  have hblank := h.blank i b hb hf
  refine ⟨by simp [hblank], ?_⟩
  intro key e he hi
  obtain ⟨b', hb', ho, -⟩ := (h.cached key e he).tagged i hi
  obtain rfl := hb.unique hb'
  simp [hf] at ho

theorem Ledger.referenced_pos {s : Impl} {pending : List Nat} (h : Ledger s pending) {i : Nat}
    {b : Block} (hb : s.BlockAt i b)
    (hi : (∃ id q, s.Live id q ∧ i ∈ q.blockIds) ∨ i ∈ pending) :
    0 < b.refCount := by
  have hr := h.refs i b hb
  rcases hi with ⟨id, q, hq, hi⟩ | hi
  · have hpos : s.holders i ≠ 0 := by
      intro hz
      exact (holders_eq_zero_iff s i).mp hz id q hq hi
    omega
  · have hpos : 0 < pending.count i := List.count_pos_iff.mpr hi
    omega

/-- Two cached prefixes share no block: a block carries one tag. -/
theorem Ledger.entries_disjoint {s : Impl} {pending : List Nat} (h : Ledger s pending)
    {key key' : Bytes} {e e' : PrefixEntry} (he : s.Cached key e)
    (he' : s.Cached key' e') (hk : key ≠ key') (i : Nat)
    (hi : i ∈ e.blockIds) : i ∉ e'.blockIds := by
  intro hi'
  obtain ⟨b, hb, -, ht⟩ := (h.cached key e he).tagged i hi
  obtain ⟨b', hb', -, ht'⟩ := (h.cached key' e' he').tagged i hi'
  obtain rfl := hb.unique hb'
  exact hk (ht.symm.trans ht')

theorem ledger_new (config : KvCacheConfig) : Ledger (Impl.new config) [] := by
  have hblock : ∀ i b, (Impl.new config).BlockAt i b → b = {} := by
    intro i b hb
    have hmem : b ∈ (Impl.new config).blocks := List.mem_of_getElem? hb
    exact List.eq_of_mem_replicate hmem
  refine ⟨?_, ?_, ?_, ?_, ?_, ?_⟩
  · simp only [Impl.new, clampPositive]
    split <;> omega
  · exact fun i b hb _ => hblock i b hb
  · intro i b hb
    simp [hblock i b hb, Impl.holders, Impl.new, OrderedMap.count_empty]
  · intro id q hq
    simp [Impl.Live, Impl.new] at hq
  · intro id id' q q' hq
    simp [Impl.Live, Impl.new] at hq
  · intro key e he
    simp [Impl.Cached, Impl.new] at he

end Laminar.Kv
