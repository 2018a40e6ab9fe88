import Laminar.Kv.Safety

/-! What a call does to the live sequences, told by the answer it gives. -/
namespace Laminar.Kv

theorem allocateFresh_outcome (s : Impl) (id key : Bytes) (sequence : Sequence)
    (cacheable suffixBlockCount : Int) :
    ((s.allocateFresh id key sequence cacheable suffixBlockCount).1.ok = false ∧
        (s.allocateFresh id key sequence cacheable suffixBlockCount).2.sequences = s.sequences) ∨
      ((s.allocateFresh id key sequence cacheable suffixBlockCount).1.ok = true ∧
        ∃ ids, (s.allocateFresh id key sequence cacheable suffixBlockCount).2.sequences =
          s.sequences.insert id { sequence with blockIds := ids }) := by
  unfold Impl.allocateFresh
  simp only
  split_ifs
  · exact Or.inl ⟨rfl, by simp only [allocateBlocks_sequences]⟩
  · exact Or.inl ⟨rfl, by simp only [allocateBlocks_sequences]⟩
  all_goals exact Or.inr ⟨rfl, _, by simp only [allocateBlocks_sequences]; rfl⟩

theorem allocateShared_outcome (s : Impl) (id : Bytes) (sequence : Sequence) (entry : PrefixEntry)
    (suffixBlockCount : Int) :
    ((s.allocateShared id sequence entry suffixBlockCount).1.ok = false ∧
        (s.allocateShared id sequence entry suffixBlockCount).2.sequences = s.sequences) ∨
      ((s.allocateShared id sequence entry suffixBlockCount).1.ok = true ∧
        ∃ ids, (s.allocateShared id sequence entry suffixBlockCount).2.sequences =
          s.sequences.insert id { sequence with blockIds := ids }) := by
  unfold Impl.allocateShared
  simp only
  split_ifs
  · exact Or.inl ⟨rfl, by simp only [allocateBlocks_sequences]⟩
  · exact Or.inr ⟨rfl, _, by simp only [allocateBlocks_sequences]; rfl⟩

/-- A prompt is admitted under a fresh id, with nothing generated, or no sequence changes. -/
theorem allocatePrompt_outcome (s : Impl) (id : Bytes) (promptTokens : Int) (key : Bytes)
    (prefixTokens : Int) :
    ((s.allocatePrompt id promptTokens key prefixTokens).1.ok = false ∧
        (s.allocatePrompt id promptTokens key prefixTokens).2.sequences = s.sequences) ∨
      ((s.allocatePrompt id promptTokens key prefixTokens).1.ok = true ∧
        s.sequences[id]? = none ∧
        ∃ q, (s.allocatePrompt id promptTokens key prefixTokens).2.sequences =
          s.sequences.insert id q ∧ q.generatedTokens = 0) := by
  unfold Impl.allocatePrompt
  by_cases hid : id = []
  · rw [if_pos hid]
    exact Or.inl ⟨rfl, rfl⟩
  rw [if_neg hid]
  by_cases hlive : s.sequences.contains id = true
  · rw [if_pos hlive]
    exact Or.inl ⟨rfl, rfl⟩
  rw [if_neg hlive]
  have hnone : s.sequences[id]? = none := by
    rw [Std.ExtTreeMap.contains_eq_isSome_getElem?] at hlive
    simpa using hlive
  simp only
  split_ifs
  · split
    · exact (allocateShared_outcome s id _ _ _).imp_right
        fun ⟨hok, ids, hset⟩ => ⟨hok, hnone, _, hset, rfl⟩
    · exact (allocateFresh_outcome _ id key _ _ _).imp_right
        fun ⟨hok, ids, hset⟩ => ⟨hok, hnone, _, hset, rfl⟩
  · exact (allocateFresh_outcome s id key _ _ _).imp_right
      fun ⟨hok, ids, hset⟩ => ⟨hok, hnone, _, hset, rfl⟩

theorem appendTokens_outcome (s : Impl) (id : Bytes) {tokenCount : Int} (h : 0 < tokenCount) :
    ((s.appendTokens id tokenCount).1.ok = false ∧
        (s.appendTokens id tokenCount).2.sequences = s.sequences) ∨
      ((s.appendTokens id tokenCount).1.ok = true ∧ ∃ q ids, s.Live id q ∧
        (s.appendTokens id tokenCount).2.sequences =
          s.sequences.insert id (q.extend (q.generatedTokens + tokenCount) ids)) := by
  unfold Impl.appendTokens
  split
  · exact Or.inl ⟨rfl, rfl⟩
  rename_i q hq
  simp only [if_neg (Int.not_le.mpr h)]
  split_ifs
  · exact Or.inl ⟨rfl, by simp only [allocateBlocks_sequences]⟩
  · exact Or.inr ⟨rfl, q, _, hq, by simp only [allocateBlocks_sequences]; rfl⟩

theorem releaseSequence_getElem? (s : Impl) (id k : Bytes) :
    (s.releaseSequence id).sequences[k]? = if id = k then none else s.sequences[k]? := by
  unfold Impl.releaseSequence
  split
  · rename_i hnone
    split_ifs with hk
    · exact hk ▸ hnone
    · rfl
  · exact OrderedMap.getElem?_erase _ _ _

theorem releaseSequence_none {s : Impl} {id : Bytes} (h : s.sequences[id]? = none) :
    s.releaseSequence id = s := by
  unfold Impl.releaseSequence
  rw [h]

theorem releaseSequence_some {s : Impl} {id : Bytes} {q : Sequence}
    (h : s.sequences[id]? = some q) :
    s.releaseSequence id = { s with
      blocks := ListUpdate.modifyAll releaseBlock q.blockIds s.blocks
      sequences := s.sequences.erase id } := by
  unfold Impl.releaseSequence
  rw [h]

/-- Releases commute, also of ids that are not live and of one id twice. -/
theorem releaseSequence_comm (s : Impl) (id k : Bytes) :
    (s.releaseSequence id).releaseSequence k = (s.releaseSequence k).releaseSequence id := by
  by_cases hne : id = k
  · rw [hne]
  have hid : (s.releaseSequence k).sequences[id]? = s.sequences[id]? := by
    rw [releaseSequence_getElem?, if_neg (Ne.symm hne)]
  have hk : (s.releaseSequence id).sequences[k]? = s.sequences[k]? := by
    rw [releaseSequence_getElem?, if_neg hne]
  cases hq : s.sequences[id]? with
  | none => rw [releaseSequence_none hq, releaseSequence_none (hid.trans hq)]
  | some q =>
    cases hp : s.sequences[k]? with
    | none => rw [releaseSequence_none hp, releaseSequence_none (hk.trans hp)]
    | some p =>
      rw [releaseSequence_some (hk.trans hp), releaseSequence_some (hid.trans hq),
        releaseSequence_some hq, releaseSequence_some hp]
      have herase : (s.sequences.erase id).erase k = (s.sequences.erase k).erase id := by
        apply Std.ExtTreeMap.ext_getElem?
        intro a
        simp only [OrderedMap.getElem?_erase]
        split_ifs <;> rfl
      simp only [herase, ListUpdate.modifyAll_comm releaseBlock q.blockIds p.blockIds]

theorem sequenceBlockCount_releaseSequence (s : Impl) {id k : Bytes} (h : id ≠ k) :
    (s.releaseSequence id).sequenceBlockCount k = s.sequenceBlockCount k := by
  unfold Impl.sequenceBlockCount
  rw [releaseSequence_getElem?, if_neg h]

end Laminar.Kv
