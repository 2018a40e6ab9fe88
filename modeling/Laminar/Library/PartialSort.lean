import Mathlib.Data.List.Sort

/-! Partial sorting by a comparison that says which of two elements comes first: what the sorted
part of a list is, whatever order the rest is left in. -/
namespace Laminar
variable {α : Type*}

/-- A partial sort, as far as it is documented: the list is rearranged, its first `middle` elements
are in order, and none of the others comes before one of them. -/
structure PartialSort (r : α → α → Prop) where
  sort : Nat → List α → List α
  perm : ∀ middle l, (sort middle l).Perm l
  ordered : ∀ middle l, middle ≤ l.length →
    ((sort middle l).take middle).Pairwise fun a b => ¬ r b a
  least : ∀ middle l, middle ≤ l.length → ∀ a ∈ (sort middle l).take middle,
    ∀ b ∈ (sort middle l).drop middle, ¬ r b a

namespace PartialSort
variable {r : α → α → Prop}

def ofInsertionSort [DecidableRel r] (hasymm : ∀ a b, r a b → ¬ r b a)
    (htrans : ∀ a b c, ¬ r b a → ¬ r c b → ¬ r c a) : PartialSort r where
  sort _ l := l.insertionSort fun a b => ¬ r b a
  perm _ l := l.perm_insertionSort _
  ordered middle l _ := by
    have : Std.Total fun a b => ¬ r b a :=
      ⟨fun a b => or_iff_not_imp_left.mpr fun h => hasymm b a (not_not.mp h)⟩
    have : IsTrans α fun a b => ¬ r b a := ⟨htrans⟩
    exact (List.pairwise_insertionSort _ l).sublist (List.take_sublist _ _)
  least middle l _ := by
    have : Std.Total fun a b => ¬ r b a :=
      ⟨fun a b => or_iff_not_imp_left.mpr fun h => hasymm b a (not_not.mp h)⟩
    have : IsTrans α fun a b => ¬ r b a := ⟨htrans⟩
    have hsorted := List.pairwise_insertionSort (fun a b => ¬ r b a) l
    rw [← List.take_append_drop middle (l.insertionSort _), List.pairwise_append] at hsorted
    exact hsorted.2.2

variable (s : PartialSort r)

theorem length_sort (middle : Nat) (l : List α) : (s.sort middle l).length = l.length :=
  (s.perm middle l).length_eq

theorem mem_of_getElem? {middle i : Nat} {l : List α} {a : α}
    (h : (s.sort middle l)[i]? = some a) : a ∈ l :=
  (s.perm middle l).mem_iff.mp (List.mem_of_getElem? h)

theorem getElem?_isSome (middle : Nat) {i : Nat} {l : List α} (hi : i < l.length) :
    ∃ a, (s.sort middle l)[i]? = some a := by
  rw [← s.length_sort middle l] at hi
  exact ⟨_, List.getElem?_eq_getElem hi⟩

/-- Fewer than `middle` elements of the list come before one of its sorted part. -/
theorem countP_lt [DecidableRel r] (hirrefl : ∀ a, ¬ r a a) {middle i : Nat} {l : List α} {a : α}
    (hmiddle : middle ≤ l.length) (hi : i < middle) (h : (s.sort middle l)[i]? = some a) :
    l.countP (fun b => decide (r b a)) < middle := by
  have hperm := s.perm middle l
  have hordered := s.ordered middle l hmiddle
  have hleast := s.least middle l hmiddle
  have hlength := s.length_sort middle l
  generalize s.sort middle l = sorted at h hperm hordered hleast hlength
  have hget : sorted[i] = a := Option.some.inj ((List.getElem?_eq_getElem (by omega)).symm.trans h)
  -- what comes before the element stands to its left in the sorted part
  have hlate : ∀ b ∈ sorted.drop i, ¬ r b a := by
    intro b hb
    obtain ⟨j, hj, rfl⟩ := List.getElem_of_mem hb
    rw [List.length_drop] at hj
    rw [List.getElem_drop]
    by_cases hlast : i + j < middle
    · rcases Nat.eq_zero_or_pos j with rfl | hpos
      · simp only [Nat.add_zero, hget]
        exact hirrefl a
      · have hpair := List.pairwise_iff_getElem.mp hordered i (i + j)
          (by rw [List.length_take]; omega) (by rw [List.length_take]; omega) (by omega)
        rw [List.getElem_take, List.getElem_take, hget] at hpair
        exact hpair
    · refine hleast a ?_ _ ?_
      · exact List.mem_take_iff_getElem.mpr ⟨i, by omega, hget⟩
      · refine List.mem_drop_iff_getElem.mpr ⟨i + j - middle, by omega, ?_⟩
        simp only [Nat.add_sub_cancel' (Nat.le_of_not_lt hlast)]
  have hnone : (sorted.drop i).countP (fun b => decide (r b a)) = 0 :=
    List.countP_eq_zero.mpr fun b hb => by simpa using hlate b hb
  calc l.countP (fun b => decide (r b a))
      = sorted.countP (fun b => decide (r b a)) := (hperm.countP_eq _).symm
    _ = (sorted.take i).countP (fun b => decide (r b a)) +
          (sorted.drop i).countP (fun b => decide (r b a)) := by
        rw [← List.countP_append, List.take_append_drop]
    _ = (sorted.take i).countP (fun b => decide (r b a)) := by
        rw [hnone, Nat.add_zero]
    _ ≤ (sorted.take i).length := List.countP_le_length
    _ ≤ i := List.length_take_le i sorted
    _ < middle := hi

end PartialSort

end Laminar
