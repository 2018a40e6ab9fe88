import Mathlib

/-! Insertion sort by a strict relation, as a comparison function of a sort states it: on a
list whose elements are comparable pairwise the result is in order. -/
namespace Laminar.Sorting
variable {α : Type*} {r : α → α → Prop}

theorem mem_take_of_pairwise {l : List α} (hl : l.Pairwise r) (hasymm : ∀ a b, r a b → ¬ r b a)
    {n : Nat} {a b : α} (ha : a ∈ l) (hb : b ∈ l.take n) (hab : r a b) : a ∈ l.take n := by
  rw [← List.take_append_drop n l, List.pairwise_append] at hl
  rw [← List.take_append_drop n l, List.mem_append] at ha
  exact ha.resolve_right fun hdrop => hasymm a b hab (hl.2.2 b hb a hdrop)

variable [DecidableRel r]

/-- In an ordered list the first `n` elements are those that fewer than `n` come before. -/
theorem mem_take_iff_countP {l : List α} (hl : l.Pairwise r) (hasymm : ∀ a b, r a b → ¬ r b a)
    {n : Nat} {a : α} (ha : a ∈ l) :
    a ∈ l.take n ↔ l.countP (fun b => decide (r b a)) < n := by
  induction l generalizing n with
  | nil => exact absurd ha (by simp)
  | cons b l ih =>
    obtain ⟨hb, hl⟩ := List.pairwise_cons.mp hl
    cases n with
    | zero => simp
    | succ n =>
      rw [List.take_succ_cons, List.mem_cons, List.countP_cons]
      rcases List.mem_cons.mp ha with rfl | ha
      · have hnone : l.countP (fun b => decide (r b a)) = 0 :=
          List.countP_eq_zero.mpr fun c hc => by simpa using hasymm a c (hb c hc)
        have hself : ¬ r a a := fun h => hasymm a a h h
        simp [hnone, hself]
      · have hba := hb a ha
        have hne : a ≠ b := by
          rintro rfl
          exact hasymm a a hba hba
        simp [hne, hba, ih hl ha]

theorem pairwise_orderedInsert (htrans : ∀ a b c, r a b → r b c → r a c) (a : α) {l : List α}
    (hl : l.Pairwise r) (ha : ∀ b ∈ l, r a b ∨ r b a) : (l.orderedInsert r a).Pairwise r := by
  induction l with
  | nil => simp
  | cons b l ih =>
    obtain ⟨hb, hl⟩ := List.pairwise_cons.mp hl
    by_cases hab : r a b
    · rw [List.orderedInsert_cons_of_le r l hab]
      refine List.pairwise_cons.mpr ⟨fun c hc => ?_, List.pairwise_cons.mpr ⟨hb, hl⟩⟩
      rcases List.mem_cons.mp hc with rfl | hc
      · exact hab
      · exact htrans a b c hab (hb c hc)
    · have hba : r b a := (ha b List.mem_cons_self).resolve_left hab
      rw [List.orderedInsert_of_not_le r l hab]
      refine List.pairwise_cons.mpr ⟨fun c hc => ?_,
        ih hl fun c hc => ha c (List.mem_cons_of_mem b hc)⟩
      rcases (List.mem_orderedInsert r).mp hc with rfl | hc
      · exact hba
      · exact hb c hc

theorem pairwise_insertionSort (htrans : ∀ a b c, r a b → r b c → r a c) {l : List α}
    (hl : l.Pairwise (fun a b => r a b ∨ r b a)) : (l.insertionSort r).Pairwise r := by
  induction l with
  | nil => simp
  | cons a l ih =>
    obtain ⟨ha, hl⟩ := List.pairwise_cons.mp hl
    rw [List.insertionSort_cons]
    exact pairwise_orderedInsert htrans a (ih hl)
      fun b hb => ha b ((List.mem_insertionSort r).mp hb)

end Laminar.Sorting
