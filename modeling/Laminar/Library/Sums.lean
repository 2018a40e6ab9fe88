import Mathlib

/-! Sums over a family or a list of terms, and what one changed term does to them. -/
namespace Laminar.Sums
variable {α : Type*}

/-- A term that grows, in a sum where nothing can be taken away. -/
theorem sum_range_grow {M : Type*} [AddCommMonoid M] (g : α → M) (n k : Nat) (f : Nat → α) (a : α)
    (x : M) (hk : k < n) (h : g a = g (f k) + x) :
    ∑ j ∈ Finset.range n, g (if j = k then a else f j) = ∑ j ∈ Finset.range n, g (f j) + x := by
  have hsplit : ∀ j ∈ Finset.range n, g (if j = k then a else f j) =
      g (f j) + if k = j then x else 0 := by
    intro j _
    by_cases hj : j = k
    · subst hj
      simp [h]
    · simp [hj, Ne.symm hj]
  rw [Finset.sum_congr rfl hsplit, Finset.sum_add_distrib, Finset.sum_ite_eq,
    if_pos (Finset.mem_range.mpr hk)]

theorem sum_range_update (g : α → Int) (n k : Nat) (f : Nat → α) (a : α) (hk : k < n) :
    ∑ j ∈ Finset.range n, g (if j = k then a else f j) =
      ∑ j ∈ Finset.range n, g (f j) + (g a - g (f k)) :=
  sum_range_grow g n k f a _ hk (add_sub_cancel _ _).symm

theorem sum_range_beyond (g : α → Int) (n k : Nat) (f : Nat → α) (a : α) (hk : n ≤ k) :
    ∑ j ∈ Finset.range n, g (if j = k then a else f j) = ∑ j ∈ Finset.range n, g (f j) := by
  refine Finset.sum_congr rfl fun j hj => ?_
  have hlt := Finset.mem_range.mp hj
  rw [if_neg (by omega)]

theorem sum_set {xs : List Int} {i : Nat} {a : Int} (h : xs[i]? = some a) (b : Int) :
    (xs.set i b).sum = xs.sum - a + b := by
  induction xs generalizing i with
  | nil => simp at h
  | cons x xs ih =>
    cases i with
    | zero =>
      obtain rfl : x = a := by simpa using h
      simp only [List.set_cons_zero, List.sum_cons]
      omega
    | succ i =>
      have hi := ih (i := i) (by simpa using h)
      simp only [List.set_cons_succ, List.sum_cons, hi]
      omega

theorem sum_room {xs : List α} {f g : α → Int} (h : ∀ x ∈ xs, f x ≤ g x) {i : Nat} {x : α}
    (hx : xs[i]? = some x) : (xs.map f).sum + (g x - f x) ≤ (xs.map g).sum := by
  induction xs generalizing i with
  | nil => simp at hx
  | cons y xs ih =>
    have hy := h y List.mem_cons_self
    have hrest : ∀ x ∈ xs, f x ≤ g x := fun x hx => h x (List.mem_cons_of_mem y hx)
    simp only [List.map_cons, List.sum_cons]
    cases i with
    | zero =>
      obtain rfl : y = x := by simpa using hx
      have hle : (xs.map f).sum ≤ (xs.map g).sum := List.sum_le_sum hrest
      omega
    | succ i =>
      have hle := ih hrest (i := i) (by simpa using hx)
      omega

/-- Entries of one kind, counted key by key. -/
theorem countP_fst_eq_sum [DecidableEq α] {entries : List (α × Nat)} {n : Nat}
    (h : ∀ e ∈ entries, e.2 < n) (a : α) :
    entries.countP (fun e => e.1 = a) = ∑ k ∈ Finset.range n, entries.count (a, k) := by
  induction entries with
  | nil => simp
  | cons e rest ih =>
    have hrest := ih fun e' he' => h e' (List.mem_cons_of_mem e he')
    have hone : ∑ k ∈ Finset.range n, (if e = (a, k) then 1 else 0) = if e.1 = a then 1 else 0 := by
      have hkey : ∀ k ∈ Finset.range n, (if e = (a, k) then 1 else 0) =
          if k = e.2 then (if e.1 = a then 1 else 0) else 0 := by
        intro k _
        by_cases hk : k = e.2
        · simp [hk, Prod.ext_iff]
        · simp [hk, Prod.ext_iff, Ne.symm hk]
      rw [Finset.sum_congr rfl hkey, Finset.sum_ite_eq',
        if_pos (Finset.mem_range.mpr (h e List.mem_cons_self))]
    simp only [List.countP_cons, List.count_cons, Finset.sum_add_distrib, hrest, beq_iff_eq, hone,
      decide_eq_true_eq]

theorem sum_indicator (p : α → Prop) [DecidablePred p] (xs : List α) :
    (xs.map fun x => if p x then (1 : Int) else 0).sum = xs.countP (fun x => p x) := by
  induction xs with
  | nil => rfl
  | cons x rest ih =>
    rw [List.map_cons, List.sum_cons, ih, List.countP_cons]
    by_cases hx : p x
    · simp [hx]
      omega
    · simp [hx]

/-- Terms between zero and a bound: their sum against the number of those that are not zero. -/
theorem sum_between {xs : List Int} {b : Int} (h : ∀ x ∈ xs, 0 ≤ x ∧ x ≤ b) :
    (xs.countP (fun x => x > 0) : Int) ≤ xs.sum ∧ xs.sum ≤ b * xs.countP (fun x => x > 0) := by
  induction xs with
  | nil => simp
  | cons x rest ih =>
    obtain ⟨hlow, hhigh⟩ := ih fun y hy => h y (List.mem_cons_of_mem x hy)
    obtain ⟨hnonneg, hle⟩ := h x List.mem_cons_self
    rw [List.sum_cons, List.countP_cons]
    by_cases hx : x > 0
    · simp only [hx, decide_true, if_true, Nat.cast_add, Nat.cast_one, Int.mul_add, Int.mul_one]
      omega
    · obtain rfl : x = 0 := by omega
      simpa using ⟨hlow, hhigh⟩

section
variable {β : Type*} {p : α → Bool} {q t : β → Bool} {xs : List α} {ys : List β}

theorem countP_add_le (h : List.Forall₂ (fun x y => p x = true → q y = false) xs ys) :
    xs.countP p + ys.countP q ≤ xs.length := by
  induction h with
  | nil => simp
  | @cons x y xs ys hxy _ ih =>
    rw [List.countP_cons, List.countP_cons, List.length_cons]
    cases hp : p x with
    | false =>
      cases hq : q y <;> simp <;> omega
    | true =>
      simp [hxy hp]
      omega

theorem length_le_countP
    (h : List.Forall₂ (fun x y => p x = false → q y = true ∨ t y = true) xs ys) :
    xs.length ≤ xs.countP p + ys.countP q + ys.countP t := by
  induction h with
  | nil => simp
  | @cons x y xs ys hxy _ ih =>
    rw [List.countP_cons, List.countP_cons, List.countP_cons, List.length_cons]
    cases hp : p x with
    | true => simp; omega
    | false =>
      rcases hxy hp with hq | ht
      · simp [hq]; omega
      · simp [ht]; omega

theorem countP_le_countP (h : List.Forall₂ (fun x y => q y = true → p x = true) xs ys) :
    ys.countP q ≤ xs.countP p := by
  induction h with
  | nil => simp
  | @cons x y xs ys hxy _ ih =>
    rw [List.countP_cons, List.countP_cons]
    cases hq : q y with
    | false => simp; omega
    | true => simp [hxy hq]; omega

end

end Laminar.Sums
