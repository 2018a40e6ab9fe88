import Mathlib

/-! Searching a list for a pattern, cutting it at a separator, and consuming the pieces until
one is refused. Nothing here depends on how the list arrives in chunks. -/
namespace Laminar.Lines
variable {α σ : Type*} [DecidableEq α]

def find (pattern : List α) : List α → Option Nat
  | [] => if pattern = [] then some 0 else none
  | x :: xs =>
    if pattern.isPrefixOf (x :: xs) then some 0 else (find pattern xs).map (· + 1)

theorem find_start (pattern xs : List α) : find pattern (pattern ++ xs) = some 0 := by
  cases hxs : pattern ++ xs with
  | nil =>
    have hnil : pattern = [] := (List.append_eq_nil_iff.mp hxs).1
    simp [find, hnil]
  | cons x rest =>
    have hp : pattern.isPrefixOf (x :: rest) = true := by
      rw [← hxs, List.isPrefixOf_iff_prefix]
      exact List.prefix_append pattern xs
    rw [find, if_pos hp]

theorem find_later (pattern xs : List α) (x : α) (h : pattern.head? ≠ some x)
    (hne : pattern ≠ []) : find pattern (x :: xs) = (find pattern xs).map (· + 1) := by
  rw [find, if_neg]
  rw [List.isPrefixOf_iff_prefix]
  intro hp
  cases pattern with
  | nil => exact hne rfl
  | cons y ys => exact h (by simp [(List.cons_prefix_cons.mp hp).1])

theorem find_skip (pattern xs ys : List α)
    (h : ∀ i < xs.length, ¬ pattern <+: xs.drop i ++ ys) :
    find pattern (xs ++ ys) = (find pattern ys).map (· + xs.length) := by
  induction xs with
  | nil => simp
  | cons x xs ih =>
    have hhead : ¬ pattern <+: x :: (xs ++ ys) := h 0 (by simp)
    have htail := ih fun i hi => h (i + 1) (by simpa using hi)
    rw [List.cons_append, find, if_neg (by rwa [List.isPrefixOf_iff_prefix]), htail,
      Option.map_map]
    refine congrArg (fun f => (find pattern ys).map f) (funext fun n => ?_)
    simp only [Function.comp_apply, List.length_cons]
    omega

theorem find_skip_absent (c : α) (pattern xs ys : List α) (h : c ∉ xs) :
    find (c :: pattern) (xs ++ ys) = (find (c :: pattern) ys).map (· + xs.length) := by
  refine find_skip _ xs ys fun i hi hp => h ?_
  rw [List.drop_eq_getElem_cons hi, List.cons_append] at hp
  rw [(List.cons_prefix_cons.mp hp).1]
  exact List.getElem_mem hi

theorem find_absent (c : α) (pattern xs : List α) (h : c ∉ xs) : find (c :: pattern) xs = none := by
  have hskip := find_skip_absent c pattern xs [] h
  simpa [find] using hskip

theorem find_le (pattern xs : List α) (i : Nat) (h : find pattern xs = some i) :
    i + pattern.length ≤ xs.length := by
  induction xs generalizing i with
  | nil =>
    simp only [find] at h
    split_ifs at h with hp
    simp_all
  | cons x xs ih =>
    simp only [find] at h
    split_ifs at h with hp
    · obtain rfl := Option.some.inj h
      have hle := (List.isPrefixOf_iff_prefix.mp hp).length_le
      omega
    · obtain ⟨j, hj, rfl⟩ := Option.map_eq_some_iff.mp h
      have hle := ih j hj
      simp only [List.length_cons]
      omega

theorem find_append (pattern xs ys : List α) (i : Nat) (h : find pattern xs = some i) :
    find pattern (xs ++ ys) = some i := by
  induction xs generalizing i with
  | nil =>
    simp only [find] at h
    split_ifs at h with hp
    obtain rfl := Option.some.inj h
    cases ys <;> simp [find, hp]
  | cons x xs ih =>
    simp only [find] at h
    simp only [List.cons_append, find]
    split_ifs at h with hp
    · have hpre : pattern.isPrefixOf (x :: (xs ++ ys)) = true := by
        rw [List.isPrefixOf_iff_prefix] at hp ⊢
        exact hp.trans (List.prefix_append (x :: xs) ys)
      rw [if_pos hpre]
      exact h
    · obtain ⟨j, hj, rfl⟩ := Option.map_eq_some_iff.mp h
      have hle := find_le pattern xs j hj
      have hpre : ¬ pattern.isPrefixOf (x :: (xs ++ ys)) = true := by
        intro hp'
        rw [List.isPrefixOf_iff_prefix] at hp'
        refine hp (List.isPrefixOf_iff_prefix.mpr ?_)
        exact List.prefix_of_prefix_length_le hp' (List.prefix_append (x :: xs) ys) (by simp; omega)
      rw [if_neg hpre, ih j hj]
      rfl

theorem find_of_append (pattern xs ys : List α) (i : Nat) (h : find pattern (xs ++ ys) = some i)
    (hi : i + pattern.length ≤ xs.length) : find pattern xs = some i := by
  induction xs generalizing i with
  | nil =>
    simp only [List.length_nil] at hi
    have hp : pattern = [] := List.length_eq_zero_iff.mp (by omega)
    obtain rfl : i = 0 := by omega
    simp [find, hp]
  | cons x xs ih =>
    simp only [List.cons_append, find] at h ⊢
    by_cases hp : pattern.isPrefixOf (x :: (xs ++ ys)) = true
    · rw [if_pos hp] at h
      obtain rfl := Option.some.inj h
      have hpre : pattern <+: x :: xs := List.prefix_of_prefix_length_le
        (List.isPrefixOf_iff_prefix.mp hp) (List.prefix_append (x :: xs) ys) (by omega)
      rw [if_pos (List.isPrefixOf_iff_prefix.mpr hpre)]
    · rw [if_neg hp] at h
      obtain ⟨j, hj, rfl⟩ := Option.map_eq_some_iff.mp h
      have hpre : ¬ pattern.isPrefixOf (x :: xs) = true := by
        intro hx
        refine hp (List.isPrefixOf_iff_prefix.mpr ?_)
        exact (List.isPrefixOf_iff_prefix.mp hx).trans (List.prefix_append (x :: xs) ys)
      rw [if_neg hpre, ih j hj (by simp only [List.length_cons] at hi; omega)]
      rfl

/-- Where a pattern occurs, so does a part of it that it starts with, and no later. -/
theorem find_prefix (short pattern xs : List α) (hp : short <+: pattern) (i : Nat)
    (h : find pattern xs = some i) : ∃ j ≤ i, find short xs = some j := by
  induction xs generalizing i with
  | nil =>
    simp only [find] at h
    split_ifs at h with hnil
    have hs : short = [] := List.prefix_nil.mp (hnil ▸ hp)
    exact ⟨0, Nat.zero_le i, by simp [find, hs]⟩
  | cons x xs ih =>
    simp only [find] at h ⊢
    by_cases hs : short.isPrefixOf (x :: xs) = true
    · exact ⟨0, Nat.zero_le i, by rw [if_pos hs]⟩
    split_ifs at h with hx
    · exact absurd (List.isPrefixOf_iff_prefix.mpr
        (hp.trans (List.isPrefixOf_iff_prefix.mp hx))) hs
    · obtain ⟨k, hk, rfl⟩ := Option.map_eq_some_iff.mp h
      obtain ⟨j, hj, hfind⟩ := ih k hk
      exact ⟨j + 1, by omega, by rw [if_neg hs, hfind]; rfl⟩

/-- The complete pieces of a list, each ended by `sep`, and the piece that has not ended. -/
def splitLines (sep : α) : List α → List (List α) × List α
  | [] => ([], [])
  | x :: xs =>
    let r := splitLines sep xs
    if x = sep then ([] :: r.1, r.2)
    else
      match r.1 with
      | [] => ([], x :: r.2)
      | line :: lines => ((x :: line) :: lines, r.2)

/-- The pieces of a list in two chunks: those of the first, then those of its unfinished
piece and the second. -/
theorem splitLines_append (sep : α) (xs ys : List α) :
    splitLines sep (xs ++ ys) =
      ((splitLines sep xs).1 ++ (splitLines sep ((splitLines sep xs).2 ++ ys)).1,
        (splitLines sep ((splitLines sep xs).2 ++ ys)).2) := by
  induction xs with
  | nil => simp [splitLines]
  | cons x xs ih =>
    by_cases hx : x = sep
    · simp [splitLines, hx, ih]
    · simp only [List.cons_append, splitLines, if_neg hx, ih]
      cases hl : (splitLines sep xs).1 with
      | nil => simp [splitLines, hx]
      | cons line lines => simp

/-- `splitLines` cuts at the first separator. -/
theorem splitLines_find (sep : α) (xs : List α) :
    splitLines sep xs =
      match find [sep] xs with
      | none => ([], xs)
      | some i => (xs.take i :: (splitLines sep (xs.drop (i + 1))).1,
          (splitLines sep (xs.drop (i + 1))).2) := by
  induction xs with
  | nil => simp [find, splitLines]
  | cons x xs ih =>
    by_cases hx : x = sep
    · simp [find, splitLines, hx]
    · have hpre : ¬ [sep].isPrefixOf (x :: xs) = true := by simp [Ne.symm hx]
      simp only [find, if_neg hpre, splitLines, if_neg hx]
      rw [ih]
      cases find [sep] xs <;> simp

def foldUntil {β : Type*} (f : β → σ → Bool × σ) : List β → σ → Bool × σ
  | [], s => (true, s)
  | b :: bs, s => if (f b s).1 then foldUntil f bs (f b s).2 else (false, (f b s).2)

omit [DecidableEq α] in
theorem foldUntil_append (f : α → σ → Bool × σ) (xs ys : List α) (s : σ) :
    foldUntil f (xs ++ ys) s =
      if (foldUntil f xs s).1 then foldUntil f ys (foldUntil f xs s).2 else foldUntil f xs s := by
  induction xs generalizing s with
  | nil => simp [foldUntil]
  | cons x xs ih =>
    simp only [List.cons_append, foldUntil]
    by_cases hx : (f x s).1 = true
    · simp only [if_pos hx, ih]
    · simp [hx]

section
variable {γ δ : Type*}

/-- What stands before the first separator is determined by the whole. -/
theorem append_inj_separated {sep : γ} {xs ys s t : List γ} (h : xs ++ s = ys ++ t) (hx : sep ∉ xs)
    (hy : sep ∉ ys) (hs : ∀ c ∈ s.head?, c = sep) (ht : ∀ c ∈ t.head?, c = sep) :
    xs = ys ∧ s = t := by
  rcases List.append_eq_append_iff.mp h with ⟨c, rfl, rfl⟩ | ⟨c, rfl, rfl⟩
  · cases c with
    | nil => simp
    | cons d ds =>
      obtain rfl := hs d (by simp)
      exact absurd (by simp) hy
  · cases c with
    | nil => simp
    | cons d ds =>
      obtain rfl := ht d (by simp)
      exact absurd (by simp) hx

theorem head?_separated (sep : γ) (f : δ → List γ) (l : List δ) :
    ∀ c ∈ (l.flatMap (fun b => sep :: f b)).head?, c = sep := by
  cases l <;> simp

/-- Items written each behind a separator that occurs in none of them can be told apart. -/
theorem separated_injective {sep : γ} {f : δ → List γ} (hf : Function.Injective f)
    (hsep : ∀ b, sep ∉ f b) :
    Function.Injective (fun l : List δ => l.flatMap (fun b => sep :: f b)) := by
  intro xs ys h
  induction xs generalizing ys with
  | nil =>
    cases ys with
    | nil => rfl
    | cons y ys => simp at h
  | cons x xs ih =>
    cases ys with
    | nil => simp at h
    | cons y ys =>
      simp only [List.flatMap_cons, List.cons_append, List.cons.injEq, true_and] at h
      obtain ⟨hxy, hrest⟩ := append_inj_separated h (hsep x) (hsep y)
        (head?_separated sep f xs) (head?_separated sep f ys)
      rw [hf hxy, ih hrest]
end

end Laminar.Lines
