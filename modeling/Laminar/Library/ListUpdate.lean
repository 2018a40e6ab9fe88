import Mathlib

/-! Updating a list at a set of indices, one index after the other. -/
namespace Laminar.ListUpdate
variable {α : Type*}

def modifyAll (f : α → α) (ids : List Nat) (xs : List α) : List α :=
  ids.foldl (fun ys i => ys.modify i f) xs

@[simp] theorem modifyAll_nil (f : α → α) (xs : List α) : modifyAll f [] xs = xs := rfl

theorem modifyAll_cons (f : α → α) (i : Nat) (ids : List Nat) (xs : List α) :
    modifyAll f (i :: ids) xs = modifyAll f ids (xs.modify i f) := rfl

@[simp] theorem length_modifyAll (f : α → α) (ids : List Nat) (xs : List α) :
    (modifyAll f ids xs).length = xs.length := by
  induction ids generalizing xs with
  | nil => rfl
  | cons i ids ih => rw [modifyAll_cons, ih, List.length_modify]

/-- Distinct indices are each updated once, the others not at all. -/
theorem getElem?_modifyAll (f : α → α) (ids : List Nat) (xs : List α) (hn : ids.Nodup) (j : Nat) :
    (modifyAll f ids xs)[j]? = if j ∈ ids then xs[j]?.map f else xs[j]? := by
  induction ids generalizing xs with
  | nil => simp
  | cons i ids ih =>
    obtain ⟨hi, hids⟩ := List.nodup_cons.mp hn
    rw [modifyAll_cons, ih _ hids, List.getElem?_modify]
    by_cases hj : i = j
    · subst hj
      simp [hi]
    · have hji : j ≠ i := Ne.symm hj
      simp [hj, hji]

theorem modify_comm (f : α → α) (i j : Nat) (xs : List α) :
    (xs.modify i f).modify j f = (xs.modify j f).modify i f := by
  refine List.ext_getElem? fun k => ?_
  simp only [List.getElem?_modify]
  cases xs[k]? with
  | none => rfl
  | some x => split_ifs <;> rfl

theorem modifyAll_comm (f : α → α) (ids ids' : List Nat) (xs : List α) :
    modifyAll f ids' (modifyAll f ids xs) = modifyAll f ids (modifyAll f ids' xs) := by
  unfold modifyAll
  rw [← List.foldl_append, ← List.foldl_append]
  exact List.perm_append_comm.foldl_eq' (fun i _ j _ ys => modify_comm f i j ys) xs

theorem set_self {xs : List α} {i : Nat} {a : α} (h : xs[i]? = some a) : xs.set i a = xs := by
  obtain ⟨hlt, rfl⟩ := List.getElem?_eq_some_iff.mp h
  exact List.set_getElem_self hlt

theorem modify_eq_set {xs : List α} {i : Nat} {a : α} (h : xs[i]? = some a) (f : α → α) :
    xs.modify i f = xs.set i (f a) := by
  rw [List.modify_eq_set_getElem?, h]
  rfl

theorem countP_modify (p : α → Bool) (f : α → α) (xs : List α) (i : Nat) (a : α)
    (hi : xs[i]? = some a) (ha : p a = false) (hf : p (f a) = true) :
    (xs.modify i f).countP p = xs.countP p + 1 := by
  induction xs generalizing i with
  | nil => simp at hi
  | cons x xs ih =>
    cases i with
    | zero =>
      obtain rfl : x = a := by simpa using hi
      simp [ha, hf]
    | succ i =>
      have ht := ih i (by simpa using hi)
      simp only [List.modify_succ_cons, List.countP_cons, ht]
      omega

/-- Turning distinct indices from outside `p` to inside raises the count by their number. -/
theorem countP_modifyAll (p : α → Bool) (f : α → α) (ids : List Nat) (xs : List α)
    (hn : ids.Nodup) (hids : ∀ i ∈ ids, ∃ a, xs[i]? = some a ∧ p a = false ∧ p (f a) = true) :
    (modifyAll f ids xs).countP p = xs.countP p + ids.length := by
  induction ids generalizing xs with
  | nil => simp
  | cons i ids ih =>
    obtain ⟨hi, ht⟩ := List.nodup_cons.mp hn
    obtain ⟨a, ha, hpa, hfa⟩ := hids i (by simp)
    have hrest : ∀ j ∈ ids, ∃ a, (xs.modify i f)[j]? = some a ∧ p a = false ∧ p (f a) = true := by
      intro j hj
      have hij : i ≠ j := by
        rintro rfl
        exact hi hj
      obtain ⟨b, hb⟩ := hids j (List.mem_cons_of_mem i hj)
      refine ⟨b, ?_, hb.2⟩
      rw [List.getElem?_modify, hb.1]
      simp [hij]
    rw [modifyAll_cons, ih _ ht hrest, countP_modify p f xs i a ha hpa hfa, List.length_cons]
    omega

theorem countP_le_modify (p : α → Bool) (f : α → α) (hf : ∀ a, p a = true → p (f a) = true)
    (i : Nat) (xs : List α) : xs.countP p ≤ (xs.modify i f).countP p := by
  induction xs generalizing i with
  | nil => simp
  | cons x xs ih =>
    cases i with
    | zero =>
      simp only [List.modify_zero_cons, List.countP_cons]
      cases hx : p x with
      | true => simp [hf x hx]
      | false => simp
    | succ i =>
      have hle := ih i
      simp only [List.modify_succ_cons, List.countP_cons]
      omega

/-- Updates that never leave `p` do not lower the count. -/
theorem countP_le_modifyAll (p : α → Bool) (f : α → α) (hf : ∀ a, p a = true → p (f a) = true)
    (ids : List Nat) (xs : List α) : xs.countP p ≤ (modifyAll f ids xs).countP p := by
  induction ids generalizing xs with
  | nil => simp
  | cons i ids ih =>
    rw [modifyAll_cons]
    exact Nat.le_trans (countP_le_modify p f hf i xs) (ih _)

theorem countP_modifyAll_eq (p : α → Bool) (f : α → α) (hf : ∀ a, p (f a) = p a) (ids : List Nat)
    (xs : List α) : (modifyAll f ids xs).countP p = xs.countP p := by
  have hin := countP_le_modifyAll p f (fun a ha => (hf a).trans ha) ids xs
  have hout := countP_le_modifyAll (fun a => !p a) f (by simp [hf]) ids xs
  have hsplit := fun l : List α => List.length_eq_countP_add_countP p (l := l)
  simp only [Bool.not_eq_true, ← Bool.not_eq_true'] at hsplit
  have hxs := hsplit xs
  have hys := hsplit (modifyAll f ids xs)
  rw [length_modifyAll] at hys
  simp only [Bool.decide_eq_true] at hxs hys
  omega

/-- Replacing one element moves a sum by the two elements alone. -/
theorem sum_map_set (f : α → Nat) (xs : List α) (i : Nat) (a b : α) (hi : xs[i]? = some a) :
    ((xs.set i b).map f).sum + f a = (xs.map f).sum + f b := by
  induction xs generalizing i with
  | nil => simp at hi
  | cons x xs ih =>
    cases i with
    | zero =>
      obtain rfl : x = a := by simpa using hi
      simp only [List.set_cons_zero, List.map_cons, List.sum_cons]
      omega
    | succ i =>
      have ht := ih i (by simpa using hi)
      simp only [List.set_cons_succ, List.map_cons, List.sum_cons]
      omega

/-- Replacing one element moves what the elements stand for by the two elements alone. -/
theorem flatMap_set_perm {β : Type*} (f : α → List β) {xs : List α} {i : Nat} {a : α}
    (h : xs[i]? = some a) (b : α) :
    (f a ++ (xs.set i b).flatMap f).Perm (f b ++ xs.flatMap f) := by
  obtain ⟨hi, rfl⟩ := List.getElem?_eq_some_iff.mp h
  have hset := (List.set_perm_cons_eraseIdx hi b).flatMap_right f
  have hold := (List.getElem_cons_eraseIdx_perm hi).symm.flatMap_right f
  rw [List.flatMap_cons] at hset hold
  refine (hset.append_left _).trans (List.Perm.trans ?_ (hold.symm.append_left _))
  rw [← List.append_assoc, ← List.append_assoc]
  exact List.perm_append_comm.append_right _

/-- A list without repetition of exactly the indices that satisfy `p` counts them. -/
theorem countP_eq_length (p : α → Bool) (xs : List α) (ids : List Nat) (hn : ids.Nodup)
    (hids : ∀ i, i ∈ ids ↔ ∃ a, xs[i]? = some a ∧ p a = true) : xs.countP p = ids.length := by
  have hmap : xs = xs.zipIdx.map Prod.fst := (List.zipIdx_map_fst 0 xs).symm
  have hperm : ((xs.zipIdx.filter (fun e => p e.1)).map Prod.snd).Perm ids := by
    rw [List.perm_ext_iff_of_nodup _ hn]
    · intro i
      simp only [List.mem_map, List.mem_filter, hids, Prod.exists, exists_eq_right]
      simp [List.mem_zipIdx_iff_getElem?]
    · refine List.Nodup.sublist (List.filter_sublist.map _) ?_
      rw [List.zipIdx_map_snd]
      exact List.nodup_range'
  rw [← hperm.length_eq, List.length_map, ← List.countP_eq_length_filter]
  conv_lhs => rw [hmap, List.countP_map]
  rfl

end Laminar.ListUpdate
