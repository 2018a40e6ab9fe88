import Mathlib

/-! Entries of an ordered map as a list: what insertion and erasure do to it, so
that counts and sums over a map are computed through its lookups. -/
namespace Laminar.OrderedMap
open Std
variable {κ ν : Type*} [Ord κ] [TransOrd κ] [LawfulEqOrd κ]

theorem getElem?_insert [DecidableEq κ] (m : ExtTreeMap κ ν) (k a : κ) (v : ν) :
    (m.insert k v)[a]? = if k = a then some v else m[a]? := by
  simp [ExtTreeMap.getElem?_insert]

theorem getElem?_erase [DecidableEq κ] (m : ExtTreeMap κ ν) (k a : κ) :
    (m.erase k)[a]? = if k = a then none else m[a]? := by
  simp [ExtTreeMap.getElem?_erase]

theorem nodup_toList (m : ExtTreeMap κ ν) : m.toList.Nodup := by
  have h : m.toList.Pairwise (fun a b => ¬ compare a.1 b.1 = .eq) :=
    ExtTreeMap.distinct_keys_toList
  refine h.imp ?_
  rintro a b hab rfl
  exact hab (ReflCmp.compare_self)

theorem mem_toList {m : ExtTreeMap κ ν} {k : κ} {v : ν} :
    (k, v) ∈ m.toList ↔ m[k]? = some v :=
  ExtTreeMap.mem_toList_iff_getElem?_eq_some

theorem toList_insert_perm (m : ExtTreeMap κ ν) (k : κ) (v : ν) (h : m[k]? = none) :
    (m.insert k v).toList.Perm ((k, v) :: m.toList) := by
  classical
  have hn : ((k, v) :: m.toList).Nodup :=
    List.nodup_cons.mpr ⟨fun hm => by simp [mem_toList.mp hm] at h, nodup_toList m⟩
  rw [List.perm_ext_iff_of_nodup (nodup_toList _) hn]
  rintro ⟨a, w⟩
  simp only [mem_toList, getElem?_insert, List.mem_cons, Prod.mk.injEq]
  by_cases hk : k = a
  · subst hk
    simp [h, eq_comm]
  · simp [hk, Ne.symm hk]

theorem toList_erase_perm (m : ExtTreeMap κ ν) (k : κ) (v : ν) (h : m[k]? = some v) :
    m.toList.Perm ((k, v) :: (m.erase k).toList) := by
  classical
  have hn : ((k, v) :: (m.erase k).toList).Nodup :=
    List.nodup_cons.mpr ⟨fun hm => by simpa using mem_toList.mp hm, nodup_toList _⟩
  rw [List.perm_ext_iff_of_nodup (nodup_toList _) hn]
  rintro ⟨a, w⟩
  simp only [mem_toList, getElem?_erase, List.mem_cons, Prod.mk.injEq]
  by_cases hk : k = a
  · subst hk
    simp [h, eq_comm]
  · simp [hk, Ne.symm hk]

theorem size_erase (m : ExtTreeMap κ ν) (k : κ) (v : ν) (h : m[k]? = some v) :
    m.size = (m.erase k).size + 1 := by
  rw [← ExtTreeMap.length_toList, (toList_erase_perm m k v h).length_eq, List.length_cons,
    ExtTreeMap.length_toList]

theorem size_of_submap (m m' : ExtTreeMap κ ν)
    (h : ∀ (k : κ) (v : ν), m'[k]? = some v → m[k]? = some v) :
    m.size = m'.size + (m.toList.filter (fun e => !m'.contains e.1)).length := by
  classical
  have hkept : m'.toList.Perm (m.toList.filter (fun e => m'.contains e.1)) := by
    rw [List.perm_ext_iff_of_nodup (nodup_toList m') ((nodup_toList m).filter _)]
    rintro ⟨k, v⟩
    simp only [List.mem_filter, mem_toList, ExtTreeMap.contains_eq_isSome_getElem?]
    refine ⟨fun hv => ⟨h k v hv, by rw [hv]; rfl⟩, ?_⟩
    rintro ⟨hv, hsome⟩
    obtain ⟨w, hw⟩ := Option.isSome_iff_exists.mp hsome
    rw [hw, ← h k w hw, hv]
  have hsplit := List.length_eq_length_filter_add (l := m.toList) (fun e => m'.contains e.1)
  rw [← hkept.length_eq, ExtTreeMap.length_toList, ExtTreeMap.length_toList] at hsplit
  exact hsplit

theorem insert_erase (m : ExtTreeMap κ ν) (k : κ) (v : ν) :
    (m.erase k).insert k v = m.insert k v := by
  classical
  apply ExtTreeMap.ext_getElem?
  intro a
  simp only [getElem?_insert, getElem?_erase]
  split_ifs <;> rfl

def count (m : ExtTreeMap κ ν) (p : ν → Bool) : Nat :=
  m.toList.countP (fun e => p e.2)

theorem count_empty (p : ν → Bool) : count (∅ : ExtTreeMap κ ν) p = 0 := by
  simp [count]

theorem count_insert (m : ExtTreeMap κ ν) (p : ν → Bool) (k : κ) (v : ν) (h : m[k]? = none) :
    count (m.insert k v) p = count m p + if p v then 1 else 0 := by
  unfold count
  rw [(toList_insert_perm m k v h).countP_eq, List.countP_cons]

theorem count_erase (m : ExtTreeMap κ ν) (p : ν → Bool) (k : κ) (v : ν) (h : m[k]? = some v) :
    count m p = count (m.erase k) p + if p v then 1 else 0 := by
  unfold count
  rw [(toList_erase_perm m k v h).countP_eq, List.countP_cons]

theorem count_replace (m : ExtTreeMap κ ν) (p : ν → Bool) (k : κ) (v w : ν)
    (h : m[k]? = some v) :
    count (m.insert k w) p + (if p v then 1 else 0) = count m p + if p w then 1 else 0 := by
  have he : (m.erase k)[k]? = none := by simp
  rw [← insert_erase m k w, count_insert _ p k w he, count_erase m p k v h]
  omega

theorem count_eq_zero_iff (m : ExtTreeMap κ ν) (p : ν → Bool) :
    count m p = 0 ↔ ∀ (k : κ) (v : ν), m[k]? = some v → p v = false := by
  simp [count, List.countP_eq_zero]

def total (m : ExtTreeMap κ ν) (f : κ → ν → Nat) : Nat :=
  (m.toList.map (fun e => f e.1 e.2)).sum

theorem total_erase (m : ExtTreeMap κ ν) (f : κ → ν → Nat) (k : κ) (v : ν) (h : m[k]? = some v) :
    total m f = total (m.erase k) f + f k v := by
  unfold total
  rw [((toList_erase_perm m k v h).map _).sum_eq, List.map_cons, List.sum_cons, Nat.add_comm]

theorem total_congr (m : ExtTreeMap κ ν) (f g : κ → ν → Nat)
    (h : ∀ (k : κ) (v : ν), m[k]? = some v → f k v = g k v) : total m f = total m g := by
  unfold total
  refine congrArg List.sum (List.map_congr_left ?_)
  rintro ⟨k, v⟩ hm
  exact h k v (mem_toList.mp hm)

theorem total_mono (m : ExtTreeMap κ ν) (f g : κ → ν → Nat)
    (h : ∀ (k : κ) (v : ν), m[k]? = some v → f k v ≤ g k v) : total m f ≤ total m g := by
  unfold total
  refine List.sum_le_sum ?_
  rintro ⟨k, v⟩ hm
  exact h k v (mem_toList.mp hm)

theorem total_eq_zero (m : ExtTreeMap κ ν) (f : κ → ν → Nat)
    (h : ∀ (k : κ) (v : ν), m[k]? = some v → f k v = 0) : total m f = 0 := by
  rw [total_congr m f (fun _ _ => 0) h]
  simp [total]

/-- Lists that no two entries share and that repeat nothing, laid end to end. -/
theorem nodup_flatMap {α : Type*} (m : ExtTreeMap κ ν) (f : ν → List α)
    (hn : ∀ (k : κ) (v : ν), m[k]? = some v → (f v).Nodup)
    (hd : ∀ (k k' : κ) (v v' : ν), m[k]? = some v → m[k']? = some v' → k ≠ k' →
      ∀ a ∈ f v, a ∉ f v') :
    (m.toList.flatMap (fun e => f e.2)).Nodup := by
  rw [List.nodup_flatMap]
  refine ⟨fun e he => hn e.1 e.2 (mem_toList.mp he), ?_⟩
  have hkeys : m.toList.Pairwise (fun a b => ¬ compare a.1 b.1 = .eq) :=
    ExtTreeMap.distinct_keys_toList
  refine hkeys.imp_of_mem ?_
  intro e e' he he' hne a ha ha'
  refine hd e.1 e'.1 e.2 e'.2 (mem_toList.mp he) (mem_toList.mp he') ?_ a ha ha'
  intro heq
  exact hne (by rw [heq]; exact ReflCmp.compare_self)

omit [LawfulEqOrd κ] in
theorem length_flatMap {α : Type*} (m : ExtTreeMap κ ν) (f : ν → List α) :
    (m.toList.flatMap (fun e => f e.2)).length = total m (fun _ v => (f v).length) := by
  simp [total, List.length_flatMap]

theorem mem_flatMap {α : Type*} (m : ExtTreeMap κ ν) (f : ν → List α) (a : α) :
    a ∈ m.toList.flatMap (fun e => f e.2) ↔ ∃ (k : κ) (v : ν), m[k]? = some v ∧ a ∈ f v := by
  simp [List.mem_flatMap]

end Laminar.OrderedMap
