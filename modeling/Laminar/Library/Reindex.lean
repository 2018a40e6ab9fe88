import Mathlib

/-! Lists that differ by the order of their places, and loops over places whose order does not
matter. -/
namespace Laminar.Reindex
variable {α β : Type*}

/-- A loop whose turns commute in the states of an invariant may go in any order. -/
theorem foldl_perm {motive : β → Prop} {f : β → α → β} (hkeep : ∀ b x, motive b → motive (f b x))
    (hcomm : ∀ b x y, motive b → f (f b x) y = f (f b y) x) {l l' : List α} (h : l.Perm l') {b : β}
    (hb : motive b) : l.foldl f b = l'.foldl f b := by
  induction h generalizing b with
  | nil => rfl
  | cons x _ ih => exact ih (hkeep b x hb)
  | swap x y l => rw [List.foldl_cons, List.foldl_cons, hcomm b y x hb, ← List.foldl_cons,
      ← List.foldl_cons]
  | trans _ _ ih ih' => exact (ih hb).trans (ih' hb)

theorem map_getElem?_range (l : List α) :
    (List.range l.length).map (fun i => l[i]?) = l.map some := by
  refine List.ext_getElem? fun i => ?_
  rw [List.getElem?_map, List.getElem?_map]
  by_cases hi : i < l.length
  · rw [List.getElem?_range hi, Option.map_some, List.getElem?_eq_getElem hi, Option.map_some]
  · rw [List.getElem?_eq_none (by simpa using hi), List.getElem?_eq_none (Nat.le_of_not_lt hi)]
    rfl

section
variable {l l' : List α} (σ : Equiv.Perm Nat) (h : ∀ j, l'[j]? = l[σ j]?)
include h

theorem lt_length_iff (j : Nat) : j < l'.length ↔ σ j < l.length := by
  rw [← not_iff_not, Nat.not_lt, Nat.not_lt, ← List.getElem?_eq_none_iff,
    ← List.getElem?_eq_none_iff, h]

theorem range_perm : ((List.range l'.length).map σ).Perm (List.range l.length) := by
  refine (List.perm_ext_iff_of_nodup (List.nodup_range.map σ.injective) List.nodup_range).mpr
    fun i => ?_
  rw [List.mem_map, List.mem_range]
  constructor
  · rintro ⟨j, hj, rfl⟩
    exact (lt_length_iff σ h j).mp (List.mem_range.mp hj)
  · intro hi
    refine ⟨σ.symm i, List.mem_range.mpr ((lt_length_iff σ h _).mpr ?_), σ.apply_symm_apply i⟩
    rwa [σ.apply_symm_apply]

theorem perm_of_places : l'.Perm l := by
  have hsome : (l'.map some).Perm (l.map some) := by
    rw [← map_getElem?_range l', ← map_getElem?_range l]
    have hmap : (List.range l'.length).map (fun j => l'[j]?) =
        ((List.range l'.length).map σ).map (fun i => l[i]?) := by
      rw [List.map_map]
      exact List.map_congr_left fun j _ => h j
    rw [hmap]
    exact (range_perm σ h).map _
  have hvalues := hsome.filterMap id
  simpa [List.filterMap_map] using hvalues

end

theorem exists_places (l : List α) (σ : Equiv.Perm (Fin l.length)) :
    ∃ τ : Equiv.Perm Nat, (∀ j : Nat, (List.ofFn fun j => l.get (σ j))[j]? = l[τ j]?) ∧
      ∀ j : Fin l.length, τ j = σ j := by
  have hin : ∀ j : Fin l.length, σ.extendDomain Fin.equivSubtype (j : Nat) = (σ j : Nat) :=
    fun j => Equiv.Perm.extendDomain_apply_image σ Fin.equivSubtype j
  refine ⟨σ.extendDomain Fin.equivSubtype, fun j => ?_, hin⟩
  by_cases hj : j < l.length
  · have hplace : σ.extendDomain Fin.equivSubtype j = (σ ⟨j, hj⟩ : Nat) := hin ⟨j, hj⟩
    rw [List.getElem?_ofFn, dif_pos hj, hplace]
    exact (List.getElem?_eq_getElem (σ ⟨j, hj⟩).isLt).symm
  · rw [Equiv.Perm.extendDomain_apply_not_subtype σ Fin.equivSubtype hj, List.getElem?_ofFn,
      dif_neg hj, List.getElem?_eq_none (Nat.le_of_not_lt hj)]

end Laminar.Reindex
