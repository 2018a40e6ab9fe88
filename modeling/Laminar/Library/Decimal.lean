import Mathlib

/-! The decimal digits of a natural number as the bytes of its string. -/
namespace Laminar.Decimal

def bytes (s : String) : List UInt8 := s.toUTF8.data.toList

def digits (n : Nat) : List UInt8 := bytes (toString n)

def value (seen : Nat) (ds : List UInt8) : Nat :=
  ds.foldl (fun v d => 10 * v + (d.toNat - 48)) seen

theorem bytes_append (s t : String) : bytes (s ++ t) = bytes s ++ bytes t := by
  simp [bytes, String.toUTF8]

theorem bytes_digitChar (n : Nat) (h : n < 10) :
    bytes (String.ofList [n.digitChar]) = [48 + n.toUInt8] := by
  revert h
  revert n
  decide

theorem digits_lt (n : Nat) (h : n < 10) : digits n = [48 + n.toUInt8] := by
  rw [digits, Nat.toString_eq_ofList_toDigits, Nat.toDigits_of_lt_base h, bytes_digitChar n h]

theorem digits_ge (n : Nat) (h : 10 ≤ n) :
    digits n = digits (n / 10) ++ [48 + (n % 10).toUInt8] := by
  rw [digits, Nat.toString_eq_ofList_toDigits, Nat.toDigits_of_base_le (by omega) h,
    String.ofList_append, bytes_append, bytes_digitChar _ (Nat.mod_lt _ (by omega)), digits,
    Nat.toString_eq_ofList_toDigits]

/-- A property of digit lists that holds of single digits and survives a further digit. -/
theorem digits_induct {motive : Nat → List UInt8 → Prop}
    (hone : ∀ n, n < 10 → motive n [48 + n.toUInt8])
    (hmore : ∀ n ds, 10 ≤ n → motive (n / 10) ds → motive n (ds ++ [48 + (n % 10).toUInt8]))
    (n : Nat) : motive n (digits n) := by
  induction n using Nat.strong_induction_on with
  | _ n ih =>
    by_cases h : n < 10
    · rw [digits_lt n h]
      exact hone n h
    · rw [digits_ge n (by omega)]
      exact hmore n _ (by omega) (ih (n / 10) (by omega))

theorem digit_range (n : Nat) (h : n < 10) :
    48 ≤ 48 + n.toUInt8 ∧ 48 + n.toUInt8 ≤ 57 ∧ (48 + n.toUInt8).toNat = 48 + n := by
  revert h
  revert n
  decide

theorem digits_range (n : Nat) : ∀ d ∈ digits n, 48 ≤ d ∧ d ≤ 57 := by
  refine digits_induct (motive := fun _ ds => ∀ d ∈ ds, 48 ≤ d ∧ d ≤ 57) ?_ ?_ n
  · intro n h d hd
    obtain rfl := List.mem_singleton.mp hd
    exact ⟨(digit_range n h).1, (digit_range n h).2.1⟩
  · intro n ds _ ih d hd
    rcases List.mem_append.mp hd with hd | hd
    · exact ih d hd
    · obtain rfl := List.mem_singleton.mp hd
      have hr := digit_range (n % 10) (Nat.mod_lt _ (by omega))
      exact ⟨hr.1, hr.2.1⟩

theorem value_digits (n : Nat) : value 0 (digits n) = n := by
  refine digits_induct (motive := fun n ds => value 0 ds = n) ?_ ?_ n
  · intro n h
    simp [value, (digit_range n h).2.2]
  · intro n ds h ih
    have hr := (digit_range (n % 10) (Nat.mod_lt _ (by omega))).2.2
    have hsum : value 0 (ds ++ [48 + (n % 10).toUInt8]) =
        10 * value 0 ds + ((48 + (n % 10).toUInt8).toNat - 48) := by
      simp [value]
    rw [hsum, ih, hr]
    omega

theorem digits_injective : Function.Injective digits := by
  intro m n h
  rw [← value_digits m, h, value_digits]

theorem digits_ne_nil (n : Nat) : digits n ≠ [] := by
  refine digits_induct (motive := fun _ ds => ds ≠ []) ?_ ?_ n
  · exact fun _ _ => List.cons_ne_nil _ _
  · exact fun _ _ _ _ h => by simp at h

theorem digits_head (n : Nat) (h : n ≠ 0) : (digits n).head? ≠ some 48 := by
  refine (digits_induct (motive := fun n ds => n ≠ 0 → ds ≠ [] ∧ ds.head? ≠ some 48) ?_ ?_ n h).2
  · intro n hlt hne
    have hr := (digit_range n hlt).2.2
    refine ⟨List.cons_ne_nil _ _, fun hhead => ?_⟩
    rw [Option.some.inj hhead] at hr
    have h48 : (48 : UInt8).toNat = 48 := rfl
    omega
  · intro n ds hge ih _
    obtain ⟨hds, hhead⟩ := ih (by omega)
    exact ⟨by simp, by rwa [List.head?_append_of_ne_nil _ hds]⟩

end Laminar.Decimal
