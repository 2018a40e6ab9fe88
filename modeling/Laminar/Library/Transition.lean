import Mathlib

/-! Runs of a system whose actions are partial functions on its states, and the rules that carry
a property of single steps over to runs. -/
namespace Laminar.Transition
variable {σ α : Type*} (step : σ → α → Option σ)

/-- The state after some actions; nothing if one of them is not enabled. -/
def run : σ → List α → Option σ
  | s, [] => some s
  | s, a :: rest =>
    match step s a with
    | none => none
    | some t => run t rest

variable {step}

theorem run_cons {s t : σ} {a : α} {rest : List α} :
    run step s (a :: rest) = some t ↔ ∃ u, step s a = some u ∧ run step u rest = some t := by
  simp only [run]
  cases step s a <;> simp

theorem run_append {s t : σ} (first second : List α) :
    run step s (first ++ second) = some t ↔
      ∃ u, run step s first = some u ∧ run step u second = some t := by
  induction first generalizing s with
  | nil => simp [run]
  | cons a rest ih =>
    simp only [List.cons_append, run_cons, ih]
    constructor
    · rintro ⟨v, hv, u, hu, ht⟩
      exact ⟨u, ⟨v, hv, hu⟩, ht⟩
    · rintro ⟨u, ⟨v, hv, hu⟩, ht⟩
      exact ⟨v, hv, u, hu, ht⟩

/-- What every action of a run preserves holds at its end. -/
theorem run_preserves {motive : σ → Prop} {allowed : α → Prop} {s t : σ} {actions : List α}
    (h : run step s actions = some t) (hallowed : ∀ a ∈ actions, allowed a) (hs : motive s)
    (hstep : ∀ s a t, allowed a → motive s → step s a = some t → motive t) : motive t := by
  induction actions generalizing s with
  | nil =>
    obtain rfl := Option.some.inj h
    exact hs
  | cons a rest ih =>
    obtain ⟨u, hu, hrest⟩ := run_cons.mp h
    exact ih hrest (fun b hb => hallowed b (List.mem_cons_of_mem a hb))
      (hstep s a u (hallowed a List.mem_cons_self) hs hu)

/-- The invariant rule: what holds at the start and is kept by every step holds of every run. -/
theorem run_invariant {motive : σ → Prop} {s t : σ} {actions : List α}
    (h : run step s actions = some t) (hs : motive s)
    (hstep : ∀ s a t, motive s → step s a = some t → motive t) : motive t := by
  have hallowed : ∀ a ∈ actions, (fun _ : α => True) a := fun _ _ => trivial
  exact run_preserves h hallowed hs (fun s a t _ hm => hstep s a t hm)

/-- A run counts no more actions than a potential loses units, one for each counted action. -/
theorem run_counted (potential : σ → Int) (counted : α → Bool) {s t : σ} {actions : List α}
    (h : run step s actions = some t)
    (hstep : ∀ s a t, step s a = some t →
      potential t + (if counted a then 1 else 0) ≤ potential s) :
    potential t + actions.countP counted ≤ potential s := by
  induction actions generalizing s with
  | nil =>
    obtain rfl := Option.some.inj h
    simp
  | cons a rest ih =>
    obtain ⟨u, hu, hrest⟩ := run_cons.mp h
    have hle := ih hrest
    have hfirst := hstep s a u hu
    rw [List.countP_cons]
    push_cast
    omega

/-- Every action of a run is taken under a condition on the state before it. -/
def Along (step : σ → α → Option σ) (condition : σ → α → Prop) : σ → List α → Prop
  | _, [] => True
  | s, a :: rest => condition s a ∧ ∀ t, step s a = some t → Along step condition t rest

instance decidableAlong {condition : σ → α → Prop} [∀ s a, Decidable (condition s a)] :
    (s : σ) → (actions : List α) → Decidable (Along step condition s actions)
  | _, [] => isTrue trivial
  | s, a :: rest =>
    match h : step s a with
    | none => decidable_of_iff (condition s a) (by simp [Along, h])
    | some t =>
      have : Decidable (Along step condition t rest) := decidableAlong t rest
      decidable_of_iff (condition s a ∧ Along step condition t rest) (by simp [Along, h])

theorem along_cons {condition : σ → α → Prop} {s t : σ} {a : α} {rest : List α}
    (ha : condition s a) (hstep : step s a = some t) (h : Along step condition t rest) :
    Along step condition s (a :: rest) :=
  ⟨ha, fun _ ht => Option.some.inj (hstep.symm.trans ht) ▸ h⟩

theorem along_append {condition : σ → α → Prop} {s : σ} {first second : List α}
    (h : Along step condition s (first ++ second)) : Along step condition s first := by
  induction first generalizing s with
  | nil => trivial
  | cons a rest ih => exact ⟨h.1, fun t ht => ih (h.2 t ht)⟩

theorem along_of_append {condition : σ → α → Prop} {s t : σ} {first second : List α}
    (h : run step s first = some t) (hfirst : Along step condition s first)
    (hsecond : Along step condition t second) : Along step condition s (first ++ second) := by
  induction first generalizing s with
  | nil =>
    obtain rfl := Option.some.inj h
    exact hsecond
  | cons a rest ih =>
    obtain ⟨u, hu, hrest⟩ := run_cons.mp h
    refine ⟨hfirst.1, fun v hv => ?_⟩
    obtain rfl := Option.some.inj (hu.symm.trans hv)
    exact ih hrest (hfirst.2 u hu)

theorem along_of_forall {condition : σ → α → Prop} {s : σ} {actions : List α}
    (h : ∀ a ∈ actions, ∀ s, condition s a) : Along step condition s actions := by
  induction actions generalizing s with
  | nil => trivial
  | cons a rest ih =>
    exact ⟨h a List.mem_cons_self s, fun t _ => ih fun b hb => h b (List.mem_cons_of_mem a hb)⟩

theorem along_and {first second : σ → α → Prop} {s : σ} {actions : List α}
    (h : Along step first s actions) (h' : Along step second s actions) :
    Along step (fun s a => first s a ∧ second s a) s actions := by
  induction actions generalizing s with
  | nil => trivial
  | cons a rest ih => exact ⟨⟨h.1, h'.1⟩, fun t ht => ih (h.2 t ht) (h'.2 t ht)⟩

theorem along_of_kept {motive : σ → Prop} {first second : σ → α → Prop} {s : σ}
    {actions : List α} (h : Along step first s actions) (hs : motive s)
    (hkeep : ∀ s a t, first s a → motive s → step s a = some t → motive t)
    (himplies : ∀ s a, motive s → first s a → second s a) : Along step second s actions := by
  induction actions generalizing s with
  | nil => trivial
  | cons a rest ih =>
    exact ⟨himplies s a hs h.1, fun t ht => ih (h.2 t ht) (hkeep s a t h.1 hs ht)⟩

theorem along_of_invariant {motive : σ → Prop} {first second : σ → α → Prop} {s : σ}
    {actions : List α} (h : Along step first s actions) (hs : motive s)
    (hkeep : ∀ s a t, motive s → step s a = some t → motive t)
    (himplies : ∀ s a, motive s → first s a → second s a) : Along step second s actions :=
  along_of_kept h hs (fun s a t _ => hkeep s a t) himplies

theorem run_along {motive : σ → Prop} {condition : σ → α → Prop} {s t : σ} {actions : List α}
    (h : run step s actions = some t) (halong : Along step condition s actions) (hs : motive s)
    (hstep : ∀ s a t, condition s a → motive s → step s a = some t → motive t) : motive t := by
  induction actions generalizing s with
  | nil =>
    obtain rfl := Option.some.inj h
    exact hs
  | cons a rest ih =>
    obtain ⟨u, hu, hrest⟩ := run_cons.mp h
    exact ih hrest (halong.2 u hu) (hstep s a u halong.1 hs hu)

/-- The condition holds along a run when it holds of every action of it, wherever it is taken. -/
theorem along_of_prefixes {condition : σ → α → Prop} {s : σ} {actions : List α}
    (h : ∀ first a second t, actions = first ++ a :: second → run step s first = some t →
      condition t a) : Along step condition s actions := by
  induction actions generalizing s with
  | nil => trivial
  | cons a rest ih =>
    refine ⟨h [] a rest s rfl rfl, fun t ht => ih fun first b second u hrest hu => ?_⟩
    exact h (a :: first) b second u (by rw [hrest, List.cons_append]) (run_cons.mpr ⟨t, ht, hu⟩)

/-- The condition decides along a run whether a property is kept that is never gained. -/
theorem along_iff {motive kept : σ → Prop} {condition : σ → α → Prop} {s t : σ} {actions : List α}
    (h : run step s actions = some t) (hs : motive s)
    (hkeep : ∀ s a t, motive s → step s a = some t → motive t)
    (hstep : ∀ s a t, motive s → step s a = some t → (kept t ↔ kept s ∧ condition s a)) :
    kept t ↔ kept s ∧ Along step condition s actions := by
  induction actions generalizing s with
  | nil =>
    obtain rfl := Option.some.inj h
    simp [Along]
  | cons a rest ih =>
    obtain ⟨u, hu, hrest⟩ := run_cons.mp h
    rw [ih hrest (hkeep s a u hs hu), hstep s a u hs hu, and_assoc]
    simp [Along, hu]

section
variable {β : Type*} (view : σ → α → Option β)

def observed (step : σ → α → Option σ) : σ → List α → List β
  | _, [] => []
  | s, a :: rest =>
    match step s a with
    | none => []
    | some t => (view s a).toList ++ observed step t rest

variable {view}

/-- The invariant rule with an observer. -/
theorem run_observed {motive : σ → List β → Prop} {s t : σ} {actions : List α} {seen : List β}
    (h : run step s actions = some t) (hs : motive s seen)
    (hstep : ∀ s a t seen, motive s seen → step s a = some t →
      motive t (seen ++ (view s a).toList)) :
    motive t (seen ++ observed view step s actions) := by
  induction actions generalizing s seen with
  | nil =>
    obtain rfl := Option.some.inj h
    simpa [observed] using hs
  | cons a rest ih =>
    obtain ⟨u, hu, hrest⟩ := run_cons.mp h
    simp only [observed, hu, ← List.append_assoc]
    exact ih hrest (hstep s a u seen hs hu)

theorem throughout_cons {kept : σ → Prop} {s u : σ} {a : α} {rest : List α} (hkept : kept s)
    (hnext : step s a = some u) :
    (∀ first second t, a :: rest = first ++ second → run step s first = some t → kept t) ↔
      ∀ first second t, rest = first ++ second → run step u first = some t → kept t := by
  constructor
  · intro h first second t hsplit hrun
    exact h (a :: first) second t (by rw [hsplit, List.cons_append])
      (run_cons.mpr ⟨u, hnext, hrun⟩)
  · intro h first second t hsplit hrun
    cases first with
    | nil => exact Option.some.inj hrun ▸ hkept
    | cons a' first =>
      obtain ⟨rfl, hlater⟩ := List.cons.inj hsplit
      obtain ⟨v, hv, hrun⟩ := run_cons.mp hrun
      obtain rfl := Option.some.inj (hnext.symm.trans hv)
      exact h first second t hlater hrun

theorem forall_split_append (good : List β → β → Prop) (first : Option β) (rest : List β) :
    (∀ before b after, first.toList ++ rest = before ++ b :: after → good before b) ↔
      (∀ b ∈ first, good [] b) ∧
        ∀ before b after, rest = before ++ b :: after → good (first.toList ++ before) b := by
  cases first with
  | none => simp
  | some c =>
    constructor
    · intro h
      refine ⟨fun b hb => ?_, fun before b after hsplit => ?_⟩
      · obtain rfl := Option.mem_some_iff.mp hb
        exact h [] c rest rfl
      · exact h (c :: before) b after (by rw [hsplit]; rfl)
    · rintro ⟨hfirst, hlater⟩ before b after hsplit
      cases before with
      | nil =>
        obtain ⟨rfl, -⟩ := List.cons.inj hsplit
        exact hfirst c rfl
      | cons d before =>
        obtain ⟨rfl, hrest⟩ := List.cons.inj hsplit
        exact hlater before b after hrest

/-- Where the events seen before an event decide whether it keeps a property, the property holds all
the way exactly if every event was good. -/
theorem throughout_iff_observed {motive : σ → List β → Prop} (kept : σ → Prop)
    (good : List β → β → Prop) {s : σ} {actions : List α} {seen : List β} (hs : motive s seen)
    (hkept : kept s)
    (hkeep : ∀ s a t seen, motive s seen → step s a = some t →
      motive t (seen ++ (view s a).toList))
    (hstep : ∀ s a t seen, motive s seen → kept s → step s a = some t →
      (kept t ↔ ∀ b ∈ view s a, good seen b)) :
    (∀ first second t, actions = first ++ second → run step s first = some t → kept t) ↔
      ∀ before b after, observed view step s actions = before ++ b :: after →
        good (seen ++ before) b := by
  induction actions generalizing s seen with
  | nil =>
    refine iff_of_true (fun first second t hsplit hrun => ?_) fun before b after hsplit => ?_
    · obtain ⟨rfl, -⟩ := List.append_eq_nil_iff.mp hsplit.symm
      exact Option.some.inj hrun ▸ hkept
    · exact absurd hsplit (by simp [observed])
  | cons a rest ih =>
    cases hnext : step s a with
    | none =>
      refine iff_of_true (fun first second t hsplit hrun => ?_) fun before b after hsplit => ?_
      · cases first with
        | nil => exact Option.some.inj hrun ▸ hkept
        | cons a' first =>
          obtain ⟨rfl, -⟩ := List.cons.inj hsplit
          simp [run, hnext] at hrun
      · exact absurd hsplit (by simp [observed, hnext])
    | some u =>
      have hu := hstep s a u seen hs hkept hnext
      have hlater := fun hkept' : kept u => ih (hkeep s a u seen hs hnext) hkept'
      simp only [List.append_assoc] at hlater
      have hobserved : observed view step s (a :: rest) =
          (view s a).toList ++ observed view step u rest := by
        simp only [observed, hnext]
      rw [throughout_cons hkept hnext, hobserved,
        forall_split_append fun before b => good (seen ++ before) b, List.append_nil, ← hu]
      constructor
      · intro h
        have hkept' : kept u := h [] rest u rfl rfl
        exact ⟨hkept', (hlater hkept').mp h⟩
      · rintro ⟨hkept', h⟩
        exact (hlater hkept').mpr h

theorem along_iff_observed {motive kept : σ → Prop} {good : β → Prop} {condition : σ → α → Prop}
    {s t : σ} {actions : List α} (h : run step s actions = some t) (hs : motive s)
    (hkeep : ∀ s a t, motive s → step s a = some t → motive t)
    (hstep : ∀ s a t, motive s → step s a = some t →
      ((kept t ∧ ∀ b ∈ view s a, good b) ↔ kept s ∧ condition s a)) :
    (kept t ∧ ∀ b ∈ observed view step s actions, good b) ↔
      kept s ∧ Along step condition s actions := by
  induction actions generalizing s with
  | nil =>
    obtain rfl := Option.some.inj h
    simp [observed, Along]
  | cons a rest ih =>
    obtain ⟨u, hu, hrest⟩ := run_cons.mp h
    have hfirst := hstep s a u hs hu
    have hlater := ih hrest (hkeep s a u hs hu)
    have hsplit : (∀ b ∈ observed view step s (a :: rest), good b) ↔
        (∀ b ∈ view s a, good b) ∧ ∀ b ∈ observed view step u rest, good b := by
      simp only [observed, hu, List.forall_mem_append, Option.mem_toList, Option.mem_def]
    have halong : Along step condition s (a :: rest) ↔
        condition s a ∧ Along step condition u rest := by
      simp [Along, hu]
    rw [hsplit, halong, and_left_comm, hlater, ← and_assoc, and_comm (a := ∀ b ∈ view s a, good b),
      hfirst, and_assoc]

end

end Laminar.Transition
