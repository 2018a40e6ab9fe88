import Laminar.Library.ListUpdate
import Laminar.Scheduler.Batcher

/-! What the loops of one scheduler step can make of a single state. -/
namespace Laminar.Scheduler
open Laminar.Kv Laminar.ListUpdate

structure State.Sane (s : State) : Prop where
  prefill : 0 ≤ s.prefillRemaining
  length : 0 ≤ s.request.maxGeneratedTokens
  tokens : s.done = false → 0 < s.request.maxGeneratedTokens →
    s.generated < s.request.maxGeneratedTokens

structure Consistent (states : List State) : Prop where
  index : ∀ (i : Nat) (s : State), states[i]? = some s → s.index = i
  sane : ∀ (i : Nat) (s : State), states[i]? = some s → s.Sane

inductive PrefillMove (s : State) : State → Prop where
  | reject (h : s.promptAllocated = false) : PrefillMove s { s with done := true }
  | consume (budget : Int) (h : 0 < budget) :
      PrefillMove s (({ s with promptAllocated := true } : State).consume
        (min budget s.prefillRemaining))

inductive DecodeMove (s : State) : State → Prop where
  | reject : DecodeMove s { s with done := true }
  | token (h : s.generated + 1 ≠ s.request.maxGeneratedTokens) :
      DecodeMove s { s with generated := s.generated + 1 }
  | last (h : s.generated + 1 = s.request.maxGeneratedTokens) :
      DecodeMove s { s with generated := s.generated + 1, done := true }

inductive CompleteMove (s : State) : State → Prop where
  | complete (hd : s.done = false) (hr : s.promptReady = true)
      (hm : s.request.maxGeneratedTokens = 0) : CompleteMove s { s with done := true }

@[simp] theorem setState_states (m : Machine) (s : State) :
    (m.setState s).states = m.states.set s.index s := rfl

@[simp] theorem updateResult_states (m : Machine) (index : Nat)
    (f : SequenceResult → SequenceResult) : (m.updateResult index f).states = m.states := rfl

@[simp] theorem releaseSequence_states (m : Machine) (s : State) :
    (m.releaseSequence s).states = m.states := rfl

@[simp] theorem complete_states (m : Machine) (stepIndex : Nat) (s : State) :
    (m.complete stepIndex s).states = m.states.set s.index { s with done := true } := rfl

@[simp] theorem consume_index (s : State) (consumed : Int) : (s.consume consumed).index = s.index :=
  rfl

/-- The state that prefill goes on with is the one it came to, marked as allocated. -/
theorem allocatePrompt_cases (m : Machine) (s : State) (h : m.states[s.index]? = some s) :
    (s.promptAllocated = false ∧ (m.allocatePrompt s).2 = none ∧
        (m.allocatePrompt s).1.states = m.states.set s.index { s with done := true }) ∨
      ((m.allocatePrompt s).2 = some { s with promptAllocated := true } ∧
        (m.allocatePrompt s).1.states =
          m.states.set s.index { s with promptAllocated := true }) := by
  unfold Machine.allocatePrompt
  by_cases ha : s.promptAllocated = true
  · have hs : ({ s with promptAllocated := true } : State) = s := by rw [← ha]
    rw [if_pos ha, hs, set_self h]
    exact Or.inr ⟨rfl, rfl⟩
  · simp only [if_neg ha]
    split_ifs
    · exact Or.inr ⟨rfl, rfl⟩
    · exact Or.inl ⟨by simpa using ha, rfl, rfl⟩

theorem decode_cases (stepIndex : Nat) (s : State) (m : Machine) (step : SchedulerStep) :
    ∃ t, DecodeMove s t ∧ (m.decode stepIndex s step).1.states = m.states.set s.index t := by
  unfold Machine.decode
  simp only
  split_ifs with hok hlast
  · exact ⟨_, .last hlast, rfl⟩
  · exact ⟨_, .token hlast, rfl⟩
  · exact ⟨_, .reject, rfl⟩

theorem prefillLoop_cons {m : Machine} {i : Nat} {s : State} (hs : m.states[i]? = some s)
    (hi : s.index = i) (rest : List Nat) {budget : Int} (hb : 0 < budget) (step : SchedulerStep) :
    ∃ t budget' m' step', PrefillMove s t ∧ m'.states = m.states.set i t ∧
      prefillLoop (i :: rest) budget m step = prefillLoop rest budget' m' step' := by
  subst hi
  simp only [prefillLoop, if_neg (Int.not_le.mpr hb), hs]
  rcases allocatePrompt_cases m s hs with ⟨ha, hnone, hset⟩ | ⟨hsome, hset⟩
  · rw [← Prod.mk.eta (p := m.allocatePrompt s), hnone]
    exact ⟨_, _, _, _, .reject ha, hset, rfl⟩
  · rw [← Prod.mk.eta (p := m.allocatePrompt s), hsome]
    refine ⟨_, _, _, _, .consume budget hb, ?_, rfl⟩
    rw [setState_states, hset, consume_index, List.set_set]

theorem decodeLoop_cons (stepIndex : Nat) {m : Machine} {i : Nat} {s : State}
    (hs : m.states[i]? = some s) (hi : s.index = i) (rest : List Nat) (step : SchedulerStep) :
    ∃ t m' step', DecodeMove s t ∧ m'.states = m.states.set i t ∧
      decodeLoop stepIndex (i :: rest) m step = decodeLoop stepIndex rest m' step' := by
  subst hi
  obtain ⟨t, ht, hset⟩ := decode_cases stepIndex s m step
  exact ⟨t, _, (m.decode stepIndex s step).2, ht, hset, by simp only [decodeLoop, hs]⟩

section
variable {motive : List State → Prop}
  (hindex : ∀ states, motive states →
    ∀ (i : Nat) (s : State), states[i]? = some s → s.index = i)
include hindex

/-- A property kept by every move of the prefill phase is kept by the phase. -/
theorem prefillLoop_induct
    (hstep : ∀ states (i : Nat) (s t : State), motive states → states[i]? = some s →
      PrefillMove s t → motive (states.set i t))
    (ids : List Nat) (budget : Int) (m : Machine) (step : SchedulerStep) (h : motive m.states) :
    motive (prefillLoop ids budget m step).1.states := by
  induction ids generalizing budget m step with
  | nil => exact h
  | cons i rest ih =>
    by_cases hb : budget ≤ 0
    · rw [prefillLoop, if_pos hb]
      exact h
    cases hs : m.states[i]? with
    | none =>
      simp only [prefillLoop, if_neg hb, hs]
      exact ih _ _ _ h
    | some s =>
      obtain ⟨t, budget', m', step', ht, hset, hloop⟩ :=
        prefillLoop_cons hs (hindex _ h i s hs) rest (Int.not_le.mp hb) step
      rw [hloop]
      refine ih _ _ _ ?_
      rw [hset]
      exact hstep _ i s t h hs ht

theorem decodeLoop_induct
    (hstep : ∀ states (i : Nat) (s t : State), motive states → states[i]? = some s →
      DecodeMove s t → motive (states.set i t))
    (stepIndex : Nat) (ids : List Nat) (m : Machine) (step : SchedulerStep) (h : motive m.states) :
    motive (decodeLoop stepIndex ids m step).1.states := by
  induction ids generalizing m step with
  | nil => exact h
  | cons i rest ih =>
    cases hs : m.states[i]? with
    | none =>
      simp only [decodeLoop, hs]
      exact ih _ _ h
    | some s =>
      obtain ⟨t, m', step', ht, hset, hloop⟩ :=
        decodeLoop_cons stepIndex hs (hindex _ h i s hs) rest step
      rw [hloop]
      refine ih _ _ ?_
      rw [hset]
      exact hstep _ i s t h hs ht

theorem completeLoop_induct
    (hstep : ∀ states (i : Nat) (s t : State), motive states → states[i]? = some s →
      CompleteMove s t → motive (states.set i t))
    (stepIndex : Nat) (ids : List Nat) (m : Machine) (h : motive m.states) :
    motive (completeLoop stepIndex ids m).states := by
  induction ids generalizing m with
  | nil => exact h
  | cons i rest ih =>
    rw [completeLoop]
    split
    · exact ih _ h
    rename_i s hs
    obtain rfl := hindex _ h i s hs
    split_ifs with hc
    · simp only [Bool.and_eq_true, Bool.not_eq_true', beq_iff_eq] at hc
      obtain ⟨⟨hd, hr⟩, hm⟩ := hc
      exact ih _ (hstep _ _ s _ h hs (.complete hd hr hm))
    · exact ih _ h

end

end Laminar.Scheduler
