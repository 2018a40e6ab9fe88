import Laminar.Library.Reindex
import Laminar.Scheduler.Lifecycle

/-! The loops of `Run` that go by place: completion and cancellation. Their order does not show,
since releases commute. -/
namespace Laminar.Scheduler
open Laminar.Kv

/-- A loop that gives every sequence of a kind the turn that ends it; the turns of two sequences
that `differ` do not notice each other. -/
structure Sweep (loop : List Nat → Machine → Machine) (kind : State → Prop)
    (differ : State → State → Prop) (turn : Impl → State → SequenceResult → Outcome) : Prop where
  nil : ∀ m, loop [] m = m
  cons : ∀ i rest m, loop (i :: rest) m = loop rest (loop [i] m)
  skip : ∀ (m : Machine) (i : Nat), (∀ s, m.states[i]? = some s → ¬ kind s) → loop [i] m = m
  put : ∀ (m : Machine) (i : Nat) (s : State) (r : SequenceResult), m.Aligned → m.Slot i s r →
    kind s → loop [i] m = m.put i (turn m.allocator s r)
  index : ∀ a s r, (turn a s r).state.index = s.index
  ended : ∀ a s r, ¬ kind (turn a s r).state
  unnoticed : ∀ a s r t u, differ s t →
    (turn (turn a s r).allocator t u).state = (turn a t u).state ∧
      (turn (turn a s r).allocator t u).result = (turn a t u).result
  allocator : ∀ a s r t u, (turn (turn a s r).allocator t u).allocator =
    (turn (turn a t u).allocator s r).allocator

structure Machine.Apart (m : Machine) (kind : State → Prop) (differ : State → State → Prop) :
    Prop where
  aligned : m.Aligned
  apart : ∀ (i j : Nat) (s t : State), i ≠ j → m.states[i]? = some s → m.states[j]? = some t →
    kind s → kind t → differ s t

theorem Machine.put_comm {m : Machine} {i j : Nat} (hij : i ≠ j) {o o' p p' : Outcome}
    (hstate : o'.state = o.state) (hresult : o'.result = o.result) (hstate' : p.state = p'.state)
    (hresult' : p.result = p'.result) (hallocator : p.allocator = o'.allocator) :
    (m.put i o).put j p = (m.put j p').put i o' := by
  simp only [Machine.put, hstate, hresult, hstate', hresult', hallocator, List.set_comm _ _ hij]

section
variable {loop : List Nat → Machine → Machine} {kind : State → Prop}
  {differ : State → State → Prop} {turn : Impl → State → SequenceResult → Outcome}
  (h : Sweep loop kind differ turn) {m : Machine}
include h

theorem Sweep.foldl (ids : List Nat) : loop ids m = ids.foldl (fun m i => loop [i] m) m := by
  induction ids generalizing m with
  | nil => exact h.nil m
  | cons i rest ih => rw [h.cons, ih, List.foldl_cons]

theorem Sweep.cases (ha : m.Aligned) (i : Nat) :
    (∃ s r, m.Slot i s r ∧ kind s ∧ loop [i] m = m.put i (turn m.allocator s r)) ∨
      ((∀ s, m.states[i]? = some s → ¬ kind s) ∧ loop [i] m = m) := by
  by_cases hi : ∃ s, m.states[i]? = some s ∧ kind s
  · obtain ⟨s, hs, hk⟩ := hi
    obtain ⟨r, hslot⟩ := ha.slot hs
    exact Or.inl ⟨s, r, hslot, hk, h.put m i s r ha hslot hk⟩
  · have hno : ∀ s, m.states[i]? = some s → ¬ kind s := fun s hs hk => hi ⟨s, hs, hk⟩
    exact Or.inr ⟨hno, h.skip m i hno⟩

/-- No sequence gets into the kind. -/
theorem Sweep.kind_before (ha : m.Aligned) {i j : Nat} {t : State}
    (ht : (loop [i] m).states[j]? = some t) (hk : kind t) : m.states[j]? = some t := by
  obtain ⟨s, r, -, -, hloop⟩ | ⟨-, hloop⟩ := h.cases ha i
  · rw [hloop] at ht
    rcases Machine.put_states ht with ⟨-, rfl⟩ | ⟨-, ht⟩
    · exact absurd hk (h.ended _ _ _)
    · exact ht
  · rwa [hloop] at ht

theorem Sweep.keeps (hm : m.Apart kind differ) (i : Nat) : (loop [i] m).Apart kind differ := by
  refine ⟨?_, fun j k s t hjk hs ht hks hkt => ?_⟩
  · obtain ⟨s, r, hslot, -, hloop⟩ | ⟨-, hloop⟩ := h.cases hm.aligned i
    · rw [hloop]
      exact hm.aligned.put hslot.state (h.index _ _ _)
    · rw [hloop]
      exact hm.aligned
  · exact hm.apart j k s t hjk (h.kind_before hm.aligned hs hks) (h.kind_before hm.aligned ht hkt)
      hks hkt

theorem Sweep.comm (hm : m.Apart kind differ) (i j : Nat) :
    loop [j] (loop [i] m) = loop [i] (loop [j] m) := by
  have ha := hm.aligned
  by_cases hij : i = j
  · rw [hij]
  have hskip : ∀ i j, (∀ s, m.states[j]? = some s → ¬ kind s) →
      loop [j] (loop [i] m) = loop [i] m :=
    fun i j hno => h.skip _ j fun s hs hk => hno s (h.kind_before ha hs hk) hk
  obtain ⟨s, r, hslot, hks, hloop⟩ | ⟨hno, hloop⟩ := h.cases ha i
  · obtain ⟨t, u, hslot', hkt, hloop'⟩ | ⟨hno', hloop'⟩ := h.cases ha j
    · rw [hloop, hloop',
        h.put _ j t u (ha.put hslot.state (h.index _ _ _))
          ((hslot.put _).mpr (Or.inr ⟨Ne.symm hij, hslot'⟩)) hkt,
        h.put _ i s r (ha.put hslot'.state (h.index _ _ _))
          ((hslot'.put _).mpr (Or.inr ⟨hij, hslot⟩)) hks]
      obtain ⟨hstate, hresult⟩ := h.unnoticed m.allocator t u s r
        (hm.apart j i t s (Ne.symm hij) hslot'.state hslot.state hkt hks)
      obtain ⟨hstate', hresult'⟩ := h.unnoticed m.allocator s r t u
        (hm.apart i j s t hij hslot.state hslot'.state hks hkt)
      exact Machine.put_comm hij hstate hresult hstate' hresult' (h.allocator _ _ _ _ _)
    · rw [hskip i j hno', hloop']
  · rw [hskip j i hno, hloop]

/-- The order of the places does not show. -/
theorem Sweep.perm (hm : m.Apart kind differ) {ids ids' : List Nat} (hids : ids.Perm ids') :
    loop ids m = loop ids' m := by
  rw [h.foldl, h.foldl]
  exact Reindex.foldl_perm (motive := fun m => m.Apart kind differ) (fun m i hm => h.keeps hm i)
    (fun m i j hm => h.comm hm i j) hids hm

end

theorem completeLoop_sweep (n : Nat) : Sweep (completeLoop n) readyEmpty
    (fun s t => s.request.id ≠ t.request.id) (completeTurn n) := by
  refine ⟨fun m => rfl, fun i rest m => ?_, fun m i hno => ?_, fun m i s r ha hslot hk => ?_,
    fun a s r => rfl, fun a s r hk => Bool.false_ne_true hk.1.1.symm, fun a s r t u hne => ?_,
    fun a s r t u => releaseSequence_comm a s.request.id t.request.id⟩
  · cases hs : m.states[i]? with
    | none => simp only [completeLoop, hs]
    | some s =>
      simp only [completeLoop, hs]
      split_ifs <;> rfl
  · cases hs : m.states[i]? with
    | none => simp only [completeLoop, hs]
    | some s =>
      simp only [completeLoop, hs]
      rw [if_neg]
      intro hcond
      refine hno s hs ?_
      simpa [readyEmpty, ready] using hcond
  · obtain ⟨-, -, -, u, hslot', hloop⟩ | ⟨hno, -⟩ := completeLoop_turn n ha hslot.state []
    · obtain ⟨-, rfl⟩ := hslot.unique hslot'
      exact hloop
    · exact absurd ⟨hk.1.1, hk.1.2, hk.2⟩ hno
  · refine ⟨rfl, ?_⟩
    simp only [completeTurn, sequenceBlockCount_releaseSequence a hne]

theorem cancelLoop_sweep : Sweep cancelLoop (fun s => s.done = false) (fun _ _ => True)
    cancelTurn := by
  refine ⟨fun m => rfl, fun i rest m => ?_, fun m i hno => ?_, fun m i s r ha hslot hk => ?_,
    fun a s r => rfl, fun a s r hk => Bool.false_ne_true hk.symm, fun a s r t u _ => ⟨rfl, rfl⟩,
    fun a s r t u => releaseSequence_comm a s.request.id t.request.id⟩
  · cases hs : m.states[i]? with
    | none => simp only [cancelLoop, hs]
    | some s =>
      simp only [cancelLoop, hs]
      split_ifs <;> rfl
  · cases hs : m.states[i]? with
    | none => simp only [cancelLoop, hs]
    | some s =>
      have hd : s.done = true := by simpa using hno s hs
      simp only [cancelLoop, hs, hd, if_true]
  · obtain ⟨-, u, hslot', hloop⟩ | ⟨hd, -⟩ := cancelLoop_turn ha hslot.state []
    · obtain ⟨-, rfl⟩ := hslot.unique hslot'
      exact hloop
    · exact absurd (hk.symm.trans hd) Bool.false_ne_true

end Laminar.Scheduler
