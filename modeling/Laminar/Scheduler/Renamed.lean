import Laminar.Scheduler.Priority
import Laminar.Scheduler.Sweep

/-! Two machines with the same sequences at different places, loop by loop. -/
namespace Laminar.Scheduler
open Laminar.Kv

def State.atPlace (s : State) (j : Nat) : State := { s with index := j }

def Outcome.atPlace (o : Outcome) (j : Nat) : Outcome := { o with state := o.state.atPlace j }

/-- The second machine has at place `j` what the first has at place `σ j`. -/
structure Renamed (σ : Equiv.Perm Nat) (m m' : Machine) : Prop where
  states : ∀ j, m'.states[j]? = (m.states[σ j]?).map (fun s => s.atPlace j)
  results : ∀ j, m'.results[j]? = m.results[σ j]?
  allocator : m'.allocator = m.allocator

section
variable {σ : Equiv.Perm Nat} {m m' : Machine}

theorem Renamed.state (h : Renamed σ m m') {j : Nat} {s' : State}
    (hs : m'.states[j]? = some s') : ∃ s, m.states[σ j]? = some s ∧ s' = s.atPlace j := by
  rw [h.states, Option.map_eq_some_iff] at hs
  obtain ⟨s, hs, rfl⟩ := hs
  exact ⟨s, hs, rfl⟩

theorem Renamed.slot (h : Renamed σ m m') {j : Nat} {s : State} {r : SequenceResult}
    (hslot : m.Slot (σ j) s r) : m'.Slot j (s.atPlace j) r :=
  ⟨by rw [h.states, hslot.state, Option.map_some], by rw [h.results, hslot.result]⟩

theorem Renamed.none_iff (h : Renamed σ m m') (j : Nat) :
    m'.states[j]? = none ↔ m.states[σ j]? = none := by
  rw [h.states, Option.map_eq_none_iff]

theorem Renamed.aligned (h : Renamed σ m m') (ha : m.Aligned) : m'.Aligned := by
  have hends : ∀ j : Nat, m'.results[j]? = none ↔ m'.states[j]? = none := by
    intro j
    rw [h.none_iff, h.results, List.getElem?_eq_none_iff, List.getElem?_eq_none_iff, ha.length]
  refine ⟨fun j s' hs => ?_, Nat.le_antisymm ?_ ?_⟩
  · obtain ⟨s, -, rfl⟩ := h.state hs
    rfl
  · exact List.getElem?_eq_none_iff.mp ((hends _).mpr (List.getElem?_eq_none_iff.mpr le_rfl))
  · exact List.getElem?_eq_none_iff.mp ((hends _).mp (List.getElem?_eq_none_iff.mpr le_rfl))

theorem Renamed.put (h : Renamed σ m m') {j : Nat} {s : State} {r : SequenceResult}
    (hslot : m.Slot (σ j) s r) (o : Outcome) :
    Renamed σ (m.put (σ j) o) (m'.put j (o.atPlace j)) := by
  have hslot' := h.slot hslot
  obtain ⟨hs, -⟩ := List.getElem?_eq_some_iff.mp hslot.state
  obtain ⟨hr, -⟩ := List.getElem?_eq_some_iff.mp hslot.result
  obtain ⟨hs', -⟩ := List.getElem?_eq_some_iff.mp hslot'.state
  obtain ⟨hr', -⟩ := List.getElem?_eq_some_iff.mp hslot'.result
  refine ⟨fun k => ?_, fun k => ?_, rfl⟩
  · by_cases hjk : j = k
    · subst hjk
      simp only [Machine.put, List.getElem?_set_self hs, List.getElem?_set_self hs',
        Option.map_some]
      rfl
    · have hne : σ j ≠ σ k := fun heq => hjk (σ.injective heq)
      simp only [Machine.put, List.getElem?_set_ne hjk, List.getElem?_set_ne hne, h.states]
  · by_cases hjk : j = k
    · subst hjk
      simp only [Machine.put, List.getElem?_set_self hr, List.getElem?_set_self hr']
      rfl
    · have hne : σ j ≠ σ k := fun heq => hjk (σ.injective heq)
      simp only [Machine.put, List.getElem?_set_ne hjk, List.getElem?_set_ne hne, h.results]

theorem Renamed.anonymous (h : Renamed σ m m') :
    ∀ j, (m'.states.map (fun s => s.atPlace 0))[j]? =
      (m.states.map (fun s => s.atPlace 0))[σ j]? := by
  intro j
  rw [List.getElem?_map, List.getElem?_map, h.states, Option.map_map]
  rfl

theorem Renamed.range_perm (h : Renamed σ m m') :
    ((List.range m'.states.length).map σ).Perm (List.range m.states.length) := by
  have hperm := Reindex.range_perm σ h.anonymous
  rwa [List.length_map, List.length_map] at hperm

theorem Renamed.countP (h : Renamed σ m m') {p : State → Bool}
    (hp : ∀ s j, p (s.atPlace j) = p s) : m'.states.countP p = m.states.countP p := by
  have hview : ∀ l : List State, l.countP p = (l.map (fun s => s.atPlace 0)).countP p := by
    intro l
    rw [List.countP_map]
    exact List.countP_congr fun s _ => by rw [Function.comp_apply, hp]
  rw [hview, hview m.states]
  exact (Reindex.perm_of_places σ h.anonymous).countP_eq p

theorem PrefillTurn.atPlace {budget : Int} {a : Impl} {s : State} {r : SequenceResult}
    {o : Outcome} (h : PrefillTurn budget a s r o) (j : Nat) :
    PrefillTurn budget a (s.atPlace j) r (o.atPlace j) := by
  cases h with
  | refuse ha hok => exact .refuse ha hok
  | accept ha hok => exact .accept ha hok
  | consume ha => exact .consume ha

theorem PrefillTurn.unique {budget : Int} {a : Impl} {s : State} {r : SequenceResult}
    {o o' : Outcome} (h : PrefillTurn budget a s r o) (h' : PrefillTurn budget a s r o') :
    o = o' := by
  cases h with
  | refuse ha hok =>
    cases h' with
    | refuse ha' hok' => rfl
    | accept ha' hok' => exact absurd (hok.symm.trans hok') Bool.false_ne_true
    | consume ha' => exact absurd (ha.symm.trans ha') Bool.false_ne_true
  | accept ha hok =>
    cases h' with
    | refuse ha' hok' => exact absurd (hok'.symm.trans hok) Bool.false_ne_true
    | accept ha' hok' => rfl
    | consume ha' => exact absurd (ha.symm.trans ha') Bool.false_ne_true
  | consume ha =>
    cases h' with
    | refuse ha' hok' => exact absurd (ha'.symm.trans ha) Bool.false_ne_true
    | accept ha' hok' => exact absurd (ha'.symm.trans ha) Bool.false_ne_true
    | consume ha' => rfl

theorem DecodeTurn.atPlace {n : Nat} {a : Impl} {s : State} {r : SequenceResult} {o : Outcome}
    (h : DecodeTurn n a s r o) (j : Nat) : DecodeTurn n a (s.atPlace j) r (o.atPlace j) := by
  cases h with
  | refuse hok => exact .refuse hok
  | token hok hne => exact .token hok hne
  | last hok heq => exact .last hok heq

theorem DecodeTurn.unique {n : Nat} {a : Impl} {s : State} {r : SequenceResult} {o o' : Outcome}
    (h : DecodeTurn n a s r o) (h' : DecodeTurn n a s r o') : o = o' := by
  cases h with
  | refuse hok =>
    cases h' with
    | refuse hok' => rfl
    | token hok' hne' => exact absurd (hok.symm.trans hok') Bool.false_ne_true
    | last hok' heq' => exact absurd (hok.symm.trans hok') Bool.false_ne_true
  | token hok hne =>
    cases h' with
    | refuse hok' => exact absurd (hok'.symm.trans hok) Bool.false_ne_true
    | token hok' hne' => rfl
    | last hok' heq' => exact absurd heq' hne
  | last hok heq =>
    cases h' with
    | refuse hok' => exact absurd (hok'.symm.trans hok) Bool.false_ne_true
    | token hok' hne' => exact absurd heq hne'
    | last hok' heq' => rfl

theorem prefillLoop_renamed (ids : List Nat) (budget : Int) (step : SchedulerStep)
    (h : Renamed σ m m') (ha : m.Aligned) (hc : m'.Candidates prefillCandidate ids) :
    Renamed σ (prefillLoop (ids.map σ) budget m step).1 (prefillLoop ids budget m' step).1 ∧
      (prefillLoop ids budget m' step).2 = (prefillLoop (ids.map σ) budget m step).2 := by
  induction ids generalizing budget m m' step with
  | nil => exact ⟨h, rfl⟩
  | cons j rest ih =>
    by_cases hb : budget ≤ 0
    · rw [List.map_cons, prefillLoop, prefillLoop, if_pos hb, if_pos hb]
      exact ⟨h, rfl⟩
    have hpos := Int.not_le.mp hb
    obtain ⟨s', hs', -⟩ := hc.candidate j List.mem_cons_self
    obtain ⟨s, hs, rfl⟩ := h.state hs'
    obtain ⟨r, o, hslot, ho, hloop⟩ := prefillLoop_turn ha hs (rest.map σ) hpos step
    obtain ⟨r', o', hslot', ho', hloop'⟩ := prefillLoop_turn (h.aligned ha) hs' rest hpos step
    obtain ⟨-, rfl⟩ := hslot'.unique (h.slot hslot)
    rw [h.allocator] at ho'
    obtain rfl := ho'.unique (ho.atPlace j)
    rw [List.map_cons, hloop, hloop']
    exact ih _ _ (h.put hslot o) (ha.put hs ho.index) (hc.put _)

theorem decodeLoop_renamed (n : Nat) (ids : List Nat) (step : SchedulerStep)
    (h : Renamed σ m m') (ha : m.Aligned) (hc : m'.Candidates decodeCandidate ids) :
    Renamed σ (decodeLoop n (ids.map σ) m step).1 (decodeLoop n ids m' step).1 ∧
      (decodeLoop n ids m' step).2 = (decodeLoop n (ids.map σ) m step).2 := by
  induction ids generalizing m m' step with
  | nil => exact ⟨h, rfl⟩
  | cons j rest ih =>
    obtain ⟨s', hs', -⟩ := hc.candidate j List.mem_cons_self
    obtain ⟨s, hs, rfl⟩ := h.state hs'
    obtain ⟨r, o, hslot, ho, hloop⟩ := decodeLoop_turn n ha hs (rest.map σ) step
    obtain ⟨r', o', hslot', ho', hloop'⟩ := decodeLoop_turn n (h.aligned ha) hs' rest step
    obtain ⟨-, rfl⟩ := hslot'.unique (h.slot hslot)
    rw [h.allocator] at ho'
    obtain rfl := ho'.unique (ho.atPlace j)
    rw [List.map_cons, hloop, hloop']
    exact ih _ (h.put hslot o) (ha.put hs ho.index) (hc.put _)

theorem Sweep.renamed {loop : List Nat → Machine → Machine} {kind : State → Prop}
    {differ : State → State → Prop} {turn : Impl → State → SequenceResult → Outcome}
    (hsweep : Sweep loop kind differ turn) (hkind : ∀ s j, kind (s.atPlace j) ↔ kind s)
    (hturn : ∀ a s r j, turn a (s.atPlace j) r = (turn a s r).atPlace j) (ids : List Nat)
    (h : Renamed σ m m') (ha : m.Aligned) : Renamed σ (loop (ids.map σ) m) (loop ids m') := by
  induction ids generalizing m m' with
  | nil =>
    rw [List.map_nil, hsweep.nil, hsweep.nil]
    exact h
  | cons j rest ih =>
    rw [List.map_cons, hsweep.cons, hsweep.cons j]
    obtain ⟨s, r, hslot, hk, hloop⟩ | ⟨hno, hloop⟩ := hsweep.cases ha (σ j)
    · have hloop' := hsweep.put m' j _ r (h.aligned ha) (h.slot hslot) ((hkind s j).mpr hk)
      rw [hloop, hloop', h.allocator, hturn]
      exact ih (h.put hslot _) (ha.put hslot.state (hsweep.index _ _ _))
    · have hno' : ∀ s', m'.states[j]? = some s' → ¬ kind s' := by
        intro s' hs' hk
        obtain ⟨s, hs, rfl⟩ := h.state hs'
        exact hno s hs ((hkind s j).mp hk)
      rw [hloop, hsweep.skip m' j hno']
      exact ih h ha

def Machine.Ranked (m : Machine) : Prop :=
  ∀ (i j : Nat) (s t : State), m.states[i]? = some s → m.states[j]? = some t →
    s.request.priority = t.request.priority → i = j

theorem Renamed.ranked_of (h : Renamed σ m m') (hm : m.Ranked) : m'.Ranked := by
  intro i j s' t' hs' ht' heq
  obtain ⟨s, hs, rfl⟩ := h.state hs'
  obtain ⟨t, ht, rfl⟩ := h.state ht'
  exact σ.injective (hm _ _ s t hs ht heq)

theorem ranked_descending (ha : m.Aligned) (hm : m.Ranked) (candidate : State → Bool) :
    (m.ranked candidate).Pairwise (fun i j => ∃ s t, m.states[i]? = some s ∧
      m.states[j]? = some t ∧ s.request.priority > t.request.priority) := by
  rw [Machine.ranked, List.pairwise_map]
  refine (sorted_pairwise ha candidate).imp_of_mem fun {s t} hs ht hst => ?_
  obtain ⟨hs, -⟩ := (mem_sorted ha).mp hs
  obtain ⟨ht, -⟩ := (mem_sorted ha).mp ht
  refine ⟨s, t, hs, ht, ((byPriority_iff s t).mp hst).resolve_right ?_⟩
  rintro ⟨heq, hlt⟩
  exact absurd (hm _ _ s t hs ht heq) (Nat.ne_of_lt hlt)

theorem Renamed.ranked (h : Renamed σ m m') (ha : m.Aligned) (hm : m.Ranked)
    {candidate : State → Bool} (hc : ∀ s j, candidate (s.atPlace j) = candidate s) :
    m.ranked candidate = (m'.ranked candidate).map σ := by
  have ha' := h.aligned ha
  have hdescending := ranked_descending ha hm candidate
  have hdescending' : ((m'.ranked candidate).map σ).Pairwise (fun i j => ∃ s t,
      m.states[i]? = some s ∧ m.states[j]? = some t ∧
        s.request.priority > t.request.priority) := by
    rw [List.pairwise_map]
    refine (ranked_descending ha' (h.ranked_of hm) candidate).imp ?_
    rintro j k ⟨s', t', hs', ht', hgt⟩
    obtain ⟨s, hs, rfl⟩ := h.state hs'
    obtain ⟨t, ht, rfl⟩ := h.state ht'
    exact ⟨s, t, hs, ht, hgt⟩
  refine List.Perm.eq_of_pairwise ?_ hdescending hdescending' ?_
  · rintro i j - - ⟨s, t, hs, ht, hgt⟩ ⟨t', s', ht', hs', hlt⟩
    obtain rfl := Option.some.inj (hs.symm.trans hs')
    obtain rfl := Option.some.inj (ht.symm.trans ht')
    omega
  · refine (List.perm_ext_iff_of_nodup (ranked_candidates ha candidate).nodup
      ((ranked_candidates ha' candidate).nodup.map σ.injective)).mpr fun i => ?_
    rw [mem_ranked ha.index, List.mem_map]
    constructor
    · rintro ⟨s, hs, hcand⟩
      refine ⟨σ.symm i, (mem_ranked ha'.index candidate _).mpr ⟨s.atPlace (σ.symm i), ?_, ?_⟩,
        σ.apply_symm_apply i⟩
      · rw [h.states, σ.apply_symm_apply, hs, Option.map_some]
      · rw [hc, hcand]
    · rintro ⟨j, hj, rfl⟩
      obtain ⟨s', hs', hcand⟩ := (mem_ranked ha'.index candidate j).mp hj
      obtain ⟨s, hs, rfl⟩ := h.state hs'
      exact ⟨s, hs, by rwa [hc] at hcand⟩

end

end Laminar.Scheduler
