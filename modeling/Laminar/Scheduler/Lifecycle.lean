import Laminar.Kv.Sequences
import Laminar.Scheduler.Unroll

/-! The allocator's live sequences are the allocated and unfinished states, each result tells
how far its sequence came, and a run ends with every sequence released. -/
namespace Laminar.Scheduler
open Laminar.Kv Laminar.ListUpdate

structure State.Live (s : State) : Prop where
  allocated : s.promptAllocated = true
  unfinished : s.done = false

structure Told (n : Nat) (s : State) (r : SequenceResult) : Prop where
  id : r.id = s.request.id
  length : 0 ≤ s.request.maxGeneratedTokens
  remaining : 0 ≤ s.prefillRemaining
  ready : s.promptReady = true ↔ s.promptAllocated = true ∧ s.prefillRemaining = 0
  waiting : s.promptReady = false → s.generated = 0
  range : 0 ≤ s.generated ∧ s.generated ≤ s.request.maxGeneratedTokens
  tokens : r.generatedTokens = if s.done then s.generated else 0
  first : if s.generated = 0 then r.firstTokenStep = -1
    else 0 ≤ r.firstTokenStep ∧ r.firstTokenStep < n
  unfinished : s.done = false → r.status = .rejected ∧
    (0 < s.request.maxGeneratedTokens → s.generated < s.request.maxGeneratedTokens)
  finished : s.done = true → r.status ≠ .cancelled ∧
    (r.status = .completed ↔
      s.promptReady = true ∧ s.generated = s.request.maxGeneratedTokens)
  steps : r.status = .completed → 0 ≤ r.completionStep ∧ r.completionStep < n ∧
    (0 < s.request.maxGeneratedTokens → r.firstTokenStep ≤ r.completionStep)

theorem Told.mono {n k : Nat} {s : State} {r : SequenceResult} (h : Told n s r) (hk : n ≤ k) :
    Told k s r := by
  refine ⟨h.id, h.length, h.remaining, h.ready, h.waiting, h.range, h.tokens, ?_, h.unfinished,
    h.finished, fun hc => ?_⟩
  · have hfirst := h.first
    split_ifs at hfirst ⊢
    · exact hfirst
    · exact ⟨hfirst.1, by omega⟩
  · obtain ⟨h0, hn, hle⟩ := h.steps hc
    exact ⟨h0, by omega, hle⟩

def Rejected (s : State) (r : SequenceResult) : Prop := s.done = true ∧ r.status = .rejected

structure Machine.Owned (m : Machine) : Prop where
  held : ∀ (i : Nat) (s : State), m.states[i]? = some s → s.Live →
    ∃ q, m.allocator.Live s.request.id q ∧ q.generatedTokens = s.generated
  owner : ∀ id q, m.allocator.Live id q → ∃ (i : Nat) (s : State), m.states[i]? = some s ∧ s.Live ∧
    s.request.id = id
  unique : ∀ (i j : Nat) (s t : State), m.states[i]? = some s → m.states[j]? = some t →
    s.Live → t.Live → s.request.id = t.request.id → i = j

theorem prefillCandidate_iff (s : State) :
    prefillCandidate s = true ↔ s.done = false ∧ s.promptReady = false := by
  simp [prefillCandidate]

theorem decodeCandidate_iff (s : State) :
    decodeCandidate s = true ↔
      s.done = false ∧ s.promptReady = true ∧ s.generated < s.request.maxGeneratedTokens := by
  simp [decodeCandidate, and_assoc]

theorem Told.consume {n : Nat} {s : State} {r : SequenceResult} (h : Told n s r)
    (hd : s.done = false) (hr : s.promptReady = false) (budget : Int) (hit : Bool) :
    Told n (({ s with promptAllocated := true } : State).consume (min budget s.prefillRemaining))
      { r with prefixCacheHit := hit } := by
  have hremaining := h.remaining
  have hunfinished := h.unfinished hd
  refine ⟨h.id, h.length, ?_, ?_, fun _ => h.waiting hr, h.range, h.tokens, h.first,
    fun _ => hunfinished, fun hdone => ?_, fun hcompleted => ?_⟩
  · simp only [State.consume]
    omega
  · simp only [State.consume, hr]
    split_ifs with h0 <;> simp [h0]
  · exact absurd (hd.symm.trans hdone) Bool.false_ne_true
  · exact absurd (hunfinished.1.symm.trans hcompleted) (by simp)

theorem PrefillTurn.told {n : Nat} {budget : Int} {a : Impl} {s : State} {r : SequenceResult}
    {o : Outcome} (hc : prefillCandidate s = true) (h : Told n s r)
    (ho : PrefillTurn budget a s r o) : Told n o.state o.result := by
  obtain ⟨hd, hr⟩ := (prefillCandidate_iff s).mp hc
  cases ho with
  | refuse ha hok =>
    have htokens := h.tokens
    rw [hd] at htokens
    refine ⟨h.id, h.length, h.remaining, h.ready, h.waiting, h.range, ?_, h.first, nofun,
      fun _ => ⟨nofun, ?_⟩, nofun⟩
    · simpa [h.waiting hr] using htokens
    · simp [hr]
  | accept ha hok => exact h.consume hd hr budget _
  | consume ha =>
    have hs : ({ s with promptAllocated := true } : State) = s := by rw [← ha]
    have hconsume := h.consume hd hr budget r.prefixCacheHit
    rwa [hs] at hconsume

/-- The first token of a sequence is told when it comes, and never again. -/
theorem Told.token {n : Nat} {s : State} {r : SequenceResult} (h : Told (n + 1) s r) :
    0 ≤ (r.token n).firstTokenStep ∧ (r.token n).firstTokenStep ≤ n := by
  have hfirst := h.first
  unfold SequenceResult.token
  split_ifs at hfirst with h0
  · rw [if_pos (by omega)]
    exact ⟨Int.natCast_nonneg n, Int.le_refl _⟩
  · rw [if_neg (by omega)]
    exact ⟨hfirst.1, by omega⟩

theorem token_fields (r : SequenceResult) (n : Nat) :
    (r.token n).id = r.id ∧ (r.token n).status = r.status ∧
      (r.token n).generatedTokens = r.generatedTokens := by
  unfold SequenceResult.token
  split_ifs <;> exact ⟨rfl, rfl, rfl⟩

theorem DecodeTurn.told {n : Nat} {a : Impl} {s : State} {r : SequenceResult} {o : Outcome}
    (hc : decodeCandidate s = true) (h : Told (n + 1) s r) (ho : DecodeTurn n a s r o) :
    Told (n + 1) o.state o.result := by
  obtain ⟨hd, hr, hlt⟩ := (decodeCandidate_iff s).mp hc
  obtain ⟨hid, hstatus, htold⟩ := token_fields r n
  obtain ⟨hfirst, hle⟩ := h.token
  obtain ⟨hnonneg, -⟩ := h.range
  have hrejected := (h.unfinished hd).1
  have hless : (r.token n).firstTokenStep < ((n + 1 : Nat) : Int) := by omega
  have hnext : ¬ s.generated + 1 = 0 := by omega
  cases ho with
  | refuse hok =>
    refine ⟨h.id, h.length, h.remaining, h.ready, h.waiting, h.range, rfl, h.first, nofun,
      fun _ => ⟨nofun, ?_⟩, nofun⟩
    simp only [reduceCtorEq, false_iff]
    omega
  | token hok hne =>
    refine ⟨hid.trans h.id, h.length, h.remaining, h.ready, fun hw => ?_, ⟨?_, ?_⟩, ?_, ?_,
      fun _ => ⟨hstatus.trans hrejected, fun _ => ?_⟩, fun hdone => ?_, fun hcompleted => ?_⟩
    · exact absurd (hw.symm.trans hr) Bool.false_ne_true
    · simp only
      omega
    · simp only
      omega
    · rw [htold]
      exact h.tokens.trans (by rw [hd]; rfl)
    · rw [if_neg hnext]
      exact ⟨hfirst, hless⟩
    · simp only
      omega
    · exact absurd (hd.symm.trans hdone) Bool.false_ne_true
    · exact absurd ((hstatus.trans hrejected).symm.trans hcompleted) (by simp)
  | last hok heq =>
    refine ⟨hid.trans h.id, h.length, h.remaining, h.ready, fun hw => ?_, ⟨?_, ?_⟩, rfl, ?_, nofun,
      fun _ => ⟨nofun, ?_⟩, fun _ => ⟨Int.natCast_nonneg n, ?_, fun _ => hle⟩⟩
    · exact absurd (hw.symm.trans hr) Bool.false_ne_true
    · simp only
      omega
    · simp only
      omega
    · rw [if_neg hnext]
      exact ⟨hfirst, hless⟩
    · exact ⟨fun _ => ⟨hr, heq⟩, fun _ => rfl⟩
    · simp only
      omega

theorem Turn.told {n : Nat} {a : Impl} {s : State} {r : SequenceResult} {o : Outcome}
    (h : Told (n + 1) s r) (ho : Turn n a s r o) : Told (n + 1) o.state o.result := by
  cases ho with
  | prefill budget hb hc ho => exact ho.told hc h
  | decode hc ho => exact ho.told hc h
  | complete hd hr hm ho =>
    subst ho
    have hrange := h.range
    have hzero : s.generated = 0 := by omega
    have htokens := h.tokens
    rw [hd] at htokens
    refine ⟨h.id, h.length, h.remaining, h.ready, h.waiting, h.range, ?_, h.first, nofun,
      fun _ => ⟨nofun, ?_⟩, fun _ => ⟨Int.natCast_nonneg n, ?_, fun hpos => ?_⟩⟩
    · simpa [completeTurn, hzero] using htokens
    · exact ⟨fun _ => ⟨hr, hzero.trans hm.symm⟩, fun _ => rfl⟩
    · simp only [completeTurn]
      omega
    · exact absurd hm (by simp only [completeTurn] at hpos; omega)

theorem Machine.Owned.same {m : Machine} (h : m.Owned) {i : Nat} {s : State} {r : SequenceResult}
    (hslot : m.Slot i s r) {o : Outcome} (ha : o.allocator.sequences = m.allocator.sequences)
    (hlive : o.state.Live ↔ s.Live) (hrequest : o.state.request = s.request)
    (hgenerated : o.state.generated = s.generated) : (m.put i o).Owned := by
  obtain ⟨hlt, -⟩ := List.getElem?_eq_some_iff.mp hslot.state
  have hback : ∀ (j : Nat) (t : State), (m.put i o).states[j]? = some t →
      ∃ u, m.states[j]? = some u ∧ (t.Live ↔ u.Live) ∧ t.request = u.request ∧
        t.generated = u.generated := by
    intro j t ht
    simp only [Machine.put, List.getElem?_set] at ht
    split_ifs at ht with hij
    · obtain rfl := Option.some.inj ht
      exact ⟨s, hij ▸ hslot.state, hlive, hrequest, hgenerated⟩
    · exact ⟨t, ht, Iff.rfl, rfl, rfl⟩
  have hfore : ∀ (j : Nat) (u : State), m.states[j]? = some u →
      ∃ t, (m.put i o).states[j]? = some t ∧ (t.Live ↔ u.Live) ∧ t.request = u.request := by
    intro j u hu
    by_cases hij : i = j
    · subst hij
      obtain rfl := Option.some.inj (hslot.state.symm.trans hu)
      exact ⟨o.state, List.getElem?_set_self hlt, hlive, hrequest⟩
    · exact ⟨u, (List.getElem?_set_ne hij).trans hu, Iff.rfl, rfl⟩
  refine ⟨fun j t ht htl => ?_, fun id q hq => ?_, fun j k t t' ht ht' htl htl' hid => ?_⟩
  · obtain ⟨u, hu, hul, hreq, hgen⟩ := hback j t ht
    obtain ⟨q, hq, hqg⟩ := h.held j u hu (hul.mp htl)
    refine ⟨q, ?_, hqg.trans hgen.symm⟩
    rw [hreq]
    exact (congrArg (fun seqs => seqs[u.request.id]?) ha).trans hq
  · obtain ⟨j, u, hu, hul, hid⟩ := h.owner id q
      ((congrArg (fun seqs => seqs[id]?) ha).symm.trans hq)
    obtain ⟨t, ht, htl, hreq⟩ := hfore j u hu
    exact ⟨j, t, ht, htl.mpr hul, hreq ▸ hid⟩
  · obtain ⟨u, hu, hul, hreq, -⟩ := hback j t ht
    obtain ⟨u', hu', hul', hreq', -⟩ := hback k t' ht'
    exact h.unique j k u u' hu hu' (hul.mp htl) (hul'.mp htl') (by rw [← hreq, ← hreq', hid])

theorem Machine.Owned.own {m : Machine} (h : m.Owned) {i : Nat} {s : State} {r : SequenceResult}
    (hslot : m.Slot i s r) {o : Outcome} (hrequest : o.state.request = s.request)
    (hothers : ∀ k, s.request.id ≠ k →
      o.allocator.sequences[k]? = m.allocator.sequences[k]?)
    (hmine : s.Live ∨ m.allocator.sequences[s.request.id]? = none)
    (hself : (o.state.Live ∧ ∃ q, o.allocator.Live s.request.id q ∧
        q.generatedTokens = o.state.generated) ∨
      (¬ o.state.Live ∧ o.allocator.sequences[s.request.id]? = none)) : (m.put i o).Owned := by
  obtain ⟨hlt, -⟩ := List.getElem?_eq_some_iff.mp hslot.state
  have hcase : ∀ (j : Nat) (t : State), (m.put i o).states[j]? = some t →
      (j = i ∧ t = o.state) ∨ (j ≠ i ∧ m.states[j]? = some t) := by
    intro j t ht
    simp only [Machine.put, List.getElem?_set] at ht
    split_ifs at ht with hij
    · exact Or.inl ⟨hij.symm, (Option.some.inj ht).symm⟩
    · exact Or.inr ⟨Ne.symm hij, ht⟩
  -- no other live state has this id
  have hapart : ∀ (j : Nat) (t : State), j ≠ i → m.states[j]? = some t → t.Live →
      s.request.id ≠ t.request.id := by
    intro j t hne ht htl hid
    rcases hmine with hsl | hnone
    · exact hne (h.unique j i t s ht hslot.state htl hsl hid.symm)
    · obtain ⟨q, hq, -⟩ := h.held j t ht htl
      rw [hid] at hnone
      exact absurd (hnone.symm.trans hq) (by simp)
  refine ⟨fun j t ht htl => ?_, fun id q hq => ?_, fun j k t t' ht ht' htl htl' hid => ?_⟩
  · rcases hcase j t ht with ⟨rfl, rfl⟩ | ⟨hne, ht⟩
    · rcases hself with ⟨-, q, hq, hqg⟩ | ⟨hdead, -⟩
      · exact ⟨q, by rw [hrequest]; exact hq, hqg⟩
      · exact absurd htl hdead
    · obtain ⟨q, hq, hqg⟩ := h.held j t ht htl
      exact ⟨q, (hothers _ (hapart j t hne ht htl)).trans hq, hqg⟩
  · by_cases hid : s.request.id = id
    · subst hid
      rcases hself with ⟨hol, -⟩ | ⟨-, hnone⟩
      · exact ⟨i, o.state, List.getElem?_set_self hlt, hol, by rw [hrequest]⟩
      · exact absurd (hnone.symm.trans hq) (by simp)
    · obtain ⟨j, t, ht, htl, htid⟩ := h.owner id q ((hothers id hid).symm.trans hq)
      have hne : i ≠ j := by
        rintro rfl
        obtain rfl := Option.some.inj (hslot.state.symm.trans ht)
        exact hid htid
      exact ⟨j, t, (List.getElem?_set_ne hne).trans ht, htl, htid⟩
  · rcases hcase j t ht with ⟨hj, rfl⟩ | ⟨hj, hjt⟩ <;>
      rcases hcase k t' ht' with ⟨hk, rfl⟩ | ⟨hk, hkt⟩
    · exact hj.trans hk.symm
    · exact absurd (by rw [← hid, hrequest]) (hapart k t' hk hkt htl')
    · exact absurd (by rw [hid, hrequest]) (hapart j t hj hjt htl)
    · exact h.unique j k t t' hjt hkt htl htl' hid

theorem not_live_of_done {s : State} (h : s.done = true) : ¬ s.Live :=
  fun hl => Bool.false_ne_true (hl.unfinished.symm.trans h)

theorem Machine.Owned.release {m : Machine} (h : m.Owned) {i : Nat} {s : State}
    {r : SequenceResult} (hslot : m.Slot i s r) (hlive : s.Live) {o : Outcome} {a : Impl}
    (hrequest : o.state.request = s.request) (hdone : o.state.done = true)
    (ha : ∀ k, s.request.id ≠ k → a.sequences[k]? = m.allocator.sequences[k]?)
    (ho : o.allocator = a.releaseSequence s.request.id) : (m.put i o).Owned := by
  refine h.own hslot hrequest (fun k hk => ?_) (Or.inl hlive)
    (Or.inr ⟨not_live_of_done hdone, ?_⟩)
  · rw [ho, releaseSequence_getElem?, if_neg hk]
    exact ha k hk
  · rw [ho, releaseSequence_getElem?, if_pos rfl]

theorem PrefillTurn.owned {m : Machine} {i : Nat} {s : State} {r : SequenceResult} {n : Nat}
    {budget : Int} {o : Outcome} (h : m.Owned) (hslot : m.Slot i s r) (htold : Told n s r)
    (hc : prefillCandidate s = true) (ho : PrefillTurn budget m.allocator s r o) :
    (m.put i o).Owned := by
  obtain ⟨hd, hr⟩ := (prefillCandidate_iff s).mp hc
  have hadmission := allocatePrompt_outcome m.allocator s.request.id s.request.promptTokens
    s.request.prefixCacheKey s.request.prefixCacheTokens
  cases ho with
  | refuse ha hok =>
    rcases hadmission with ⟨-, hsame⟩ | ⟨hyes, -⟩
    · refine h.same hslot hsame (iff_of_false (not_live_of_done rfl) fun hl => ?_) rfl rfl
      exact Bool.false_ne_true (ha.symm.trans hl.allocated)
    · exact absurd (hok.symm.trans hyes) Bool.false_ne_true
  | accept ha hok =>
    rcases hadmission with ⟨hno, -⟩ | ⟨-, hnone, q, hset, hq⟩
    · exact absurd (hno.symm.trans hok) Bool.false_ne_true
    refine h.own hslot rfl (fun k hk => ?_) (Or.inr hnone) (Or.inl ⟨⟨rfl, hd⟩, q, ?_, ?_⟩)
    · rw [State.admission, hset, OrderedMap.getElem?_insert, if_neg hk]
    · rw [Impl.Live, State.admission, hset, OrderedMap.getElem?_insert, if_pos rfl]
    · exact hq.trans (htold.waiting hr).symm
  | consume ha => exact h.same hslot rfl ⟨fun hl => ⟨ha, hd⟩, fun hl => ⟨ha, hd⟩⟩ rfl rfl

theorem DecodeTurn.owned {m : Machine} {i : Nat} {s : State} {r : SequenceResult} {n k : Nat}
    {o : Outcome} (h : m.Owned) (hslot : m.Slot i s r) (htold : Told k s r)
    (hc : decodeCandidate s = true) (ho : DecodeTurn n m.allocator s r o) :
    (m.put i o).Owned := by
  obtain ⟨hd, hr, -⟩ := (decodeCandidate_iff s).mp hc
  have hlive : s.Live := ⟨(htold.ready.mp hr).1, hd⟩
  have hothers : ∀ k, s.request.id ≠ k → (m.allocator.appendTokens s.request.id 1).2.sequences[k]? =
      m.allocator.sequences[k]? := by
    intro k hk
    exact exec_others m.allocator (.appendTokens s.request.id 1) k (Ne.symm hk)
  cases ho with
  | refuse hok => exact h.release hslot hlive rfl rfl hothers rfl
  | token hok hne =>
    rcases appendTokens_outcome m.allocator s.request.id Int.one_pos with ⟨hno, -⟩ | ⟨-, hyes⟩
    · exact absurd (hno.symm.trans hok) Bool.false_ne_true
    obtain ⟨q, ids, hq, hset⟩ := hyes
    obtain ⟨q', hq', hgenerated⟩ := h.held i s hslot.state hlive
    obtain rfl := Option.some.inj (hq.symm.trans hq')
    refine h.own hslot rfl hothers (Or.inl hlive)
      (Or.inl ⟨⟨hlive.allocated, hd⟩, q.extend (q.generatedTokens + 1) ids, ?_, ?_⟩)
    · rw [Impl.Live, hset, OrderedMap.getElem?_insert, if_pos rfl]
    · exact congrArg (· + 1) hgenerated
  | last hok heq => exact h.release hslot hlive rfl rfl hothers rfl

theorem Turn.owned {m : Machine} {i : Nat} {s : State} {r : SequenceResult} {n k : Nat}
    {o : Outcome} (h : m.Owned) (hslot : m.Slot i s r) (htold : Told k s r)
    (ho : Turn n m.allocator s r o) : (m.put i o).Owned := by
  cases ho with
  | prefill budget hb hc ho => exact ho.owned h hslot htold hc
  | decode hc ho => exact ho.owned h hslot htold hc
  | complete hd hr hm ho =>
    subst ho
    exact h.release hslot ⟨(htold.ready.mp hr).1, hd⟩ rfl rfl (fun _ _ => rfl) rfl

theorem Turn.request {n : Nat} {a : Impl} {s : State} {r : SequenceResult} {o : Outcome}
    (h : Turn n a s r o) : o.state.request = s.request := by
  cases h with
  | prefill budget hb hc h => cases h <;> rfl
  | decode hc h => cases h <;> rfl
  | complete hd hr hm ho => rw [ho]; rfl

structure Tracked (requests : List SequenceRequest) (n : Nat) (m : Machine) : Prop where
  serves : m.states.map State.request = requests.map SequenceRequest.clamped
  told : ∀ (i : Nat) (s : State) (r : SequenceResult), m.Slot i s r → Told n s r
  owned : m.Owned

theorem Tracked.request {requests : List SequenceRequest} {n : Nat} {m : Machine}
    (h : Tracked requests n m) {i : Nat} {s : State}
    (hs : m.states[i]? = some s) : ∃ q, requests[i]? = some q ∧ s.request = q.clamped := by
  have hi : (m.states.map State.request)[i]? = some s.request := by
    rw [List.getElem?_map, hs, Option.map_some]
  rw [h.serves, List.getElem?_map, Option.map_eq_some_iff] at hi
  obtain ⟨q, hq, hqs⟩ := hi
  exact ⟨q, hq, hqs.symm⟩

def DistinctIds (requests : List SequenceRequest) : Prop :=
  (requests.map SequenceRequest.id).Nodup

theorem Tracked.id {requests : List SequenceRequest} {n : Nat} {m : Machine}
    (h : Tracked requests n m) {i : Nat} {s : State} (hs : m.states[i]? = some s) :
    (requests.map SequenceRequest.id)[i]? = some s.request.id := by
  obtain ⟨q, hq, hsq⟩ := h.request hs
  rw [List.getElem?_map, hq, Option.map_some, hsq]
  rfl

theorem Tracked.apart {requests : List SequenceRequest} (hdistinct : DistinctIds requests)
    {n : Nat} {m : Machine} (h : Tracked requests n m) {i j : Nat} {s t : State}
    (hs : m.states[i]? = some s) (ht : m.states[j]? = some t) (hid : s.request.id = t.request.id) :
    i = j := by
  have hi := h.id hs
  have hj := h.id ht
  obtain ⟨hlt, -⟩ := List.getElem?_eq_some_iff.mp hi
  exact (List.getElem?_inj hlt hdistinct).mp (by rw [hi, hj, hid])

theorem Tracked.next {requests : List SequenceRequest} {n : Nat} {m : Machine}
    (h : Tracked requests n m) : Tracked requests (n + 1) m :=
  ⟨h.serves, fun i s r hslot => (h.told i s r hslot).mono (Nat.le_succ n), h.owned⟩

theorem Tracked.length {requests : List SequenceRequest} {n : Nat} {m : Machine}
    (h : Tracked requests n m) : m.states.length = requests.length := by
  simpa only [List.length_map] using congrArg List.length h.serves

theorem Tracked.turn {requests : List SequenceRequest} {n : Nat} {m : Machine}
    (h : Tracked requests (n + 1) m) {i : Nat} {s : State} {r : SequenceResult} {o : Outcome}
    (hslot : m.Slot i s r) (ho : Turn n m.allocator s r o) :
    Tracked requests (n + 1) (m.put i o) := by
  refine ⟨?_, fun j t u htu => ?_, ho.owned h.owned hslot (h.told i s r hslot)⟩
  · obtain ⟨hlt, hs⟩ := List.getElem?_eq_some_iff.mp hslot.state
    have hi : (m.states.map State.request)[i]? = some s.request := by
      rw [List.getElem?_map, hslot.state, Option.map_some]
    rw [← h.serves, Machine.put, List.map_set, ho.request]
    exact set_self hi
  · rcases (hslot.put o).mp htu with ⟨-, rfl, rfl⟩ | ⟨-, htu⟩
    · exact ho.told (h.told i s r hslot)
    · exact h.told j t u htu

theorem Tracked.prefilled {requests : List SequenceRequest} {n : Nat} {m : Machine}
    (h : Tracked requests n m) (config : ContinuousBatcherConfig) (ha : m.Aligned) :
    Tracked requests (n + 1) (m.prefilled config n).1 :=
  (prefillLoop_turns (n := n) (motive := fun m _ => Tracked requests (n + 1) m)
    (fun _ _ _ _ _ _ h _ hslot ho => h.turn hslot ho) _ _ ha (ranked_candidates ha prefillCandidate)
    h.next).2

theorem Tracked.decoded {requests : List SequenceRequest} {n : Nat} {m : Machine}
    (h : Tracked requests n m) (config : ContinuousBatcherConfig) (ha : m.Aligned) :
    Tracked requests (n + 1) (m.decoded config n).1 :=
  (decodeLoop_turns (n := n) (motive := fun m _ => Tracked requests (n + 1) m)
    (fun _ _ _ _ _ _ h _ hslot ho => h.turn hslot ho) _ (prefilled_aligned config n ha)
    (decodeOrder_candidates config n ha) (h.prefilled config ha)).2

theorem start_tracked (config : ContinuousBatcherConfig) (requests : List SequenceRequest) :
    Tracked requests 0 (Machine.start config requests) := by
  have hlive : ∀ (i : Nat) (s : State), (Machine.start config requests).states[i]? = some s →
      ¬ s.Live := by
    intro i s hs hl
    obtain ⟨r, rfl⟩ := start_states config requests i s hs
    exact Bool.false_ne_true hl.allocated
  refine ⟨?_, fun i s r hslot => ?_, ⟨fun i s hs hl => absurd hl (hlive i s hs), ?_,
    fun i j s t hs ht hl => absurd hl (hlive i s hs)⟩⟩
  · rw [Machine.start, List.map_map]
    exact List.zipIdx_map_fst 0 _
  · obtain ⟨hs, hr⟩ := hslot
    simp only [Machine.start, List.getElem?_map, Option.map_eq_some_iff, List.getElem?_zipIdx,
      Nat.zero_add] at hs hr
    obtain ⟨-, ⟨_, ⟨q, hq, rfl⟩, rfl⟩, rfl⟩ := hs
    obtain ⟨_, ⟨q', hq', rfl⟩, rfl⟩ := hr
    obtain rfl := Option.some.inj (hq.symm.trans hq')
    have hp : 0 ≤ q.clamped.promptTokens := by simp [SequenceRequest.clamped]
    have hm : 0 ≤ q.clamped.maxGeneratedTokens := by simp [SequenceRequest.clamped]
    exact ⟨rfl, hm, hp, by simp [queuedState], fun _ => rfl, ⟨Int.le_refl 0, hm⟩, rfl, rfl,
      fun _ => ⟨rfl, id⟩, by simp [queuedState],
      by simp [queuedResult]⟩
  · intro id q hq
    exact absurd hq (by simp [Machine.start, Impl.new, Impl.Live])

theorem machineAt_tracked (config : ContinuousBatcherConfig) (requests : List SequenceRequest)
    (n : Nat) : (machineAt config requests n).Aligned ∧
      Tracked requests n (machineAt config requests n) :=
  machineAt_invariant (motive := fun n m _ => Tracked requests (n + 1) m) config requests
    (start_tracked _ requests) (fun _ _ _ _ h => h.next)
    (fun _ _ _ _ _ _ _ h _ hslot ho => h.turn hslot ho) (fun _ _ _ h => h) n

/-- A ready sequence with nothing to generate does not outlast the last loop of a step. -/
theorem completeLoop_settles (n : Nat) (ids : List Nat) {m : Machine} (ha : m.Aligned)
    (h : ∀ (i : Nat) (s : State), m.states[i]? = some s → i ∉ ids → ¬ readyEmpty s)
    (i : Nat) (s : State) (hs : (completeLoop n ids m).states[i]? = some s) : ¬ readyEmpty s := by
  induction ids generalizing m with
  | nil => exact h i s hs (List.not_mem_nil)
  | cons j rest ih =>
    cases hj : m.states[j]? with
    | none =>
      simp only [completeLoop, hj] at hs
      refine ih ha (fun k t ht hk => h k t ht fun hmem => ?_) hs
      rcases List.mem_cons.mp hmem with rfl | hmem
      · exact absurd (hj.symm.trans ht) (by simp)
      · exact hk hmem
    | some u =>
      rcases completeLoop_turn n ha hj rest with ⟨hd, hr, hm, r, hslot, hloop⟩ | ⟨hno, hloop⟩
      · rw [hloop] at hs
        refine ih (ha.put hj rfl) (fun k t ht hk => ?_) hs
        simp only [Machine.put, List.getElem?_set] at ht
        split_ifs at ht with hjk
        · obtain rfl := Option.some.inj ht
          exact fun hempty => Bool.false_ne_true (hempty.1.1.symm)
        · refine h k t ht fun hmem => ?_
          rcases List.mem_cons.mp hmem with rfl | hmem
          · exact hjk rfl
          · exact hk hmem
      · rw [hloop] at hs
        refine ih ha (fun k t ht hk hempty => ?_) hs
        by_cases hjk : k = j
        · subst hjk
          obtain rfl := Option.some.inj (hj.symm.trans ht)
          exact hno ⟨hempty.1.1, hempty.1.2, hempty.2⟩
        · refine h k t ht (fun hmem => ?_) hempty
          rcases List.mem_cons.mp hmem with rfl | hmem
          · exact hjk rfl
          · exact hk hmem

theorem machineAt_settled (config : ContinuousBatcherConfig) (requests : List SequenceRequest)
    (n : Nat) (i : Nat) (s : State) (hs : (machineAt config requests n).states[i]? = some s) :
    ¬ readyEmpty s := by
  cases n with
  | zero =>
    obtain ⟨r, rfl⟩ := start_states _ requests i s hs
    exact fun hempty => Bool.false_ne_true hempty.1.2
  | succ n =>
    obtain ⟨ha, -⟩ := machineAt_tracked config requests n
    have hda := decoded_aligned (continuousBatcher config) n ha
    refine completeLoop_settles n _ hda (fun j t ht hj => ?_) i s hs
    obtain ⟨hlt, -⟩ := List.getElem?_eq_some_iff.mp ht
    exact absurd (List.mem_range.mpr hlt) hj

def SequenceResult.cancel (r : SequenceResult) : SequenceResult :=
  { r with status := .cancelled, message := "cancelled" }

/-- The cancellation ends every unfinished sequence, and leaves the finished ones alone. -/
theorem cancelLoop_slot (ids : List Nat) (hn : ids.Nodup) {m : Machine} (ha : m.Aligned) {i : Nat}
    {s : State} {r : SequenceResult} (h : m.Slot i s r) :
    (cancelLoop ids m).Slot i (if i ∈ ids then { s with done := true } else s)
      (if i ∈ ids ∧ s.done = false then r.cancel else r) := by
  induction ids generalizing m s r with
  | nil => simpa [cancelLoop] using h
  | cons j rest ih =>
    obtain ⟨hj, hrest⟩ := List.nodup_cons.mp hn
    by_cases hij : i = j
    · subst hij
      rcases cancelLoop_turn ha h.state rest with ⟨hd, u, hslot, hloop⟩ | ⟨hd, hloop⟩
      · obtain ⟨-, rfl⟩ := hslot.unique h
        have hput := (hslot.put (cancelTurn m.allocator s u)).mpr (Or.inl ⟨rfl, rfl, rfl⟩)
        have hlater := ih hrest (ha.put h.state rfl) hput
        rw [hloop]
        simpa [hj, hd, cancelTurn, SequenceResult.cancel] using hlater
      · have hlater := ih hrest ha h
        have hs : ({ s with done := true } : State) = s := by rw [← hd]
        rw [hloop]
        simpa [hj, hd, hs] using hlater
    · have hmem : i ∈ j :: rest ↔ i ∈ rest := by simp [hij]
      simp only [hmem]
      cases hu : m.states[j]? with
      | none =>
        simp only [cancelLoop, hu]
        exact ih hrest ha h
      | some u =>
        rcases cancelLoop_turn ha hu rest with ⟨hd, v, hslot, hloop⟩ | ⟨-, hloop⟩
        · rw [hloop]
          exact ih hrest (ha.put hu rfl) ((hslot.put _).mpr (Or.inr ⟨hij, h⟩))
        · rw [hloop]
          exact ih hrest ha h

theorem cancel_slot {m : Machine} (ha : m.Aligned) {i : Nat} {s : State} {r : SequenceResult}
    (h : m.Slot i s r) :
    m.cancel.Slot i { s with done := true } (if s.done = false then r.cancel else r) := by
  obtain ⟨hlt, -⟩ := List.getElem?_eq_some_iff.mp h.state
  have hslot := cancelLoop_slot (List.range m.states.length) List.nodup_range ha h
  simpa [List.mem_range.mpr hlt, Machine.cancel] using hslot

/-- Whatever is still held belongs to a live state, also after ids that name no live state. -/
theorem cancel_owner {m : Machine} (ha : m.Aligned) (h : m.Owned) (id : Bytes) (q : Sequence)
    (hq : m.cancel.allocator.Live id q) :
    ∃ (i : Nat) (s : State), m.cancel.states[i]? = some s ∧ s.Live ∧ s.request.id = id := by
  refine (cancelLoop_turns (motive := fun m => ∀ id q, m.allocator.Live id q →
    ∃ (i : Nat) (s : State), m.states[i]? = some s ∧ s.Live ∧ s.request.id = id) ?_ _ ha
    h.owner).2 id q hq
  intro m i s r howner ha hslot hd id q hq
  simp only [Machine.put, cancelTurn, Impl.Live, releaseSequence_getElem?] at hq
  split_ifs at hq with hid
  obtain ⟨j, t, ht, hl, htid⟩ := howner id q hq
  have hne : i ≠ j := by
    rintro rfl
    obtain rfl := Option.some.inj (hslot.state.symm.trans ht)
    exact hid htid
  exact ⟨j, t, (List.getElem?_set_ne hne).trans ht, hl, htid⟩

theorem activeSequences_zero {a : Impl} (h : ∀ id q, ¬ a.Live id q) :
    a.snapshotStats.activeSequences = 0 := by
  have hempty : a.sequences = ∅ := by
    apply Std.ExtTreeMap.ext_getElem?
    intro id
    cases hq : a.sequences[id]? with
    | none => simp
    | some q => exact absurd hq (h id q)
  simp [Impl.snapshotStats, hempty]

/-- The live sequences of the allocator are the live states, one state to an id, with as many
generated tokens as the state counts. -/
def Machine.MatchesAllocator (m : Machine) : Prop :=
  (∀ (i : Nat) (s : State), m.states[i]? = some s → s.Live →
    ∃ q, m.allocator.sequences[s.request.id]? = some q ∧ q.generatedTokens = s.generated) ∧
  ∀ (id : Bytes) (q : Sequence), m.allocator.sequences[id]? = some q →
    ∃! i : Nat, ∃ s : State, m.states[i]? = some s ∧ s.Live ∧ s.request.id = id

theorem Machine.Owned.matches {m : Machine} (h : m.Owned) : m.MatchesAllocator := by
  refine ⟨h.held, fun id q hq => ?_⟩
  obtain ⟨i, s, hs, hl, hid⟩ := h.owner id q hq
  refine ⟨i, ⟨s, hs, hl, hid⟩, ?_⟩
  rintro j ⟨t, ht, htl, htid⟩
  exact h.unique j i t s ht hs htl hl (htid.trans hid.symm)

theorem done_of_idle {m : Machine} (h : m.unfinishedCount = 0) {i : Nat} {s : State}
    (hs : m.states[i]? = some s) : s.done = true := by
  have hnone := List.countP_eq_zero.mp h s (List.mem_of_getElem? hs)
  simpa using hnone

structure Settled (n : Nat) (s : State) (r : SequenceResult) : Prop where
  done : s.done = true
  id : r.id = s.request.id
  ready : s.promptReady = true ↔ s.promptAllocated = true ∧ s.prefillRemaining = 0
  completed : r.status = .completed ↔
    s.promptReady = true ∧ s.generated = s.request.maxGeneratedTokens
  steps : r.status = .completed → 0 ≤ r.completionStep ∧ r.completionStep < n ∧
    (0 < s.request.maxGeneratedTokens →
      0 ≤ r.firstTokenStep ∧ r.firstTokenStep ≤ r.completionStep)

theorem Told.settled {n : Nat} {s : State} {r : SequenceResult} (h : Told n s r)
    (hd : s.done = true) : Settled n s r := by
  obtain ⟨-, hcompleted⟩ := h.finished hd
  refine ⟨hd, h.id, h.ready, hcompleted, fun hc => ?_⟩
  obtain ⟨h0, hn, hle⟩ := h.steps hc
  refine ⟨h0, hn, fun hpos => ⟨?_, hle hpos⟩⟩
  obtain ⟨-, hgenerated⟩ := hcompleted.mp hc
  have hfirst := h.first
  rw [if_neg (by omega)] at hfirst
  exact hfirst.1

/-- A cancelled sequence was not complete. -/
theorem Told.settled_cancel {n : Nat} {s : State} {r : SequenceResult} (h : Told n s r)
    (hd : s.done = false) (hempty : ¬ readyEmpty s) :
    Settled n { s with done := true } r.cancel := by
  refine ⟨rfl, h.id, h.ready, ⟨nofun, ?_⟩, nofun⟩
  rintro ⟨hr, hgenerated⟩
  have hlength := h.length
  have hlt := (h.unfinished hd).2
  have hzero : s.request.maxGeneratedTokens ≠ 0 := fun hm => hempty ⟨⟨hd, hr⟩, hm⟩
  simp only at hgenerated
  omega

theorem Ended.slot {config : ContinuousBatcherConfig} {requests : List SequenceRequest}
    {isCancelled : Nat → Bool} {n : Nat}
    {out : Machine × List SchedulerStep × ContinuousBatchingStats}
    (h : Ended config requests isCancelled n out) {i : Nat} {s : State} {r : SequenceResult}
    (hslot : (machineAt config requests n).Slot i s r) :
    ∃ r', out.1.Slot i { s with done := true } r' ∧
      ((s.done = true ∧ r' = r) ∨ (s.done = false ∧ isCancelled n = true ∧ r' = r.cancel)) := by
  have hself : s.done = true → ({ s with done := true } : State) = s := fun hd => by rw [← hd]
  obtain ⟨ha, -⟩ := machineAt_tracked config requests n
  obtain ⟨hidle, hout⟩ | ⟨-, hcancel, hout⟩ := h.last
  · have hd := done_of_idle hidle hslot.state
    rw [hout, hself hd]
    exact ⟨r, hslot, Or.inl ⟨hd, rfl⟩⟩
  · rw [hout]
    refine ⟨_, cancel_slot ha hslot, ?_⟩
    cases hd : s.done with
    | true => exact Or.inl ⟨rfl, rfl⟩
    | false => exact Or.inr ⟨rfl, hcancel, rfl⟩

theorem machineAt_slot (config : ContinuousBatcherConfig) {requests : List SequenceRequest}
    {i : Nat} {q : SequenceRequest} (hq : requests[i]? = some q) (n : Nat) :
    ∃ s r, (machineAt config requests n).Slot i s r ∧ s.request = q.clamped := by
  obtain ⟨ha, htracked⟩ := machineAt_tracked config requests n
  have hrequest : (machineAt config requests n).states[i]?.map State.request = some q.clamped := by
    rw [← List.getElem?_map, htracked.serves, List.getElem?_map, hq, Option.map_some]
  obtain ⟨s, hs, hsq⟩ := Option.map_eq_some_iff.mp hrequest
  obtain ⟨r, hslot⟩ := ha.slot hs
  exact ⟨s, r, hslot, hsq⟩

/-- When the loop has ended every sequence is settled, and cancelled only by a poll. -/
theorem Ended.settled {config : ContinuousBatcherConfig} {requests : List SequenceRequest}
    {isCancelled : Nat → Bool} {n : Nat}
    {out : Machine × List SchedulerStep × ContinuousBatchingStats}
    (h : Ended config requests isCancelled n out) {i : Nat} {q : SequenceRequest}
    (hq : requests[i]? = some q) :
    ∃ s r, out.1.Slot i s r ∧ s.request = q.clamped ∧ Settled n s r ∧
      (r.status = .cancelled → isCancelled n = true) := by
  obtain ⟨s, r, hslot, hsq⟩ := machineAt_slot config hq n
  have htold := (machineAt_tracked config requests n).2.told i s r hslot
  obtain ⟨r', hslot', ⟨hd, rfl⟩ | ⟨hd, hcancel, rfl⟩⟩ := h.slot hslot
  · have hself : ({ s with done := true } : State) = s := by rw [← hd]
    rw [hself] at hslot'
    exact ⟨s, r', hslot', hsq, htold.settled hd, fun hc => absurd hc (htold.finished hd).1⟩
  · exact ⟨_, _, hslot', hsq,
      htold.settled_cancel hd (machineAt_settled config requests n i s hslot.state),
      fun _ => hcancel⟩

theorem Ended.aligned {config : ContinuousBatcherConfig} {requests : List SequenceRequest}
    {isCancelled : Nat → Bool} {n : Nat}
    {out : Machine × List SchedulerStep × ContinuousBatchingStats}
    (h : Ended config requests isCancelled n out) :
    out.1.Aligned ∧ out.1.states.length = requests.length := by
  obtain ⟨ha, htracked⟩ := machineAt_tracked config requests n
  have hlength := htracked.length
  obtain ⟨-, hout⟩ | ⟨-, -, hout⟩ := h.last
  · rw [hout]
    exact ⟨ha, hlength⟩
  · have hcancelled := (cancelLoop_turns
      (motive := fun m => m.states.length = requests.length)
      (fun m i s r hm _ _ _ => (List.length_set).trans hm)
      (List.range (machineAt config requests n).states.length) ha hlength)
    rw [hout]
    exact hcancelled

theorem Ended.released {config : ContinuousBatcherConfig} {requests : List SequenceRequest}
    {isCancelled : Nat → Bool} {n : Nat}
    {out : Machine × List SchedulerStep × ContinuousBatchingStats}
    (h : Ended config requests isCancelled n out) (id : Bytes) (q : Sequence) :
    ¬ out.1.allocator.Live id q := by
  intro hq
  obtain ⟨ha, htracked⟩ := machineAt_tracked config requests n
  obtain ⟨haligned, hlength⟩ := h.aligned
  have howner : ∃ (i : Nat) (s : State), out.1.states[i]? = some s ∧ s.Live ∧
      s.request.id = id := by
    obtain ⟨-, hout⟩ | ⟨-, -, hout⟩ := h.last
    · rw [hout] at hq ⊢
      exact htracked.owned.owner id q hq
    · rw [hout] at hq ⊢
      exact cancel_owner ha htracked.owned id q hq
  obtain ⟨i, s, hs, hl, -⟩ := howner
  obtain ⟨hlt, -⟩ := List.getElem?_eq_some_iff.mp hs
  have hi : i < requests.length := hlength ▸ hlt
  obtain ⟨t, r, hslot, -, hsettled, -⟩ := h.settled (List.getElem?_eq_getElem hi)
  obtain rfl := Option.some.inj (hs.symm.trans hslot.state)
  exact not_live_of_done hsettled.done hl

/-- At every step the allocator holds the live states and nothing else; when `Run` returns no
sequence is live, and the entry of each request tells how its sequence ended. -/
theorem run_lifecycle (config : ContinuousBatcherConfig) (requests : List SequenceRequest)
    (isCancelled : Nat → Bool) :
    (∀ n, (machineAt config requests n).MatchesAllocator) ∧
    ∃ n out, Ended config requests isCancelled n out ∧
      (∀ fuel, workBound requests ≤ fuel →
        run config requests isCancelled fuel = some (finish out)) ∧
      (finish out).stats.totalSteps = n ∧
      (∀ id : Bytes, out.1.allocator.sequences[id]? = none) ∧
      (finish out).stats.kvCache.activeSequences = 0 ∧
      (finish out).results.length = requests.length ∧
      ∀ (i : Nat) (q : SequenceRequest), requests[i]? = some q →
        ∃ s r, out.1.states[i]? = some s ∧ (finish out).results[i]? = some r ∧
          s.request = q.clamped ∧ s.done = true ∧ r.id = q.id ∧
          (r.status = .cancelled → isCancelled n = true) ∧
          (s.promptReady = true ↔ s.promptAllocated = true ∧ s.prefillRemaining = 0) ∧
          (r.status = .completed ↔
            s.promptReady = true ∧ s.generated = max 0 q.maxGeneratedTokens) ∧
          (r.status = .completed → 0 ≤ r.completionStep ∧ r.completionStep < n ∧
            (0 < max 0 q.maxGeneratedTokens →
              0 ≤ r.firstTokenStep ∧ r.firstTokenStep ≤ r.completionStep)) := by
  refine ⟨fun n => (machineAt_tracked config requests n).2.owned.matches, ?_⟩
  obtain ⟨n, out, hended, hout⟩ := loop_terminates config requests isCancelled
  have hreleased := hended.released
  obtain ⟨haligned, hlength⟩ := hended.aligned
  refine ⟨n, out, hended, fun fuel hfuel => ?_, ?_, fun id => ?_, activeSequences_zero hreleased,
    haligned.length.trans hlength, fun i q hq => ?_⟩
  · rw [run_eq, hout fuel hfuel, Option.map_some]
  · rw [finish, hended.steps, List.length_map, List.length_range]
  · exact Option.eq_none_iff_forall_not_mem.mpr (hreleased id)
  · obtain ⟨s, r, hslot, hsq, hsettled, hcancel⟩ := hended.settled hq
    obtain ⟨hdone, hid, hready, hcompleted, hsteps⟩ := hsettled
    rw [hsq] at hid hcompleted hsteps
    exact ⟨s, r, hslot.state, hslot.result, hsq, hdone, hid, hcancel, hready, hcompleted, hsteps⟩

end Laminar.Scheduler
