import Laminar.Kv.Prefixes
import Laminar.Scheduler.Lifecycle

/-! Runs in which every cached prefix has the same number of tokens: whose blocks a sequence
shares, told from the history of the prompts that were admitted. -/
namespace Laminar.Scheduler
open Laminar.Kv

/-- A prompt that got its blocks: the place of its request, the sequence it began with, and
whether it found its prefix in the cache. -/
structure Admission where
  index : Nat
  sequence : Sequence
  cacheHit : Bool

/-- The turns of a run up to some moment of step `n`, with the prompts admitted so far. -/
inductive History (config : ContinuousBatcherConfig) (requests : List SequenceRequest) :
    Nat → List Admission → Machine → Prop where
  | start : History config requests 0 [] (Machine.start (continuousBatcher config) requests)
  | next {n : Nat} {log : List Admission} {m : Machine} (h : History config requests n log m) :
      History config requests (n + 1) log m
  | turn {n i : Nat} {log : List Admission} {m : Machine} {s : State} {r : SequenceResult}
      {o : Outcome} (h : History config requests n log m) (hslot : m.Slot i s r)
      (ho : Turn n m.allocator s r o) (hsame : o.state.promptAllocated = s.promptAllocated) :
      History config requests n log (m.put i o)
  | admitted {n i : Nat} {log : List Admission} {m : Machine} {s : State} {r : SequenceResult}
      {o : Outcome} {q : Sequence} (h : History config requests n log m) (hslot : m.Slot i s r)
      (ho : Turn n m.allocator s r o) (hnew : s.promptAllocated = false)
      (hallocated : o.state.promptAllocated = true) (hq : o.allocator.Live s.request.id q) :
      History config requests n (log ++ [⟨i, q, o.result.prefixCacheHit⟩]) (m.put i o)

/-- The same with the cancellation that may end the run. -/
inductive Ending (config : ContinuousBatcherConfig) (requests : List SequenceRequest) :
    List Admission → Machine → Prop where
  | stop {n : Nat} {log : List Admission} {m : Machine} (h : History config requests n log m) :
      Ending config requests log m
  | cancel {i : Nat} {log : List Admission} {m : Machine} {s : State} {r : SequenceResult}
      (h : Ending config requests log m) (hslot : m.Slot i s r) (hd : s.done = false) :
      Ending config requests log (m.put i (cancelTurn m.allocator s r))

theorem History.tracked {config : ContinuousBatcherConfig} {requests : List SequenceRequest}
    {n : Nat} {log : List Admission} {m : Machine} (h : History config requests n log m) :
    m.Aligned ∧ Tracked requests (n + 1) m := by
  induction h with
  | start => exact ⟨start_aligned _ _, (start_tracked _ requests).next⟩
  | next h ih => exact ⟨ih.1, ih.2.next⟩
  | turn h hslot ho hsame ih => exact ⟨ih.1.put hslot.state ho.index, ih.2.turn hslot ho⟩
  | admitted h hslot ho hnew hallocated hq ih =>
    exact ⟨ih.1.put hslot.state ho.index, ih.2.turn hslot ho⟩

def keyAt (requests : List SequenceRequest) (i : Nat) : Bytes :=
  (requests[i]?.map SequenceRequest.prefixCacheKey).getD []

theorem Tracked.keyAt {requests : List SequenceRequest} {n : Nat} {m : Machine}
    (h : Tracked requests n m) {i : Nat} {s : State} (hs : m.states[i]? = some s) :
    keyAt requests i = s.request.prefixCacheKey := by
  obtain ⟨q, hq, hsq⟩ := h.request hs
  rw [Scheduler.keyAt, hq, hsq]
  rfl

def Uniform (k : Int) (requests : List SequenceRequest) : Prop :=
  ∀ q ∈ requests, q.prefixCacheKey ≠ [] →
    q.prefixCacheTokens = k ∧ 0 ≤ k ∧ k ≤ q.promptTokens

structure Shelved (k : Int) (requests : List SequenceRequest) (log : List Admission)
    (m : Machine) : Prop where
  ledger : Ledger m.allocator []
  tagged : ∀ (i : Nat) (s : State) (q : Sequence), m.states[i]? = some s → s.Live →
    m.allocator.Live s.request.id q →
      (s.request.prefixCacheKey = [] → q.sharedPart = []) ∧
        Tagged m.allocator s.request.prefixCacheKey q.sharedPart
  entries : ∀ key e, m.allocator.Cached key e → e.tokenCount = k ∧
    ∃ a ∈ log, a.cacheHit = false ∧ keyAt requests a.index = key ∧
      a.sequence.sharedPart = e.blockIds
  hits : ∀ (t : Nat) (a : Admission), log[t]? = some a → a.cacheHit = true →
    keyAt requests a.index ≠ [] ∧ ∃ u b, u < t ∧ log[u]? = some b ∧ b.cacheHit = false ∧
      keyAt requests b.index = keyAt requests a.index ∧
      b.sequence.sharedPart = a.sequence.sharedPart
  reported : ∀ (i : Nat) (s : State) (r : SequenceResult), m.Slot i s r →
    r.prefixCacheHit = true → ∃ a ∈ log, a.index = i ∧ a.cacheHit = true

section
variable {k : Int} {requests : List SequenceRequest} {log : List Admission} {m : Machine} {i : Nat}
  {s : State} {r : SequenceResult} {o : Outcome}

theorem Shelved.quiet (h : Shelved k requests log m) (hslot : m.Slot i s r)
    (hledger : Ledger o.allocator []) (hkeeps : KeepsTags m.allocator o.allocator)
    (hback : ∀ id q, o.allocator.Live id q →
      ∃ p, m.allocator.Live id p ∧ q.sharedPart = p.sharedPart)
    (hcached : ∀ key e, o.allocator.Cached key e → m.allocator.Cached key e)
    (hlive : o.state.Live → s.Live) (hrequest : o.state.request = s.request)
    (hhit : o.result.prefixCacheHit = r.prefixCacheHit) : Shelved k requests log (m.put i o) := by
  refine ⟨hledger, fun j t q ht htl hq => ?_, fun key e he => h.entries key e (hcached key e he),
    h.hits, fun j t u htu hu => ?_⟩
  · obtain ⟨u, hu, hul, hreq⟩ : ∃ u, m.states[j]? = some u ∧ u.Live ∧ t.request = u.request := by
      simp only [Machine.put, List.getElem?_set] at ht
      split_ifs at ht with hij
      · obtain rfl := Option.some.inj ht
        exact ⟨s, hij ▸ hslot.state, hlive htl, hrequest⟩
      · exact ⟨t, ht, htl, rfl⟩
    obtain ⟨p, hp, hshared⟩ := hback _ q hq
    rw [hreq] at hp ⊢
    obtain ⟨hnil, htag⟩ := h.tagged j u p hu hul hp
    rw [hshared]
    refine ⟨hnil, ?_⟩
    by_cases hkey : u.request.prefixCacheKey = []
    · rw [hnil hkey]
      exact fun i hi => absurd hi (by simp)
    · exact hkeeps.tagged hp hkey (fun i hi => (p.mem_blockIds i).mpr (Or.inl hi)) htag
  · rcases (hslot.put o).mp htu with ⟨rfl, -, rfl⟩ | ⟨-, htu⟩
    · exact h.reported j s r hslot (hhit ▸ hu)
    · exact h.reported j t u htu hu

theorem Shelved.decode (h : Shelved k requests log m) (hslot : m.Slot i s r) {n : Nat}
    (ha : s.promptAllocated = true) (hd : s.done = false) (ho : DecodeTurn n m.allocator s r o) :
    Shelved k requests log (m.put i o) := by
  have happend := h.ledger.appendTokens s.request.id 1
  have hkeeps := appendTokens_keepsTags h.ledger s.request.id 1
  have hlive : ∀ id q, (m.allocator.appendTokens s.request.id 1).2.Live id q →
      ∃ p, m.allocator.Live id p ∧ q.sharedPart = p.sharedPart :=
    fun id q hq => appendTokens_live h.ledger s.request.id 1 hq
  have hcached : ∀ key e, (m.allocator.appendTokens s.request.id 1).2.Cached key e →
      m.allocator.Cached key e := fun key e he => appendTokens_cached h.ledger s.request.id 1 he
  have hrelease := hkeeps.release happend s.request.id
  have hreleased : ∀ id q, ((m.allocator.appendTokens s.request.id 1).2.releaseSequence
      s.request.id).Live id q → ∃ p, m.allocator.Live id p ∧ q.sharedPart = p.sharedPart :=
    fun id q hq => hlive id q (releaseSequence_live _ _ hq)
  have htoken : (r.token n).prefixCacheHit = r.prefixCacheHit := by
    unfold SequenceResult.token
    split_ifs <;> rfl
  cases ho with
  | refuse hok =>
    exact h.quiet hslot (happend.releaseSequence _) hrelease hreleased
      (fun key e he => hcached key e (releaseSequence_cached _ _ he)) (fun _ => ⟨ha, hd⟩) rfl rfl
  | token hok hne => exact h.quiet hslot happend hkeeps hlive hcached (fun _ => ⟨ha, hd⟩) rfl htoken
  | last hok heq =>
    exact h.quiet hslot (happend.releaseSequence _) hrelease hreleased
      (fun key e he => hcached key e (releaseSequence_cached _ _ he)) (fun _ => ⟨ha, hd⟩) rfl htoken

theorem Shelved.release (h : Shelved k requests log m) (hslot : m.Slot i s r)
    (hallocator : o.allocator = m.allocator.releaseSequence s.request.id)
    (hlive : o.state.Live → s.Live) (hrequest : o.state.request = s.request)
    (hhit : o.result.prefixCacheHit = r.prefixCacheHit) : Shelved k requests log (m.put i o) := by
  refine h.quiet hslot ?_ ?_ ?_ ?_ hlive hrequest hhit
  · rw [hallocator]
    exact h.ledger.releaseSequence _
  · rw [hallocator]
    exact (KeepsTags.refl _).release h.ledger _
  · rw [hallocator]
    exact fun id q hq => ⟨q, releaseSequence_live _ _ hq, rfl⟩
  · rw [hallocator]
    exact fun key e he => releaseSequence_cached _ _ he

theorem Shelved.cancel (h : Shelved k requests log m) (hslot : m.Slot i s r) :
    Shelved k requests log (m.put i (cancelTurn m.allocator s r)) :=
  h.release hslot rfl (fun hl => absurd hl (not_live_of_done rfl)) rfl rfl

theorem Shelved.prefilled (h : Shelved k requests log m) (hslot : m.Slot i s r) {budget : Int}
    (hd : s.done = false) (ho : PrefillTurn budget m.allocator s r o)
    (hsame : o.state.promptAllocated = s.promptAllocated) :
    Shelved k requests log (m.put i o) := by
  cases ho with
  | refuse ha hok =>
    have hsequences : (s.admission m.allocator).2.sequences = m.allocator.sequences := by
      rcases allocatePrompt_outcome m.allocator s.request.id s.request.promptTokens
        s.request.prefixCacheKey s.request.prefixCacheTokens with ⟨-, hsame⟩ | ⟨hyes, -⟩
      · exact hsame
      · exact absurd (hok.symm.trans hyes) Bool.false_ne_true
    refine h.quiet hslot (h.ledger.allocatePrompt _ _ _ _)
      (allocatePrompt_keepsTags h.ledger _ _ _ _) (fun id q hq => ⟨q, ?_, rfl⟩)
      (fun key e he => allocatePrompt_refused_cached h.ledger _ _ _ _ hok he)
      (fun hl => absurd hl (not_live_of_done rfl)) rfl rfl
    exact (congrArg (fun sequences => sequences[id]?) hsequences).symm.trans hq
  | accept ha hok =>
    rw [ha] at hsame
    exact absurd hsame.symm Bool.false_ne_true
  | consume ha =>
    exact h.quiet hslot h.ledger (KeepsTags.refl _) (fun id q hq => ⟨q, hq, rfl⟩)
      (fun _ _ he => he) (fun _ => ⟨ha, hd⟩) rfl rfl

theorem Shelved.admitted (h : Shelved k requests log m) (howned : m.Owned) (hslot : m.Slot i s r)
    (hkey : keyAt requests i = s.request.prefixCacheKey)
    (hcount : s.request.prefixCacheKey ≠ [] → cacheableTokens (max 0 s.request.promptTokens)
      s.request.prefixCacheKey s.request.prefixCacheTokens = k) {budget : Int}
    (ho : PrefillTurn budget m.allocator s r o) (hnew : s.promptAllocated = false)
    (hallocated : o.state.promptAllocated = true) {q : Sequence}
    (hq : o.allocator.Live s.request.id q) :
    Shelved k requests (log ++ [⟨i, q, o.result.prefixCacheHit⟩]) (m.put i o) := by
  cases ho with
  | refuse ha hok => exact absurd (hnew.symm.trans hallocated) Bool.false_ne_true
  | consume ha => exact absurd (hnew.symm.trans ha) Bool.false_ne_true
  | accept ha hok =>
    have hkeeps := allocatePrompt_keepsTags h.ledger s.request.id s.request.promptTokens
      s.request.prefixCacheKey s.request.prefixCacheTokens
    obtain ⟨q', hq', hnil, htag, hcame⟩ := allocatePrompt_admits h.ledger s.request.id
      s.request.promptTokens s.request.prefixCacheKey s.request.prefixCacheTokens hok
    obtain rfl := Option.some.inj (hq'.symm.trans hq)
    obtain ⟨hno, -⟩ | ⟨-, hnone, p, hset, -⟩ := allocatePrompt_outcome m.allocator s.request.id
      s.request.promptTokens s.request.prefixCacheKey s.request.prefixCacheTokens
    · exact absurd (hno.symm.trans hok) Bool.false_ne_true
    refine ⟨h.ledger.allocatePrompt _ _ _ _, fun j t p' ht htl hp' => ?_, fun key e he => ?_,
      fun t a hta ha => ?_, fun j t u htu hu => ?_⟩
    · by_cases hij : i = j
      · subst hij
        obtain rfl : _ = t := Option.some.inj ((List.getElem?_set_self
          (List.getElem?_eq_some_iff.mp hslot.state).1).symm.trans ht)
        obtain rfl := Option.some.inj (hq'.symm.trans hp')
        exact ⟨hnil, htag⟩
      · -- no other live state has the id of the new sequence
        have ht : m.states[j]? = some t := (List.getElem?_set_ne hij).symm.trans ht
        obtain ⟨p₀, hp₀, -⟩ := howned.held j t ht htl
        have hid : s.request.id ≠ t.request.id := by
          intro hid
          rw [hid] at hnone
          exact absurd (hnone.symm.trans hp₀) (by simp)
        have hp : m.allocator.Live t.request.id p' := by
          have hlookup := congrArg (fun sequences => sequences[t.request.id]?) hset
          simp only [OrderedMap.getElem?_insert, if_neg hid] at hlookup
          exact hlookup.symm.trans hp'
        obtain ⟨hnil', htag'⟩ := h.tagged j t p' ht htl hp
        refine ⟨hnil', ?_⟩
        by_cases hk : t.request.prefixCacheKey = []
        · rw [hnil' hk]
          exact fun i hi => absurd hi (by simp)
        · exact hkeeps.tagged hp hk (fun i hi => (p'.mem_blockIds i).mpr (Or.inl hi)) htag'
    · have hold : m.allocator.Cached key e → e.tokenCount = k ∧
          ∃ a ∈ log ++ [⟨i, q', (s.admission m.allocator).1.cacheHit⟩], a.cacheHit = false ∧
            keyAt requests a.index = key ∧ a.sequence.sharedPart = e.blockIds := by
        intro he
        obtain ⟨hk, a, ha, hfields⟩ := h.entries key e he
        exact ⟨hk, a, List.mem_append_left _ ha, hfields⟩
      unfold CameBy at hcame
      split_ifs at hcame with hhit
      · exact hold (hcame.2.2 key e he)
      · rcases hcame key e he with he | ⟨rfl, hne, rfl⟩
        · exact hold he
        · exact ⟨hcount hne, _, List.mem_append_right _ (List.mem_singleton.mpr rfl),
            Bool.eq_false_of_not_eq_true hhit, hkey, rfl⟩
    · rw [List.getElem?_append] at hta
      split_ifs at hta with hlt
      · obtain ⟨hne, v, b, hv, hb, hfields⟩ := h.hits t a hta ha
        exact ⟨hne, v, b, hv, (List.getElem?_append_left (by omega)).trans hb, hfields⟩
      · obtain rfl : _ = a := List.mem_singleton.mp (List.mem_of_getElem? hta) |>.symm
        have hhit : (s.admission m.allocator).1.cacheHit = true := ha
        rw [State.admission] at hhit
        rw [CameBy, if_pos hhit] at hcame
        obtain ⟨hne, hentry, -⟩ := hcame
        obtain ⟨-, b, hb, hmiss, hbkey, hshared⟩ := h.entries _ _ hentry
        obtain ⟨v, hv⟩ := List.mem_iff_getElem?.mp hb
        obtain ⟨hvlt, -⟩ := List.getElem?_eq_some_iff.mp hv
        exact ⟨hkey ▸ hne, v, b, by omega, (List.getElem?_append_left hvlt).trans hv, hmiss,
          hbkey.trans hkey.symm, hshared⟩
    · rcases (hslot.put _).mp htu with ⟨rfl, -, rfl⟩ | ⟨-, htu⟩
      · exact ⟨_, List.mem_append_right _ (List.mem_singleton.mpr rfl), rfl, hu⟩
      · obtain ⟨a, ha, hfields⟩ := h.reported j t u htu hu
        exact ⟨a, List.mem_append_left _ ha, hfields⟩

end

section
variable {config : ContinuousBatcherConfig} {k : Int} {requests : List SequenceRequest}
  {log : List Admission} {m : Machine}

theorem Uniform.cacheable (hu : Uniform k requests) {q : SequenceRequest} (hq : q ∈ requests)
    (hkey : q.prefixCacheKey ≠ []) :
    cacheableTokens (max 0 q.clamped.promptTokens) q.clamped.prefixCacheKey
      q.clamped.prefixCacheTokens = k := by
  obtain ⟨hcount, hk, hle⟩ := hu q hq hkey
  simp only [SequenceRequest.clamped, cacheableTokens, if_neg hkey, hcount]
  rw [if_neg (by omega)]
  omega

theorem start_shelved (config : ContinuousBatcherConfig) (requests : List SequenceRequest) :
    Shelved k requests [] (Machine.start config requests) := by
  refine ⟨ledger_new _, fun i s q hs hl => ?_, fun key e he => ?_, fun t a hta => ?_,
    fun i s r hslot hr => ?_⟩
  · obtain ⟨r, rfl⟩ := start_states config requests i s hs
    exact absurd hl.allocated Bool.false_ne_true
  · exact absurd he (by simp [Impl.Cached, Machine.start, Impl.new])
  · exact absurd hta (by simp)
  · have hresult := hslot.result
    simp only [Machine.start, List.getElem?_map, Option.map_eq_some_iff] at hresult
    obtain ⟨q, -, rfl⟩ := hresult
    exact absurd hr Bool.false_ne_true

/-- At every moment of a run the shared prefixes come from the prompts admitted so far. -/
theorem History.shelved (hu : Uniform k requests) {n : Nat}
    (h : History config requests n log m) : Shelved k requests log m := by
  induction h with
  | start => exact start_shelved _ requests
  | next h ih => exact ih
  | @turn n i log m s r o h hslot ho hsame ih =>
    have htold := h.tracked.2.told i s r hslot
    cases ho with
    | prefill budget hb hc ho =>
      exact ih.prefilled hslot ((prefillCandidate_iff s).mp hc).1 ho hsame
    | decode hc ho =>
      obtain ⟨hd, hr, -⟩ := (decodeCandidate_iff s).mp hc
      exact ih.decode hslot (htold.ready.mp hr).1 hd ho
    | complete hd hr hm ho =>
      subst ho
      exact ih.release hslot rfl (fun hl => absurd hl (not_live_of_done rfl)) rfl rfl
  | @admitted n i log m s r o q h hslot ho hnew hallocated hq ih =>
    obtain ⟨-, htracked⟩ := h.tracked
    cases ho with
    | prefill budget hb hc ho =>
      obtain ⟨p, hp, hsp⟩ := htracked.request hslot.state
      refine ih.admitted htracked.owned hslot (htracked.keyAt hslot.state) (fun hkey => ?_) ho hnew
        hallocated hq
      rw [hsp] at hkey ⊢
      exact hu.cacheable (List.mem_of_getElem? hp) hkey
    | decode hc ho =>
      cases ho <;> exact absurd (hnew.symm.trans hallocated) Bool.false_ne_true
    | complete hd hr hm ho =>
      subst ho
      exact absurd (hnew.symm.trans hallocated) Bool.false_ne_true

theorem Ending.shelved (hu : Uniform k requests) (h : Ending config requests log m) :
    Shelved k requests log m := by
  induction h with
  | stop h => exact h.shelved hu
  | cancel h hslot hd ih => exact ih.cancel hslot

theorem Ending.states (h : Ending config requests log m) :
    (∀ (i : Nat) (s : State), m.states[i]? = some s → keyAt requests i = s.request.prefixCacheKey ∧
      i < requests.length) ∧
    ∀ (i j : Nat) (s t : State), m.states[i]? = some s → m.states[j]? = some t → s.Live →
      t.Live → s.request.id = t.request.id → i = j := by
  induction h with
  | stop h =>
    obtain ⟨-, htracked⟩ := h.tracked
    refine ⟨fun i s hs => ⟨htracked.keyAt hs, ?_⟩, htracked.owned.unique⟩
    rw [← htracked.length]
    exact (List.getElem?_eq_some_iff.mp hs).1
  | @cancel i log m s r h hslot hd ih =>
    obtain ⟨hserves, hunique⟩ := ih
    have hback : ∀ (j : Nat) (t : State),
        (m.put i (cancelTurn m.allocator s r)).states[j]? = some t →
        ∃ u, m.states[j]? = some u ∧ t.request = u.request ∧ (t.Live → u.Live) := by
      intro j t ht
      simp only [Machine.put, List.getElem?_set] at ht
      split_ifs at ht with hij
      · obtain rfl := Option.some.inj ht
        exact ⟨s, hij ▸ hslot.state, rfl, fun hl => absurd hl (not_live_of_done rfl)⟩
      · exact ⟨t, ht, rfl, id⟩
    refine ⟨fun j t ht => ?_, fun j j' t t' ht ht' hl hl' hid => ?_⟩
    · obtain ⟨u, hu, hrequest, -⟩ := hback j t ht
      rw [hrequest]
      exact hserves j u hu
    · obtain ⟨u, hu, hrequest, hlive⟩ := hback j t ht
      obtain ⟨u', hu', hrequest', hlive'⟩ := hback j' t' ht'
      exact hunique j j' u u' hu hu' (hlive hl) (hlive' hl') (by rw [← hrequest, ← hrequest', hid])

/-- Two live sequences that share a block have one prefix key. -/
theorem Ending.shared_key (hu : Uniform k requests) (h : Ending config requests log m) {i j : Nat}
    {s t : State} {p q : Sequence} (hs : m.states[i]? = some s) (ht : m.states[j]? = some t)
    (hne : i ≠ j) (hsl : s.Live) (htl : t.Live) (hp : m.allocator.Live s.request.id p)
    (hq : m.allocator.Live t.request.id q) {block : Nat} (hbp : block ∈ p.blockIds)
    (hbq : block ∈ q.blockIds) :
    keyAt requests i ≠ [] ∧ keyAt requests i = keyAt requests j := by
  have hshelved := h.shelved hu
  obtain ⟨hserves, hunique⟩ := h.states
  obtain ⟨hmem, hmem', b, hb, htag⟩ := hshelved.ledger.safe.shared _ _ p q hp hq
    (fun hid => hne (hunique i j s t hs ht hsl htl hid)) block hbp hbq
  obtain ⟨b₁, hb₁, -, hk₁⟩ := (hshelved.tagged i s p hs hsl hp).2 block hmem
  obtain ⟨b₂, hb₂, -, hk₂⟩ := (hshelved.tagged j t q ht htl hq).2 block hmem'
  obtain rfl := hb.unique hb₁
  obtain rfl := hb.unique hb₂
  rw [(hserves i s hs).1, (hserves j t ht).1, ← hk₁, ← hk₂]
  exact ⟨htag, rfl⟩

end

section
variable (config : ContinuousBatcherConfig) (requests : List SequenceRequest)

theorem History.extend {n i : Nat} {log : List Admission} {m : Machine} {s : State}
    {r : SequenceResult} {o : Outcome} (h : History config requests n log m)
    (hslot : m.Slot i s r) (ho : Turn n m.allocator s r o) :
    ∃ later, History config requests n (log ++ later) (m.put i o) := by
  by_cases hsame : o.state.promptAllocated = s.promptAllocated
  · exact ⟨[], by rw [List.append_nil]; exact h.turn hslot ho hsame⟩
  obtain ⟨hnew, hallocated, q, hq⟩ : s.promptAllocated = false ∧ o.state.promptAllocated = true ∧
      ∃ q, o.allocator.Live s.request.id q := by
    cases ho with
    | prefill budget hb hc ho =>
      cases ho with
      | refuse ha hok => exact absurd rfl hsame
      | accept ha hok =>
        obtain ⟨hno, -⟩ | ⟨-, -, q, hset, -⟩ := allocatePrompt_outcome m.allocator s.request.id
          s.request.promptTokens s.request.prefixCacheKey s.request.prefixCacheTokens
        · exact absurd (hno.symm.trans hok) Bool.false_ne_true
        · refine ⟨ha, rfl, q, ?_⟩
          rw [Impl.Live, State.admission, hset, OrderedMap.getElem?_insert, if_pos rfl]
      | consume ha => exact absurd rfl hsame
    | decode hc ho => cases ho <;> exact absurd rfl hsame
    | complete hd hr hm ho =>
      subst ho
      exact absurd rfl hsame
  exact ⟨_, h.admitted hslot ho hnew hallocated hq⟩

def Recorded (n : Nat) (m : Machine) : Prop := ∃ log, History config requests n log m

theorem machineAt_history (n : Nat) : Recorded config requests n (machineAt config requests n) := by
  refine (machineAt_invariant (motive := fun n m _ => Recorded config requests n m) config requests
    ⟨[], History.start⟩ (fun _ _ _ _ h => h) (fun n m step i s r o h ha hslot ho => ?_)
    (fun n m step h => ?_) n).2
  · obtain ⟨log, hlog⟩ := h
    obtain ⟨later, hlater⟩ := hlog.extend config requests hslot ho
    exact ⟨_, hlater⟩
  · obtain ⟨log, hlog⟩ := h
    exact ⟨log, hlog.next⟩

theorem Ended.ending {isCancelled : Nat → Bool} {n : Nat}
    {out : Machine × List SchedulerStep × ContinuousBatchingStats}
    (h : Ended config requests isCancelled n out) :
    ∃ log, Ending config requests log out.1 := by
  obtain ⟨log, hlog⟩ := machineAt_history config requests n
  obtain ⟨ha, -⟩ := machineAt_tracked config requests n
  obtain ⟨-, hout⟩ | ⟨-, -, hout⟩ := h.last
  · exact ⟨log, by rw [hout]; exact .stop hlog⟩
  rw [hout]
  refine (cancelLoop_turns (motive := fun m => ∃ log, Ending config requests log m)
    (fun m i s r h _ hslot hd => ?_) _ ha ⟨log, .stop hlog⟩).2
  obtain ⟨log, hlog⟩ := h
  exact ⟨log, hlog.cancel hslot hd⟩

end

end Laminar.Scheduler
