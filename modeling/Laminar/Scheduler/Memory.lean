import Laminar.Kv.BlockCount
import Laminar.Kv.Statistics
import Laminar.Scheduler.Roomy

/-! What a run reports of its memory: the counters of the cache against the results, and the
blocks and the message of each result. -/
namespace Laminar.Scheduler
open Laminar.Kv

def SequenceRequest.lookups (q : SequenceRequest) : Int :=
  Kv.lookups q.promptTokens q.prefixCacheKey q.prefixCacheTokens

def SequenceResult.hits (r : SequenceResult) : Int := if r.prefixCacheHit then 1 else 0

def SequenceResult.failures (r : SequenceResult) : Int := if r.message = exhausted then 1 else 0

/-- The lookups that a state has surely made, and those that it may have made. -/
def State.madeLookups (s : State) : Int := if s.promptAllocated then s.request.lookups else 0

def State.triedLookups (s : State) : Int :=
  if s.promptAllocated = true ∨ s.done = true then s.request.lookups else 0

structure Tally (config : ContinuousBatcherConfig) (m : Machine) : Prop where
  blockCount : m.allocator.blocks.length = config.kvCacheBlocks
  used : m.allocator.usedBlockCount ≤ m.allocator.stats.highWatermarkBlocks
  high : m.allocator.stats.highWatermarkBlocks ≤ m.allocator.blocks.length
  hits : m.allocator.stats.prefixCacheHits = (m.results.map SequenceResult.hits).sum
  failures : m.allocator.stats.allocationFailures = (m.results.map SequenceResult.failures).sum
  made : (m.states.map State.madeLookups).sum ≤
    m.allocator.stats.prefixCacheHits + m.allocator.stats.prefixCacheMisses
  tried : m.allocator.stats.prefixCacheHits + m.allocator.stats.prefixCacheMisses ≤
    (m.states.map State.triedLookups).sum

structure Outcome.Counted (a : Impl) (s : State) (r : SequenceResult) (o : Outcome) : Prop where
  tallied : ∃ misses, Tallied a o.allocator (o.result.hits - r.hits) misses
      (o.result.failures - r.failures) ∧
    o.state.madeLookups ≤ s.madeLookups + (o.result.hits - r.hits + misses) ∧
    s.triedLookups + (o.result.hits - r.hits + misses) ≤ o.state.triedLookups

theorem Tally.put {config : ContinuousBatcherConfig} {m : Machine} (h : Tally config m) {i : Nat}
    {s : State} {r : SequenceResult} (hslot : m.Slot i s r) {o : Outcome}
    (ho : o.Counted m.allocator s r) : Tally config (m.put i o) := by
  obtain ⟨misses, htallied, hmade, htried⟩ := ho.tallied
  have hstate : ∀ f : State → Int, ((m.put i o).states.map f).sum =
      (m.states.map f).sum - f s + f o.state := by
    intro f
    have hi : (m.states.map f)[i]? = some (f s) := by
      rw [List.getElem?_map, hslot.state, Option.map_some]
    rw [Machine.put, List.map_set, Sums.sum_set hi]
  have hresult : ∀ f : SequenceResult → Int, ((m.put i o).results.map f).sum =
      (m.results.map f).sum - f r + f o.result := by
    intro f
    have hi : (m.results.map f)[i]? = some (f r) := by
      rw [List.getElem?_map, hslot.result, Option.map_some]
    rw [Machine.put, List.map_set, Sums.sum_set hi]
  have hhits := htallied.hits
  have hmisses := htallied.misses
  have hfailures := htallied.failures
  have hbefore := h.hits
  have hfailed := h.failures
  have hlow := h.made
  have hhigh := h.tried
  refine ⟨htallied.length ▸ h.blockCount, htallied.used h.used, htallied.high h.high,
    ?_, ?_, ?_, ?_⟩
  · rw [hresult]
    simp only [Machine.put]
    omega
  · rw [hresult]
    simp only [Machine.put]
    omega
  · rw [hstate]
    simp only [Machine.put]
    omega
  · rw [hstate]
    simp only [Machine.put]
    omega

structure Noted (requests : List SequenceRequest) (tokensPerBlock : Int) (i : Nat) (s : State)
    (r : SequenceResult) : Prop where
  named : s.promptAllocated = true → s.request.id ≠ []
  hit : s.promptAllocated = false → r.prefixCacheHit = false
  waiting : s.done = false → r.message = "queued" ∧ r.kvBlocks = 0
  completed : r.status = .completed → r.message = "completed"
  rejected : s.done = true → r.status = .rejected →
    (r.message = "sequence id is required" ∧ s.request.id = []) ∨
    (r.message = "sequence already exists" ∧ ∃ j ≠ i, ∃ q ∈ requests[j]?, q.id = s.request.id) ∨
    r.message = exhausted
  blocks : s.done = true → r.message ≠ "sequence already exists" →
    r.kvBlocks = s.charge tokensPerBlock

def Machine.Charged (m : Machine) (tokensPerBlock : Int) : Prop :=
  ∀ (i : Nat) (s : State), m.states[i]? = some s → s.Live →
    m.allocator.sequenceBlockCount s.request.id = s.charge tokensPerBlock

theorem token_notes (r : SequenceResult) (n : Nat) :
    (r.token n).prefixCacheHit = r.prefixCacheHit ∧ (r.token n).message = r.message ∧
      (r.token n).kvBlocks = r.kvBlocks := by
  unfold SequenceResult.token
  split_ifs <;> exact ⟨rfl, rfl, rfl⟩

theorem Noted.no_failure {requests : List SequenceRequest} {tokensPerBlock : Int} {i : Nat}
    {s : State} {r : SequenceResult} (h : Noted requests tokensPerBlock i s r)
    (hd : s.done = false) : r.failures = 0 := by
  have hmessage := (h.waiting hd).1
  exact if_neg (by rw [hmessage]; decide)

theorem lookups_request_nonneg (q : SequenceRequest) : 0 ≤ q.lookups := lookups_nonneg _ _ _

theorem Outcome.Counted.quiet {a : Impl} {s : State} {r : SequenceResult} {o : Outcome}
    {failures : Int} (h : Tallied a o.allocator 0 0 failures) (hhits : o.result.hits = r.hits)
    (hfailures : o.result.failures = r.failures + failures)
    (hmade : o.state.madeLookups = s.madeLookups) (htried : s.triedLookups ≤ o.state.triedLookups) :
    o.Counted a s r := by
  refine ⟨⟨0, ?_, by omega, by omega⟩⟩
  rwa [hhits, hfailures, Int.sub_self, add_sub_cancel_left]

theorem Outcome.Counted.lookup {a : Impl} {s : State} {r : SequenceResult} {o : Outcome}
    {answer : KvAllocation} {misses : Int}
    (h : Tallied a o.allocator answer.hits misses answer.failures)
    (hhits : o.result.hits = r.hits + answer.hits)
    (hfailures : o.result.failures = r.failures + answer.failures)
    (hmade : o.state.madeLookups ≤ s.madeLookups + (answer.hits + misses))
    (htried : s.triedLookups + (answer.hits + misses) ≤ o.state.triedLookups) :
    o.Counted a s r := by
  refine ⟨⟨misses, ?_, by omega, by omega⟩⟩
  rwa [hhits, hfailures, add_sub_cancel_left, add_sub_cancel_left]

section
variable {requests : List SequenceRequest} {tokensPerBlock : Int} {a : Impl} {i k n : Nat}
  {s : State} {r : SequenceResult} {o : Outcome} (hnoted : Noted requests tokensPerBlock i s r)
  (hconfig : 0 < a.config.tokensPerBlock)
include hnoted hconfig

theorem PrefillTurn.counted {budget : Int} (hc : prefillCandidate s = true)
    (ho : PrefillTurn budget a s r o) : o.Counted a s r := by
  obtain ⟨hd, hr⟩ := (prefillCandidate_iff s).mp hc
  have hfailures := hnoted.no_failure hd
  have hnew : s.promptAllocated = false → r.hits = 0 ∧ s.madeLookups = 0 ∧ s.triedLookups = 0 :=
    fun ha => ⟨if_neg (by simp [hnoted.hit ha]), if_neg (by simp [ha]), if_neg (by simp [ha, hd])⟩
  obtain ⟨⟨misses, htallied, hnonneg, hle, heq⟩, hrefused, haccepted⟩ :
      Kv.Counted a s.request.id s.request.lookups (s.admission a) :=
    .allocatePrompt hconfig _ _ _ _
  cases ho with
  | refuse ha hok =>
    obtain ⟨hhits, hmade, htried⟩ := hnew ha
    have hnone : (s.admission a).1.hits = 0 := if_neg (by simp [(hrefused hok).1])
    refine .lookup htallied ?_ ?_ ?_ ?_
    · rw [hnone]
      exact (Int.add_zero _).symm
    · rw [hfailures, Int.zero_add]
      rfl
    · rw [hmade, Int.zero_add]
      exact (if_neg (by simp [ha])).trans_le hnonneg
    · rw [htried, Int.zero_add]
      exact hle.trans_eq (if_pos (Or.inr rfl)).symm
  | accept ha hok =>
    obtain ⟨hhits, hmade, htried⟩ := hnew ha
    refine .lookup htallied ?_ ?_ ?_ ?_
    · rw [hhits, Int.zero_add]
      rfl
    · rw [haccepted hok]
      exact (Int.add_zero _).symm
    · rw [hmade, heq hok, Int.zero_add]
      exact (if_pos rfl).le
    · rw [htried, heq hok, Int.zero_add]
      exact (if_pos (Or.inl rfl)).ge
  | consume ha => exact .quiet (.refl _) rfl (Int.add_zero _).symm rfl le_rfl

theorem DecodeTurn.counted (htold : Told k s r) {q : Sequence} (hq : a.Live s.request.id q)
    (hc : decodeCandidate s = true) (ho : DecodeTurn n a s r o) : o.Counted a s r := by
  obtain ⟨hd, hr, -⟩ := (decodeCandidate_iff s).mp hc
  have hallocated := (htold.ready.mp hr).1
  have hfailures := hnoted.no_failure hd
  have htried : s.triedLookups = s.request.lookups := if_pos (Or.inl hallocated)
  obtain ⟨hhit, hmessage, -⟩ := token_notes r n
  obtain ⟨htallied, hexplained⟩ := Tallied.appendTokens hq hconfig Int.one_pos
  have hrelease := htallied.trans (.releaseSequence _ s.request.id)
  simp only [Int.add_zero] at hrelease
  cases ho with
  | refuse hok =>
    refine .quiet hrelease rfl ?_ rfl (htried.trans_le (if_pos (Or.inr rfl)).ge)
    rw [hfailures, Int.zero_add]
    rfl
  | token hok hne =>
    rw [hexplained.accepted hok] at htallied
    refine .quiet htallied ?_ ?_ rfl le_rfl
    · simp only [SequenceResult.hits, hhit]
    · simp only [SequenceResult.failures, hmessage, Int.add_zero]
  | last hok heq =>
    rw [hexplained.accepted hok] at hrelease
    refine .quiet hrelease ?_ ?_ rfl (htried.trans_le (if_pos (Or.inr rfl)).ge)
    · simp only [SequenceResult.hits, hhit]
    · rw [hfailures]
      exact if_neg (show ¬ "completed" = exhausted by decide)

end

theorem sequenceBlockCount_live {a : Impl} {id : Bytes} {q : Sequence} (h : a.Live id q) :
    a.sequenceBlockCount id = q.blockIds.length := by
  rw [Impl.sequenceBlockCount, show a.sequences[id]? = some q from h]

theorem sequenceBlockCount_congr {a b : Impl} {id : Bytes}
    (h : b.sequences[id]? = a.sequences[id]?) :
    b.sequenceBlockCount id = a.sequenceBlockCount id := by
  rw [Impl.sequenceBlockCount, Impl.sequenceBlockCount, h]

theorem allocatePrompt_named {a : Impl} {id : Bytes} {promptTokens : Int} {key : Bytes}
    {prefixTokens : Int} (hok : (a.allocatePrompt id promptTokens key prefixTokens).1.ok = true) :
    id ≠ [] := by
  rintro rfl
  rw [Impl.allocatePrompt, if_pos rfl] at hok
  exact Bool.false_ne_true hok

/-- The blocks that a prompt brings are those that its state asks for. -/
theorem admission_charge {a : Impl} (hl : Ledger a []) {s : State} {k : Nat} {r : SequenceResult}
    (htold : Told k s r) (hr : s.promptReady = false) (budget : Int)
    (hok : (s.admission a).1.ok = true) :
    (s.admission a).2.sequenceBlockCount s.request.id =
      (({ s with promptAllocated := true } : State).consume budget).charge
        a.config.tokensPerBlock := by
  obtain ⟨q, hq, -, -, hlength⟩ := allocatePrompt_count hl hok
  have hcharge : (({ s with promptAllocated := true } : State).consume budget).charge
      a.config.tokensPerBlock = promptBlocks a.config.tokensPerBlock s.request.promptTokens
        s.request.prefixCacheKey s.request.prefixCacheTokens +
        ceilDiv s.generated a.config.tokensPerBlock := if_pos rfl
  rw [hcharge, htold.waiting hr, show ceilDiv 0 a.config.tokensPerBlock = 0 from if_pos le_rfl,
    Int.add_zero, State.admission, sequenceBlockCount_live hq, hlength]
  rfl

theorem append_charge {a : Impl} {s : State} {q : Sequence} (hq : a.Live s.request.id q)
    (hgenerated : q.generatedTokens = s.generated) (hallocated : s.promptAllocated = true)
    (hcharge : a.sequenceBlockCount s.request.id = s.charge a.config.tokensPerBlock)
    (hok : (a.appendTokens s.request.id 1).1.ok = true) :
    (a.appendTokens s.request.id 1).2.sequenceBlockCount s.request.id =
      ({ s with generated := s.generated + 1 } : State).charge a.config.tokensPerBlock := by
  obtain ⟨q', hq', -, -, hlength⟩ := appendTokens_count hq Int.one_pos hok
  rw [sequenceBlockCount_live hq] at hcharge
  rw [sequenceBlockCount_live hq', hlength, hcharge, hgenerated]
  simp only [State.charge, hallocated, if_true]
  omega

section
variable {n k : Nat} {a : Impl} {s : State} {r : SequenceResult} {o : Outcome}

/-- A turn makes calls for its own sequence alone. -/
theorem Turn.calls (ho : Turn n a s r o) : ∃ calls : List Call,
    o.allocator = calls.foldl Impl.exec a ∧ ∀ call ∈ calls, call.id = s.request.id := by
  cases ho with
  | prefill budget hb hc ho =>
    have hone : ∃ calls : List Call, (s.admission a).2 = calls.foldl Impl.exec a ∧
        ∀ call ∈ calls, call.id = s.request.id :=
      ⟨[.allocatePrompt s.request.id s.request.promptTokens s.request.prefixCacheKey
        s.request.prefixCacheTokens], rfl, by simp [Call.id]⟩
    cases ho with
    | refuse ha hok => exact hone
    | accept ha hok => exact hone
    | consume ha => exact ⟨[], rfl, by simp⟩
  | decode hc ho =>
    have htwo : ∃ calls : List Call,
        (a.appendTokens s.request.id 1).2.releaseSequence s.request.id =
          calls.foldl Impl.exec a ∧ ∀ call ∈ calls, call.id = s.request.id :=
      ⟨[.appendTokens s.request.id 1, .releaseSequence s.request.id], rfl, by simp [Call.id]⟩
    cases ho with
    | refuse hok => exact htwo
    | token hok hne => exact ⟨[.appendTokens s.request.id 1], rfl, by simp [Call.id]⟩
    | last hok heq => exact htwo
  | complete hd hr hm ho =>
    subst ho
    exact ⟨[.releaseSequence s.request.id], rfl, by simp [Call.id]⟩

theorem foldl_exec_kept (calls : List Call) (a : Impl) {id : Bytes}
    (hids : ∀ call ∈ calls, call.id = id) :
    (calls.foldl Impl.exec a).config = a.config ∧
      ∀ other, other ≠ id → (calls.foldl Impl.exec a).sequences[other]? = a.sequences[other]? := by
  induction calls generalizing a with
  | nil => exact ⟨rfl, fun _ _ => rfl⟩
  | cons call calls ih =>
    obtain ⟨hconfig, hothers⟩ := ih (a.exec call) fun c hc => hids c (List.mem_cons_of_mem _ hc)
    have hid := hids call List.mem_cons_self
    exact ⟨hconfig.trans (exec_config a call), fun other hne =>
      (hothers other hne).trans (exec_others a call other (hid ▸ hne))⟩

/-- Only a turn of a live sequence changes the sequences of the cache. -/
theorem Turn.touches (htold : Told k s r) (ho : Turn n a s r o) :
    s.Live ∨ o.state.Live ∨ o.allocator.sequences = a.sequences := by
  cases ho with
  | prefill budget hb hc ho =>
    obtain ⟨hd, hr⟩ := (prefillCandidate_iff s).mp hc
    cases ho with
    | refuse ha hok =>
      rcases allocatePrompt_outcome a s.request.id s.request.promptTokens s.request.prefixCacheKey
        s.request.prefixCacheTokens with ⟨-, hsame⟩ | ⟨hyes, -⟩
      · exact Or.inr (Or.inr hsame)
      · exact absurd (hok.symm.trans hyes) Bool.false_ne_true
    | accept ha hok => exact Or.inr (Or.inl ⟨rfl, hd⟩)
    | consume ha => exact Or.inl ⟨ha, hd⟩
  | decode hc ho =>
    obtain ⟨hd, hr, -⟩ := (decodeCandidate_iff s).mp hc
    exact Or.inl ⟨(htold.ready.mp hr).1, hd⟩
  | complete hd hr hm ho => exact Or.inl ⟨(htold.ready.mp hr).1, hd⟩

end

theorem Machine.Charged.put {tokensPerBlock : Int} {m : Machine} {n k i : Nat} {s : State}
    {r : SequenceResult} {o : Outcome} (h : m.Charged tokensPerBlock) (howned : m.Owned)
    (hslot : m.Slot i s r) (htold : Told k s r) (ho : Turn n m.allocator s r o)
    (hself : o.state.Live →
      o.allocator.sequenceBlockCount s.request.id = o.state.charge tokensPerBlock) :
    (m.put i o).Charged tokensPerBlock := by
  obtain ⟨hlt, -⟩ := List.getElem?_eq_some_iff.mp hslot.state
  have howned' := ho.owned howned hslot htold
  intro j t ht htl
  rcases Machine.put_states ht with ⟨rfl, rfl⟩ | ⟨hne, hold⟩
  · rw [ho.request]
    exact hself htl
  rw [← h j t hold htl]
  refine sequenceBlockCount_congr ?_
  obtain ⟨calls, hcalls, hids⟩ := ho.calls
  by_cases hid : t.request.id = s.request.id
  · rcases ho.touches htold with hsl | hol | hsame
    · exact absurd (howned.unique j i t s hold hslot.state htl hsl hid) hne
    · have hi : (m.put i o).states[i]? = some o.state := List.getElem?_set_self hlt
      exact absurd (howned'.unique j i t o.state ht hi htl hol (by rw [ho.request, hid])) hne
    · exact congrArg (fun seqs => seqs[t.request.id]?) hsame
  · rw [Machine.put, hcalls]
    exact (foldl_exec_kept calls m.allocator hids).2 _ hid

structure Memory (config : ContinuousBatcherConfig) (requests : List SequenceRequest)
    (m : Machine) : Prop where
  tally : Tally config m
  ledger : Ledger m.allocator []
  blockTokens : m.allocator.config.tokensPerBlock = config.kvBlockTokens
  charged : m.Charged config.kvBlockTokens
  noted : ∀ (i : Nat) (s : State) (r : SequenceResult), m.Slot i s r →
    Noted requests config.kvBlockTokens i s r

/-- An id that is taken before its sequence was admitted is that of another request. -/
theorem Tracked.twin {requests : List SequenceRequest} {k i : Nat} {m : Machine} {s : State}
    {r : SequenceResult} (h : Tracked requests k m) (hslot : m.Slot i s r)
    (hnew : s.promptAllocated = false)
    (hlive : m.allocator.sequences.contains s.request.id = true) :
    ∃ j ≠ i, ∃ q ∈ requests[j]?, q.id = s.request.id := by
  rw [Std.ExtTreeMap.contains_eq_isSome_getElem?] at hlive
  obtain ⟨q, hq⟩ := Option.isSome_iff_exists.mp hlive
  obtain ⟨j, t, ht, htl, hid⟩ := h.owned.owner _ q hq
  obtain ⟨p, hp, htp⟩ := h.request ht
  refine ⟨j, ?_, p, hp, ?_⟩
  · rintro rfl
    obtain rfl := Option.some.inj (hslot.state.symm.trans ht)
    exact Bool.false_ne_true (hnew.symm.trans htl.allocated)
  · rw [← hid, htp]
    rfl

section
variable {config : ContinuousBatcherConfig} {requests : List SequenceRequest} {m : Machine}
  {i k n : Nat} {s : State} {r : SequenceResult} {o : Outcome} (h : Memory config requests m)
  (htracked : Tracked requests k m) (ha : m.Aligned)
include h htracked

include ha in
theorem Memory.unnamed : m.allocator.sequences[([] : Bytes)]? = none := by
  refine Option.eq_none_iff_forall_not_mem.mpr fun q hq => ?_
  obtain ⟨j, t, ht, htl, hid⟩ := htracked.owned.owner [] q hq
  obtain ⟨u, htu⟩ := ha.slot ht
  exact (h.noted j t u htu).named htl.allocated hid

variable (hslot : m.Slot i s r)
include hslot

include ha in
theorem Memory.refused (hnew : s.promptAllocated = false)
    (hok : (s.admission m.allocator).1.ok = false) :
    Noted requests config.kvBlockTokens i { s with done := true }
      { r with
        status := .rejected
        message := (s.admission m.allocator).1.message
        kvBlocks := (s.admission m.allocator).2.sequenceBlockCount s.request.id } := by
  have hnoted := h.noted i s r hslot
  have hsame : (s.admission m.allocator).2.sequences = m.allocator.sequences := by
    rcases allocatePrompt_outcome m.allocator s.request.id s.request.promptTokens
      s.request.prefixCacheKey s.request.prefixCacheTokens with ⟨-, hsame⟩ | ⟨hyes, -⟩
    · exact hsame
    · exact absurd (hok.symm.trans hyes) Bool.false_ne_true
  have hrefusal : Refusal m.allocator s.request.id (s.admission m.allocator).1.message :=
    ((Counted.allocatePrompt h.ledger.tokens _ _ _ _).refused hok).2
  generalize (s.admission m.allocator).2 = after at hsame ⊢
  generalize (s.admission m.allocator).1.message = message at hrefusal ⊢
  have hcharge : ({ s with done := true } : State).charge config.kvBlockTokens = 0 :=
    if_neg (by simp [hnew])
  have hnone : m.allocator.sequences[s.request.id]? = none →
      after.sequenceBlockCount s.request.id = 0 := by
    intro hnone
    rw [Impl.sequenceBlockCount, hsame, hnone]
  refine ⟨fun ha => absurd (hnew.symm.trans ha) Bool.false_ne_true, fun _ => hnoted.hit hnew,
    fun hd => absurd hd (by simp), fun hc => absurd hc (by simp), fun _ _ => ?_,
    fun _ hmessage => ?_⟩
  · cases hrefusal with
    | unnamed hid => exact Or.inl ⟨rfl, hid⟩
    | taken hid hlive =>
      have htwin := htracked.twin hslot hnew hlive
      exact Or.inr (Or.inl ⟨rfl, htwin⟩)
    | exhausted hid hfree => exact Or.inr (Or.inr rfl)
  · rw [hcharge]
    cases hrefusal with
    | unnamed hid => exact hnone (hid ▸ h.unnamed htracked ha)
    | taken hid hlive => exact absurd rfl hmessage
    | exhausted hid hfree => exact hnone hfree

include ha in
theorem Memory.prefilled {budget : Int} (hc : prefillCandidate s = true)
    (ho : PrefillTurn budget m.allocator s r o) :
    Noted requests config.kvBlockTokens i o.state o.result ∧ (o.state.Live →
      o.allocator.sequenceBlockCount s.request.id = o.state.charge config.kvBlockTokens) := by
  obtain ⟨hd, hr⟩ := (prefillCandidate_iff s).mp hc
  have hnoted := h.noted i s r hslot
  have htold := htracked.told i s r hslot
  have hunsettled : r.status ≠ .completed := by simp [(htold.unfinished hd).1]
  have hnotdone : s.done ≠ true := by simp [hd]
  cases ho with
  | refuse hnew hok =>
    exact ⟨h.refused htracked ha hslot hnew hok, fun hl => absurd hl (not_live_of_done rfl)⟩
  | accept hnew hok =>
    refine ⟨⟨fun _ => allocatePrompt_named hok, nofun, hnoted.waiting,
      fun hcompleted => absurd hcompleted hunsettled, fun hdone => absurd hdone hnotdone,
      fun hdone => absurd hdone hnotdone⟩, fun _ => ?_⟩
    rw [← h.blockTokens]
    exact admission_charge h.ledger htold hr _ hok
  | consume hallocated =>
    refine ⟨⟨hnoted.named, hnoted.hit, hnoted.waiting,
      fun hcompleted => absurd hcompleted hunsettled, fun hdone => absurd hdone hnotdone,
      fun hdone => absurd hdone hnotdone⟩, fun _ => ?_⟩
    exact h.charged i s hslot.state ⟨hallocated, hd⟩

theorem Memory.decoded (hc : decodeCandidate s = true) (ho : DecodeTurn n m.allocator s r o) :
    Noted requests config.kvBlockTokens i o.state o.result ∧ (o.state.Live →
      o.allocator.sequenceBlockCount s.request.id = o.state.charge config.kvBlockTokens) := by
  obtain ⟨hd, hr, -⟩ := (decodeCandidate_iff s).mp hc
  have hnoted := h.noted i s r hslot
  have htold := htracked.told i s r hslot
  have hallocated := (htold.ready.mp hr).1
  have hcharged := h.charged i s hslot.state ⟨hallocated, hd⟩
  obtain ⟨q, hq, hgenerated⟩ := htracked.owned.held i s hslot.state ⟨hallocated, hd⟩
  obtain ⟨-, hexplained⟩ := Tallied.appendTokens hq h.ledger.tokens Int.one_pos
  obtain ⟨hhit, hmessage, hblocks⟩ := token_notes r n
  obtain ⟨-, hstatus, -⟩ := token_fields r n
  have hmore := append_charge hq hgenerated hallocated (h.blockTokens ▸ hcharged)
  have hfresh : s.promptAllocated ≠ false := by simp [hallocated]
  cases ho with
  | refuse hok =>
    have hsame : (m.allocator.appendTokens s.request.id 1).2.sequences =
        m.allocator.sequences := by
      rcases appendTokens_outcome m.allocator s.request.id Int.one_pos with ⟨-, hsame⟩ | ⟨hyes, -⟩
      · exact hsame
      · exact absurd (hok.symm.trans hyes) Bool.false_ne_true
    refine ⟨⟨hnoted.named, fun hnew => absurd hnew hfresh, nofun, nofun,
      fun _ _ => Or.inr (Or.inr (hexplained.refused hok)), fun _ _ => ?_⟩,
      fun hl => absurd hl (not_live_of_done rfl)⟩
    exact (sequenceBlockCount_congr (congrArg (fun seqs => seqs[s.request.id]?) hsame)).trans
      hcharged
  | token hok hne =>
    refine ⟨⟨hnoted.named, fun hnew => absurd hnew hfresh, fun _ => ?_, fun hcompleted => ?_,
      fun hdone => absurd (hd.symm.trans hdone) Bool.false_ne_true,
      fun hdone => absurd (hd.symm.trans hdone) Bool.false_ne_true⟩, fun _ => ?_⟩
    · rw [hmessage, hblocks]
      exact hnoted.waiting hd
    · rw [hstatus, (htold.unfinished hd).1] at hcompleted
      exact absurd hcompleted (by simp)
    · rw [← h.blockTokens]
      exact hmore hok
  | last hok heq =>
    refine ⟨⟨hnoted.named, fun hnew => absurd hnew hfresh, nofun, fun _ => rfl, nofun,
      fun _ _ => ?_⟩, fun hl => absurd hl (not_live_of_done rfl)⟩
    rw [← h.blockTokens]
    exact hmore hok

include ha in
theorem Memory.turn (ho : Turn n m.allocator s r o) : Memory config requests (m.put i o) := by
  have hnoted := h.noted i s r hslot
  have htold := htracked.told i s r hslot
  obtain ⟨calls, hcalls, hids⟩ := ho.calls
  obtain ⟨hnew, hself, hcounted⟩ : Noted requests config.kvBlockTokens i o.state o.result ∧
      (o.state.Live →
        o.allocator.sequenceBlockCount s.request.id = o.state.charge config.kvBlockTokens) ∧
      o.Counted m.allocator s r := by
    cases ho with
    | prefill budget hb hc ho =>
      obtain ⟨hnew, hself⟩ := h.prefilled htracked ha hslot hc ho
      exact ⟨hnew, hself, ho.counted hnoted h.ledger.tokens hc⟩
    | decode hc ho =>
      obtain ⟨hd, hr, -⟩ := (decodeCandidate_iff s).mp hc
      obtain ⟨q, hq, -⟩ := htracked.owned.held i s hslot.state ⟨(htold.ready.mp hr).1, hd⟩
      obtain ⟨hnew, hself⟩ := h.decoded htracked hslot hc ho
      exact ⟨hnew, hself, ho.counted hnoted h.ledger.tokens htold hq hc⟩
    | complete hd hr hm ho =>
      subst ho
      have hallocated := (htold.ready.mp hr).1
      have hcharged := h.charged i s hslot.state ⟨hallocated, hd⟩
      have hfresh : s.promptAllocated ≠ false := by simp [hallocated]
      refine ⟨⟨hnoted.named, fun hnew => absurd hnew hfresh, nofun, fun _ => rfl, nofun,
        fun _ _ => hcharged⟩, fun hl => absurd hl (not_live_of_done rfl), ?_⟩
      refine .quiet (.releaseSequence _ _) rfl ?_ rfl ?_
      · rw [hnoted.no_failure hd]
        exact if_neg (show ¬ "completed" = exhausted by decide)
      · exact (if_pos (Or.inl hallocated)).trans_le (if_pos (Or.inr rfl)).ge
  refine ⟨h.tally.put hslot hcounted, ?_, ?_, h.charged.put htracked.owned hslot htold ho hself,
    fun j t u htu => ?_⟩
  · rw [Machine.put, hcalls]
    exact ledger_foldl calls _ h.ledger
  · rw [Machine.put, hcalls]
    exact (congrArg KvCacheConfig.tokensPerBlock (foldl_exec_kept calls _ hids).1).trans
      h.blockTokens
  · rcases (hslot.put o).mp htu with ⟨rfl, rfl, rfl⟩ | ⟨-, htu⟩
    · exact hnew
    · exact h.noted j t u htu

end

theorem start_results (config : ContinuousBatcherConfig) (requests : List SequenceRequest) {i : Nat}
    {r : SequenceResult} (hr : (Machine.start config requests).results[i]? = some r) :
    ∃ q : SequenceRequest, r = queuedResult q.clamped := by
  simp only [Machine.start, List.getElem?_map, Option.map_eq_some_iff] at hr
  obtain ⟨-, ⟨q, -, rfl⟩, rfl⟩ := hr
  exact ⟨q, rfl⟩

theorem start_memory (config : ContinuousBatcherConfig) (requests : List SequenceRequest) :
    Memory (continuousBatcher config) requests
      (Machine.start (continuousBatcher config) requests) := by
  obtain ⟨htokens, hblocks⟩ := continuousBatcher_blockTokens config
  have hclamp : clampPositive (continuousBatcher config).kvCacheBlocks 1 =
      (continuousBatcher config).kvCacheBlocks := if_pos hblocks
  have hstates : ∀ f : State → Int, (∀ q i, f (queuedState q i) = 0) →
      ((Machine.start (continuousBatcher config) requests).states.map f).sum = 0 := by
    intro f hf
    refine List.sum_eq_zero fun x hx => ?_
    obtain ⟨s, hs, rfl⟩ := List.mem_map.mp hx
    obtain ⟨i, hi⟩ := List.getElem?_of_mem hs
    obtain ⟨q, rfl⟩ := start_states _ requests i s hi
    exact hf _ i
  have hresults : ∀ f : SequenceResult → Int, (∀ q, f (queuedResult q) = 0) →
      ((Machine.start (continuousBatcher config) requests).results.map f).sum = 0 := by
    intro f hf
    refine List.sum_eq_zero fun x hx => ?_
    obtain ⟨r, hr, rfl⟩ := List.mem_map.mp hx
    obtain ⟨i, hi⟩ := List.getElem?_of_mem hr
    obtain ⟨q, rfl⟩ := start_results _ requests hi
    exact hf _
  refine ⟨⟨?_, ?_, ?_, ?_, ?_, ?_, ?_⟩, ledger_new _, if_pos htokens, fun i s hs hl => ?_,
    fun i s r hslot => ?_⟩
  · simp only [Machine.start, Impl.new, List.length_replicate, hclamp]
    omega
  · simp only [Machine.start, Impl.new, Impl.usedBlockCount, Impl.freeBlockCount,
      List.length_replicate, List.countP_replicate]
    simp
  · exact Int.natCast_nonneg _
  · exact (hresults _ fun _ => rfl).symm
  · exact (hresults _ fun _ => if_neg (show ¬ "queued" = exhausted by decide)).symm
  · exact (hstates _ fun _ _ => rfl).le
  · exact (hstates _ fun _ _ => rfl).ge
  · obtain ⟨q, rfl⟩ := start_states _ requests i s hs
    exact absurd hl.allocated Bool.false_ne_true
  · obtain ⟨q, rfl⟩ := start_states _ requests i s hslot.state
    obtain ⟨q', rfl⟩ := start_results _ requests hslot.result
    exact ⟨fun hallocated => absurd hallocated Bool.false_ne_true, fun _ => rfl,
      fun _ => ⟨rfl, rfl⟩, fun hc => absurd hc (by simp [queuedResult]),
      fun hd => absurd hd Bool.false_ne_true, fun hd => absurd hd Bool.false_ne_true⟩

structure Remembered (config : ContinuousBatcherConfig) (requests : List SequenceRequest) (n : Nat)
    (m : Machine) : Prop where
  tracked : Tracked requests n m
  memory : Memory (continuousBatcher config) requests m

theorem machineAt_remembered (config : ContinuousBatcherConfig) (requests : List SequenceRequest)
    (n : Nat) : (machineAt config requests n).Aligned ∧
      Remembered config requests n (machineAt config requests n) :=
  machineAt_invariant (motive := fun n m _ => Remembered config requests (n + 1) m) config requests
    ⟨start_tracked _ requests, start_memory config requests⟩
    (fun _ _ _ _ h => ⟨h.tracked.next, h.memory⟩)
    (fun _ _ _ _ _ _ _ h ha hslot ho =>
      ⟨h.tracked.turn hslot ho, h.memory.turn h.tracked ha hslot ho⟩)
    (fun _ _ _ h => h) n

end Laminar.Scheduler
