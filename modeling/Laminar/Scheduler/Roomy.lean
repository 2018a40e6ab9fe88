import Laminar.Kv.Capacity
import Laminar.Library.Sums
import Laminar.Scheduler.Lifecycle

/-! A cache with a block for every token of every request: no allocation of a run fails, so
every request completes. -/
namespace Laminar.Scheduler
open Laminar.Kv

def SequenceRequest.blocksNeeded (tokensPerBlock : Int) (q : SequenceRequest) : Int :=
  promptBlocks tokensPerBlock q.promptTokens q.prefixCacheKey q.prefixCacheTokens +
    ceilDiv (max 0 q.maxGeneratedTokens) tokensPerBlock

/-- Requests with ids of their own, and a cache that holds all of their blocks at once. -/
structure Roomy (config : ContinuousBatcherConfig) (requests : List SequenceRequest) : Prop where
  named : ∀ q ∈ requests, q.id ≠ []
  distinct : DistinctIds requests
  blocks :
    (requests.map (SequenceRequest.blocksNeeded (continuousBatcher config).kvBlockTokens)).sum ≤
    (continuousBatcher config).kvCacheBlocks

def State.charge (tokensPerBlock : Int) (s : State) : Int :=
  if s.promptAllocated then
    promptBlocks tokensPerBlock s.request.promptTokens s.request.prefixCacheKey
      s.request.prefixCacheTokens + ceilDiv s.generated tokensPerBlock
  else 0

structure Room (config : ContinuousBatcherConfig) (m : Machine) : Prop where
  blockTokens : m.allocator.config.tokensPerBlock = config.kvBlockTokens
  blockCount : m.allocator.blocks.length = config.kvCacheBlocks
  used : m.allocator.usedBlockCount ≤ (m.states.map (State.charge config.kvBlockTokens)).sum

theorem promptBlocks_nonneg {tokensPerBlock : Int} (h : 0 < tokensPerBlock)
    (promptTokens : Int) (key : Bytes) (prefixTokens : Int) :
    0 ≤ promptBlocks tokensPerBlock promptTokens key prefixTokens :=
  Int.add_nonneg (ceilDiv_nonneg _ _ h) (ceilDiv_nonneg _ _ h)

theorem clamped_blocksNeeded (tokensPerBlock : Int) (q : SequenceRequest) :
    q.clamped.blocksNeeded tokensPerBlock = q.blocksNeeded tokensPerBlock := by
  simp [SequenceRequest.blocksNeeded, SequenceRequest.clamped, promptBlocks]

/-- A state never asks for more than its request needs. -/
theorem Told.charge_le {n : Nat} {s : State} {r : SequenceResult} (h : Told n s r)
    {tokensPerBlock : Int} (hpos : 0 < tokensPerBlock) :
    s.charge tokensPerBlock ≤ s.request.blocksNeeded tokensPerBlock := by
  have hprompt := promptBlocks_nonneg hpos s.request.promptTokens s.request.prefixCacheKey
    s.request.prefixCacheTokens
  have hrange := h.range
  have hmono := ceilDiv_mono s.generated (max 0 s.request.maxGeneratedTokens) tokensPerBlock hpos
    (by omega)
  have hnonneg := ceilDiv_nonneg (max 0 s.request.maxGeneratedTokens) tokensPerBlock hpos
  unfold State.charge SequenceRequest.blocksNeeded
  split_ifs <;> omega

theorem continuousBatcher_blockTokens (config : ContinuousBatcherConfig) :
    0 < (continuousBatcher config).kvBlockTokens ∧ 0 < (continuousBatcher config).kvCacheBlocks :=
  ⟨clampPositive_pos _ _ (by omega), clampPositive_pos _ _ (by omega)⟩

theorem Room.put {config : ContinuousBatcherConfig} {m : Machine} (h : Room config m) {i : Nat}
    {s : State} (hs : m.states[i]? = some s) {o : Outcome} {count : Int}
    (hwithin : Within m.allocator o.allocator count)
    (hcharge : o.state.charge config.kvBlockTokens = s.charge config.kvBlockTokens + count) :
    Room config (m.put i o) := by
  have hi : (m.states.map (State.charge config.kvBlockTokens))[i]? =
      some (s.charge config.kvBlockTokens) := by
    rw [List.getElem?_map, hs, Option.map_some]
  have hsum := Sums.sum_set hi (o.state.charge config.kvBlockTokens)
  have hused := h.used
  have hmore := hwithin.used
  refine ⟨hwithin.config ▸ h.blockTokens, hwithin.length ▸ h.blockCount, ?_⟩
  simp only [Machine.put, List.map_set, hsum]
  omega

section
variable {config : ContinuousBatcherConfig} {requests : List SequenceRequest}
  (hroomy : Roomy config requests) {n : Nat} {m : Machine}
  (htracked : Tracked requests n m) (hroom : Room (continuousBatcher config) m)
include hroomy htracked hroom

theorem Room.hasRoom {i : Nat} {s : State} (ha : m.Aligned) (hs : m.states[i]? = some s)
    {charge : Int}
    (hcharge : charge ≤ s.request.blocksNeeded (continuousBatcher config).kvBlockTokens) :
    m.allocator.HasRoom (charge - s.charge (continuousBatcher config).kvBlockTokens) := by
  obtain ⟨hpos, -⟩ := continuousBatcher_blockTokens config
  have hblocks := hroomy.blocks
  have hlength := hroom.blockCount
  have hused := hroom.used
  set b := (continuousBatcher config).kvBlockTokens
  have hle : ∀ t ∈ m.states, t.charge b ≤ t.request.blocksNeeded b := by
    intro t ht
    obtain ⟨j, hj⟩ := List.getElem?_of_mem ht
    obtain ⟨r, hslot⟩ := ha.slot hj
    exact (htracked.told j t r hslot).charge_le hpos
  have hsum := Sums.sum_room hle hs
  have hneeded : (m.states.map fun t => t.request.blocksNeeded b).sum =
      (requests.map (SequenceRequest.blocksNeeded b)).sum := by
    have hmap := congrArg (List.map (SequenceRequest.blocksNeeded b)) htracked.serves
    rw [List.map_map, List.map_map] at hmap
    refine (congrArg List.sum hmap).trans (congrArg List.sum ?_)
    exact List.map_congr_left fun q _ => clamped_blocksNeeded b q
  unfold Impl.HasRoom
  omega

theorem Room.accepts {i : Nat} {s : State} {r : SequenceResult} (ha : m.Aligned)
    (hslot : m.Slot i s r) (hnew : s.promptAllocated = false) :
    (s.admission m.allocator).1.ok = true ∧
      Within m.allocator (s.admission m.allocator).2
        (promptBlocks (continuousBatcher config).kvBlockTokens s.request.promptTokens
          s.request.prefixCacheKey s.request.prefixCacheTokens) := by
  obtain ⟨hpos, -⟩ := continuousBatcher_blockTokens config
  obtain ⟨q, hq, hsq⟩ := htracked.request hslot.state
  have hid : s.request.id ≠ [] := by
    rw [hsq]
    exact hroomy.named q (List.mem_of_getElem? hq)
  have hnone : m.allocator.sequences[s.request.id]? = none := by
    cases hlive : m.allocator.sequences[s.request.id]? with
    | none => rfl
    | some live =>
      obtain ⟨j, t, ht, htl, htid⟩ := htracked.owned.owner _ live hlive
      obtain rfl := htracked.apart hroomy.distinct hslot.state ht htid.symm
      obtain rfl := Option.some.inj (hslot.state.symm.trans ht)
      exact absurd (hnew.symm.trans htl.allocated) Bool.false_ne_true
  have hneeds : promptBlocks (continuousBatcher config).kvBlockTokens s.request.promptTokens
      s.request.prefixCacheKey s.request.prefixCacheTokens ≤
        s.request.blocksNeeded (continuousBatcher config).kvBlockTokens := by
    have hnonneg := ceilDiv_nonneg (max 0 s.request.maxGeneratedTokens) _ hpos
    unfold SequenceRequest.blocksNeeded
    omega
  have hspace := Room.hasRoom hroomy htracked hroom ha hslot.state hneeds
  simp only [State.charge, hnew, Bool.false_eq_true, if_false, Int.sub_zero] at hspace
  have hconfig := hroom.blockTokens
  rw [← hconfig] at hspace hpos ⊢
  exact allocatePrompt_room hpos hid hnone hspace

theorem Room.extends {i : Nat} {s : State} {r : SequenceResult} (ha : m.Aligned)
    (hslot : m.Slot i s r) (hcand : decodeCandidate s = true) :
    (m.allocator.appendTokens s.request.id 1).1.ok = true ∧
      Within m.allocator (m.allocator.appendTokens s.request.id 1).2
        (ceilDiv (s.generated + 1) (continuousBatcher config).kvBlockTokens -
          ceilDiv s.generated (continuousBatcher config).kvBlockTokens) := by
  obtain ⟨hpos, -⟩ := continuousBatcher_blockTokens config
  obtain ⟨hd, hready, hlt⟩ := (decodeCandidate_iff s).mp hcand
  have hallocated := ((htracked.told i s r hslot).ready.mp hready).1
  obtain ⟨q, hq, hgenerated⟩ := htracked.owned.held i s hslot.state ⟨hallocated, hd⟩
  have hmono := ceilDiv_mono (s.generated + 1) (max 0 s.request.maxGeneratedTokens) _ hpos
    (by omega)
  have hneeds : promptBlocks (continuousBatcher config).kvBlockTokens s.request.promptTokens
      s.request.prefixCacheKey s.request.prefixCacheTokens +
        ceilDiv (s.generated + 1) (continuousBatcher config).kvBlockTokens ≤
          s.request.blocksNeeded (continuousBatcher config).kvBlockTokens := by
    unfold SequenceRequest.blocksNeeded
    omega
  have hspace := Room.hasRoom hroomy htracked hroom ha hslot.state hneeds
  simp only [State.charge, hallocated, if_true, Int.add_sub_add_left] at hspace
  have hconfig := hroom.blockTokens
  rw [← hconfig, ← hgenerated] at hspace ⊢
  rw [← hconfig] at hpos
  exact appendTokens_room hq Int.one_pos hpos hspace

/-- No turn is a rejection, and a turn takes no more blocks than its state asks for. -/
theorem Turn.room {k i : Nat} {s : State} {r : SequenceResult} {o : Outcome} (ha : m.Aligned)
    (hslot : m.Slot i s r) (ho : Turn k m.allocator s r o) :
    Room (continuousBatcher config) (m.put i o) ∧ ¬ Rejected o.state o.result := by
  have htold := htracked.told i s r hslot
  have hpos := (continuousBatcher_blockTokens config).1
  have hzero : ceilDiv 0 (continuousBatcher config).kvBlockTokens = 0 := if_pos (Int.le_refl 0)
  cases ho with
  | prefill budget hb hc ho =>
    obtain ⟨hd, hr⟩ := (prefillCandidate_iff s).mp hc
    cases ho with
    | refuse hnew hok =>
      have haccepts := (Room.accepts hroomy htracked hroom ha hslot hnew).1
      exact absurd (hok.symm.trans haccepts) Bool.false_ne_true
    | accept hnew hok =>
      have haccepts := (Room.accepts hroomy htracked hroom ha hslot hnew).2
      refine ⟨hroom.put hslot.state haccepts ?_, fun h => Bool.false_ne_true (hd.symm.trans h.1)⟩
      have hnone := htold.waiting hr
      simp [State.charge, State.consume, hnew, hnone, hzero]
    | consume hold =>
      have hsame : Within m.allocator m.allocator 0 := ⟨rfl, rfl, by omega⟩
      refine ⟨hroom.put hslot.state hsame ?_, fun h => Bool.false_ne_true (hd.symm.trans h.1)⟩
      simp [State.charge, State.consume]
  | decode hc ho =>
    obtain ⟨hd, hr, -⟩ := (decodeCandidate_iff s).mp hc
    obtain ⟨hextends, hwithin⟩ := Room.extends hroomy htracked hroom ha hslot hc
    have hallocated := (htold.ready.mp hr).1
    cases ho with
    | refuse hok => exact absurd (hok.symm.trans hextends) Bool.false_ne_true
    | token hok hne =>
      refine ⟨hroom.put hslot.state hwithin ?_, fun h => Bool.false_ne_true (hd.symm.trans h.1)⟩
      simp only [State.charge, hallocated, if_true]
      omega
    | last hok heq =>
      have hreleased := hwithin.trans (releaseSequence_within _ s.request.id)
      refine ⟨hroom.put hslot.state hreleased ?_, fun h => by simp [Rejected] at h⟩
      simp only [State.charge, hallocated, if_true]
      omega
  | complete hd hr hm ho =>
    subst ho
    exact ⟨hroom.put hslot.state (releaseSequence_within _ s.request.id) (Int.add_zero _).symm,
      fun h => by simp [Rejected, completeTurn] at h⟩

end

structure Uncrowded (config : ContinuousBatcherConfig) (requests : List SequenceRequest) (n : Nat)
    (m : Machine) : Prop where
  tracked : Tracked requests n m
  room : Room (continuousBatcher config) m
  kept : ∀ (i : Nat) (s : State) (r : SequenceResult), m.Slot i s r → ¬ Rejected s r

theorem Uncrowded.turn {config : ContinuousBatcherConfig} {requests : List SequenceRequest}
    (hroomy : Roomy config requests) {n : Nat} {m : Machine}
    (h : Uncrowded config requests (n + 1) m) (ha : m.Aligned) {i : Nat} {s : State}
    {r : SequenceResult} {o : Outcome} (hslot : m.Slot i s r) (ho : Turn n m.allocator s r o) :
    Uncrowded config requests (n + 1) (m.put i o) := by
  obtain ⟨hroom, hnot⟩ := ho.room hroomy h.tracked h.room ha hslot
  refine ⟨h.tracked.turn hslot ho, hroom, fun j t u htu => ?_⟩
  rcases (hslot.put o).mp htu with ⟨-, rfl, rfl⟩ | ⟨-, htu⟩
  · exact hnot
  · exact h.kept j t u htu

theorem Uncrowded.next {config : ContinuousBatcherConfig} {requests : List SequenceRequest}
    {n : Nat} {m : Machine} (h : Uncrowded config requests n m) :
    Uncrowded config requests (n + 1) m :=
  ⟨h.tracked.next, h.room, h.kept⟩

theorem start_uncrowded (config : ContinuousBatcherConfig) (requests : List SequenceRequest) :
    Uncrowded config requests 0 (Machine.start (continuousBatcher config) requests) := by
  obtain ⟨htokens, hblocks⟩ := continuousBatcher_blockTokens config
  refine ⟨start_tracked _ requests, ⟨if_pos htokens, ?_, ?_⟩, fun i s r hslot hrejected => ?_⟩
  · have hclamp : clampPositive (continuousBatcher config).kvCacheBlocks 1 =
        (continuousBatcher config).kvCacheBlocks := if_pos hblocks
    simp only [Machine.start, Impl.new, List.length_replicate, hclamp]
    omega
  · have hcharge : ((Machine.start (continuousBatcher config) requests).states.map
        (State.charge (continuousBatcher config).kvBlockTokens)).sum = 0 := by
      refine List.sum_eq_zero fun charge hcharge => ?_
      obtain ⟨s, hs, rfl⟩ := List.mem_map.mp hcharge
      obtain ⟨i, hi⟩ := List.getElem?_of_mem hs
      obtain ⟨q, rfl⟩ := start_states _ requests i s hi
      rfl
    rw [hcharge]
    simp only [Machine.start, Impl.new, Impl.usedBlockCount, Impl.freeBlockCount,
      List.length_replicate, List.countP_replicate]
    simp
  · obtain ⟨q, rfl⟩ := start_states _ requests i s hslot.state
    exact Bool.false_ne_true hrejected.1

theorem machineAt_uncrowded {config : ContinuousBatcherConfig} {requests : List SequenceRequest}
    (hroomy : Roomy config requests) (n : Nat) :
    Uncrowded config requests n (machineAt config requests n) :=
  (machineAt_invariant (motive := fun n m _ => Uncrowded config requests (n + 1) m) config requests
    (start_uncrowded config requests) (fun _ _ _ _ h => h.next)
    (fun _ _ _ _ _ _ _ h ha hslot ho => h.turn hroomy ha hslot ho) (fun _ _ _ h => h) n).2

end Laminar.Scheduler
