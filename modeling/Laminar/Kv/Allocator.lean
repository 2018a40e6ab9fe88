import Laminar.Bytes
import Laminar.Library.ListUpdate
import Laminar.Library.OrderedMap

/-! The KV block allocator of `backend/scheduling/continuous_batcher.cc`. An `int` is an
unbounded integer: a run in which a C++ `int` computation overflows has no defined meaning. -/
namespace Laminar.Kv
open Std Laminar.ListUpdate

structure KvCacheConfig where
  totalBlocks : Int := 1024
  tokensPerBlock : Int := 16
deriving DecidableEq

structure KvCacheStats where
  totalBlocks : Int := 0
  usedBlocks : Int := 0
  freeBlocks : Int := 0
  highWatermarkBlocks : Int := 0
  activeSequences : Int := 0
  cachedPrefixes : Int := 0
  prefixCacheHits : Int := 0
  prefixCacheMisses : Int := 0
  evictions : Int := 0
  allocationFailures : Int := 0
deriving DecidableEq

structure KvAllocation where
  ok : Bool := false
  cacheHit : Bool := false
  attachedBlocks : Int := 0
  message : String := ""
deriving DecidableEq

def clampPositive (value fallback : Int) : Int :=
  if value > 0 then value else fallback

def ceilDiv (value divisor : Int) : Int :=
  if value ≤ 0 then 0 else (value + divisor - 1).tdiv divisor

def allocationError (message : String) : KvAllocation :=
  { ok := false, message := message }

def allocationOk (attachedBlocks : Int) (cacheHit : Bool := false) : KvAllocation :=
  { ok := true, cacheHit := cacheHit, attachedBlocks := attachedBlocks }

structure Block where
  occupied : Bool := false
  refCount : Int := 0
  cachedPrefixKey : Bytes := []
deriving DecidableEq

structure Sequence where
  promptTokens : Int := 0
  generatedTokens : Int := 0
  prefixBlockCount : Int := 0
  blockIds : List Nat := []
deriving DecidableEq

structure PrefixEntry where
  tokenCount : Int := 0
  blockIds : List Nat := []
deriving DecidableEq

structure Impl where
  config : KvCacheConfig
  blocks : List Block
  sequences : ExtTreeMap Bytes Sequence
  prefixCache : ExtTreeMap Bytes PrefixEntry
  stats : KvCacheStats

def Impl.new (input : KvCacheConfig) : Impl :=
  let config : KvCacheConfig :=
    ⟨clampPositive input.totalBlocks 1, clampPositive input.tokensPerBlock 1⟩
  { config := config
    blocks := List.replicate config.totalBlocks.toNat {}
    sequences := ∅
    prefixCache := ∅
    stats := {} }

def Impl.freeBlockCount (s : Impl) : Int :=
  s.blocks.countP (fun b => !b.occupied)

def Impl.usedBlockCount (s : Impl) : Int :=
  s.blocks.length - s.freeBlockCount

def Impl.refreshHighWatermark (s : Impl) : Impl :=
  { s with stats := { s.stats with
      highWatermarkBlocks := max s.stats.highWatermarkBlocks s.usedBlockCount } }

def Impl.prefixEntryIsIdle (s : Impl) (entry : PrefixEntry) : Bool :=
  entry.blockIds.all (fun id =>
    match s.blocks[id]? with
    | none => false
    | some b => b.refCount == 0)

/-- `FreeBlock` for every block of a list; an index out of range is left alone. -/
def freeBlocks (ids : List Nat) (blocks : List Block) : List Block :=
  modifyAll (fun _ => {}) ids blocks

def Impl.evictEntry (s : Impl) (key : Bytes) (entry : PrefixEntry) : Impl :=
  { s with
    blocks := freeBlocks entry.blockIds s.blocks
    prefixCache := s.prefixCache.erase key
    stats := { s.stats with evictions := s.stats.evictions + 1 } }

/-- The loop of `EvictIdlePrefixesUntil` over the entries still ahead of its iterator. -/
def evictLoop (required : Int) : List (Bytes × PrefixEntry) → Impl → Impl
  | [], s => s
  | (key, entry) :: rest, s =>
    if s.freeBlockCount < required then
      if s.prefixEntryIsIdle entry then evictLoop required rest (s.evictEntry key entry)
      else evictLoop required rest s
    else s

def Impl.evictIdlePrefixesUntil (s : Impl) (required : Int) : Impl :=
  evictLoop required s.prefixCache.toList s

def Impl.ensureFreeBlocks (s : Impl) (blockCount : Int) : Bool × Impl :=
  if blockCount ≤ s.freeBlockCount then (true, s)
  else
    let s := s.evictIdlePrefixesUntil blockCount
    (decide (blockCount ≤ s.freeBlockCount), s)

/-- The scan of `AllocateBlocks` for free blocks, from index `index` on. -/
def takeFree (key : Bytes) : Nat → Nat → List Block → List Nat × List Block
  | _, _, [] => ([], [])
  | index, count, b :: rest =>
    if count = 0 then ([], b :: rest)
    else if b.occupied then
      let r := takeFree key (index + 1) count rest
      (r.1, b :: r.2)
    else
      let r := takeFree key (index + 1) (count - 1) rest
      (index :: r.1, { occupied := true, refCount := 1, cachedPrefixKey := key } :: r.2)

def Impl.allocateBlocks (s : Impl) (blockCount : Int) (key : Bytes) : List Nat × Impl :=
  if blockCount ≤ 0 then ([], s)
  else
    let r := s.ensureFreeBlocks blockCount
    if r.1 then
      let taken := takeFree key 0 blockCount.toNat r.2.blocks
      (taken.1, { r.2 with blocks := taken.2 }.refreshHighWatermark)
    else
      ([], { r.2 with stats := { r.2.stats with
        allocationFailures := r.2.stats.allocationFailures + 1 } })

def retainBlock (b : Block) : Block := { b with refCount := b.refCount + 1 }

def unretainBlock (b : Block) : Block := { b with refCount := b.refCount - 1 }

def releaseBlock (b : Block) : Block :=
  let b := if b.refCount > 0 then { b with refCount := b.refCount - 1 } else b
  if b.refCount = 0 ∧ b.cachedPrefixKey = [] then {} else b

/-- The cacheable prefix length that `AllocatePrompt` derives; `promptTokens` is already clamped. -/
def cacheableTokens (promptTokens : Int) (key : Bytes) (prefixTokens : Int) : Int :=
  if key = [] then 0
  else max 0 (if prefixTokens < 0 then promptTokens else min promptTokens prefixTokens)

/-- `impl_->prefix_cache.find` on the condition under which `AllocatePrompt` shares an entry. -/
def Impl.cachedPrefix (s : Impl) (key : Bytes) (cacheable : Int) : Option PrefixEntry :=
  match s.prefixCache[key]? with
  | none => none
  | some entry => if entry.tokenCount = cacheable then some entry else none

def Impl.allocateShared (s : Impl) (id : Bytes) (sequence : Sequence) (entry : PrefixEntry)
    (suffixBlockCount : Int) : KvAllocation × Impl :=
  let s := { s with blocks := modifyAll retainBlock entry.blockIds s.blocks }
  let r := s.allocateBlocks suffixBlockCount []
  if (r.1.length : Int) ≠ suffixBlockCount then
    (allocationError "kv cache exhausted",
      { r.2 with blocks := modifyAll unretainBlock entry.blockIds r.2.blocks })
  else
    (allocationOk (sequence.prefixBlockCount + suffixBlockCount) true,
      { r.2 with
        sequences := r.2.sequences.insert id { sequence with blockIds := entry.blockIds ++ r.1 }
        stats := { r.2.stats with prefixCacheHits := r.2.stats.prefixCacheHits + 1 } })

def Impl.allocateFresh (s : Impl) (id key : Bytes) (sequence : Sequence)
    (cacheable suffixBlockCount : Int) : KvAllocation × Impl :=
  let p := s.allocateBlocks sequence.prefixBlockCount key
  if (p.1.length : Int) ≠ sequence.prefixBlockCount then
    (allocationError "kv cache exhausted", p.2)
  else
    let r := p.2.allocateBlocks suffixBlockCount []
    if (r.1.length : Int) ≠ suffixBlockCount then
      (allocationError "kv cache exhausted", { r.2 with blocks := freeBlocks p.1 r.2.blocks })
    else
      let prefixCache :=
        if key ≠ [] ∧ cacheable > 0 then r.2.prefixCache.insert key ⟨cacheable, p.1⟩
        else r.2.prefixCache
      (allocationOk (sequence.prefixBlockCount + suffixBlockCount),
        { r.2 with
          prefixCache := prefixCache
          sequences := r.2.sequences.insert id { sequence with blockIds := p.1 ++ r.1 } })

def Impl.allocatePrompt (s : Impl) (id : Bytes) (promptTokens : Int) (key : Bytes)
    (prefixTokens : Int := -1) : KvAllocation × Impl :=
  if id = [] then (allocationError "sequence id is required", s)
  else if s.sequences.contains id then (allocationError "sequence already exists", s)
  else
    let promptTokens := max 0 promptTokens
    let cacheable := cacheableTokens promptTokens key prefixTokens
    let suffixBlockCount := ceilDiv (promptTokens - cacheable) s.config.tokensPerBlock
    let sequence : Sequence :=
      { promptTokens := promptTokens
        prefixBlockCount := ceilDiv cacheable s.config.tokensPerBlock }
    if key ≠ [] ∧ cacheable > 0 then
      match s.cachedPrefix key cacheable with
      | some entry => s.allocateShared id sequence entry suffixBlockCount
      | none =>
        let s := { s with stats := { s.stats with
          prefixCacheMisses := s.stats.prefixCacheMisses + 1 } }
        s.allocateFresh id key sequence cacheable suffixBlockCount
    else s.allocateFresh id key sequence cacheable suffixBlockCount

def Impl.appendTokens (s : Impl) (id : Bytes) (tokenCount : Int) : KvAllocation × Impl :=
  match s.sequences[id]? with
  | none => (allocationError "sequence does not exist", s)
  | some sequence =>
    if tokenCount ≤ 0 then (allocationOk 0, s)
    else
      let before := ceilDiv sequence.generatedTokens s.config.tokensPerBlock
      let after := ceilDiv (sequence.generatedTokens + tokenCount) s.config.tokensPerBlock
      let r := s.allocateBlocks (after - before) []
      if (r.1.length : Int) ≠ after - before then (allocationError "kv cache exhausted", r.2)
      else
        (allocationOk (after - before),
          { r.2 with sequences := r.2.sequences.insert id { sequence with
              generatedTokens := sequence.generatedTokens + tokenCount
              blockIds := sequence.blockIds ++ r.1 } })

def Impl.releaseSequence (s : Impl) (id : Bytes) : Impl :=
  match s.sequences[id]? with
  | none => s
  | some sequence =>
    { s with
      blocks := modifyAll releaseBlock sequence.blockIds s.blocks
      sequences := s.sequences.erase id }

def Impl.snapshotStats (s : Impl) : KvCacheStats :=
  { s.stats with
    totalBlocks := s.blocks.length
    usedBlocks := s.usedBlockCount
    freeBlocks := s.freeBlockCount
    activeSequences := s.sequences.size
    cachedPrefixes := s.prefixCache.size }

def Impl.sequenceBlockCount (s : Impl) (id : Bytes) : Int :=
  match s.sequences[id]? with
  | none => 0
  | some sequence => sequence.blockIds.length

inductive Call where
  | allocatePrompt (id : Bytes) (promptTokens : Int) (key : Bytes) (prefixTokens : Int)
  | appendTokens (id : Bytes) (tokenCount : Int)
  | releaseSequence (id : Bytes)
deriving DecidableEq

def Call.id : Call → Bytes
  | .allocatePrompt id _ _ _ => id
  | .appendTokens id _ => id
  | .releaseSequence id => id

def Impl.exec (s : Impl) : Call → Impl
  | .allocatePrompt id promptTokens key prefixTokens =>
    (s.allocatePrompt id promptTokens key prefixTokens).2
  | .appendTokens id tokenCount => (s.appendTokens id tokenCount).2
  | .releaseSequence id => s.releaseSequence id

def runCalls (config : KvCacheConfig) (calls : List Call) : Impl :=
  calls.foldl Impl.exec (Impl.new config)

end Laminar.Kv
