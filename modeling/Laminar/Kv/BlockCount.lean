import Mathlib.Algebra.Order.Floor.Ring
import Mathlib.Data.Rat.Floor
import Mathlib.Tactic.FieldSimp
import Laminar.Kv.Sequences

/-! The number of blocks of a live sequence, told from the calls made on it: the ceilings of its
cacheable prefix, of the rest of its prompt and of the tokens appended to it. -/
namespace Laminar.Kv

/-- What the calls so far have asked of a sequence: the prompt it was admitted with and the tokens
appended to it since. A call for a negative number of tokens asks for none. -/
structure Account where
  promptTokens : Int
  key : Bytes
  prefixTokens : Int
  generatedTokens : Int

def Account.cacheable (a : Account) : Int := cacheableTokens a.promptTokens a.key a.prefixTokens

/-- The law of the block count: three ceilings, for prefix, rest of the prompt and generation. -/
def Account.blocks (a : Account) (tokensPerBlock : Int) : Int :=
  ⌈(a.cacheable : ℚ) / tokensPerBlock⌉ +
    ⌈((a.promptTokens - a.cacheable : Int) : ℚ) / tokensPerBlock⌉ +
    ⌈(a.generatedTokens : ℚ) / tokensPerBlock⌉

def Account.after (s : Impl) (id : Bytes) (account : Option Account) : Call → Option Account
  | .allocatePrompt callId promptTokens key prefixTokens =>
    if callId = id ∧ (s.allocatePrompt callId promptTokens key prefixTokens).1.ok = true then
      some ⟨max 0 promptTokens, key, prefixTokens, 0⟩
    else account
  | .appendTokens callId tokenCount =>
    if callId = id ∧ (s.appendTokens callId tokenCount).1.ok = true then
      account.map fun a => { a with generatedTokens := a.generatedTokens + max 0 tokenCount }
    else account
  | .releaseSequence callId => if callId = id then none else account

def Account.afterAll (id : Bytes) : Impl → Option Account → List Call → Option Account
  | _, account, [] => account
  | s, account, call :: calls => afterAll id (s.exec call) (after s id account call) calls

def accountOf (config : KvCacheConfig) (calls : List Call) (id : Bytes) : Option Account :=
  Account.afterAll id (Impl.new config) none calls

/-- `CeilDiv` is the ceiling of the quotient. -/
theorem ceilDiv_eq_ceil {value divisor : Int} (hvalue : 0 ≤ value) (hdivisor : 0 < divisor) :
    ceilDiv value divisor = ⌈(value : ℚ) / divisor⌉ := by
  have hpos : (0 : ℚ) < divisor := by exact_mod_cast hdivisor
  symm
  unfold ceilDiv
  split_ifs with hzero
  · obtain rfl : value = 0 := by omega
    simp
  rw [Int.tdiv_eq_ediv_of_nonneg (by omega), Int.ceil_eq_iff]
  have hmod := Int.emod_add_mul_ediv (value + divisor - 1) divisor
  have hlow := Int.emod_nonneg (value + divisor - 1) hdivisor.ne'
  have hhigh := Int.emod_lt_of_pos (value + divisor - 1) hdivisor
  set k := (value + divisor - 1) / divisor
  constructor
  · rw [lt_div_iff₀ hpos]
    have : (k - 1) * divisor < value := by linarith [sub_mul k 1 divisor, mul_comm divisor k]
    exact_mod_cast this
  · rw [div_le_iff₀ hpos]
    have : value ≤ k * divisor := by linarith [mul_comm divisor k]
    exact_mod_cast this

theorem cacheableTokens_bounds {promptTokens : Int} (h : 0 ≤ promptTokens) (key : Bytes)
    (prefixTokens : Int) : 0 ≤ cacheableTokens promptTokens key prefixTokens ∧
      cacheableTokens promptTokens key prefixTokens ≤ promptTokens := by
  unfold cacheableTokens
  split_ifs <;> omega

theorem allocateBlocks_config (s : Impl) (blockCount : Int) (key : Bytes) :
    (s.allocateBlocks blockCount key).2.config = s.config := by
  have hensure : (s.ensureFreeBlocks blockCount).2.config = s.config := by
    unfold Impl.ensureFreeBlocks
    split_ifs
    · rfl
    · exact evictLoop_induct (motive := fun t => t.config = s.config) (fun _ _ _ h _ _ => h)
        blockCount _ s rfl (fun _ hp => cached_of_mem_toList hp) (keys_ne s)
  by_cases hle : blockCount ≤ 0
  · rw [show s.allocateBlocks blockCount key = ([], s) from if_pos hle]
  by_cases hok : (s.ensureFreeBlocks blockCount).1 = true
  · rw [allocateBlocks_enough s blockCount key hle hok]
    exact hensure
  · rw [allocateBlocks_short s blockCount key hle hok]
    exact hensure

theorem allocateFresh_config (s : Impl) (id key : Bytes) (sequence : Sequence)
    (cacheable suffixBlockCount : Int) :
    (s.allocateFresh id key sequence cacheable suffixBlockCount).2.config = s.config := by
  unfold Impl.allocateFresh
  simp only
  split_ifs
  all_goals simp only [allocateBlocks_config]

theorem exec_config (s : Impl) (call : Call) : (s.exec call).config = s.config := by
  cases call with
  | allocatePrompt id promptTokens key prefixTokens =>
    simp only [Impl.exec, Impl.allocatePrompt]
    split_ifs
    · rfl
    · rfl
    · split
      · simp only [Impl.allocateShared]
        split_ifs
        all_goals simp only [allocateBlocks_config]
      · exact allocateFresh_config _ id key _ _ _
    · exact allocateFresh_config s id key _ _ _
  | appendTokens id tokenCount =>
    simp only [Impl.exec, Impl.appendTokens]
    split
    · rfl
    · split_ifs
      all_goals simp only [allocateBlocks_config]
  | releaseSequence id =>
    simp only [Impl.exec, Impl.releaseSequence]
    split <;> rfl

/-- A sequence that shares an entry has the blocks of the entry and those of its suffix. -/
theorem allocateShared_count {s : Impl} {id : Bytes} {sequence : Sequence} {e : PrefixEntry}
    {suffixBlockCount : Int}
    (hok : (s.allocateShared id sequence e suffixBlockCount).1.ok = true) :
    ∃ ids : List Nat, (ids.length : Int) = e.blockIds.length + suffixBlockCount ∧
      (s.allocateShared id sequence e suffixBlockCount).2.Live id
        { sequence with blockIds := ids } := by
  unfold Impl.allocateShared at hok ⊢
  simp only at hok ⊢
  split_ifs at hok ⊢ with hshort
  · exact absurd hok Bool.false_ne_true
  refine ⟨_, ?_, (OrderedMap.getElem?_insert _ _ _ _).trans (if_pos rfl)⟩
  rw [List.length_append, Int.natCast_add, not_not.mp hshort]

/-- A sequence that shares nothing has as many blocks. -/
theorem allocateFresh_count {s : Impl} {id key : Bytes} {sequence : Sequence}
    {cacheable suffixBlockCount : Int}
    (hok : (s.allocateFresh id key sequence cacheable suffixBlockCount).1.ok = true) :
    ∃ ids : List Nat, (ids.length : Int) = sequence.prefixBlockCount + suffixBlockCount ∧
      (s.allocateFresh id key sequence cacheable suffixBlockCount).2.Live id
        { sequence with blockIds := ids } := by
  unfold Impl.allocateFresh at hok ⊢
  simp only at hok ⊢
  by_cases hshort :
      ((s.allocateBlocks sequence.prefixBlockCount key).1.length : Int) ≠ sequence.prefixBlockCount
  · rw [if_pos hshort] at hok
    exact absurd hok Bool.false_ne_true
  rw [if_neg hshort] at hok ⊢
  by_cases hshort' : (((s.allocateBlocks sequence.prefixBlockCount key).2.allocateBlocks
      suffixBlockCount []).1.length : Int) ≠ suffixBlockCount
  · rw [if_pos hshort'] at hok
    exact absurd hok Bool.false_ne_true
  rw [if_neg hshort']
  refine ⟨_, ?_, (OrderedMap.getElem?_insert _ _ _ _).trans (if_pos rfl)⟩
  rw [List.length_append, Int.natCast_add, not_not.mp hshort, not_not.mp hshort']

/-- A prompt that is admitted gets the blocks of its prefix and of the rest of its tokens, whether
it shares the prefix or not. -/
theorem allocatePrompt_count {s : Impl} (h : Ledger s []) {id : Bytes} {promptTokens : Int}
    {key : Bytes} {prefixTokens : Int}
    (hok : (s.allocatePrompt id promptTokens key prefixTokens).1.ok = true) :
    ∃ q, (s.allocatePrompt id promptTokens key prefixTokens).2.Live id q ∧
      q.promptTokens = max 0 promptTokens ∧ q.generatedTokens = 0 ∧
      (q.blockIds.length : Int) =
        ceilDiv (cacheableTokens (max 0 promptTokens) key prefixTokens) s.config.tokensPerBlock +
          ceilDiv (max 0 promptTokens - cacheableTokens (max 0 promptTokens) key prefixTokens)
            s.config.tokensPerBlock := by
  unfold Impl.allocatePrompt at hok ⊢
  simp only at hok ⊢
  split_ifs at hok ⊢ with hid hlive hkey
  · exact absurd hok Bool.false_ne_true
  · exact absurd hok Bool.false_ne_true
  · cases hcached : s.cachedPrefix key (cacheableTokens (max 0 promptTokens) key prefixTokens) with
    | some e =>
      simp only [hcached] at hok ⊢
      obtain ⟨he, htokens⟩ := cachedPrefix_some hcached
      obtain ⟨ids, hlength, hq⟩ := allocateShared_count hok
      rw [(h.cached key e he).length, htokens] at hlength
      exact ⟨_, hq, rfl, rfl, hlength⟩
    | none =>
      simp only [hcached] at hok ⊢
      obtain ⟨ids, hlength, hq⟩ := allocateFresh_count hok
      exact ⟨_, hq, rfl, rfl, hlength⟩
  · obtain ⟨ids, hlength, hq⟩ := allocateFresh_count hok
    exact ⟨_, hq, rfl, rfl, hlength⟩

/-- Tokens that are appended bring the blocks by which the ceiling of the generation grows. -/
theorem appendTokens_count {s : Impl} {id : Bytes} {tokenCount : Int} {q : Sequence}
    (hq : s.Live id q) (hpos : 0 < tokenCount)
    (hok : (s.appendTokens id tokenCount).1.ok = true) :
    ∃ q', (s.appendTokens id tokenCount).2.Live id q' ∧ q'.promptTokens = q.promptTokens ∧
      q'.generatedTokens = q.generatedTokens + tokenCount ∧
      (q'.blockIds.length : Int) = q.blockIds.length +
        (ceilDiv (q.generatedTokens + tokenCount) s.config.tokensPerBlock -
          ceilDiv q.generatedTokens s.config.tokensPerBlock) := by
  simp only [Impl.appendTokens, show s.sequences[id]? = some q from hq,
    if_neg (Int.not_le.mpr hpos)] at hok ⊢
  split_ifs at hok ⊢ with hshort
  · exact absurd hok Bool.false_ne_true
  refine ⟨_, (OrderedMap.getElem?_insert _ _ _ _).trans (if_pos rfl), rfl, rfl, ?_⟩
  rw [List.length_append, Int.natCast_add, not_not.mp hshort]

def Keeps (s : Impl) (id : Bytes) : Option Account → Prop
  | none => s.sequences[id]? = none
  | some a => ∃ q, s.Live id q ∧ 0 ≤ a.promptTokens ∧ 0 ≤ a.generatedTokens ∧
      q.generatedTokens = a.generatedTokens ∧
      (q.blockIds.length : Int) = ceilDiv a.cacheable s.config.tokensPerBlock +
        ceilDiv (a.promptTokens - a.cacheable) s.config.tokensPerBlock +
        ceilDiv a.generatedTokens s.config.tokensPerBlock

theorem Keeps.congr {s t : Impl} {id : Bytes} {account : Option Account} (h : Keeps s id account)
    (hconfig : t.config = s.config) (hsame : t.sequences[id]? = s.sequences[id]?) :
    Keeps t id account := by
  cases account with
  | none => exact hsame.trans h
  | some a =>
    obtain ⟨q, hq, hlaw⟩ := h
    rw [← hconfig] at hlaw
    exact ⟨q, hsame.trans hq, hlaw⟩

theorem Keeps.allocatePrompt {s : Impl} (hl : Ledger s []) {id : Bytes} {account : Option Account}
    (h : Keeps s id account) (promptTokens : Int) (key : Bytes) (prefixTokens : Int) :
    Keeps (s.exec (.allocatePrompt id promptTokens key prefixTokens)) id
      (Account.after s id account (.allocatePrompt id promptTokens key prefixTokens)) := by
  have hconfig := exec_config s (.allocatePrompt id promptTokens key prefixTokens)
  cases hok : (s.allocatePrompt id promptTokens key prefixTokens).1.ok with
  | false =>
    obtain ⟨-, hsame⟩ | ⟨hok', -⟩ := allocatePrompt_outcome s id promptTokens key prefixTokens
    · simp only [Account.after, hok, Bool.false_eq_true, and_false, if_false]
      exact h.congr hconfig (congrArg (fun m => m[id]?) hsame)
    · exact absurd (hok.symm.trans hok') Bool.false_ne_true
  | true =>
    obtain ⟨q, hq, -, hgenerated, hlength⟩ := allocatePrompt_count hl hok
    simp only [Account.after, hok, and_self, if_true]
    refine ⟨q, hq, le_max_left _ _, le_rfl, hgenerated, ?_⟩
    rw [hconfig, hlength, show ceilDiv 0 s.config.tokensPerBlock = 0 from if_pos le_rfl,
      Int.add_zero]
    rfl

theorem Keeps.appendTokens {s : Impl} {id : Bytes} {account : Option Account}
    (h : Keeps s id account) (tokenCount : Int) :
    Keeps (s.exec (.appendTokens id tokenCount)) id
      (Account.after s id account (.appendTokens id tokenCount)) := by
  have hconfig := exec_config s (.appendTokens id tokenCount)
  cases account with
  | none =>
    have hnone : s.sequences[id]? = none := h
    have hsame : s.exec (.appendTokens id tokenCount) = s := by
      simp only [Impl.exec, Impl.appendTokens, hnone]
    simp only [Account.after, Option.map_none, ite_self, hsame]
    exact h
  | some a =>
    obtain ⟨q, hq, hprompt, hnonneg, hgenerated, hlength⟩ := h
    by_cases hpos : 0 < tokenCount
    · have hmax : max 0 tokenCount = tokenCount := max_eq_right hpos.le
      cases hok : (s.appendTokens id tokenCount).1.ok with
      | false =>
        obtain ⟨-, hsame⟩ | ⟨hok', -⟩ := appendTokens_outcome s id hpos
        · simp only [Account.after, hok, Bool.false_eq_true, and_false, if_false]
          have hkept : Keeps s id (some a) := ⟨q, hq, hprompt, hnonneg, hgenerated, hlength⟩
          exact hkept.congr hconfig (congrArg (fun m => m[id]?) hsame)
        · exact absurd (hok.symm.trans hok') Bool.false_ne_true
      | true =>
        obtain ⟨q', hq', -, hgenerated', hlength'⟩ := appendTokens_count hq hpos hok
        simp only [Account.after, hok, and_self, if_true, Option.map_some, hmax]
        refine ⟨q', hq', hprompt, by simp only; omega, by rw [hgenerated', hgenerated], ?_⟩
        rw [hconfig, hlength', hlength, hgenerated]
        simp only [Account.cacheable]
        omega
    · have hmax : max 0 tokenCount = 0 := max_eq_left (Int.not_lt.mp hpos)
      have hidle : s.appendTokens id tokenCount = (allocationOk 0, s) := by
        simp only [Impl.appendTokens, show s.sequences[id]? = some q from hq,
          if_pos (Int.not_lt.mp hpos)]
      simp only [Impl.exec, Account.after, hidle, allocationOk, and_self, if_true, Option.map_some,
        hmax, Int.add_zero]
      exact ⟨q, hq, hprompt, hnonneg, hgenerated, hlength⟩

theorem Keeps.exec {s : Impl} (hl : Ledger s []) {id : Bytes} {account : Option Account}
    (h : Keeps s id account) (call : Call) :
    Keeps (s.exec call) id (Account.after s id account call) := by
  by_cases hid : call.id = id
  · subst hid
    cases call with
    | allocatePrompt callId promptTokens key prefixTokens =>
      exact h.allocatePrompt hl promptTokens key prefixTokens
    | appendTokens callId tokenCount => exact h.appendTokens tokenCount
    | releaseSequence callId =>
      simp only [Account.after, Call.id, if_true]
      exact (releaseSequence_getElem? s callId callId).trans (if_pos rfl)
  · have hsame : Account.after s id account call = account := by
      cases call with
      | allocatePrompt callId promptTokens key prefixTokens => exact if_neg fun h => hid h.1
      | appendTokens callId tokenCount => exact if_neg fun h => hid h.1
      | releaseSequence callId => exact if_neg hid
    rw [hsame]
    exact h.congr (exec_config s call) (exec_others s call id (Ne.symm hid))

theorem Keeps.execAll {id : Bytes} (calls : List Call) {s : Impl} (hl : Ledger s [])
    {account : Option Account} (h : Keeps s id account) :
    (calls.foldl Impl.exec s).config = s.config ∧
      Keeps (calls.foldl Impl.exec s) id (Account.afterAll id s account calls) := by
  induction calls generalizing s account with
  | nil => exact ⟨rfl, h⟩
  | cons call calls ih =>
    obtain ⟨hconfig, hkept⟩ := ih (hl.exec call) (h.exec hl call)
    exact ⟨hconfig.trans (exec_config s call), hkept⟩

/-- After every history of calls the live sequences are as their accounts tell. -/
theorem keeps_run (config : KvCacheConfig) (calls : List Call) (id : Bytes) :
    (runCalls config calls).config = (Impl.new config).config ∧
      Keeps (runCalls config calls) id (accountOf config calls id) :=
  Keeps.execAll calls (ledger_new config) Std.ExtTreeMap.getElem?_empty

theorem Account.blocks_eq (a : Account) (hprompt : 0 ≤ a.promptTokens)
    (hgenerated : 0 ≤ a.generatedTokens) {tokensPerBlock : Int} (htokens : 0 < tokensPerBlock) :
    a.blocks tokensPerBlock = ceilDiv a.cacheable tokensPerBlock +
      ceilDiv (a.promptTokens - a.cacheable) tokensPerBlock +
      ceilDiv a.generatedTokens tokensPerBlock := by
  obtain ⟨hlow, hhigh⟩ : 0 ≤ a.cacheable ∧ a.cacheable ≤ a.promptTokens :=
    cacheableTokens_bounds hprompt a.key a.prefixTokens
  rw [Account.blocks, ceilDiv_eq_ceil hlow htokens, ceilDiv_eq_ceil (Int.sub_nonneg_of_le hhigh)
    htokens, ceilDiv_eq_ceil hgenerated htokens]

/-- In every reachable state a sequence is live exactly when it has an account, and then its blocks
are as many as the account's prompt and generation need, however they came to it. -/
theorem blockCount_law (config : KvCacheConfig) (calls : List Call) (id : Bytes) :
    (∀ q, (runCalls config calls).Live id q → ∃ a, accountOf config calls id = some a ∧
      q.generatedTokens = a.generatedTokens ∧
      (q.blockIds.length : Int) = a.blocks (Impl.new config).config.tokensPerBlock) ∧
    (∀ a, accountOf config calls id = some a →
      (∃ q, (runCalls config calls).Live id q) ∧
      (runCalls config calls).sequenceBlockCount id =
        a.blocks (Impl.new config).config.tokensPerBlock) ∧
    ∀ config' calls' id' a a', accountOf config calls id = some a →
      accountOf config' calls' id' = some a' →
      (Impl.new config').config.tokensPerBlock = (Impl.new config).config.tokensPerBlock →
      a'.promptTokens = a.promptTokens → a'.cacheable = a.cacheable →
      a'.generatedTokens = a.generatedTokens →
      (runCalls config' calls').sequenceBlockCount id' =
        (runCalls config calls).sequenceBlockCount id := by
  have hlaw : ∀ config calls id a, accountOf config calls id = some a →
      ∃ q, (runCalls config calls).Live id q ∧ q.generatedTokens = a.generatedTokens ∧
        (q.blockIds.length : Int) = a.blocks (Impl.new config).config.tokensPerBlock := by
    intro config calls id a ha
    obtain ⟨hconfig, hkept⟩ := keeps_run config calls id
    rw [ha] at hkept
    obtain ⟨q, hq, hprompt, hnonneg, hgenerated, hlength⟩ := hkept
    rw [hconfig] at hlength
    exact ⟨q, hq, hgenerated, hlength.trans
      (a.blocks_eq hprompt hnonneg (ledger_new config).tokens).symm⟩
  have hcount : ∀ config calls id a, accountOf config calls id = some a →
      (runCalls config calls).sequenceBlockCount id =
        a.blocks (Impl.new config).config.tokensPerBlock := by
    intro config calls id a ha
    obtain ⟨q, hq, -, hlength⟩ := hlaw config calls id a ha
    rw [Impl.sequenceBlockCount, show (runCalls config calls).sequences[id]? = some q from hq]
    exact hlength
  refine ⟨fun q hq => ?_, fun a ha => ?_, fun config' calls' id' a a' ha ha' ht hp hc hg => ?_⟩
  · cases ha : accountOf config calls id with
    | none =>
      have hkept := (keeps_run config calls id).2
      rw [ha] at hkept
      exact absurd (hkept.symm.trans hq) (by simp)
    | some a =>
      obtain ⟨q', hq', hgenerated, hlength⟩ := hlaw config calls id a ha
      obtain rfl := Option.some.inj (hq.symm.trans hq')
      exact ⟨a, rfl, hgenerated, hlength⟩
  · obtain ⟨q, hq, -, -⟩ := hlaw config calls id a ha
    exact ⟨⟨q, hq⟩, hcount config calls id a ha⟩
  · rw [hcount config' calls' id' a' ha', hcount config calls id a ha, ht, Account.blocks,
      Account.blocks, hp, hc, hg]

end Laminar.Kv
