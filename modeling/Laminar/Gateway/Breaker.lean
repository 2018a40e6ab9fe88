import Laminar.Gateway.CountersFlush

/-! The circuit of `Batcher` against its failure history. The breaker opens and closes inside the
check, and counts its reset time from the first check that saw the failures. -/
namespace Laminar.Gateway
open Laminar.Transition

inductive BreakerEvent where
  | failure
  | success
  | check
deriving DecidableEq

def Breaker.after (config : Config) (b : Breaker) : Int × BreakerEvent → Breaker
  | (_, .failure) => b.recordFailure
  | (_, .success) => b.recordSuccess
  | (now, .check) => (b.isCircuitOpen config now none).2

structure FailureHistory where
  failures : Int := 0
  completedAt : Option Int := none
  noticedAt : Option Int := none

namespace FailureHistory

def expire (config : Config) (f : FailureHistory) (now : Int) : FailureHistory :=
  match f.completedAt with
  | none => f
  | some completedAt => if now - completedAt < config.circuitBreakerResetAfter then f else {}

def isOpen (config : Config) (f : FailureHistory) (now : Int) : Bool :=
  (f.expire config now).completedAt.isSome

def fail (config : Config) (f : FailureHistory) (now : Int) : FailureHistory :=
  { f with
    failures := f.failures + 1
    completedAt := f.completedAt.or
      (if f.failures + 1 ≥ config.circuitBreakerThreshold then some now else none) }

def notice (f : FailureHistory) (now : Int) : FailureHistory :=
  { f with noticedAt := if f.completedAt.isSome then f.noticedAt.or (some now) else none }

def after (config : Config) (f : FailureHistory) : Int × BreakerEvent → FailureHistory
  | (now, .failure) => (f.expire config now).fail config now
  | (_, .success) => {}
  | (now, .check) => (f.expire config now).notice now

end FailureHistory

structure Guard where
  now : Int
  breaker : Breaker := {}
  history : FailureHistory := {}

/-- Events come at times that do not decrease. -/
def Guard.step (config : Config) (g : Guard) (event : Int × BreakerEvent) : Option Guard :=
  if g.now ≤ event.1 then
    some { now := event.1
           breaker := g.breaker.after config event
           history := g.history.after config event }
  else none

def Follows (config : Config) (g : Guard) : Int × BreakerEvent → Prop
  | (now, .check) =>
    (g.breaker.isCircuitOpen config now none).1 = g.history.isOpen config now
  | _ => True

/-- After the reset time, counted from the failure that completed the threshold, no failure comes
before a check, and no check before the reset time, counted from the first check, is over too. -/
def OnTime (config : Config) (g : Guard) : Int × BreakerEvent → Prop
  | (now, .failure) => ∀ completedAt, g.history.completedAt = some completedAt →
    now - completedAt < config.circuitBreakerResetAfter
  | (_, .success) => True
  | (now, .check) => ∀ completedAt, g.history.completedAt = some completedAt →
    now - completedAt < config.circuitBreakerResetAfter ∨
      ∃ noticedAt, g.history.noticedAt = some noticedAt ∧
        config.circuitBreakerResetAfter ≤ now - noticedAt

def LetThrough (config : Config) (g : Guard) : Int × BreakerEvent → Prop
  | (_, .check) => True
  | _ => g.breaker.failureCount < config.circuitBreakerThreshold ∧ g.breaker.circuitOpen = false

inductive Guard.Synced (config : Config) (g : Guard) : Prop
  | closed (hcompleted : g.history.completedAt = none) (hnoticed : g.history.noticedAt = none)
      (hopen : g.breaker.circuitOpen = false)
      (hcount : g.breaker.failureCount = g.history.failures)
      (hless : g.breaker.failureCount < config.circuitBreakerThreshold)
  | unnoticed (completedAt : Int) (hcompleted : g.history.completedAt = some completedAt)
      (hnoticed : g.history.noticedAt = none) (hopen : g.breaker.circuitOpen = false)
      (hcount : config.circuitBreakerThreshold ≤ g.breaker.failureCount)
      (hbefore : completedAt ≤ g.now)
  | noticed (completedAt noticedAt : Int) (hcompleted : g.history.completedAt = some completedAt)
      (hnoticed : g.history.noticedAt = some noticedAt) (hopen : g.breaker.circuitOpen = true)
      (hcount : config.circuitBreakerThreshold ≤ g.breaker.failureCount)
      (hat : g.breaker.circuitOpenAt = noticedAt) (hbefore : completedAt ≤ noticedAt)
      (hnow : noticedAt ≤ g.now)

section
variable {config : Config} {b : Breaker} {now : Int}

theorem isCircuitOpen_closed (hcount : b.failureCount < config.circuitBreakerThreshold)
    (hopen : b.circuitOpen = false) : b.isCircuitOpen config now none = (false, b) := by
  simp [Breaker.isCircuitOpen, hopen, Int.not_le.mpr hcount]

theorem isCircuitOpen_opens (hreset : 0 < config.circuitBreakerResetAfter)
    (hcount : config.circuitBreakerThreshold ≤ b.failureCount) (hopen : b.circuitOpen = false) :
    b.isCircuitOpen config now none =
      (true, { b with circuitOpen := true, circuitOpenAt := now }) := by
  simp [Breaker.isCircuitOpen, hopen, hcount, Int.not_le.mpr hreset]

theorem isCircuitOpen_open (hopen : b.circuitOpen = true)
    (hless : now - b.circuitOpenAt < config.circuitBreakerResetAfter) :
    b.isCircuitOpen config now none = (true, b) := by
  simp [Breaker.isCircuitOpen, hopen, Int.not_le.mpr hless]

theorem isCircuitOpen_resets (hopen : b.circuitOpen = true)
    (hle : config.circuitBreakerResetAfter ≤ now - b.circuitOpenAt) :
    b.isCircuitOpen config now none =
      (false, { b with circuitOpen := false, failureCount := 0 }) := by
  simp [Breaker.isCircuitOpen, hopen, hle]

namespace FailureHistory
variable {f : FailureHistory} {completedAt : Int}

theorem expire_none (h : f.completedAt = none) : f.expire config now = f := by
  simp [expire, h]

theorem expire_fresh (h : f.completedAt = some completedAt)
    (hless : now - completedAt < config.circuitBreakerResetAfter) : f.expire config now = f := by
  simp [expire, h, hless]

theorem expire_late (h : f.completedAt = some completedAt)
    (hle : config.circuitBreakerResetAfter ≤ now - completedAt) : f.expire config now = {} := by
  simp [expire, h, Int.not_lt.mpr hle]

end FailureHistory

variable {g g' : Guard} {event : Int × BreakerEvent}

theorem Guard.step_some (h : g.step config event = some g') :
    g.now ≤ event.1 ∧ g' = { now := event.1
                             breaker := g.breaker.after config event
                             history := g.history.after config event } := by
  unfold Guard.step at h
  split_ifs at h with hle
  exact ⟨hle, (Option.some.inj h).symm⟩

/-- Where the history has no completed threshold, or has it for less than the reset time, or has had
it for the reset time twice over, a check answers what the history says. -/
theorem Guard.Synced.follows (h : g.Synced config) (hreset : 0 < config.circuitBreakerResetAfter)
    (hon : OnTime config g event) : Follows config g event := by
  obtain ⟨now, kind⟩ := event
  cases kind with
  | failure => trivial
  | success => trivial
  | check =>
    simp only [Follows, FailureHistory.isOpen]
    cases h with
    | closed hcompleted hnoticed hopen hcount hless =>
      rw [isCircuitOpen_closed hless hopen, FailureHistory.expire_none hcompleted, hcompleted]
      rfl
    | unnoticed completedAt hcompleted hnoticed hopen hcount hbefore =>
      obtain hless | ⟨noticedAt, hsome, -⟩ := hon completedAt hcompleted
      · rw [isCircuitOpen_opens hreset hcount hopen,
          FailureHistory.expire_fresh hcompleted hless, hcompleted]
        rfl
      · rw [hnoticed] at hsome
        exact absurd hsome (by simp)
    | noticed completedAt noticedAt hcompleted hnoticed hopen hcount hat hbefore hnow =>
      obtain hless | ⟨noticedAt', hsome, hle⟩ := hon completedAt hcompleted
      · rw [isCircuitOpen_open hopen (by omega), FailureHistory.expire_fresh hcompleted hless,
          hcompleted]
        rfl
      · rw [hnoticed] at hsome
        obtain rfl := Option.some.inj hsome
        rw [isCircuitOpen_resets hopen (by omega), FailureHistory.expire_late hcompleted (by omega)]
        rfl

theorem Guard.Synced.step (h : g.Synced config) (hthreshold : 0 < config.circuitBreakerThreshold)
    (hreset : 0 < config.circuitBreakerResetAfter) (hon : OnTime config g event)
    (hstep : g.step config event = some g') : g'.Synced config := by
  obtain ⟨hle, rfl⟩ := Guard.step_some hstep
  obtain ⟨now, kind⟩ := event
  cases kind with
  | success => exact .closed rfl rfl rfl rfl hthreshold
  | failure =>
    cases h with
    | closed hcompleted hnoticed hopen hcount hless =>
      have hafter : g.history.after config (now, .failure) =
          { failures := g.history.failures + 1
            completedAt := if g.history.failures + 1 ≥ config.circuitBreakerThreshold then some now
              else none } := by
        simp [FailureHistory.after, FailureHistory.expire_none hcompleted, FailureHistory.fail,
          hcompleted, hnoticed]
      by_cases hfull : g.history.failures + 1 ≥ config.circuitBreakerThreshold
      · refine .unnoticed now ?_ ?_ hopen ?_ (le_refl now)
        · simp only [hafter, if_pos hfull]
        · simp only [hafter]
        · simp only [Breaker.after, Breaker.recordFailure, hcount]
          exact hfull
      · refine .closed ?_ ?_ hopen ?_ ?_
        · simp only [hafter, if_neg hfull]
        · simp only [hafter]
        · simp only [hafter, Breaker.after, Breaker.recordFailure, hcount]
        · simp only [Breaker.after, Breaker.recordFailure, hcount]
          omega
    | unnoticed completedAt hcompleted hnoticed hopen hcount hbefore =>
      have hafter : g.history.after config (now, .failure) = g.history.fail config now := by
        rw [FailureHistory.after, FailureHistory.expire_fresh hcompleted (hon _ hcompleted)]
      refine .unnoticed completedAt ?_ ?_ hopen ?_ (hbefore.trans hle)
      · simp only [hafter, FailureHistory.fail, hcompleted, Option.some_or]
      · simp only [hafter, FailureHistory.fail, hnoticed]
      · simp only [Breaker.after, Breaker.recordFailure]
        omega
    | noticed completedAt noticedAt hcompleted hnoticed hopen hcount hat hbefore hnow =>
      have hafter : g.history.after config (now, .failure) = g.history.fail config now := by
        rw [FailureHistory.after, FailureHistory.expire_fresh hcompleted (hon _ hcompleted)]
      refine .noticed completedAt noticedAt ?_ ?_ hopen ?_ hat hbefore (hnow.trans hle)
      · simp only [hafter, FailureHistory.fail, hcompleted, Option.some_or]
      · simp only [hafter, FailureHistory.fail, hnoticed]
      · simp only [Breaker.after, Breaker.recordFailure]
        omega
  | check =>
    simp only [Breaker.after, FailureHistory.after]
    cases h with
    | closed hcompleted hnoticed hopen hcount hless =>
      rw [isCircuitOpen_closed hless hopen, FailureHistory.expire_none hcompleted]
      refine .closed hcompleted ?_ hopen hcount hless
      simp [FailureHistory.notice, hcompleted]
    | unnoticed completedAt hcompleted hnoticed hopen hcount hbefore =>
      obtain hless | ⟨noticedAt, hsome, -⟩ := hon completedAt hcompleted
      · rw [isCircuitOpen_opens hreset hcount hopen, FailureHistory.expire_fresh hcompleted hless]
        refine .noticed completedAt now hcompleted ?_ rfl hcount rfl (hbefore.trans hle)
          (le_refl now)
        simp [FailureHistory.notice, hcompleted, hnoticed]
      · rw [hnoticed] at hsome
        exact absurd hsome (by simp)
    | noticed completedAt noticedAt hcompleted hnoticed hopen hcount hat hbefore hnow =>
      obtain hless | ⟨noticedAt', hsome, hlate⟩ := hon completedAt hcompleted
      · rw [isCircuitOpen_open hopen (by omega), FailureHistory.expire_fresh hcompleted hless]
        refine .noticed completedAt noticedAt hcompleted ?_ hopen hcount hat hbefore
          (hnow.trans hle)
        simp [FailureHistory.notice, hcompleted, hnoticed]
      · rw [hnoticed] at hsome
        obtain rfl := Option.some.inj hsome
        rw [isCircuitOpen_resets hopen (by omega), FailureHistory.expire_late hcompleted (by omega)]
        exact .closed rfl rfl rfl rfl hthreshold

/-- Where the worker is called only with the circuit closed, only an event on time follows the
history. -/
theorem Guard.Synced.onTime (h : g.Synced config) (hreset : 0 < config.circuitBreakerResetAfter)
    (hlet : LetThrough config g event) (hfollows : Follows config g event) :
    OnTime config g event := by
  obtain ⟨now, kind⟩ := event
  cases kind with
  | success => trivial
  | failure =>
    intro completedAt hsome
    cases h with
    | closed hcompleted hnoticed hopen hcount hless =>
      rw [hcompleted] at hsome
      exact absurd hsome (by simp)
    | unnoticed completedAt' hcompleted hnoticed hopen hcount hbefore =>
      exact absurd hcount (Int.not_le.mpr hlet.1)
    | noticed completedAt' noticedAt hcompleted hnoticed hopen hcount hat hbefore hnow =>
      exact absurd hcount (Int.not_le.mpr hlet.1)
  | check =>
    intro completedAt hsome
    simp only [Follows, FailureHistory.isOpen] at hfollows
    by_contra hgap
    obtain ⟨hlate, hearly⟩ := not_or.mp hgap
    rw [FailureHistory.expire_late hsome (Int.not_lt.mp hlate)] at hfollows
    cases h with
    | closed hcompleted hnoticed hopen hcount hless =>
      rw [hcompleted] at hsome
      exact absurd hsome (by simp)
    | unnoticed completedAt' hcompleted hnoticed hopen hcount hbefore =>
      rw [isCircuitOpen_opens hreset hcount hopen] at hfollows
      exact absurd hfollows (by simp)
    | noticed completedAt' noticedAt hcompleted hnoticed hopen hcount hat hbefore hnow =>
      have hless : now - g.breaker.circuitOpenAt < config.circuitBreakerResetAfter := by
        by_contra hle
        exact hearly ⟨noticedAt, hnoticed, by omega⟩
      rw [isCircuitOpen_open hopen hless] at hfollows
      exact absurd hfollows (by simp)

namespace FailureHistory
variable {f f' : FailureHistory} {t t' : Int}

theorem expire_expire (hle : t ≤ t') :
    (f.expire config t).expire config t' = f.expire config t' := by
  cases hcompleted : f.completedAt with
  | none => rw [expire_none hcompleted]
  | some completedAt =>
    by_cases hless : t - completedAt < config.circuitBreakerResetAfter
    · rw [expire_fresh hcompleted hless]
    · rw [expire_late hcompleted (by omega), expire_late hcompleted (by omega)]
      rfl

theorem completedAt_of_expire {completedAt : Int}
    (h : (f.expire config t).completedAt = some completedAt) :
    f.completedAt = some completedAt := by
  unfold expire at h
  split at h
  · exact h
  · split_ifs at h
    exact h

def Agrees (f f' : FailureHistory) : Prop :=
  f.failures = f'.failures ∧ f.completedAt = f'.completedAt

theorem Agrees.expire (h : f.Agrees f') : (f.expire config t).Agrees (f'.expire config t) := by
  cases hcompleted : f.completedAt with
  | none => rwa [expire_none hcompleted, expire_none (h.2 ▸ hcompleted)]
  | some completedAt =>
    have hcompleted' : f'.completedAt = some completedAt := h.2 ▸ hcompleted
    by_cases hless : t - completedAt < config.circuitBreakerResetAfter
    · rwa [expire_fresh hcompleted hless, expire_fresh hcompleted' hless]
    · rw [expire_late hcompleted (by omega), expire_late hcompleted' (by omega)]
      exact ⟨rfl, rfl⟩

theorem Agrees.fail (h : f.Agrees f') : (f.fail config t).Agrees (f'.fail config t) := by
  simp [Agrees, FailureHistory.fail, h.1, h.2]

/-- A check tells the history nothing that matters later. -/
theorem agrees_check (hle : t ≤ t') :
    ((f.after config (t, .check)).expire config t').Agrees (f.expire config t') := by
  have hnotice : ((f.expire config t).notice t).Agrees (f.expire config t) := ⟨rfl, rfl⟩
  have hexpire : (((f.expire config t).notice t).expire config t').Agrees
      ((f.expire config t).expire config t') := hnotice.expire
  rwa [expire_expire hle] at hexpire

end FailureHistory

def outcomes (events : List (Int × BreakerEvent)) : List (Int × BreakerEvent) :=
  events.filter fun event => event.2 ≠ .check

/-- However often the breaker was asked, the history is the same as if it had not been. -/
theorem history_outcomes {events : List (Int × BreakerEvent)} {f : FailureHistory}
    (hrun : run (Guard.step config) g events = some g')
    (hagrees : ∀ t, g.now ≤ t → (g.history.expire config t).Agrees (f.expire config t)) {t : Int}
    (ht : g'.now ≤ t) :
    (g'.history.expire config t).Agrees
      (((outcomes events).foldl (FailureHistory.after config) f).expire config t) := by
  induction events generalizing g f with
  | nil =>
    obtain rfl := Option.some.inj hrun
    exact hagrees t ht
  | cons event rest ih =>
    obtain ⟨u, hu, hrest⟩ := run_cons.mp hrun
    obtain ⟨hle, rfl⟩ := Guard.step_some hu
    obtain ⟨now, kind⟩ := event
    cases kind with
    | failure =>
      exact ih hrest fun t' _ => (hagrees now hle).fail.expire
    | success =>
      exact ih hrest fun t' _ => ⟨rfl, rfl⟩
    | check =>
      refine ih hrest fun t' ht' => ?_
      have hcheck : ((g.history.after config (now, .check)).expire config t').Agrees
          (g.history.expire config t') := FailureHistory.agrees_check ht'
      have hbefore := hagrees t' (hle.trans ht')
      exact ⟨hcheck.1.trans hbefore.1, hcheck.2.trans hbefore.2⟩

/-- The threshold was completed by a failure. -/
theorem completedAt_mem {events : List (Int × BreakerEvent)} {completedAt : Int}
    (h : (events.foldl (FailureHistory.after config) {}).completedAt = some completedAt) :
    (completedAt, .failure) ∈ events := by
  induction events using List.reverseRecOn with
  | nil => exact absurd h (by simp)
  | append_singleton events event ih =>
    rw [List.foldl_append, List.foldl_cons, List.foldl_nil] at h
    obtain ⟨now, kind⟩ := event
    cases kind with
    | failure =>
      simp only [FailureHistory.after, FailureHistory.fail] at h
      obtain hold | ⟨-, hnew⟩ := Option.or_eq_some_iff.mp h
      · exact List.mem_append_left _ (ih (FailureHistory.completedAt_of_expire hold))
      · split_ifs at hnew
        obtain rfl := Option.some.inj hnew
        simp
    | success => exact absurd h (by simp [FailureHistory.after])
    | check => exact List.mem_append_left _ (ih (FailureHistory.completedAt_of_expire h))

/-- Once the reset time has passed since every failure, the history lets a batch through. -/
theorem isOpen_late {events : List (Int × BreakerEvent)}
    (hlate : ∀ event ∈ events, event.2 = .failure →
      config.circuitBreakerResetAfter ≤ now - event.1) :
    (events.foldl (FailureHistory.after config) {}).isOpen config now = false := by
  rw [FailureHistory.isOpen]
  cases hcompleted : (events.foldl (FailureHistory.after config) {}).completedAt with
  | none => rw [FailureHistory.expire_none hcompleted, hcompleted, Option.isSome_none]
  | some completedAt =>
    rw [FailureHistory.expire_late hcompleted (hlate _ (completedAt_mem hcompleted) rfl)]
    rfl

end

end Laminar.Gateway
