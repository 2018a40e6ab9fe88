import Laminar.Pool.Endpoint

/-! Looking at the pool. Every look refreshes the circuits it reads, which `finish` does not: the
histories of calls in which a look changes what the pool does later. -/
namespace Laminar.Pool
open Laminar.Gateway (Config Error Code)

/-- What happens to an endpoint; `observe` is a `selectionState`, an `available` or a
`snapshot`. -/
inductive EndpointEvent where
  | begin
  | finish (latency : Int) (err : Option Error)
  | observe
deriving DecidableEq

structure PoolEvent where
  endpoint : Nat
  time : Int
  event : EndpointEvent
deriving DecidableEq

def PoolEvent.isCall (a : PoolEvent) : Bool := a.event ≠ .observe

def PoolEvent.fails (a : PoolEvent) : Prop := ∃ latency err, a.event = .finish latency (some err)

def WorkerEndpoint.happen (cfg : Config) (e : WorkerEndpoint) (time : Int) :
    EndpointEvent → WorkerEndpoint
  | .begin => e.begin time
  | .finish latency err => e.finish cfg latency err time
  | .observe => (e.refreshCircuitLocked time).2

abbrev Endpoints := Nat → WorkerEndpoint

def Endpoints.happen (cfg : Config) (pool : Endpoints) (a : PoolEvent) : Endpoints :=
  Function.update pool a.endpoint ((pool a.endpoint).happen cfg a.time a.event)

def newEndpoints : Endpoints := fun i => { index := i }

def after (cfg : Config) (history : List PoolEvent) : Endpoints :=
  history.foldl (Endpoints.happen cfg) newEndpoints

/-- The time at which the circuit closes again has come, and nobody has looked since. -/
def WorkerEndpoint.Expired (e : WorkerEndpoint) (now : Int) : Prop :=
  ∃ openUntil, e.circuitOpenUntil = some openUntil ∧ openUntil ≤ now

instance (e : WorkerEndpoint) (now : Int) : Decidable (e.Expired now) :=
  inferInstanceAs (Decidable (∃ openUntil ∈ e.circuitOpenUntil, openUntil ≤ now))

def WorkerEndpoint.Tripped (cfg : Config) (e : WorkerEndpoint) : Prop :=
  e.circuitOpenUntil ≠ none → cfg.circuitBreakerThreshold ≤ e.consecutiveFailures

structure WorkerEndpoint.Seen (cfg : Config) (now : Int) (e e' : WorkerEndpoint) : Prop where
  index : e'.index = e.index
  inFlight : e'.inFlight = e.inFlight
  totalBatches : e'.totalBatches = e.totalBatches
  circuit : (e'.circuitOpenUntil = e.circuitOpenUntil ∧
      (e'.consecutiveFailures = e.consecutiveFailures ∨
        (cfg.circuitBreakerThreshold ≤ e.consecutiveFailures ∧
          cfg.circuitBreakerThreshold ≤ e'.consecutiveFailures))) ∨
    (e.Expired now ∧ e'.circuitOpenUntil = none ∧ e'.consecutiveFailures = 0)

variable {cfg : Config} {e e' : WorkerEndpoint} {now now' : Int}

theorem WorkerEndpoint.Expired.later (h : e.Expired now) (hlater : now ≤ now') :
    e.Expired now' := by
  obtain ⟨openUntil, hcircuit, hle⟩ := h
  exact ⟨openUntil, hcircuit, hle.trans hlater⟩

theorem WorkerEndpoint.Seen.later (h : e.Seen cfg now e') (hlater : now ≤ now') :
    e.Seen cfg now' e' :=
  ⟨h.index, h.inFlight, h.totalBatches,
    h.circuit.imp id fun ⟨hexpired, hrest⟩ => ⟨hexpired.later hlater, hrest⟩⟩

theorem WorkerEndpoint.Seen.refl (cfg : Config) (now : Int) (e : WorkerEndpoint) :
    e.Seen cfg now e :=
  ⟨rfl, rfl, rfl, Or.inl ⟨rfl, Or.inl rfl⟩⟩

theorem circuitOpenLocked_expired (h : e.Expired now) : e.circuitOpenLocked now = false := by
  obtain ⟨openUntil, hcircuit, hle⟩ := h
  simp only [WorkerEndpoint.circuitOpenLocked, hcircuit]
  simpa using hle

/-- Whoever looks at both gets the same answer. -/
theorem WorkerEndpoint.Seen.selectionState (h : e.Seen cfg now e') :
    (e'.selectionState now).1 = (e.selectionState now).1 := by
  have hopen : e'.circuitOpenLocked now = e.circuitOpenLocked now := by
    obtain ⟨hcircuit, -⟩ | ⟨hexpired, hnone, -⟩ := h.circuit
    · simp only [WorkerEndpoint.circuitOpenLocked, hcircuit]
    · rw [circuitOpenLocked_expired hexpired]
      simp only [WorkerEndpoint.circuitOpenLocked, hnone]
  rw [selectionState_eq, selectionState_eq, h.index, h.inFlight, h.totalBatches, hopen]

theorem WorkerEndpoint.Seen.observe (h : e.Seen cfg now e') :
    e.Seen cfg now (e'.refreshCircuitLocked now).2 := by
  obtain ⟨hindex, hload, htotal⟩ := refreshCircuitLocked_load e' now
  refine ⟨hindex.trans h.index, hload.trans h.inFlight, htotal.trans h.totalBatches, ?_⟩
  unfold WorkerEndpoint.refreshCircuitLocked
  split
  · exact h.circuit
  · rename_i openUntil hsome
    split_ifs with hopen
    · exact h.circuit
    · obtain ⟨hcircuit, -⟩ | ⟨-, hnone, -⟩ := h.circuit
      · exact Or.inr ⟨⟨openUntil, hcircuit ▸ hsome, Int.not_lt.mp hopen⟩, rfl, rfl⟩
      · exact absurd (hnone.symm.trans hsome) (by simp)

/-- The same call event on both. A failure must not find an expired circuit, unless one failure
opens a circuit anyway. -/
theorem WorkerEndpoint.Seen.call (h : e.Seen cfg now e') {event : EndpointEvent}
    (hcall : event ≠ .observe)
    (hfails : ∀ latency err, event = .finish latency (some err) →
      cfg.circuitBreakerThreshold ≤ 1 ∨ ¬ e.Expired now)
    (hpos : 0 ≤ e.consecutiveFailures) :
    (e.happen cfg now event).Seen cfg now (e'.happen cfg now event) := by
  cases event with
  | begin =>
    refine ⟨h.index, ?_, ?_, h.circuit⟩
    · simp only [WorkerEndpoint.happen, WorkerEndpoint.begin, h.inFlight]
    · simp only [WorkerEndpoint.happen, WorkerEndpoint.begin, h.totalBatches]
  | observe => exact absurd rfl hcall
  | finish latency err =>
    obtain ⟨hindex, hload, htotal⟩ := finish_load cfg e latency err now
    obtain ⟨hindex', hload', htotal'⟩ := finish_load cfg e' latency err now
    refine ⟨hindex'.trans (h.index.trans hindex.symm), ?_, ?_, ?_⟩
    · simp only [WorkerEndpoint.happen, hload, hload', h.inFlight]
    · simp only [WorkerEndpoint.happen, htotal, htotal', h.totalBatches]
    cases err with
    | none => exact Or.inl ⟨rfl, Or.inl rfl⟩
    | some err =>
      simp only [WorkerEndpoint.happen, WorkerEndpoint.finish]
      left
      obtain ⟨hcircuit, hcount⟩ | ⟨hexpired, hnone, hzero⟩ := h.circuit
      · obtain hcount | ⟨hcount, hcount'⟩ := hcount
        · exact ⟨by rw [hcircuit, hcount], Or.inl (by rw [hcount])⟩
        · rw [if_pos (by omega), if_pos (by omega)]
          exact ⟨rfl, Or.inr ⟨by omega, by omega⟩⟩
      · obtain hone | hnot := hfails latency err rfl
        · rw [if_pos (by omega), if_pos (by omega)]
          exact ⟨rfl, Or.inr ⟨by omega, by omega⟩⟩
        · exact absurd hexpired hnot

def WorkerEndpoint.Sound (cfg : Config) (e : WorkerEndpoint) : Prop :=
  e.Tripped cfg ∧ 0 ≤ e.consecutiveFailures

theorem WorkerEndpoint.Sound.happen (h : e.Sound cfg) (time : Int) (event : EndpointEvent) :
    (e.happen cfg time event).Sound cfg := by
  obtain ⟨htripped, hpos⟩ := h
  cases event with
  | begin => exact ⟨htripped, hpos⟩
  | observe =>
    simp only [WorkerEndpoint.happen, WorkerEndpoint.refreshCircuitLocked]
    split
    · exact ⟨htripped, hpos⟩
    · split_ifs
      · exact ⟨htripped, hpos⟩
      · exact ⟨fun hnone => absurd rfl hnone, Int.le_refl 0⟩
  | finish latency err =>
    cases err with
    | none => exact ⟨fun hnone => absurd rfl hnone, Int.le_refl 0⟩
    | some err =>
      refine ⟨fun hopen => ?_, ?_⟩
      · simp only [WorkerEndpoint.happen, WorkerEndpoint.finish] at hopen ⊢
        split_ifs at hopen with hcount
        · exact hcount
        · have hle := htripped hopen
          omega
      · simp only [WorkerEndpoint.happen, WorkerEndpoint.finish]
        omega

theorem happen_apply (cfg : Config) (pool : Endpoints) (a : PoolEvent) (i : Nat) :
    pool.happen cfg a i =
      if i = a.endpoint then (pool i).happen cfg a.time a.event else pool i := by
  unfold Endpoints.happen
  rw [Function.update_apply]
  split_ifs with hi
  · rw [hi]
  · rfl

theorem after_sound (cfg : Config) (history : List PoolEvent) (i : Nat) :
    (after cfg history i).Sound cfg := by
  unfold after
  induction history using List.reverseRecOn with
  | nil => exact ⟨fun hnone => absurd rfl hnone, Int.le_refl 0⟩
  | append_singleton front a ih =>
    rw [List.foldl_append, List.foldl_cons, List.foldl_nil, happen_apply]
    split_ifs
    · exact ih.happen a.time a.event
    · exact ih

/-- No call fails on an expired circuit, unless one failure opens a circuit anyway. -/
def FailsInTime (cfg : Config) (calls : List PoolEvent) : Prop :=
  ∀ first a second, calls = first ++ a :: second → a.fails →
    ¬ (after cfg first a.endpoint).Expired a.time

theorem failsInTime_of_take {calls : List PoolEvent}
    (h : ∀ i < calls.length, ∀ a ∈ calls[i]?,
      ¬ (after cfg (calls.take i) a.endpoint).Expired a.time) : FailsInTime cfg calls := by
  rintro first a second rfl -
  simpa using h first.length (by simp) a (by simp)

/-- Along a history, the pool stays what it is without the looks, but for the looks. -/
theorem after_seen (history : List PoolEvent)
    (hsorted : history.Pairwise fun a b => a.time ≤ b.time)
    (hfails : cfg.circuitBreakerThreshold ≤ 1 ∨ FailsInTime cfg (history.filter PoolEvent.isCall))
    (hnow : ∀ a ∈ history, a.time ≤ now) (i : Nat) :
    (after cfg (history.filter PoolEvent.isCall) i).Seen cfg now (after cfg history i) := by
  induction history using List.reverseRecOn generalizing now with
  | nil => exact .refl cfg now _
  | append_singleton front a ih =>
    obtain ⟨hfront, -, hlast⟩ := List.pairwise_append.mp hsorted
    have hfails' : cfg.circuitBreakerThreshold ≤ 1 ∨
        FailsInTime cfg (front.filter PoolEvent.isCall) := by
      refine hfails.imp id fun hin first b second hfirst hb => ?_
      refine hin first b (second ++ [a].filter PoolEvent.isCall) ?_ hb
      rw [List.filter_append, hfirst, List.append_assoc, List.cons_append]
    have hseen : (after cfg (front.filter PoolEvent.isCall) i).Seen cfg a.time
        (after cfg front i) :=
      ih hfront hfails' fun b hb => hlast b hb a List.mem_cons_self
    have hle : a.time ≤ now := hnow a (by simp)
    have hhistory : after cfg (front ++ [a]) = (after cfg front).happen cfg a := by
      simp only [after, List.foldl_append, List.foldl_cons, List.foldl_nil]
    rw [hhistory, List.filter_append, happen_apply]
    cases hcall : a.isCall with
    | false =>
      have hobserve : a.event = .observe := by simpa [PoolEvent.isCall] using hcall
      rw [List.filter_cons_of_neg (by simp [hcall]), List.filter_nil, List.append_nil]
      split_ifs with hi
      · rw [hobserve]
        exact hseen.observe.later hle
      · exact hseen.later hle
    | true =>
      rw [List.filter_cons_of_pos hcall, List.filter_nil]
      have hcalls : after cfg (front.filter PoolEvent.isCall ++ [a]) =
          (after cfg (front.filter PoolEvent.isCall)).happen cfg a := by
        simp only [after, List.foldl_append, List.foldl_cons, List.foldl_nil]
      rw [hcalls, happen_apply]
      split_ifs with hi
      · have hpos := (after_sound cfg (front.filter PoolEvent.isCall) i).2
        refine (hseen.call ?_ (fun latency err hevent => ?_) hpos).later hle
        · simpa [PoolEvent.isCall] using hcall
        · refine hfails.imp id fun hin => ?_
          rw [hi]
          refine hin (front.filter PoolEvent.isCall) a [] ?_ ⟨latency, err, hevent⟩
          rw [List.filter_append, List.filter_cons_of_pos hcall, List.filter_nil]
      · exact hseen.later hle

/-- A look right before a failure that finds an expired circuit: with it the circuit stays closed,
without it the circuit opens. -/
theorem look_matters (hreset : 0 < cfg.circuitBreakerResetAfter)
    (hthreshold : 1 < cfg.circuitBreakerThreshold) (h : e.Sound cfg) (hexpired : e.Expired now)
    (latency : Int) (err : Error) :
    (e.finish cfg latency (some err) now).circuitOpenLocked now = true ∧
    ((e.refreshCircuitLocked now).2.finish cfg latency (some err) now).circuitOpenLocked now =
      false := by
  obtain ⟨openUntil, hcircuit, hle⟩ := hexpired
  have htripped := h.1 (by simp [hcircuit])
  constructor
  · simp only [WorkerEndpoint.finish, WorkerEndpoint.circuitOpenLocked]
    rw [if_pos (by omega)]
    simpa using hreset
  · simp only [WorkerEndpoint.refreshCircuitLocked, hcircuit, if_neg (Int.not_lt.mpr hle),
      WorkerEndpoint.finish, WorkerEndpoint.circuitOpenLocked]
    rw [if_neg (by omega)]

theorem normalized_resetAfter (cfg : Config) : 0 < cfg.normalized.circuitBreakerResetAfter := by
  simp only [Config.normalized, Gateway.second, Gateway.millisecond]
  split_ifs <;> omega

/-- For calls in the order of their times: whoever looks at the pool, at any times between them,
leaves all later answers and choices what they are, exactly when one failure opens a circuit or no
call fails on an endpoint whose circuit has expired and was not looked at since. -/
theorem looking_changes_nothing_iff (cfg : Config) (calls : List PoolEvent)
    (hcalls : ∀ a ∈ calls, a.isCall = true)
    (hsorted : calls.Pairwise fun a b => a.time ≤ b.time) :
    (∀ history now, (history.Pairwise fun a b => a.time ≤ b.time) →
      history.filter PoolEvent.isCall <+: calls → (∀ a ∈ history, a.time ≤ now) →
      (∀ i, ((after cfg.normalized history i).selectionState now).1 =
        ((after cfg.normalized (history.filter PoolEvent.isCall) i).selectionState now).1) ∧
      ∀ size, selectEndpoint (after cfg.normalized history) size now =
        selectEndpoint (after cfg.normalized (history.filter PoolEvent.isCall)) size now) ↔
    (cfg.normalized.circuitBreakerThreshold ≤ 1 ∨ FailsInTime cfg.normalized calls) := by
  constructor
  · intro hsame
    by_contra hlate
    obtain ⟨hthreshold, hlate⟩ := not_or.mp hlate
    refine hlate fun first a second hsplit ⟨latency, err, hevent⟩ hexpired => ?_
    have hall : ∀ b ∈ first, b.isCall = true := fun b hb => hcalls b (by simp [hsplit, hb])
    have hcall : a.isCall = true := hcalls a (by simp [hsplit])
    rw [hsplit] at hsorted
    obtain ⟨hfirst, -, hlast⟩ := List.pairwise_append.mp hsorted
    let look : PoolEvent := ⟨a.endpoint, a.time, .observe⟩
    have hfilter : (first ++ [look, a]).filter PoolEvent.isCall = first ++ [a] := by
      rw [List.filter_append, List.filter_eq_self.mpr hall, List.filter_cons_of_neg (by simp [look,
        PoolEvent.isCall]), List.filter_cons_of_pos hcall, List.filter_nil]
    have hanswer := (hsame (first ++ [look, a]) a.time ?_ ?_ ?_).1 a.endpoint
    · obtain ⟨hopen, hclosed⟩ := look_matters (normalized_resetAfter cfg)
        (Int.not_le.mp hthreshold) (after_sound cfg.normalized first a.endpoint)
        hexpired latency err
      rw [hfilter, selectionState_eq, selectionState_eq] at hanswer
      have hboth := congrArg WorkerSelectionState.circuitOpen hanswer
      simp only [after, List.foldl_append, List.foldl_cons, List.foldl_nil, happen_apply, if_true,
        hevent, WorkerEndpoint.happen, look] at hboth hopen hclosed
      rw [hopen, hclosed] at hboth
      exact absurd hboth (by simp)
    · refine List.pairwise_append.mpr ⟨hfirst, by simp [look], fun b hb c hc => ?_⟩
      have hle := hlast b hb a List.mem_cons_self
      simp only [List.mem_cons, List.not_mem_nil, or_false] at hc
      obtain rfl | rfl := hc
      · exact hle
      · exact hle
    · rw [hfilter, hsplit]
      exact ⟨second, by simp⟩
    · intro b hb
      simp only [List.mem_append, List.mem_cons, List.not_mem_nil, or_false] at hb
      obtain hb | rfl | rfl := hb
      · exact hlast b hb a List.mem_cons_self
      · exact Int.le_refl _
      · exact Int.le_refl _
  · intro hfails history now hhistory hprefix hnow
    have hfails' : cfg.normalized.circuitBreakerThreshold ≤ 1 ∨
        FailsInTime cfg.normalized (history.filter PoolEvent.isCall) := by
      refine hfails.imp id fun hin first a second hsplit ha => ?_
      obtain ⟨more, hmore⟩ := hprefix
      exact hin first a (second ++ more) (by rw [← hmore, hsplit, List.append_assoc,
        List.cons_append]) ha
    have hstate := fun i => (after_seen history hhistory hfails' hnow i).selectionState
    refine ⟨hstate, fun size => ?_⟩
    simp only [selectEndpoint, hstate]

/-- Two failures opened the circuit until time 7. A third call fails at time 8: the circuit opens
again, but not if somebody looked at it at time 7. -/
theorem look_closesCircuit :
    let cfg : Config := { promptTokens := fun n => n, circuitBreakerThreshold := 2,
                          circuitBreakerResetAfter := 5 }
    let err : Error := .status .unavailable "worker down"
    let failure : Int → PoolEvent := fun time => ⟨0, time, .finish 1 (some err)⟩
    let begins : List PoolEvent := List.replicate 3 ⟨0, 1, .begin⟩
    let calls : List PoolEvent := begins ++ [failure 2, failure 2, failure 8]
    let looked : List PoolEvent := begins ++ [failure 2, failure 2, ⟨0, 7, .observe⟩, failure 8]
    looked.filter PoolEvent.isCall = calls ∧
      selectEndpoint (after cfg.normalized calls) 1 9 =
        .error (.status .unavailable "no available workers") ∧
      selectEndpoint (after cfg.normalized looked) 1 9 = .ok 0 := by
  decide +kernel

/-- With the third failure at time 6 the circuit opens again, whoever looked and when. -/
theorem look_harmless :
    let cfg : Config := { promptTokens := fun n => n, circuitBreakerThreshold := 2,
                          circuitBreakerResetAfter := 5 }
    let err : Error := .status .unavailable "worker down"
    let failure : Int → PoolEvent := fun time => ⟨0, time, .finish 1 (some err)⟩
    let begins : List PoolEvent := List.replicate 3 ⟨0, 1, .begin⟩
    let calls : List PoolEvent := begins ++ [failure 2, failure 2, failure 6]
    selectEndpoint (after cfg.normalized calls) 1 9 =
        .error (.status .unavailable "no available workers") ∧
      ∀ history : List PoolEvent, (history.Pairwise fun a b => a.time ≤ b.time) →
        history.filter PoolEvent.isCall <+: calls → (∀ a ∈ history, a.time ≤ 9) →
        ∀ size, selectEndpoint (after cfg.normalized history) size 9 =
          selectEndpoint (after cfg.normalized (history.filter PoolEvent.isCall)) size 9 := by
  intro cfg err failure begins calls
  refine ⟨by decide +kernel, fun history hsorted hprefix hnow => ?_⟩
  have hin : FailsInTime cfg.normalized calls := failsInTime_of_take (by decide +kernel)
  exact (((looking_changes_nothing_iff cfg calls (by decide +kernel) (by decide +kernel)).mpr
    (Or.inr hin)) history 9 hsorted hprefix hnow).2

end Laminar.Pool
