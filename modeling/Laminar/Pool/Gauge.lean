import Laminar.Pool.InFlight

/-! The gauge `worker_in_flight_batches`. Its value is read under the lock and set after it, so the
callers may reach the gauge in another order than the lock. -/
namespace Laminar.Pool
open Laminar.Gateway (Config Error)
open Laminar.Transition

def CallPC.ops : CallPC → List MetricOp
  | .metrics ops _ => ops
  | _ => []

def CallPC.plain : CallPC → Bool
  | .metrics .. => false
  | .finish .. => false
  | _ => true

def MetricOp.gauge (i : Nat) : MetricOp → Option Int
  | .inFlight j value => if j = i then some value else none
  | _ => none

/-- The values that a caller has read under the lock of endpoint `i` and has still to set. -/
def Call.due (i : Nat) (c : Call) : List Int := c.pc.ops.filterMap (MetricOp.gauge i)

/-- What concerns the gauge of an endpoint: a caller goes through the endpoint's lock in `begin` or
in `finish`, or sets the gauge. -/
inductive GaugeEvent where
  | begin (k : Nat)
  | finish (k : Nat)
  | set (k : Nat)
deriving DecidableEq

namespace GaugeEvent

def passes (k : Nat) : GaugeEvent → Bool
  | .begin j => j == k
  | .finish j => j == k
  | .set _ => false

def change : GaugeEvent → Int
  | .begin _ => 1
  | .finish _ => -1
  | .set _ => 0

/-- Caller `k` has gone through the lock and not set the gauge since. -/
def waits (k : Nat) (history : List GaugeEvent) : Bool :=
  history.foldl (fun waiting e => e.passes k || (waiting && e != .set k)) false

/-- The begins less the finishes since caller `k` went through the lock. -/
def drift (k : Nat) (history : List GaugeEvent) : Int :=
  history.foldl (fun drift e => if e.passes k then 0 else drift + e.change) 0

/-- A caller that sets the gauge when nobody else has it still to set is in time if as many begins
as finishes have gone through the lock since it did. -/
def InTime (history : List GaugeEvent) : GaugeEvent → Prop
  | .set k => (∀ j, j ≠ k → waits j history = false) → drift k history = 0
  | _ => True

def InOrder (history : List GaugeEvent) : Prop :=
  ∀ before e after, history = before ++ e :: after → e.InTime before

@[simp] theorem waits_snoc (k : Nat) (history : List GaugeEvent) (e : GaugeEvent) :
    waits k (history ++ [e]) = (e.passes k || (waits k history && e != .set k)) := by
  simp [waits]

@[simp] theorem drift_snoc (k : Nat) (history : List GaugeEvent) (e : GaugeEvent) :
    drift k (history ++ [e]) = if e.passes k then 0 else drift k history + e.change := by
  simp [drift]

end GaugeEvent

def CallPC.Flat : CallPC → Prop
  | .metrics _ next => next.plain = true
  | .finish _ _ _ _ next => next.plain = true
  | _ => True

theorem CallPC.ops_of_plain {pc : CallPC} (h : pc.plain = true) : pc.ops = [] := by
  cases pc with
  | metrics ops next => exact absurd h Bool.false_ne_true
  | _ => rfl

theorem CallPC.flat_of_plain {pc : CallPC} (h : pc.plain = true) : pc.Flat := by
  cases pc with
  | metrics ops next => exact absurd h Bool.false_ne_true
  | finish i latency err now next => exact absurd h Bool.false_ne_true
  | _ => trivial

namespace Serving

/-- No `begin` and no `finish` stands between its critical section and the gauge. -/
def Settled (s : Serving) (i : Nat) : Prop := ∀ k, (s.calls k).due i = []

def gaugeEvent (i : Nat) (s : Serving) : Action → Option GaugeEvent
  | .advance k =>
    match (s.calls k).pc with
    | .begin j _ => if j = i then some (.begin k) else none
    | .finish j _ _ _ _ => if j = i then some (.finish k) else none
    | .metrics (op :: _) _ => (op.gauge i).map fun _ => .set k
    | _ => none
  | _ => none

structure Tidy (s : Serving) : Prop where
  fresh : ∀ k, s.started ≤ k → (s.calls k).pc.ops = []
  flat : ∀ k, (s.calls k).pc.Flat

structure SameGauge (i : Nat) (s s' : Serving) : Prop where
  due : ∀ k, (s'.calls k).due i = (s.calls k).due i
  inFlight : (s'.endpoints i).inFlight = (s.endpoints i).inFlight
  gauge : (s'.endpoints i).inFlightMetric = (s.endpoints i).inFlightMetric

/-- A caller goes through the lock, and will set the gauge to the load that it finds. -/
structure Passed (i k : Nat) (change : Int) (s s' : Serving) : Prop where
  inFlight : (s'.endpoints i).inFlight = (s.endpoints i).inFlight + change
  own : (s'.calls k).due i = [(s'.endpoints i).inFlight]
  others : ∀ j, j ≠ k → (s'.calls j).due i = (s.calls j).due i

structure Published (i k : Nat) (s s' : Serving) : Prop where
  inFlight : (s'.endpoints i).inFlight = (s.endpoints i).inFlight
  own : (s.calls k).due i = (s'.endpoints i).inFlightMetric :: (s'.calls k).due i
  others : ∀ j, j ≠ k → (s'.calls j).due i = (s.calls j).due i

variable {cfg : Config} {s s' : Serving} {a : Action}

theorem move_calls (h : s.Move cfg a s') :
    s.started ≤ s'.started ∧ ∀ k, s'.started ≤ k → s'.calls k = s.calls k := by
  have hupdate : ∀ (t : Serving) j f, t.calls = s.calls → t.started = s.started → j < s.started →
      s.started ≤ (t.update j f).started ∧
        ∀ k, (t.update j f).started ≤ k → (t.update j f).calls k = s.calls k := by
    intro t j f hcalls hstarted hj
    refine ⟨hstarted.ge, fun k hk => ?_⟩
    have hjk : k ≠ j := Nat.ne_of_gt (hj.trans_le (hstarted ▸ hk))
    rw [update_calls, if_neg hjk, hcalls]
  cases h with
  | pass time => exact ⟨le_rfl, fun _ _ => rfl⟩
  | observe i now hnow => exact ⟨le_rfl, fun _ _ => rfl⟩
  | call kind =>
    refine ⟨Nat.le_succ _, fun k hk => ?_⟩
    rw [update_calls, if_neg (Nat.ne_of_gt hk)]
  | cancel k hk => exact hupdate s k _ rfl rfl hk
  | start k hk hpc => exact hupdate s k _ rfl rfl hk
  | read k hk now i selected reads hpc hi => exact hupdate _ k _ rfl rfl hk
  | choose k hk now i best reads hpc hi => exact hupdate s k _ rfl rfl hk
  | refuse k hk now i selected reads err hpc => exact hupdate s k _ rfl rfl hk
  | begin k hk i reads hpc => exact hupdate _ k _ rfl rfl hk
  | measured k hk next hpc => exact hupdate s k _ rfl rfl hk
  | measure k hk op ops next hpc =>
    exact hupdate _ k _ (setMetric_calls s op).1 (setMetric_calls s op).2 hk
  | finish k hk i latency err now next ops hpc => exact hupdate _ k _ rfl rfl hk
  | fail k hk err hpc => exact hupdate s k _ rfl rfl hk
  | flushable k hk i h hpc hkind => exact hupdate s k _ rfl rfl hk
  | unflushable k hk i h hpc hkind => exact hupdate s k _ rfl rfl hk
  | answer k hk i err latency next hpc hnext => exact hupdate s k _ rfl rfl hk
  | opened k hk i latency hpc => exact hupdate s k _ rfl rfl hk
  | event k hk i h event latency hpc => exact hupdate s k _ rfl rfl hk
  | recvError k hk i h err latency hpc honce => exact hupdate s k _ rfl rfl hk
  | recvAgain k hk i h err latency hpc honce => exact hupdate s k _ rfl rfl hk
  | round k hk i h h' event effects hpc => exact hupdate s k _ rfl rfl hk
  | lastRound k hk i h result writeErr effects hpc hlast => exact hupdate s k _ rfl rfl hk

theorem flat_update {k : Nat} {f : Call → Call} (h : ∀ j, (s.calls j).pc.Flat)
    (hk : (f (s.calls k)).pc.Flat) (j : Nat) : ((s.update k f).calls j).pc.Flat := by
  rw [update_calls]
  split_ifs
  · exact hk
  · exact h j

theorem flat_move (h : ∀ k, (s.calls k).pc.Flat) (hmove : s.Move cfg a s') (j : Nat) :
    (s'.calls j).pc.Flat := by
  cases hmove with
  | pass time => exact h j
  | observe i now hnow => exact h j
  | call kind => exact flat_update (s := { s with started := s.started + 1 }) h (by trivial) j
  | cancel k hk => exact flat_update h (h k) j
  | start k hk hpc => exact flat_update h (by trivial) j
  | read k hk now i selected reads hpc hi =>
    exact flat_update (s := s.atEndpoint i _) h (by trivial) j
  | choose k hk now i best reads hpc hi => exact flat_update h (by trivial) j
  | refuse k hk now i selected reads err hpc => exact flat_update h (by trivial) j
  | begin k hk i reads hpc => exact flat_update (s := s.atEndpoint i _) h (by rfl) j
  | measured k hk next hpc =>
    have hk' := h k
    rw [hpc] at hk'
    exact flat_update h (by exact CallPC.flat_of_plain hk') j
  | measure k hk op ops next hpc =>
    have hk' := h k
    rw [hpc] at hk'
    have hcalls := (setMetric_calls s op).1
    exact flat_update (s := s.setMetric op) (by rw [hcalls]; exact h) (by exact hk') j
  | finish k hk i latency err now next ops hpc =>
    have hk' := h k
    rw [hpc] at hk'
    exact flat_update (s := s.atEndpoint i _) h (by exact hk') j
  | fail k hk err hpc => exact flat_update h (by trivial) j
  | flushable k hk i handler hpc hkind => exact flat_update h (by trivial) j
  | unflushable k hk i handler hpc hkind => exact flat_update h (by trivial) j
  | answer k hk i err latency next hpc hnext =>
    refine flat_update h ?_ j
    obtain rfl | ⟨e, -, rfl⟩ := hnext <;> rfl
  | opened k hk i latency hpc => exact flat_update h (by trivial) j
  | event k hk i handler event latency hpc => exact flat_update h (by trivial) j
  | recvError k hk i handler err latency hpc honce => exact flat_update h (by rfl) j
  | recvAgain k hk i handler err latency hpc honce => exact flat_update h (by trivial) j
  | round k hk i handler h' event effects hpc => exact flat_update h (by trivial) j
  | lastRound k hk i handler result writeErr effects hpc hlast => exact flat_update h (by trivial) j

theorem Tidy.move (h : s.Tidy) (hmove : s.Move cfg a s') : s'.Tidy := by
  obtain ⟨hle, hsame⟩ := move_calls hmove
  refine ⟨fun k hk => ?_, flat_move h.flat hmove⟩
  rw [hsame k hk]
  exact h.fresh k (hle.trans hk)

theorem due_of_ops {k i : Nat} {pc : CallPC} (hpc : (s.calls k).pc = pc) (hops : pc.ops = []) :
    (s.calls k).due i = [] := by
  rw [Call.due, hpc, hops]
  rfl

theorem gauge_update {t : Serving} {k i : Nat} {f : Call → Call} (hcalls : t.calls = s.calls)
    (hbefore : (s.calls k).due i = []) (hafter : (f (s.calls k)).due i = [])
    (hload : (t.endpoints i).inFlight = (s.endpoints i).inFlight)
    (hgauge : (t.endpoints i).inFlightMetric = (s.endpoints i).inFlightMetric) :
    SameGauge i s (t.update k f) := by
  refine ⟨fun j => ?_, hload, hgauge⟩
  rw [update_calls, hcalls]
  split_ifs with hj
  · rw [hafter, hj, hbefore]
  · rfl

theorem refreshCircuitLocked_gauge (e : WorkerEndpoint) (now : Int) :
    (e.refreshCircuitLocked now).2.inFlightMetric = e.inFlightMetric := by
  unfold WorkerEndpoint.refreshCircuitLocked
  split
  · rfl
  · split <;> rfl

theorem refresh_gauge (s : Serving) (i j : Nat) (now : Int) :
    ((s.atEndpoint i fun e => (e.refreshCircuitLocked now).2).endpoints j).inFlight =
      (s.endpoints j).inFlight ∧
    ((s.atEndpoint i fun e => (e.refreshCircuitLocked now).2).endpoints j).inFlightMetric =
      (s.endpoints j).inFlightMetric := by
  rw [atEndpoint_endpoints]
  split_ifs
  · exact ⟨(refreshCircuitLocked_load _ now).2.1, refreshCircuitLocked_gauge _ now⟩
  · exact ⟨rfl, rfl⟩

theorem setMetric_gauge (s : Serving) (op : MetricOp) (i : Nat) :
    ((s.setMetric op).endpoints i).inFlightMetric =
      (op.gauge i).getD (s.endpoints i).inFlightMetric := by
  cases op with
  | inFlight j value =>
    simp only [setMetric, atEndpoint_endpoints, MetricOp.gauge]
    by_cases hj : i = j
    · simp [hj]
    · simp [hj, Ne.symm hj]
  | _ =>
    simp only [setMetric, atEndpoint_endpoints, MetricOp.gauge]
    split_ifs <;> rfl

/-- A caller leaves the lock of endpoint `j` with the load that it has to show. -/
theorem passed_update {k i : Nat} {g : WorkerEndpoint → WorkerEndpoint} {f : Call → Call}
    {change : Int} (hload : (g (s.endpoints i)).inFlight = (s.endpoints i).inFlight + change)
    (hdue : (f (s.calls k)).due i = [(g (s.endpoints i)).inFlight]) :
    Passed i k change s ((s.atEndpoint i g).update k f) := by
  have hendpoint : ((s.atEndpoint i g).update k f).endpoints i = g (s.endpoints i) := by
    refine (atEndpoint_endpoints s i i g).trans (if_pos rfl)
  refine ⟨by rw [hendpoint, hload], ?_, fun j hj => ?_⟩
  · rw [hendpoint, update_calls, if_pos rfl]
    exact hdue
  · rw [update_calls, if_neg hj]
    rfl

theorem begin_gauge (i j : Nat) (value : Int) :
    [MetricOp.batches j, .inFlight j value].filterMap (MetricOp.gauge i) =
      if j = i then [value] else [] := by
  simp only [List.filterMap_cons, List.filterMap_nil, MetricOp.gauge]
  split_ifs <;> rfl

theorem finish_gauge (e : WorkerEndpoint) (i j : Nat) (err : Option Error) (now : Int) :
    (finishMetrics e j err now).filterMap (MetricOp.gauge i) =
      if j = i then [e.inFlight] else [] := by
  cases err <;> simp only [finishMetrics, Option.isSome_some, Option.isSome_none, if_true,
    Bool.false_eq_true, if_false, List.nil_append, List.cons_append, List.filterMap_cons,
    List.filterMap_nil, MetricOp.gauge] <;> split_ifs <;> rfl

theorem finish_ops {k i : Nat} {latency : Int} {err : Option Error} {now : Int} {next : CallPC}
    {ops : List MetricOp} {t : Serving} {f : Call → Call} (hk : k < s.started)
    (hpc : (s.calls k).pc = .finish i latency err now next)
    (h : step cfg s (.advance k) = some (t.update k f))
    (hf : (f (t.calls k)).pc = .metrics ops next) :
    ops = finishMetrics ((s.endpoints i).finish cfg latency err now) i err now := by
  simp only [step, if_pos hk, Serving.advance, hpc] at h
  have hcalls := congrArg (fun u : Serving => (u.calls k).pc) (Option.some.inj h)
  simp only [update_calls, if_true, hf] at hcalls
  exact (CallPC.metrics.inj hcalls).1.symm

theorem measure_gauge {k : Nat} {op : MetricOp} {ops : List MetricOp} {next : CallPC}
    (hpc : (s.calls k).pc = .metrics (op :: ops) next) (i : Nat) :
    match op.gauge i with
    | none => SameGauge i s ((s.setMetric op).goto k (.metrics ops next))
    | some _ => Published i k s ((s.setMetric op).goto k (.metrics ops next)) := by
  have hload := (setMetric_agrees s op i).inFlight
  have hgauge := setMetric_gauge s op i
  have hcalls := (setMetric_calls s op).1
  have hothers : ∀ j, j ≠ k →
      (((s.setMetric op).goto k (.metrics ops next)).calls j).due i = (s.calls j).due i := by
    intro j hj
    rw [goto, update_calls, if_neg hj, hcalls]
  have hdue : (s.calls k).due i =
      (op.gauge i).toList ++ (((s.setMetric op).goto k (.metrics ops next)).calls k).due i := by
    rw [goto, update_calls, if_pos rfl, Call.due, hpc, CallPC.ops, List.filterMap_cons, Call.due]
    cases op.gauge i <;> rfl
  cases hset : op.gauge i with
  | none =>
    rw [hset] at hgauge hdue
    refine ⟨fun j => ?_, hload, hgauge⟩
    by_cases hj : j = k
    · rw [hj]
      exact hdue.symm
    · exact hothers j hj
  | some value =>
    rw [hset] at hgauge hdue
    refine ⟨hload, hdue.trans ?_, hothers⟩
    exact congrArg (· :: _) hgauge.symm

theorem step_gauge (htidy : s.Tidy) (hacc : s.Accounted) (h : step cfg s a = some s') (i : Nat) :
    match s.gaugeEvent i a with
    | none => SameGauge i s s'
    | some (.begin k) => Passed i k 1 s s'
    | some (.finish k) => Passed i k (-1) s s'
    | some (.set k) => Published i k s s' := by
  have hplain : ∀ {k : Nat} {pc : CallPC} {f : Call → Call}, (s.calls k).pc = pc →
      pc.ops = [] → (f (s.calls k)).due i = [] → SameGauge i s (s.update k f) :=
    fun hpc hbefore hafter => gauge_update rfl (due_of_ops hpc hbefore) hafter rfl rfl
  cases step_move h with
  | pass time => exact ⟨fun _ => rfl, rfl, rfl⟩
  | observe j now hnow =>
    obtain ⟨hload, hgauge⟩ := refresh_gauge s j i now
    exact ⟨fun _ => rfl, hload, hgauge⟩
  | call kind =>
    have hfresh : (s.calls s.started).due i = [] := by
      rw [Call.due, htidy.fresh s.started le_rfl]
      rfl
    exact gauge_update rfl hfresh rfl rfl rfl
  | cancel k hk =>
    refine ⟨fun j => ?_, rfl, rfl⟩
    rw [update_calls]
    split_ifs with hj
    · rw [hj]
      rfl
    · rfl
  | start k hk hpc =>
    simp only [gaugeEvent, hpc]
    exact hplain hpc rfl rfl
  | read k hk now j selected reads hpc hj =>
    obtain ⟨hload, hgauge⟩ := refresh_gauge s j i now
    simp only [gaugeEvent, hpc]
    exact gauge_update rfl (due_of_ops hpc rfl) rfl hload hgauge
  | choose k hk now j best reads hpc hj =>
    simp only [gaugeEvent, hpc]
    exact hplain hpc rfl rfl
  | refuse k hk now j selected reads err hpc =>
    simp only [gaugeEvent, hpc]
    exact hplain hpc rfl rfl
  | begin k hk j reads hpc =>
    simp only [gaugeEvent, hpc]
    split_ifs with hj
    · subst hj
      exact passed_update (g := fun e => e.begin s.now) rfl ((begin_gauge j j _).trans (if_pos rfl))
    · refine gauge_update rfl (due_of_ops hpc rfl) ?_ ?_ ?_
      · exact (begin_gauge i j _).trans (if_neg hj)
      · rw [atEndpoint_endpoints, if_neg (Ne.symm hj)]
      · rw [atEndpoint_endpoints, if_neg (Ne.symm hj)]
  | measured k hk next hpc =>
    have hnext := htidy.flat k
    rw [hpc] at hnext
    simp only [gaugeEvent, hpc]
    refine hplain hpc rfl ?_
    rw [Call.due, CallPC.ops_of_plain hnext]
    rfl
  | measure k hk op ops next hpc =>
    have hmeasured := measure_gauge hpc i
    simp only [gaugeEvent, hpc]
    cases hset : op.gauge i with
    | none =>
      rw [hset] at hmeasured
      exact hmeasured
    | some value =>
      rw [hset] at hmeasured
      exact hmeasured
  | finish k hk j latency err now next ops hpc =>
    have hops := finish_ops hk hpc h rfl
    simp only [gaugeEvent, hpc]
    split_ifs with hj
    · subst hj
      have hfits := hacc.fits k
      rw [Call.Fits, hpc] at hfits
      have hpos := hacc.load_pos hk hfits.1 hfits.2.1
      refine passed_update (g := fun e => e.finish cfg latency err now) ?_ ?_
      · rw [(finish_load cfg _ latency err now).2.1, if_pos hpos]
        rfl
      · rw [Call.due, CallPC.ops, hops, finish_gauge, if_pos rfl]
    · refine gauge_update rfl (due_of_ops hpc rfl) ?_ ?_ ?_
      · rw [Call.due, CallPC.ops, hops, finish_gauge, if_neg hj]
      · rw [atEndpoint_endpoints, if_neg (Ne.symm hj)]
      · rw [atEndpoint_endpoints, if_neg (Ne.symm hj)]
  | fail k hk err hpc =>
    simp only [gaugeEvent, hpc]
    exact hplain hpc rfl rfl
  | flushable k hk j handler hpc hkind =>
    simp only [gaugeEvent, hpc]
    exact hplain hpc rfl rfl
  | unflushable k hk j handler hpc hkind =>
    simp only [gaugeEvent, hpc]
    exact hplain hpc rfl rfl
  | answer k hk j err latency next hpc hnext =>
    exact gauge_update rfl (due_of_ops hpc rfl) rfl rfl rfl
  | opened k hk j latency hpc => exact hplain hpc rfl rfl
  | event k hk j handler event latency hpc => exact hplain hpc rfl rfl
  | recvError k hk j handler err latency hpc honce =>
    exact gauge_update rfl (due_of_ops hpc rfl) rfl rfl rfl
  | recvAgain k hk j handler err latency hpc honce => exact hplain hpc rfl rfl
  | round k hk j handler h' event effects hpc => exact hplain hpc rfl rfl
  | lastRound k hk j handler result writeErr effects hpc hlast => exact hplain hpc rfl rfl

/-- What callers owe the gauge of endpoint `i`, by its history: who waits to set it will set it to
the load less what has gone through the lock since. -/
structure Booked (i : Nat) (s : Serving) (history : List GaugeEvent) : Prop where
  due : ∀ k, (s.calls k).due i =
    if GaugeEvent.waits k history then
      [(s.endpoints i).inFlight - GaugeEvent.drift k history]
    else []
  tidy : s.Tidy
  accounted : s.Accounted

theorem Booked.settled {i : Nat} {history : List GaugeEvent} (h : s.Booked i history) :
    s.Settled i ↔ ∀ k, GaugeEvent.waits k history = false := by
  refine forall_congr' fun k => ?_
  rw [h.due]
  cases GaugeEvent.waits k history <;> simp

theorem Booked.passed {i k : Nat} {history : List GaugeEvent} (h : s.Booked i history)
    {e : GaugeEvent} (hpasses : ∀ j, e.passes j = (k == j)) (hset : ∀ j, e ≠ .set j)
    (hmove : Passed i k e.change s s') (j : Nat) :
    (s'.calls j).due i = if GaugeEvent.waits j (history ++ [e]) then
      [(s'.endpoints i).inFlight - GaugeEvent.drift j (history ++ [e])] else [] := by
  by_cases hj : j = k
  · subst hj
    rw [hmove.own]
    simp [hpasses]
  · have hother : (k == j) = false := beq_false_of_ne (Ne.symm hj)
    rw [hmove.others j hj, h.due, hmove.inFlight]
    have hkept : (e != GaugeEvent.set j) = true := bne_iff_ne.mpr (hset j)
    simp only [GaugeEvent.waits_snoc, GaugeEvent.drift_snoc, hpasses, hother, hkept, Bool.false_or,
      Bool.and_true, Bool.false_eq_true, if_false]
    split_ifs
    · exact congrArg (fun n => [n]) (by omega)
    · rfl

theorem Booked.publishes {i k : Nat} {history : List GaugeEvent} (h : s.Booked i history)
    (hmove : Published i k s s') :
    GaugeEvent.waits k history = true ∧ (s'.calls k).due i = [] ∧
      (s'.endpoints i).inFlightMetric =
        (s.endpoints i).inFlight - GaugeEvent.drift k history := by
  have hown := (h.due k).symm.trans hmove.own
  split_ifs at hown with hwaits
  obtain ⟨hvalue, hrest⟩ := List.cons.inj hown
  exact ⟨hwaits, hrest.symm, hvalue.symm⟩

theorem Booked.published {i k : Nat} {history : List GaugeEvent} (h : s.Booked i history)
    (hmove : Published i k s s') (j : Nat) :
    (s'.calls j).due i = if GaugeEvent.waits j (history ++ [.set k]) then
      [(s'.endpoints i).inFlight - GaugeEvent.drift j (history ++ [.set k])] else [] := by
  obtain ⟨-, hdone, -⟩ := h.publishes hmove
  by_cases hj : j = k
  · rw [hj, hdone]
    simp [GaugeEvent.passes]
  · rw [hmove.others j hj, h.due, hmove.inFlight]
    simp [GaugeEvent.passes, GaugeEvent.change, Ne.symm hj]

theorem Booked.step {i : Nat} {history : List GaugeEvent} (h : s.Booked i history)
    (hstep : Pool.step cfg s a = some s') :
    s'.Booked i (history ++ (s.gaugeEvent i a).toList) := by
  refine ⟨?_, h.tidy.move (step_move hstep), h.accounted.move (step_move hstep)⟩
  have hmove := step_gauge h.tidy h.accounted hstep i
  cases hevent : s.gaugeEvent i a with
  | none =>
    rw [hevent] at hmove
    intro k
    rw [hmove.due, h.due, hmove.inFlight, Option.toList_none, List.append_nil]
  | some e =>
    rw [hevent] at hmove
    cases e with
    | begin k => exact h.passed (fun j => rfl) (by simp) hmove
    | finish k => exact h.passed (fun j => rfl) (by simp) hmove
    | set k => exact h.published hmove

def ShowsLoad (i : Nat) (s : Serving) : Prop :=
  s.Settled i → (s.endpoints i).inFlightMetric = (s.endpoints i).inFlight

theorem Booked.showsLoad {i : Nat} {history : List GaugeEvent} (h : s.Booked i history)
    (hshows : s.ShowsLoad i) (hstep : Pool.step cfg s a = some s') :
    s'.ShowsLoad i ↔ ∀ e ∈ s.gaugeEvent i a, e.InTime history := by
  have hmove := step_gauge h.tidy h.accounted hstep i
  have hafter := h.step hstep
  cases hevent : s.gaugeEvent i a with
  | none =>
    rw [hevent] at hmove
    refine iff_of_true (fun hsettled => ?_) fun e he => absurd he (by simp)
    rw [hmove.gauge, hmove.inFlight]
    exact hshows fun k => (hmove.due k).symm.trans (hsettled k)
  | some e =>
    rw [hevent] at hmove
    cases e with
    | begin k =>
      refine iff_of_true (fun hsettled => ?_) fun e he => Option.some.inj he ▸ trivial
      exact absurd (hmove.own.symm.trans (hsettled k)) (by simp)
    | finish k =>
      refine iff_of_true (fun hsettled => ?_) fun e he => Option.some.inj he ▸ trivial
      exact absurd (hmove.own.symm.trans (hsettled k)) (by simp)
    | set k =>
      obtain ⟨-, -, hgauge⟩ := h.publishes hmove
      have hsettled : s'.Settled i ↔ ∀ j, j ≠ k → GaugeEvent.waits j history = false := by
        rw [hafter.settled, hevent]
        refine forall_congr' fun j => ?_
        by_cases hj : j = k
        · simp [hj, GaugeEvent.passes]
        · simp [hj, Ne.symm hj, GaugeEvent.passes]
      rw [ShowsLoad, hsettled, hgauge, hmove.inFlight]
      simp only [Option.mem_some_iff, forall_eq', GaugeEvent.InTime]
      exact forall_congr' fun _ => by omega

end Serving

theorem newServing_booked (size : Nat) (streaming : Nat → Bool) (i : Nat) :
    (newServing size streaming).Booked i [] :=
  ⟨fun _ => rfl, ⟨fun _ _ => rfl, fun _ => trivial⟩,
    ⟨fun _ => ⟨rfl, rfl, rfl⟩, fun _ _ => rfl, fun _ => rfl⟩⟩

/-- In every state of a run the gauge of an endpoint shows its load whenever no `begin` and no
`finish` has it still to set, exactly when the callers reach the gauge in order: whenever one of
them sets it as the last of those that have it still to set, the begins and finishes that have gone
through the lock since it did balance. -/
theorem gauge_settles_iff (cfg : Config) (size : Nat) (streaming : Nat → Bool)
    (actions : List Action) :
    (∀ first second s, actions = first ++ second →
      run (step cfg) (newServing size streaming) first = some s →
      ∀ i, s.Settled i → (s.endpoints i).inFlightMetric = (s.endpoints i).inFlight) ↔
    ∀ i, GaugeEvent.InOrder
      (observed (Serving.gaugeEvent i) (step cfg) (newServing size streaming) actions) := by
  have hendpoint : ∀ i, (∀ first second s, actions = first ++ second →
      run (step cfg) (newServing size streaming) first = some s → s.ShowsLoad i) ↔
      GaugeEvent.InOrder
        (observed (Serving.gaugeEvent i) (step cfg) (newServing size streaming) actions) := by
    intro i
    exact throughout_iff_observed (Serving.ShowsLoad i) GaugeEvent.InTime
      (newServing_booked size streaming i) (fun _ => rfl) (fun s a t history h => h.step)
      fun s a t history h => h.showsLoad
  simp only [← hendpoint]
  exact ⟨fun h i first second s hsplit hrun => h first second s hsplit hrun i,
    fun h first second s hsplit hrun i => h i first second s hsplit hrun⟩

/-- Two calls begin; the first to leave the lock is the last at the gauge, which then shows one. -/
theorem staleGauge_stays :
    let cfg : Config := { promptTokens := fun n => n }
    let toLock : Nat → List Action := fun k => List.replicate 4 (.advance k)
    let toWorker : Nat → List Action := fun k => List.replicate 3 (.advance k)
    ∃ s, run (step cfg.normalized) (newServing 1 fun _ => true)
        ([.call .batch, .call .batch] ++ toLock 0 ++ toLock 1 ++ toWorker 1 ++ toWorker 0) =
          some s ∧
      s.Settled 0 ∧ (s.endpoints 0).inFlightMetric = 1 ∧ (s.endpoints 0).inFlight = 2 := by
  intro cfg toLock toWorker
  refine ⟨_, rfl, ?_, rfl, rfl⟩
  rintro (_ | _ | k) <;> rfl

end Laminar.Pool
