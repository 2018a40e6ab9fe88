import Laminar.Gateway.Config
import Laminar.Gateway.Messages

/-! `workerEndpoint` of `worker_pool.go`: the critical sections of its mutex, the circuit they
keep, and the choice between endpoints. Times are in nanoseconds. -/
namespace Laminar.Pool
open Laminar.Gateway (Config Error Code)

/-- An endpoint with its metrics; `streaming` says whether its client is a
`StreamingWorkerClient`, and a `circuitOpenUntil` that is the zero time is none. -/
structure WorkerEndpoint where
  index : Nat
  streaming : Bool := true
  inFlight : Int := 0
  totalBatches : Nat := 0
  totalFailures : Nat := 0
  consecutiveFailures : Int := 0
  circuitOpenUntil : Option Int := none
  lastLatency : Int := 0
  lastError : Option Error := none
  lastSelected : Option Int := none
  inFlightMetric : Int := 0
  circuitMetric : Bool := false
  batchesMetric : Nat := 0
  failuresMetric : Nat := 0
deriving DecidableEq

structure WorkerSelectionState where
  index : Nat
  inFlight : Int
  totalBatches : Nat
  circuitOpen : Bool
deriving DecidableEq

namespace WorkerEndpoint

def begin (e : WorkerEndpoint) (now : Int) : WorkerEndpoint :=
  { e with
    inFlight := e.inFlight + 1
    totalBatches := e.totalBatches + 1
    lastSelected := some now }

def circuitOpenLocked (e : WorkerEndpoint) (now : Int) : Bool :=
  match e.circuitOpenUntil with
  | none => false
  | some openUntil => now < openUntil

def finish (cfg : Config) (e : WorkerEndpoint) (latency : Int) (err : Option Error) (now : Int) :
    WorkerEndpoint :=
  let e := { e with
    inFlight := if e.inFlight > 0 then e.inFlight - 1 else e.inFlight
    lastLatency := latency }
  match err with
  | some err =>
    let consecutiveFailures : Int := e.consecutiveFailures + 1
    { e with
      totalFailures := e.totalFailures + 1
      consecutiveFailures := consecutiveFailures
      lastError := some err
      circuitOpenUntil :=
        if consecutiveFailures ≥ cfg.circuitBreakerThreshold then
          some (now + cfg.circuitBreakerResetAfter)
        else e.circuitOpenUntil }
  | none => { e with consecutiveFailures := 0, circuitOpenUntil := none, lastError := none }

def refreshCircuitLocked (e : WorkerEndpoint) (now : Int) : Bool × WorkerEndpoint :=
  match e.circuitOpenUntil with
  | none => (false, { e with circuitMetric := false })
  | some openUntil =>
    if now < openUntil then (true, { e with circuitMetric := true })
    else
      (false, { e with
        circuitOpenUntil := none, consecutiveFailures := 0, lastError := none
        circuitMetric := false })

def selectionState (e : WorkerEndpoint) (now : Int) : WorkerSelectionState × WorkerEndpoint :=
  let r := e.refreshCircuitLocked now
  ({ index := e.index, inFlight := r.2.inFlight, totalBatches := r.2.totalBatches
     circuitOpen := r.1 }, r.2)

end WorkerEndpoint

def lessLoaded (candidate selected : WorkerSelectionState) : Bool :=
  if candidate.inFlight ≠ selected.inFlight then candidate.inFlight < selected.inFlight
  else if candidate.totalBatches ≠ selected.totalBatches then
    candidate.totalBatches < selected.totalBatches
  else candidate.index < selected.index

def consider (selected : Option WorkerSelectionState) (state : WorkerSelectionState) :
    Option WorkerSelectionState :=
  if state.circuitOpen then selected
  else
    match selected with
    | none => some state
    | some best => if lessLoaded state best then some state else some best

/-- `selectEndpoint` when nothing happens between its reads: the index of the endpoint. -/
def selectEndpoint (endpoints : Nat → WorkerEndpoint) (size : Nat) (now : Int) :
    Except Error Nat :=
  match ((List.range size).map fun i => ((endpoints i).selectionState now).1).foldl
    consider none with
  | none => .error (.status .unavailable "no available workers")
  | some selected => .ok selected.index

variable {cfg : Config} {e : WorkerEndpoint} {now : Int}

/-- Refreshing only touches the circuit. -/
theorem refreshCircuitLocked_load (e : WorkerEndpoint) (now : Int) :
    (e.refreshCircuitLocked now).2.index = e.index ∧
    (e.refreshCircuitLocked now).2.inFlight = e.inFlight ∧
    (e.refreshCircuitLocked now).2.totalBatches = e.totalBatches := by
  unfold WorkerEndpoint.refreshCircuitLocked
  split
  · exact ⟨rfl, rfl, rfl⟩
  · split <;> exact ⟨rfl, rfl, rfl⟩

theorem refreshCircuitLocked_answer (e : WorkerEndpoint) (now : Int) :
    (e.refreshCircuitLocked now).1 = e.circuitOpenLocked now := by
  unfold WorkerEndpoint.refreshCircuitLocked WorkerEndpoint.circuitOpenLocked
  split
  · rfl
  · split_ifs with hopen <;> simp [hopen]

theorem selectionState_eq (e : WorkerEndpoint) (now : Int) :
    (e.selectionState now).1 =
      { index := e.index, inFlight := e.inFlight, totalBatches := e.totalBatches
        circuitOpen := e.circuitOpenLocked now } := by
  obtain ⟨-, hload, htotal⟩ := refreshCircuitLocked_load e now
  simp only [WorkerEndpoint.selectionState, hload, htotal, refreshCircuitLocked_answer]

/-- A call that finishes subtracts itself, whatever became of it. -/
theorem finish_load (cfg : Config) (e : WorkerEndpoint) (latency : Int) (err : Option Error)
    (now : Int) :
    (e.finish cfg latency err now).index = e.index ∧
    (e.finish cfg latency err now).inFlight =
      (if e.inFlight > 0 then e.inFlight - 1 else e.inFlight) ∧
    (e.finish cfg latency err now).totalBatches = e.totalBatches := by
  cases err <;> exact ⟨rfl, rfl, rfl⟩

end Laminar.Pool
