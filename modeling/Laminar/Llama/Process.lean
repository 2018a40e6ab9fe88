import Laminar.Llama.Http

/-! `RunProcess` of `backend/inference_backend.cc`: a child whose output is read through a pipe
until it exits, is cancelled or runs out of time. What the system calls answer is a script, and
the calls made are listed. -/
namespace Laminar.Llama

inductive WaitStatus where
  | exited (code : Nat)
  | signaled (signal : Nat)
deriving DecidableEq

/-- The answer of `waitpid`; with `WNOHANG` it is 0 for a child that runs. -/
inductive Waited where
  | running
  | reaped (status : WaitStatus)
  | interrupted
  | failed (error : Bytes)
deriving DecidableEq

inductive PipeEnd where
  | read
  | write
deriving DecidableEq

inductive Signal where
  | term
  | kill
deriving DecidableEq

inductive SysCall where
  | pipe
  | fork
  | close (fd : PipeEnd)
  | signal (number : Signal)
  | wait (answer : Waited)
deriving DecidableEq

structure ProcessResult where
  exitCode : Int := -1
  timedOut : Bool := false
  cancelled : Bool := false
  launchFailed : Bool := false
  output : Bytes := []
  error : Bytes := []
deriving DecidableEq

/-- One round of the loop: the reads of `ReadAvailable`, whether they come to one that finds
nothing, which a child that keeps the pipe full can put off for ever, the answer of `waitpid`, and
whether `now >= deadline`. -/
structure Round where
  reads : List Read := []
  drained : Bool := true
  waited : Waited := .running
  expired : Bool := false
deriving DecidableEq

/-- What one call of `RunProcess` meets. `pipeError` and `forkError` are the texts of `errno` when
those calls fail; `terms` are the answers after `SIGTERM`, `interrupts` and `killed` those after
`SIGKILL`, where `waitpid` blocks; `lastReads` are the reads of the last call of `ReadAvailable`. -/
structure Child where
  pipeError : Option Bytes := none
  forkError : Option Bytes := none
  rounds : List Round
  terms : Nat → Waited := fun _ => .running
  interrupts : Nat := 0
  killed : Except Bytes WaitStatus := .ok (.signaled 9)
  lastReads : List Read := []
  lastDrained : Bool := true

def maxCapturedOutputBytes : Nat := 16 * 1024

def appendWithLimit (output data : Bytes) (limit : Nat) : Bytes :=
  if output.length ≥ limit then output
  else output ++ data.take (min data.length (limit - output.length))

/-- A call of `ReadAvailable` that returns. -/
def readAvailable (reads : List Read) (output : Bytes) : Bytes :=
  reads.foldl (fun output r => appendWithLimit output r.bytes maxCapturedOutputBytes) output

structure Supervision where
  result : ProcessResult := {}
  status : WaitStatus := .exited 0
  exited : Bool := false
  calls : List SysCall := [.pipe, .fork, .close .write]
deriving DecidableEq

namespace Supervision

def call (s : Supervision) (c : SysCall) : Supervision := { s with calls := s.calls ++ [c] }

def wait (s : Supervision) (answer : Waited) : Supervision :=
  { s.call (.wait answer) with
    status := match answer with
      | .reaped status => status
      | _ => s.status }

def read (s : Supervision) (reads : List Read) : Supervision :=
  { s with result := { s.result with output := readAvailable reads s.result.output } }

/-- The loop of `RunProcess`, with the polls made so far; nothing while the child runs on or keeps
the pipe full, for `ReadAvailable` looks at no deadline. -/
def loop (isCancelled : Nat → Bool) :
    List Round → Supervision → Nat → Option (Supervision × Nat)
  | [], _, _ => none
  | r :: rest, s, polls =>
    if !r.drained then none
    else
      let s := (s.read r.reads).wait r.waited
      match r.waited with
      | .reaped _ => some ({ s with exited := true }, polls)
      | .failed error =>
        some ({ s with result := { s.result with
          launchFailed := true, error := text "waitpid failed: " ++ error } }, polls)
      | .running | .interrupted =>
        if isCancelled polls then
          some ({ s with result := { s.result with cancelled := true } }, polls + 1)
        else if r.expired then
          some ({ s with result := { s.result with timedOut := true } }, polls + 1)
        else loop isCancelled rest s (polls + 1)

/-- The attempts of `StopProcess` after `SIGTERM`; whether the function returns. -/
def attemptLoop (terms : Nat → Waited) (s : Supervision) (attempt : Nat) : Nat → Bool × Supervision
  | 0 => (false, s)
  | left + 1 =>
    match terms attempt with
    | .reaped status => (true, s.wait (.reaped status))
    | .failed error => (true, s.wait (.failed error))
    | answer => attemptLoop terms (s.wait answer) (attempt + 1) left

def killLoop (killed : Except Bytes WaitStatus) (s : Supervision) : Nat → Supervision
  | 0 =>
    match killed with
    | .ok status => s.wait (.reaped status)
    | .error error => s.wait (.failed error)
  | interrupts + 1 => killLoop killed (s.wait .interrupted) interrupts

def stopProcess (c : Child) (s : Supervision) : Supervision :=
  let r := attemptLoop c.terms (s.call (.signal .term)) 0 30
  if r.1 then r.2 else killLoop c.killed (r.2.call (.signal .kill)) c.interrupts

end Supervision

def WaitStatus.exitCode : WaitStatus → Nat
  | .exited code => code
  | .signaled signal => 128 + signal

/-- What `RunProcess` does after its loop, if it comes to the end of its reads. -/
def Supervision.conclude (c : Child) (s : Supervision) : Supervision :=
  let s := if s.exited then s else s.stopProcess c
  let s := (s.read c.lastReads).call (.close .read)
  { s with result := { s.result with
    exitCode := s.status.exitCode, output := trimWhitespace s.result.output } }

structure ProcessRun where
  result : ProcessResult
  calls : List SysCall := []
  polls : Nat
deriving DecidableEq

def runProcess (isCancelled : Nat → Bool) (args : List Bytes) (c : Child) (polls : Nat) :
    Option ProcessRun :=
  if args = [] then
    some { result := { launchFailed := true, error := text "empty command" }, polls := polls }
  else
    match c.pipeError, c.forkError with
    | some error, _ =>
      some
        { result := { launchFailed := true, error := text "pipe failed: " ++ error }
          polls := polls }
    | none, some error =>
      some
        { result := { launchFailed := true, error := text "fork failed: " ++ error }
          calls := [.pipe, .close .read, .close .write]
          polls := polls }
    | none, none =>
      (Supervision.loop isCancelled c.rounds {} polls).bind fun p =>
        if !c.lastDrained then none
        else
          let s := p.1.conclude c
          some { result := s.result, calls := s.calls, polls := p.2 }

end Laminar.Llama
