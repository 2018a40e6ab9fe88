import Laminar.Gateway.Config

/-! The token ledger of `admission.go`. Its counters are unbounded here. -/
namespace Laminar.Gateway

structure AdmissionController where
  enabled : Bool
  maxInFlightTokens : Int
  promptTokens : Nat → Int
  estimatedOutputTokens : Int
  inFlightTokens : Int := 0
  acceptedTokens : Int := 0
  rejectedTokens : Int := 0
  acceptedRequests : Nat := 0
  rejectedRequests : Nat := 0

def newAdmissionController (cfg : Config) : AdmissionController :=
  let cfg := cfg.normalized
  { enabled := cfg.admissionEnabled
    maxInFlightTokens := cfg.admissionMaxInFlightTokens
    promptTokens := cfg.promptTokens
    estimatedOutputTokens := cfg.admissionEstimatedOutputTokens }

def isSpace (c : Char) : Bool :=
  (9 ≤ c.toNat && c.toNat ≤ 13) || c.toNat == 0x20 || c.toNat == 0x85 || c.toNat == 0xA0 ||
    c.toNat == 0x1680 || (0x2000 ≤ c.toNat && c.toNat ≤ 0x200A) || c.toNat == 0x2028 ||
    c.toNat == 0x2029 || c.toNat == 0x202F || c.toNat == 0x205F || c.toNat == 0x3000

def trimSpace (s : String) : String :=
  String.ofList ((s.toList.dropWhile isSpace).reverse.dropWhile isSpace).reverse

def AdmissionController.estimate (a : AdmissionController) (prompt : String) : Int :=
  let promptTokens := a.promptTokens (trimSpace prompt).utf8ByteSize
  (if promptTokens < 1 then 1 else promptTokens) + a.estimatedOutputTokens

/-- `done` is the state of `once`; a lease without a controller releases nothing. -/
structure AdmissionLease where
  controller : Bool := false
  tokens : Int := 0
  done : Bool := false
deriving DecidableEq

def AdmissionController.tryAcquire (a : AdmissionController) (prompt : String) :
    AdmissionLease × Bool × AdmissionController :=
  if !a.enabled then ({}, true, a)
  else
    let estimatedTokens := a.estimate prompt
    if a.maxInFlightTokens > 0 ∧ a.inFlightTokens + estimatedTokens > a.maxInFlightTokens then
      ({}, false, { a with
        rejectedRequests := a.rejectedRequests + 1
        rejectedTokens := a.rejectedTokens + estimatedTokens })
    else
      ({ controller := true, tokens := estimatedTokens }, true, { a with
        inFlightTokens := a.inFlightTokens + estimatedTokens
        acceptedRequests := a.acceptedRequests + 1
        acceptedTokens := a.acceptedTokens + estimatedTokens })

def AdmissionController.release (a : AdmissionController) (tokens : Int) : AdmissionController :=
  if tokens ≤ 0 then a
  else
    let inFlightTokens := a.inFlightTokens - tokens
    { a with inFlightTokens := if inFlightTokens < 0 then 0 else inFlightTokens }

def AdmissionLease.release (l : AdmissionLease) (a : AdmissionController) :
    AdmissionLease × AdmissionController :=
  if l.done then (l, a)
  else ({ l with done := true }, if l.controller then a.release l.tokens else a)

def AdmissionLease.held (l : AdmissionLease) : Int :=
  if l.controller = true ∧ l.done = false then l.tokens else 0

theorem estimate_pos (a : AdmissionController) (h : 0 ≤ a.estimatedOutputTokens)
    (prompt : String) : 0 < a.estimate prompt := by
  simp only [AdmissionController.estimate]
  split_ifs <;> omega

end Laminar.Gateway
