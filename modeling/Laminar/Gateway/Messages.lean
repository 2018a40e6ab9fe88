import Mathlib

/-! What the gateway and its workers say to each other and to their callers (`main.go`,
`inference.proto`). -/
namespace Laminar.Gateway

inductive Code where
  | canceled
  | unknown
  | invalidArgument
  | deadlineExceeded
  | unimplemented
  | internal
  | unavailable
deriving DecidableEq

/-- A Go error as the gateway tells errors apart: `io.EOF`, `context.DeadlineExceeded`, or a
gRPC status. -/
inductive Error where
  | eof
  | contextDeadlineExceeded
  | status (code : Code) (message : String)
deriving DecidableEq

/-- `status.Code(err)`. -/
def Error.code : Error → Code
  | .status code _ => code
  | _ => .unknown

inductive ErrorCode where
  | requestCancelled
  | queueFull
  | admissionRejected
  | workerError
  | workerTimeout
  | workerUnavailable
  | missingResponse
deriving DecidableEq

/-- A `map[string]string`, entry by entry. -/
abbrev Metadata := List (String × String)

structure Response where
  id : String
  result : String := ""
  error : String := ""
  errorCode : Option ErrorCode := none
  metadata : Metadata := []
deriving DecidableEq

def errorResponse (id : String) (code : ErrorCode) (message : String) : Response :=
  { id := id, error := message, errorCode := some code }

structure RequestItem where
  id : String
  prompt : String
  traceId : String
deriving DecidableEq

structure ResponseItem where
  id : String
  result : String := ""
  traceId : String := ""
  backendName : String := ""
  backendLatencyMicros : Int := 0
  backendMetadata : Metadata := []
deriving DecidableEq

abbrev Reply := Except Error (List ResponseItem)

/-- `classifyWorkerError`, apart from its counter. -/
def classifyWorkerError (err : Error) : ErrorCode × String :=
  if err = .contextDeadlineExceeded ∨ err.code = .deadlineExceeded then
    (.workerTimeout, "worker request timed out")
  else if err.code = .unavailable then (.workerUnavailable, "worker unavailable")
  else (.workerError, "worker failed to process batch")

theorem classifyWorkerError_message (err : Error) : (classifyWorkerError err).2 ≠ "" := by
  unfold classifyWorkerError
  split_ifs <;> decide

/-- The entry of a reply that `responseMap[id]` holds: the last one with that id. -/
def findResponse (items : List ResponseItem) (id : String) : Option ResponseItem :=
  items.foldl (fun found item => if item.id = id then some item else found) none

theorem findResponse_mem {items : List ResponseItem} {id : String} {item : ResponseItem}
    (h : findResponse items id = some item) : item ∈ items ∧ item.id = id := by
  have hfold : ∀ (rest : List ResponseItem) (found : Option ResponseItem),
      rest.foldl (fun found item => if item.id = id then some item else found) found = some item →
        found = some item ∨ (item ∈ rest ∧ item.id = id) := by
    intro rest
    induction rest with
    | nil => exact fun found h => Or.inl h
    | cons x rest ih =>
      intro found h
      obtain hx | ⟨hmem, hid⟩ := ih _ h
      · simp only at hx
        split_ifs at hx with hid
        · obtain rfl := Option.some.inj hx
          exact Or.inr ⟨List.mem_cons_self, hid⟩
        · exact Or.inl hx
      · exact Or.inr ⟨List.mem_cons_of_mem x hmem, hid⟩
  obtain h | h := hfold items none h
  · exact absurd h (by simp)
  · exact h

def requestID (n : Nat) : String := "req-" ++ toString n

theorem requestID_injective {m n : Nat} (h : requestID m = requestID n) : m = n := by
  have hlist : ("req-" : String).toList ++ (toString m).toList =
      ("req-" : String).toList ++ (toString n).toList := by
    rw [← String.toList_append, ← String.toList_append]
    exact congrArg String.toList h
  exact Nat.repr_inj.mp (String.toList_injective (List.append_cancel_left hlist))

end Laminar.Gateway
