import Laminar.Backend.Onnx

/-! The life of an ONNX backend: whatever its runtime answers, everything created is released once,
a failure is for good, and the rows of the chunks go back to their requests. -/
namespace Laminar.Backend
open Laminar.Llama

structure OrtHost where
  library : Bool := false
  live : List OrtObject := []
deriving DecidableEq

/-- Objects belong to the open library; each is created once and released once. -/
def OrtHost.step (s : OrtHost) : OrtCall → Option OrtHost
  | .dlopen => if s.library then none else some { s with library := true }
  | .dlclose => if s.library ∧ s.live = [] then some { s with library := false } else none
  | .create o => if s.library ∧ o ∉ s.live then some { s with live := o :: s.live } else none
  | .release o => if o ∈ s.live then some { s with live := s.live.erase o } else none

namespace OnnxImpl

def allHeld : List OrtObject := [.session, .memoryInfo, .sessionOptions, .env]

structure Sound (s : OnnxImpl) : Prop where
  calls : Transition.run OrtHost.step {} s.calls =
    some { library := s.libraryHandle, live := s.held }
  held : s.held <:+ allHeld
  api : s.api = false → s.held = []
  library : s.api = true → s.libraryHandle = true
  ready : s.ready = true → s.held = allHeld ∧ s.libraryHandle = true

/-- The calls for a chunk leave what they found. A failure disables the backend and says why. -/
theorem runChunk_spec (s : OnnxImpl) (answer : OnnxAnswer) :
    ∃ calls, Transition.run OrtHost.step { library := true, live := allHeld } calls =
        some { library := true, live := allHeld } ∧
      (((s.runChunk answer).1 = some answer.labels ∧
          (s.runChunk answer).2 = { s with calls := s.calls ++ calls }) ∨
        ((s.runChunk answer).1 = none ∧ ∃ reason, (s.runChunk answer).2 =
          { s with calls := s.calls ++ calls, ready := false, unavailableReason := reason })) := by
  obtain ⟨tensorError, runError, dataError, labels⟩ := answer
  cases tensorError with
  | some error =>
    refine ⟨[.create .status, .release .status], by decide, Or.inr
      ⟨rfl, failureReason (text "CreateTensorWithDataAsOrtValue") error, ?_⟩⟩
    simp [runChunk, apiCall, checkStatus, call]
  | none =>
    cases runError with
    | some error =>
      refine ⟨[.create .inputValue, .create .status, .release .inputValue, .release .status],
        by decide, Or.inr ⟨rfl, failureReason (text "Run") error, ?_⟩⟩
      simp [runChunk, apiCall, checkStatus, call]
    | none =>
      cases dataError with
      | some error =>
        refine ⟨[.create .inputValue, .create .outputValue, .release .inputValue, .create .status,
          .release .status, .release .outputValue], by decide, Or.inr
          ⟨rfl, failureReason (text "GetTensorMutableData") error, ?_⟩⟩
        simp [runChunk, apiCall, checkStatus, call]
      | none =>
        refine ⟨[.create .inputValue, .create .outputValue, .release .inputValue,
          .release .outputValue], by decide, Or.inl ⟨rfl, ?_⟩⟩
        simp [runChunk, apiCall, checkStatus, call]

theorem run_calls {s : OnnxImpl} {h h' : OrtHost} {calls : List OrtCall}
    (hs : Transition.run OrtHost.step {} s.calls = some h)
    (hcalls : Transition.run OrtHost.step h calls = some h') :
    Transition.run OrtHost.step {} (s.calls ++ calls) = some h' :=
  (Transition.run_append _ _).mpr ⟨h, hs, hcalls⟩

/-- `Initialize` with some API calls to go: together with what they create the members so far are
all there will be. -/
structure Loading (rest : List (String × Option OrtObject)) (s : OnnxImpl) : Prop where
  calls : Transition.run OrtHost.step {} s.calls = some { library := true, live := s.held }
  held : (rest.filterMap Prod.snd).reverse ++ s.held = allHeld
  library : s.libraryHandle = true
  api : s.api = true
  ready : s.ready = false

theorem Loading.failed {rest : List (String × Option OrtObject)} {s : OnnxImpl}
    (h : s.Loading rest) (reason : Bytes) :
    Sound { s with
      calls := s.calls ++ [.create .status, .release .status]
      unavailableReason := reason, ready := false } := by
  have hsuffix : s.held <:+ allHeld := ⟨_, h.held⟩
  have hstatus : OrtObject.status ∉ s.held := fun hmem =>
    absurd (hsuffix.subset hmem) (by decide)
  refine ⟨run_calls h.calls ?_, hsuffix, fun hapi => absurd (h.api.symm.trans hapi) (by decide),
    fun _ => h.library, by simp⟩
  simp [Transition.run, OrtHost.step, hstatus, h.library]

/-- A call that succeeds adds its object. -/
theorem Loading.next {operation : String} {o : Option OrtObject}
    {rest : List (String × Option OrtObject)} {s : OnnxImpl}
    (h : s.Loading ((operation, o) :: rest)) :
    Loading rest { s with
      calls := s.calls ++ (o.map OrtCall.create).toList, held := o.toList ++ s.held } := by
  cases o with
  | none => exact ⟨by simpa using h.calls, h.held, h.library, h.api, h.ready⟩
  | some o =>
    have hheld : (rest.filterMap Prod.snd).reverse ++ o :: s.held = allHeld := by
      simpa using h.held
    have hnew : o ∉ s.held := by
      have hnodup : ((rest.filterMap Prod.snd).reverse ++ o :: s.held).Nodup := by
        rw [hheld]
        decide
      exact (List.nodup_cons.mp (List.nodup_append.mp hnodup).2.1).1
    refine ⟨run_calls h.calls ?_, hheld, h.library, h.api, h.ready⟩
    simp [Transition.run, OrtHost.step, hnew]

theorem initLoop_sound (statuses : Nat → Option Bytes) (rest : List (String × Option OrtObject))
    (n : Nat) {s : OnnxImpl} (h : s.Loading rest) : (initLoop statuses rest n s).Sound := by
  induction rest generalizing n s with
  | nil =>
    have hheld : s.held = allHeld := h.held
    exact ⟨h.library ▸ h.calls, hheld ▸ List.suffix_refl _,
      fun hapi => absurd (h.api.symm.trans hapi) (by decide), fun _ => h.library,
      fun _ => ⟨hheld, h.library⟩⟩
  | cons entry rest ih =>
    obtain ⟨operation, o⟩ := entry
    cases hstatus : statuses n with
    | some error =>
      have hfailed := h.failed (failureReason (text operation) error)
      simpa [initLoop, hstatus, apiCall, checkStatus, call] using hfailed
    | none =>
      have hrest := ih (n + 1) h.next
      cases o with
      | none => simpa [initLoop, hstatus, apiCall, checkStatus] using hrest
      | some o => simpa [initLoop, hstatus, apiCall, checkStatus, call] using hrest

theorem construct_sound (modelPath runtimeLibraryPath : Bytes) (l : OnnxLoading) :
    (construct modelPath runtimeLibraryPath l).Sound := by
  have hclosed : ∀ s : OnnxImpl, s.calls = [] → s.held = [] → s.libraryHandle = false →
      s.api = false → s.ready = false → s.Sound := by
    intro s hcalls hheld hlibrary hapi hready
    exact ⟨by rw [hcalls, hlibrary, hheld]; rfl, hheld ▸ List.nil_suffix, fun _ => hheld,
      fun h => by simp [hapi] at h, fun h => by simp [hready] at h⟩
  have hopened : ∀ s : OnnxImpl, s.calls = [.dlopen] → s.held = [] → s.libraryHandle = true →
      s.api = false → s.ready = false → s.Sound := by
    intro s hcalls hheld hlibrary hapi hready
    exact ⟨by rw [hcalls, hlibrary, hheld]; rfl, hheld ▸ List.nil_suffix, fun _ => hheld,
      fun _ => hlibrary, fun h => by simp [hready] at h⟩
  unfold construct initializeRuntime
  simp only
  split_ifs
  all_goals first
    | exact hclosed _ rfl rfl rfl rfl rfl
    | exact hopened _ rfl rfl rfl rfl rfl
    | exact initLoop_sound _ _ _ ⟨rfl, rfl, rfl, rfl, rfl⟩

theorem releaseIfHeld_sound {s : OnnxImpl} {library : Bool} (o : OrtObject)
    (h : Transition.run OrtHost.step {} s.calls = some { library := library, live := s.held }) :
    Transition.run OrtHost.step {} (s.releaseIfHeld o).calls =
        some { library := library, live := (s.releaseIfHeld o).held } ∧
      (s.releaseIfHeld o).held = s.held.erase o := by
  unfold releaseIfHeld
  split_ifs with hheld
  · exact ⟨run_calls h (by simp [Transition.run, OrtHost.step, hheld]), rfl⟩
  · exact ⟨h, (List.erase_of_not_mem hheld).symm⟩

theorem foldl_releaseIfHeld {library : Bool} (os : List OrtObject) {s : OnnxImpl}
    (h : Transition.run OrtHost.step {} s.calls = some { library := library, live := s.held }) :
    Transition.run OrtHost.step {} (os.foldl releaseIfHeld s).calls =
        some { library := library, live := s.held.diff os } ∧
      (os.foldl releaseIfHeld s).held = s.held.diff os ∧
      (os.foldl releaseIfHeld s).libraryHandle = s.libraryHandle := by
  induction os generalizing s with
  | nil => exact ⟨h, rfl, rfl⟩
  | cons o rest ih =>
    obtain ⟨hcalls, hheld⟩ := releaseIfHeld_sound o h
    have hlibrary : (s.releaseIfHeld o).libraryHandle = s.libraryHandle := by
      unfold releaseIfHeld
      split_ifs <;> rfl
    have hrest := ih hcalls
    rw [hheld, hlibrary] at hrest
    rwa [List.diff_cons]

/-- The destructor leaves nothing behind, however far the constructor got. -/
theorem Sound.destroyed {s : OnnxImpl} (h : s.Sound) :
    Transition.run OrtHost.step {} s.destroy.calls = some {} := by
  obtain ⟨hcalls, hheld, hlibrary⟩ :=
    foldl_releaseIfHeld [.session, .sessionOptions, .memoryInfo, .env] h.calls
  have hnone : s.held.diff [.session, .sessionOptions, .memoryInfo, .env] = [] := by
    have hnodup : s.held.Nodup := h.held.sublist.nodup (by decide)
    have hall : ∀ o ∈ allHeld, o ∈ [OrtObject.session, .sessionOptions, .memoryInfo, .env] := by
      decide
    rw [hnodup.sdiff_eq_filter, List.filter_eq_nil_iff]
    intro o ho
    have hmem := hall o (h.held.subset ho)
    simpa only [decide_eq_true_eq, not_not] using hmem
  rw [hnone] at hcalls hheld
  unfold destroy
  cases hapi : s.api with
  | true =>
    have hopen := h.library hapi
    rw [hopen] at hcalls hlibrary
    simp only [if_true, hlibrary, call]
    exact run_calls hcalls rfl
  | false =>
    have hbefore := h.calls
    rw [h.api hapi] at hbefore
    cases hopen : s.libraryHandle with
    | true =>
      rw [hopen] at hbefore
      simp only [Bool.false_eq_true, if_false, hopen, if_true, call]
      exact run_calls hbefore rfl
    | false =>
      rw [hopen] at hbefore
      simpa only [Bool.false_eq_true, if_false, hopen] using hbefore

/-- Together the chunks have an output for each request, from its own row. -/
theorem chunkOutputs_range (requests : List BackendRequest) (labels : Nat → Vector Int 3)
    (m : Nat) :
    ((List.range m).flatMap fun k =>
        chunkOutputs ((requests.drop (3 * k)).take 3) (labels k) requests.length) =
      (List.range (min (3 * m) requests.length)).map fun i =>
        formatOutput ((labels (i / 3)).get ⟨i % 3, Nat.mod_lt i (by decide)⟩) requests.length := by
  induction m with
  | zero => simp
  | succ k ih =>
    have hlength : ((requests.drop (3 * k)).take 3).length = min 3 (requests.length - 3 * k) := by
      simp
    have hsplit : min (3 * (k + 1)) requests.length =
        min (3 * k) requests.length + min 3 (requests.length - 3 * k) := by omega
    rw [List.range_succ, List.flatMap_append, List.flatMap_singleton, ih, hsplit, List.range_add,
      List.map_append, List.append_cancel_left_eq, List.map_map]
    unfold chunkOutputs
    rw [hlength]
    apply List.ext_getElem
    · simp
    · intro i hi hi'
      simp only [List.length_map, List.length_range] at hi'
      have hmin : min (3 * k) requests.length = 3 * k := by omega
      have hdiv : (3 * k + i) / 3 = k := by omega
      have hmod : (3 * k + i) % 3 = i := by omega
      simp only [List.getElem_map, List.getElem_take, List.getElem_range, Function.comp, hmin, hdiv,
        hmod]
      rfl

section
variable {Feature : Type} (features : Bytes → Feature × Feature) (zero : Feature)

theorem chunkInput_row {requests : List BackendRequest} {i : Nat} {request : BackendRequest}
    (h : requests[i]? = some request) :
    (chunkInput features zero ((requests.drop (3 * (i / 3))).take 3)).get
      ⟨i % 3, Nat.mod_lt i (by decide)⟩ = features request.prompt := by
  have hrow : ((requests.drop (3 * (i / 3))).take 3)[i % 3]? = some request := by
    rw [List.getElem?_take_of_lt (Nat.mod_lt i (by decide)), List.getElem?_drop,
      Nat.div_add_mod, h]
  simp only [chunkInput, Vector.get_ofFn, hrow]

variable (session : Nat → Vector (Feature × Feature) 3 → OnnxAnswer) (isCancelled : Nat → Bool)

inductive Ran (s : OnnxImpl) (outputs : List Bytes) : BackendResult → OnnxImpl → Prop
  | answered (calls : List OrtCall)
    (hcalls : Transition.run OrtHost.step { library := true, live := allHeld } calls =
      some { library := true, live := allHeld }) :
    Ran s outputs { outputs := outputs } { s with calls := s.calls ++ calls }
  | cancelled (calls : List OrtCall)
    (hcalls : Transition.run OrtHost.step { library := true, live := allHeld } calls =
      some { library := true, live := allHeld })
    (hcancelled : ∃ polls, isCancelled polls = true) :
    Ran s outputs cancelledResult { s with calls := s.calls ++ calls }
  | failed (calls : List OrtCall)
    (hcalls : Transition.run OrtHost.step { library := true, live := allHeld } calls =
      some { library := true, live := allHeld }) (reason : Bytes) :
    Ran s outputs (unavailableResult reason)
      { s with calls := s.calls ++ calls, ready := false, unavailableReason := reason }

/-- A batch after some calls that leave what they found. -/
theorem Ran.after {s s' : OnnxImpl} {outputs : List Bytes} {result : BackendResult}
    {calls : List OrtCall}
    (hcalls : Transition.run OrtHost.step { library := true, live := allHeld } calls =
      some { library := true, live := allHeld })
    (h : Ran isCancelled { s with calls := s.calls ++ calls } outputs result s') :
    Ran isCancelled s outputs result s' := by
  cases h with
  | answered later hlater =>
    have hran : Ran isCancelled s outputs { outputs := outputs } _ :=
      .answered _ ((Transition.run_append calls later).mpr ⟨_, hcalls, hlater⟩)
    simpa only [List.append_assoc] using hran
  | cancelled later hlater hcancelled =>
    have hran : Ran isCancelled s outputs cancelledResult _ :=
      .cancelled _ ((Transition.run_append calls later).mpr ⟨_, hcalls, hlater⟩) hcancelled
    simpa only [List.append_assoc] using hran
  | failed later hlater reason =>
    have hran : Ran isCancelled s outputs (unavailableResult reason) _ :=
      .failed _ ((Transition.run_append calls later).mpr ⟨_, hcalls, hlater⟩) reason
    simpa only [List.append_assoc] using hran

theorem ran_cancelled (s : OnnxImpl) (outputs : List Bytes) {polls : Nat}
    (h : isCancelled polls = true) : Ran isCancelled s outputs cancelledResult s := by
  have hnone : Ran isCancelled s outputs cancelledResult { s with calls := s.calls ++ [] } :=
    Ran.cancelled [] rfl ⟨polls, h⟩
  simpa only [List.append_nil] using hnone

theorem runLoop_ran (requests : List BackendRequest) (ks : List Nat) (s : OnnxImpl)
    (outputs : List Bytes) :
    Ran isCancelled s
      (outputs ++ ks.flatMap fun k =>
        chunkOutputs ((requests.drop (3 * k)).take 3)
          (session k (chunkInput features zero ((requests.drop (3 * k)).take 3))).labels
          requests.length)
      (runLoop features zero session isCancelled requests ks s outputs).1
      (runLoop features zero session isCancelled requests ks s outputs).2 := by
  induction ks generalizing s outputs with
  | nil =>
    have hnone :
        Ran isCancelled s outputs { outputs := outputs } { s with calls := s.calls ++ [] } :=
      Ran.answered [] rfl
    simpa [runLoop] using hnone
  | cons k rest ih =>
    unfold runLoop
    by_cases hpoll : isCancelled (k + 1) = true
    · rw [if_pos hpoll]
      exact ran_cancelled isCancelled s _ hpoll
    · rw [if_neg hpoll, List.flatMap_cons, ← List.append_assoc]
      simp only
      generalize session k (chunkInput features zero ((requests.drop (3 * k)).take 3)) = answer
      obtain ⟨calls, hcalls, ⟨hlabels, hs⟩ | ⟨hlabels, reason, hs⟩⟩ := s.runChunk_spec answer
      · rw [← Prod.mk.eta (p := s.runChunk answer), hlabels, hs]
        exact Ran.after isCancelled hcalls (ih _ _)
      · rw [← Prod.mk.eta (p := s.runChunk answer), hlabels, hs]
        exact Ran.failed calls hcalls reason

theorem run_ran (requests : List BackendRequest) {s : OnnxImpl} (h : s.ready = true) :
    Ran isCancelled s
      ((List.range requests.length).map fun i =>
        formatOutput
          ((session (i / 3) (chunkInput features zero
            ((requests.drop (3 * (i / 3))).take 3))).labels.get ⟨i % 3, Nat.mod_lt i (by decide)⟩)
          requests.length)
      (s.run features zero session isCancelled requests).1
      (s.run features zero session isCancelled requests).2 := by
  unfold run
  rw [h, Bool.not_true, if_neg Bool.false_ne_true]
  by_cases hpoll : isCancelled 0 = true
  · rw [if_pos hpoll]
    exact ran_cancelled isCancelled s _ hpoll
  · rw [if_neg hpoll]
    have hloop := runLoop_ran features zero session isCancelled requests
      (List.range ((requests.length + 2) / 3)) s []
    have hchunks := chunkOutputs_range requests
      (fun k => (session k (chunkInput features zero ((requests.drop (3 * k)).take 3))).labels)
      ((requests.length + 2) / 3)
    have hall : min (3 * ((requests.length + 2) / 3)) requests.length = requests.length := by omega
    rw [List.nil_append, hchunks, hall] at hloop
    exact hloop

theorem Ran.sound {isCancelled : Nat → Bool} {s s' : OnnxImpl} {outputs : List Bytes}
    {result : BackendResult} (h : Ran isCancelled s outputs result s') (hs : s.Sound)
    (hready : s.ready = true) : s'.Sound := by
  obtain ⟨hheld, hlibrary⟩ := hs.ready hready
  have hcalls := hs.calls
  rw [hlibrary, hheld] at hcalls
  cases h with
  | answered calls hlater | cancelled calls hlater =>
    exact ⟨by rw [hlibrary, hheld]; exact run_calls hcalls hlater, hs.held, hs.api, hs.library,
      hs.ready⟩
  | failed calls hlater reason =>
    exact ⟨by rw [hlibrary, hheld]; exact run_calls hcalls hlater, hs.held, hs.api, hs.library,
      fun hnot => absurd hnot Bool.false_ne_true⟩

inductive Answered (b : Batch Feature) : BackendResult → Prop
  | labelled (outputs : List Bytes) (hlength : outputs.length = b.requests.length)
    (hrows : ∀ i request, b.requests[i]? = some request →
      ∃ input : Vector (Feature × Feature) 3,
        input.get ⟨i % 3, Nat.mod_lt i (by decide)⟩ = features request.prompt ∧
        outputs[i]? = some (formatOutput
          ((b.session (i / 3) input).labels.get ⟨i % 3, Nat.mod_lt i (by decide)⟩)
          b.requests.length)) : Answered b { outputs := outputs }
  | cancelled (h : ∃ polls, b.isCancelled polls = true) : Answered b cancelledResult
  | unavailable (reason : Bytes) : Answered b (unavailableResult reason)

theorem run_answered (s : OnnxImpl) (b : Batch Feature) :
    Answered features b (s.run features zero b.session b.isCancelled b.requests).1 := by
  cases hready : s.ready with
  | false =>
    simp only [run, hready, Bool.not_false, if_true]
    exact .unavailable _
  | true =>
    have hran := run_ran features zero b.session b.isCancelled b.requests hready
    generalize s.run features zero b.session b.isCancelled b.requests = r at hran ⊢
    obtain ⟨result, s'⟩ := r
    cases hran with
    | answered calls hcalls =>
      refine .labelled _ (by simp) fun i request hi => ⟨_, chunkInput_row features zero hi, ?_⟩
      have hlt : i < b.requests.length := (List.getElem?_eq_some_iff.mp hi).1
      rw [List.getElem?_map, List.getElem?_range hlt, Option.map_some]
    | cancelled calls hcalls hcancelled => exact .cancelled hcancelled
    | failed calls hcalls reason => exact .unavailable reason

structure Lived (batches : List (Batch Feature)) (results : List BackendResult) (s : OnnxImpl) :
    Prop where
  sound : s.Sound
  answered : List.Forall₂ (Answered features) batches results
  latched : results.Pairwise fun earlier later => earlier.code = .unavailable → later = earlier
  last : ∀ r ∈ results, r.code = .unavailable →
    s.ready = false ∧ r = unavailableResult s.unavailableReason

theorem serve_lived {s : OnnxImpl} (hs : s.Sound) (batches : List (Batch Feature)) :
    Lived features batches (s.serve features zero batches).1 (s.serve features zero batches).2 := by
  induction batches using List.reverseRecOn with
  | nil => exact ⟨hs, .nil, .nil, by simp [serve]⟩
  | append_singleton batches b ih =>
    obtain ⟨hsound, hanswered, hlatched, hlast⟩ := ih
    have hserve : s.serve features zero (batches ++ [b]) =
        ((s.serve features zero batches).1 ++
            [((s.serve features zero batches).2.run features zero b.session b.isCancelled
              b.requests).1],
          ((s.serve features zero batches).2.run features zero b.session b.isCancelled
            b.requests).2) := by
      simp [serve]
    have hb := run_answered features zero (s.serve features zero batches).2 b
    rw [hserve]
    generalize s.serve features zero batches = r at *
    obtain ⟨results, t⟩ := r
    have hboth := List.rel_append hanswered (List.Forall₂.cons hb .nil)
    cases hready : t.ready with
    | false =>
      -- disabled: the same answer again, and nothing is called
      have hrun : t.run features zero b.session b.isCancelled b.requests =
          (unavailableResult t.unavailableReason, t) := by
        simp [run, hready]
      simp only [hrun] at hboth ⊢
      refine ⟨hsound, hboth, List.pairwise_append.mpr ⟨hlatched, List.pairwise_singleton _ _, ?_⟩,
        ?_⟩
      · intro r hr later hlater hcode
        rw [List.mem_singleton.mp hlater, (hlast r hr hcode).2]
      · intro r hr hcode
        rcases List.mem_append.mp hr with hr | hr
        · exact hlast r hr hcode
        · exact ⟨hready, List.mem_singleton.mp hr⟩
    | true =>
      have hran := run_ran features zero b.session b.isCancelled b.requests hready
      have hbefore : ∀ r ∈ results, r.code ≠ .unavailable := fun r hr hcode =>
        absurd (hready.symm.trans (hlast r hr hcode).1) (by decide)
      refine ⟨hran.sound hsound hready, hboth,
        List.pairwise_append.mpr ⟨hlatched, List.pairwise_singleton _ _,
          fun r hr _ _ hcode => absurd hcode (hbefore r hr)⟩, ?_⟩
      intro r hr hcode
      rcases List.mem_append.mp hr with hr | hr
      · exact absurd hcode (hbefore r hr)
      · obtain rfl := List.mem_singleton.mp hr
        generalize t.run features zero b.session b.isCancelled b.requests = r at hran hcode ⊢
        obtain ⟨result, t'⟩ := r
        cases hran with
        | answered calls hcalls => simp at hcode
        | cancelled calls hcalls hcancelled => simp at hcode
        | failed calls hcalls reason => exact ⟨rfl, rfl⟩

/-- Whatever the runtime answers: from the constructor to the destructor each object is created
while the library is open, released once, and none is left; and the batches in between are
answered row by row until the first failure. -/
theorem onnx_lifetime (modelPath runtimeLibraryPath : Bytes) (l : OnnxLoading)
    (batches : List (Batch Feature)) :
    let served := (construct modelPath runtimeLibraryPath l).serve features zero batches
    Transition.run OrtHost.step {} served.2.destroy.calls = some {} ∧
      Lived features batches served.1 served.2 := by
  have hlived := serve_lived features zero (construct_sound modelPath runtimeLibraryPath l) batches
  exact ⟨hlived.sound.destroyed, hlived⟩

end

end OnnxImpl

end Laminar.Backend
