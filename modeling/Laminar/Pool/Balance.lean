import Mathlib
import Laminar.Pool.Routing

/-! `selectEndpoint` finds the least endpoint whose circuit is closed. Calls that come one after
the other are spread evenly by it, as long as no circuit opens and no stream is left unread: its
endpoint counts that one for good and is passed over from then on. -/
namespace Laminar.Pool
open Laminar.Gateway (Config Error StreamHandler StreamResponse)
open Laminar.Transition

abbrev Rank : Type := Int ×ₗ Nat ×ₗ Nat

def WorkerSelectionState.rank (r : WorkerSelectionState) : Rank :=
  toLex (r.inFlight, toLex (r.totalBatches, r.index))

def WorkerEndpoint.rank (e : WorkerEndpoint) : Rank :=
  toLex (e.inFlight, toLex (e.totalBatches, e.index))

def Serving.Eligible (s : Serving) (now : Int) (i : Nat) : Prop :=
  i < s.size ∧ (s.endpoints i).circuitOpenLocked now = false

def Serving.Least (s : Serving) (now : Int) (i : Nat) : Prop :=
  s.Eligible now i ∧ ∀ j, s.Eligible now j → (s.endpoints i).rank ≤ (s.endpoints j).rank

def CallPC.Selecting : CallPC → Prop
  | .select .. => True
  | .begin .. => True
  | .metrics _ next => next.Selecting
  | .finish _ _ _ _ next => next.Selecting
  | _ => False

/-- A caller that has taken its first step and has not returned. -/
def CallPC.running : CallPC → Bool
  | .start => false
  | .returned => false
  | _ => true

def Call.InProgress (c : Call) : Prop := c.pc.running = true

instance : DecidablePred Call.InProgress := fun c =>
  inferInstanceAs (Decidable (c.pc.running = true))

/-- A step is one of a call in progress, or starts a call when there is none. -/
def NotOverlapping (s : Serving) : Action → Prop
  | .advance k => (s.calls k).InProgress ∨ ∀ j < s.started, ¬ (s.calls j).InProgress
  | _ => True

instance (s : Serving) (a : Action) : Decidable (NotOverlapping s a) :=
  match a with
  | .advance k => inferInstanceAs
      (Decidable ((s.calls k).InProgress ∨ ∀ j < s.started, ¬ (s.calls j).InProgress))
  | .pass _ => isTrue trivial
  | .call _ => isTrue trivial
  | .cancel _ => isTrue trivial
  | .answer .. => isTrue trivial
  | .recv .. => isTrue trivial
  | .deliver .. => isTrue trivial
  | .observe .. => isTrue trivial

def NoCircuitOpen (s : Serving) : Prop :=
  ∀ i < s.size, (s.endpoints i).circuitOpenUntil = none

instance : DecidablePred NoCircuitOpen := fun s =>
  inferInstanceAs (Decidable (∀ i < s.size, (s.endpoints i).circuitOpenUntil = none))

variable {cfg : Config} {s s' : Serving}

theorem lessLoaded_iff (a b : WorkerSelectionState) :
    lessLoaded a b = true ↔ a.rank < b.rank := by
  simp only [lessLoaded, WorkerSelectionState.rank, Prod.Lex.toLex_lt_toLex]
  split_ifs <;> simp only [decide_eq_true_eq] <;> omega

theorem selectionState_rank (e : WorkerEndpoint) (now : Int) :
    (e.selectionState now).1.rank = e.rank := by
  rw [selectionState_eq]
  rfl

def Serving.readsAt (s : Serving) (now : Int) (n : Nat) : List WorkerSelectionState :=
  (List.range n).map fun i => ((s.endpoints i).selectionState now).1

theorem mem_readsAt {now : Int} {n : Nat} {r : WorkerSelectionState} :
    r ∈ s.readsAt now n ↔ ∃ i < n, ((s.endpoints i).selectionState now).1 = r := by
  simp [Serving.readsAt]

theorem selectEndpoint_none {now : Int}
    (h : (s.readsAt now s.size).foldl consider none = none) :
    selectEndpoint s.endpoints s.size now =
      .error (.status .unavailable "no available workers") := by
  rw [selectEndpoint, ← Serving.readsAt, h]

theorem selectEndpoint_some {now : Int} {best : WorkerSelectionState}
    (h : (s.readsAt now s.size).foldl consider none = some best) :
    selectEndpoint s.endpoints s.size now = .ok best.index := by
  rw [selectEndpoint, ← Serving.readsAt, h]

/-- Nothing is selected exactly when every circuit is open. -/
theorem selectEndpoint_error (s : Serving) (now : Int) :
    selectEndpoint s.endpoints s.size now =
        .error (.status .unavailable "no available workers") ↔
      ∀ i < s.size, (s.endpoints i).circuitOpenLocked now = true := by
  have hfound := found_foldl (s.readsAt now s.size)
  cases hfold : (s.readsAt now s.size).foldl consider none with
  | none =>
    rw [hfold] at hfound
    refine iff_of_true (selectEndpoint_none hfold) fun i hi => ?_
    have hopen := hfound _ (mem_readsAt.mpr ⟨i, hi, rfl⟩)
    rwa [selectionState_eq] at hopen
  | some best =>
    rw [hfold] at hfound
    obtain ⟨hmem, hclosed, -⟩ := hfound
    obtain ⟨i, hi, rfl⟩ := mem_readsAt.mp hmem
    rw [selectionState_eq] at hclosed
    refine iff_of_false (by simp [selectEndpoint_some hfold]) fun hall => ?_
    exact absurd (hclosed.symm.trans (hall i hi)) Bool.false_ne_true

/-- Where a circuit is closed, the least of those endpoints is selected. -/
theorem selectEndpoint_least (hindex : ∀ i, (s.endpoints i).index = i) {now : Int} {i : Nat}
    (hi : s.Eligible now i) :
    ∃ b, selectEndpoint s.endpoints s.size now = .ok b ∧ s.Least now b := by
  have hfound := found_foldl (s.readsAt now s.size)
  cases hfold : (s.readsAt now s.size).foldl consider none with
  | none =>
    rw [hfold] at hfound
    have hopen := hfound _ (mem_readsAt.mpr ⟨i, hi.1, rfl⟩)
    rw [selectionState_eq] at hopen
    exact absurd (hi.2.symm.trans hopen) Bool.false_ne_true
  | some best =>
    rw [hfold] at hfound
    obtain ⟨hmem, hclosed, hleast⟩ := hfound
    obtain ⟨b, hb, rfl⟩ := mem_readsAt.mp hmem
    rw [selectionState_eq] at hclosed
    refine ⟨b, ?_, ⟨hb, hclosed⟩, fun j hj => ?_⟩
    · rw [selectEndpoint_some hfold, selectionState_eq]
      exact congrArg Except.ok (hindex b)
    · have hnot := hleast _ (mem_readsAt.mpr ⟨j, hj.1, rfl⟩) (by
        rw [selectionState_eq]
        exact hj.2)
      rw [← Bool.not_eq_true, lessLoaded_iff, selectionState_rank, selectionState_rank] at hnot
      exact not_lt.mp hnot

theorem Serving.Least.unique (hindex : ∀ i, (s.endpoints i).index = i) {now : Int} {i j : Nat}
    (hi : s.Least now i) (hj : s.Least now j) : i = j := by
  have heq := le_antisymm (hi.2 j hj.1) (hj.2 i hi.1)
  simp only [WorkerEndpoint.rank, EmbeddingLike.apply_eq_iff_eq, Prod.mk.injEq, hindex] at heq
  exact heq.2.2

theorem step_read {k i : Nat} {now : Int} {selected : Option WorkerSelectionState}
    {reads : List WorkerSelectionState} (hk : k < s.started)
    (hpc : (s.calls k).pc = .select now i selected reads) (hi : i < s.size) :
    step cfg s (.advance k) =
      some ((s.atEndpoint i fun _ => ((s.endpoints i).selectionState now).2).goto k
        (.select now (i + 1) (consider selected ((s.endpoints i).selectionState now).1)
          (reads ++ [((s.endpoints i).selectionState now).1]))) := by
  simp only [step, if_pos hk, Serving.advance, hpc, if_pos hi]

theorem step_selected {k i : Nat} {now : Int} {selected : Option WorkerSelectionState}
    {reads : List WorkerSelectionState} (hk : k < s.started)
    (hpc : (s.calls k).pc = .select now i selected reads) (hi : s.size ≤ i) :
    step cfg s (.advance k) = some (s.selected k selected reads) := by
  simp only [step, if_pos hk, Serving.advance, hpc, if_neg (Nat.not_lt.mpr hi)]

/-- A caller whose reads are not interrupted reads what `selectEndpoint` looks at. -/
theorem select_reads {k : Nat} (hk : k < s.started) (hpc : (s.calls k).pc = .start) {n : Nat}
    (hn : n ≤ s.size) :
    ∃ t, run (step cfg) s (List.replicate (n + 1) (.advance k)) = some t ∧ t.size = s.size ∧
      k < t.started ∧
      (t.calls k).pc = .select s.now n ((s.readsAt s.now n).foldl consider none)
        (s.readsAt s.now n) ∧
      ∀ j, n ≤ j → t.endpoints j = s.endpoints j := by
  induction n with
  | zero =>
    refine ⟨s.goto k (.select s.now 0 none []), ?_, rfl, hk, ?_, fun j _ => rfl⟩
    · simp [run, step, hk, Serving.advance, hpc]
    · simp [Serving.goto, update_calls, Serving.readsAt]
  | succ n ih =>
    obtain ⟨t, hrun, hsize, hk', hpc', hsame⟩ := ih (Nat.le_of_succ_le hn)
    have hnext : s.readsAt s.now (n + 1) =
        s.readsAt s.now n ++ [((t.endpoints n).selectionState s.now).1] := by
      rw [hsame n (Nat.le_refl n), Serving.readsAt, List.range_succ, List.map_append]
      rfl
    have hlt : n < t.size := hsize ▸ hn
    refine ⟨(t.atEndpoint n fun _ => ((t.endpoints n).selectionState s.now).2).goto k
      (.select s.now (n + 1) ((s.readsAt s.now (n + 1)).foldl consider none)
        (s.readsAt s.now (n + 1))), ?_, hsize, hk', ?_, fun j hj => ?_⟩
    · rw [List.replicate_succ', run_append, hnext, List.foldl_append]
      exact ⟨t, hrun, run_cons.mpr ⟨_, step_read hk' hpc' hlt, rfl⟩⟩
    · rw [Serving.goto, update_calls, if_pos rfl]
    · have hread := atEndpoint_endpoints t n j fun _ => ((t.endpoints n).selectionState s.now).2
      rw [if_neg (by omega)] at hread
      exact hread.trans (hsame j (Nat.le_of_succ_le hj))

/-- An uninterrupted caller goes on with the endpoint that `selectEndpoint` returns, or with its
error; a stream needs a client that streams. -/
theorem select_run {k : Nat} (hk : k < s.started) (hpc : (s.calls k).pc = .start) :
    ∃ t t', run (step cfg) s (List.replicate (s.size + 1) (.advance k)) = some t ∧
      step cfg t (.advance k) = some t' ∧
      (∀ err, selectEndpoint s.endpoints s.size s.now = .error err →
        (t'.calls k).pc = .failed err) ∧
      ∀ i, selectEndpoint s.endpoints s.size s.now = .ok i →
        (t'.calls k).pc = .begin i (s.readsAt s.now s.size) ∨
        (t.calls k).kind ≠ .batch ∧ (t.endpoints i).streaming = false ∧
          (t'.calls k).pc =
            .failed (.status .unimplemented "worker does not support streaming") := by
  obtain ⟨t, hrun, hsize, hk', hpc', -⟩ := select_reads hk hpc (Nat.le_refl s.size)
  refine ⟨t, _, hrun, step_selected hk' hpc' hsize.le, fun err herr => ?_, fun i hi => ?_⟩
  · cases hfold : (s.readsAt s.now s.size).foldl consider none with
    | none =>
      rw [selectEndpoint_none hfold] at herr
      obtain rfl := Except.error.inj herr
      simp [Serving.selected, Serving.goto, update_calls]
    | some best => exact absurd ((selectEndpoint_some hfold).symm.trans herr) (by simp)
  · cases hfold : (s.readsAt s.now s.size).foldl consider none with
    | none => exact absurd ((selectEndpoint_none hfold).symm.trans hi) (by simp)
    | some best =>
      rw [selectEndpoint_some hfold] at hi
      obtain rfl := Except.ok.inj hi
      simp only [Serving.selected]
      split_ifs with hstream
      · refine Or.inr ⟨hstream.1, hstream.2, ?_⟩
        simp [Serving.goto, update_calls]
      · refine Or.inl ?_
        simp [Serving.goto, update_calls]

theorem total_le_of_not_lessLoaded {a b : WorkerSelectionState} (h : lessLoaded a b = false)
    (heq : a.inFlight = b.inFlight) : b.totalBatches ≤ a.totalBatches := by
  simp only [lessLoaded, heq] at h
  split_ifs at h <;> simp only [decide_eq_false_iff_not] at h <;> omega

def UpToDate (endpoints : Nat → WorkerEndpoint) (reads : List WorkerSelectionState) : Prop :=
  ∀ r ∈ reads, r.circuitOpen = false ∧ r.inFlight = 0 ∧
    r.totalBatches = (endpoints r.index).totalBatches

def CallPC.Sees (endpoints : Nat → WorkerEndpoint) : CallPC → Prop
  | .select _ _ _ reads => UpToDate endpoints reads
  | .begin _ reads => UpToDate endpoints reads
  | .metrics _ next => next.Sees endpoints
  | .finish _ _ _ _ next => next.Sees endpoints
  | _ => True

/-- Between any two steps when calls do not overlap and no circuit opens. -/
structure Serving.InTurn (s : Serving) : Prop where
  alone : ∀ j < s.started, ∀ k < s.started, (s.calls j).InProgress → (s.calls k).InProgress → j = k
  sees : ∀ k < s.started, (s.calls k).pc.Sees s.endpoints
  balanced : ∀ i < s.size, ∀ j < s.size,
    (s.endpoints i).totalBatches ≤ (s.endpoints j).totalBatches + 1

theorem CallPC.running_of_selecting {pc : CallPC} (h : pc.Selecting) : pc.running = true := by
  cases pc with
  | start => exact h.elim
  | returned => exact h.elim
  | _ => rfl

theorem CallPC.sees_of_not_selecting {endpoints : Nat → WorkerEndpoint} {pc : CallPC}
    (h : ¬ pc.Selecting) : pc.Sees endpoints := by
  induction pc with
  | select => exact absurd trivial h
  | begin => exact absurd trivial h
  | metrics ops next ih => exact ih h
  | finish i latency err now next ih => exact ih h
  | _ => trivial

theorem CallPC.Sees.congr {endpoints endpoints' : Nat → WorkerEndpoint} {pc : CallPC}
    (htotal : ∀ i, (endpoints' i).totalBatches = (endpoints i).totalBatches)
    (h : pc.Sees endpoints) : pc.Sees endpoints' := by
  have hreads : ∀ {reads}, UpToDate endpoints reads → UpToDate endpoints' reads :=
    fun hreads r hr => by rw [htotal]; exact hreads r hr
  induction pc with
  | select now i selected reads => exact hreads h
  | begin i reads => exact hreads h
  | metrics ops next ih => exact ih h
  | finish i latency err now next ih => exact ih h
  | _ => trivial

/-- A call that is not in progress is not counted, unless it has left its stream unread. -/
theorem Serving.Accounted.openOn_eq_zero (h : s.Accounted) {k : Nat}
    (hleak : ¬ (s.calls k).Leaked) (hidle : ¬ (s.calls k).InProgress) (i : Nat) :
    (s.calls k).openOn i = 0 := by
  refine if_neg ?_
  rintro ⟨hbegun, hfinished⟩
  have hfits := h.fits k
  cases hpc : (s.calls k).pc with
  | start =>
    rw [Call.Fits, hpc] at hfits
    exact absurd (hfits.1.symm.trans hbegun) (by simp)
  | returned => exact hleak ⟨hpc, by simp [hbegun], hfinished⟩
  | _ => exact hidle (by rw [Call.InProgress, hpc]; rfl)

theorem CallPC.Fits.not_begun {pc : CallPC} {begun : Option Nat} {finished : Nat} {once : Bool}
    (h : pc.Fits begun finished once) (hselecting : pc.Selecting) : begun = none := by
  induction pc generalizing finished with
  | select => exact h.1
  | begin => exact h.1
  | metrics ops next ih => exact ih h.1 hselecting
  | finish i latency err now next ih => exact ih h.2.2 hselecting
  | _ => exact hselecting.elim

/-- While a caller selects, and no other call is in progress, every endpoint is idle. -/
theorem Serving.Accounted.idle (h : s.Accounted) (hleak : ∀ j, ¬ (s.calls j).Leaked) {k : Nat}
    (hk : (s.calls k).pc.Selecting)
    (hothers : ∀ j < s.started, j ≠ k → ¬ (s.calls j).InProgress) (i : Nat) :
    (s.endpoints i).inFlight = 0 := by
  rw [h.load]
  refine Finset.sum_eq_zero fun j hj => ?_
  by_cases hjk : j = k
  · rw [hjk, Call.openOn, (h.fits k).not_begun hk]
    simp
  · exact h.openOn_eq_zero (hleak j) (hothers j (Finset.mem_range.mp hj) hjk) i

theorem Serving.InTurn.others (h : s.InTurn) {k : Nat} (hk : k < s.started)
    (hprogress : (s.calls k).InProgress) (j : Nat) (hj : j < s.started) (hjk : j ≠ k) :
    ¬ (s.calls j).InProgress :=
  fun hprogress' => hjk (h.alone j hj k hk hprogress' hprogress)

theorem Serving.InTurn.update (h : s.InTurn) {k : Nat} {f : Call → Call}
    (hothers : (f (s.calls k)).InProgress → ∀ j < s.started, j ≠ k → ¬ (s.calls j).InProgress)
    (hsees : (f (s.calls k)).pc.Sees s.endpoints) : (s.update k f).InTurn := by
  refine ⟨fun i hi' j hj' hi hj => ?_, fun j hj' => ?_, h.balanced⟩
  · rw [update_calls] at hi hj
    split_ifs at hi hj with hik hjk hjk
    · rw [hik, hjk]
    · exact absurd hj (hothers hi j hj' hjk)
    · exact absurd hi (hothers hj i hi' hik)
    · exact h.alone i hi' j hj' hi hj
  · rw [update_calls]
    split_ifs
    · exact hsees
    · exact h.sees j hj'

theorem Serving.InTurn.goOn (h : s.InTurn) {k : Nat} (hk : k < s.started)
    (hprogress : (s.calls k).InProgress) {f : Call → Call}
    (hsees : (f (s.calls k)).pc.Sees s.endpoints) : (s.update k f).InTurn :=
  h.update (fun _ => h.others hk hprogress) hsees

/-- A step at an endpoint that counts no batch. -/
theorem Serving.InTurn.atEndpoint (h : s.InTurn) {i : Nat} {f : WorkerEndpoint → WorkerEndpoint}
    (htotal : (f (s.endpoints i)).totalBatches = (s.endpoints i).totalBatches) :
    (s.atEndpoint i f).InTurn := by
  have hsame : ∀ j, ((s.atEndpoint i f).endpoints j).totalBatches =
      (s.endpoints j).totalBatches := by
    intro j
    rw [atEndpoint_endpoints]
    split_ifs with hj
    · rw [hj]
      exact htotal
    · rfl
  refine ⟨h.alone, fun k hk => (h.sees k hk).congr hsame, fun j hj k hk => ?_⟩
  rw [hsame, hsame]
  exact h.balanced j hj k hk

theorem Serving.InTurn.setMetric (h : s.InTurn) (op : MetricOp) : (s.setMetric op).InTurn := by
  cases op with
  | batches i => exact h.atEndpoint (f := fun e => { e with batchesMetric := _ }) rfl
  | failures i => exact h.atEndpoint (f := fun e => { e with failuresMetric := _ }) rfl
  | inFlight i value => exact h.atEndpoint (f := fun e => { e with inFlightMetric := value }) rfl
  | circuit i isOpen => exact h.atEndpoint (f := fun e => { e with circuitMetric := isOpen }) rfl

/-- The endpoint on which a caller begins has not more batches than any other one. -/
theorem Serving.InTurn.total_le (h : s.InTurn) (hrouted : s.Routed) {k i : Nat}
    (hk : k < s.started) {reads : List WorkerSelectionState}
    (hpc : (s.calls k).pc = .begin i reads) {j : Nat} (hj : j < s.size) :
    (s.endpoints i).totalBatches ≤ (s.endpoints j).totalBatches := by
  have hchose := hrouted.chose k
  have hsees := h.sees k hk
  rw [hpc] at hchose hsees
  obtain ⟨hlength, hordered, best, hfold, rfl⟩ := hchose
  have hfound := found_foldl reads
  rw [hfold] at hfound
  obtain ⟨hmem, -, hleast⟩ := hfound
  obtain ⟨r, hr⟩ : ∃ r, reads[j]? = some r :=
    ⟨_, List.getElem?_eq_getElem (hlength ▸ hj)⟩
  obtain ⟨hclosed, hidle, htotal⟩ := hsees r (List.mem_of_getElem? hr)
  obtain ⟨-, hidle', htotal'⟩ := hsees best hmem
  have hle := total_le_of_not_lessLoaded (hleast r (List.mem_of_getElem? hr) hclosed)
    (hidle.trans hidle'.symm)
  rwa [htotal, htotal', hordered j r hr] at hle

/-- A caller begins: its endpoint gets ahead by one at most. -/
theorem Serving.InTurn.begin (h : s.InTurn) (hrouted : s.Routed) {k i : Nat} (hk : k < s.started)
    {reads : List WorkerSelectionState} (hpc : (s.calls k).pc = .begin i reads)
    {g : WorkerEndpoint → WorkerEndpoint}
    (hg : (g (s.endpoints i)).totalBatches = (s.endpoints i).totalBatches + 1) {f : Call → Call}
    (hf : ¬ (f (s.calls k)).pc.Selecting) : ((s.atEndpoint i g).update k f).InTurn := by
  have hothers := h.others hk (show (s.calls k).InProgress by rw [Call.InProgress, hpc]; rfl)
  have hcalls : ∀ j, ((s.atEndpoint i g).update k f).calls j =
      if j = k then f (s.calls k) else s.calls j := fun j => update_calls _ k j f
  have htotal : ∀ j, (((s.atEndpoint i g).update k f).endpoints j).totalBatches =
      if j = i then (s.endpoints i).totalBatches + 1 else (s.endpoints j).totalBatches := by
    intro j
    refine (congrArg WorkerEndpoint.totalBatches (atEndpoint_endpoints s i j g)).trans ?_
    split_ifs with hj
    · rw [hj, hg]
    · rfl
  refine ⟨fun a ha' b hb' ha hb => ?_, fun j hj => ?_, fun a ha b hb => ?_⟩
  · rw [hcalls] at ha hb
    split_ifs at ha hb with hak hbk hbk
    · rw [hak, hbk]
    · exact absurd hb (hothers b hb' hbk)
    · exact absurd ha (hothers a ha' hak)
    · exact absurd ha (hothers a ha' hak)
  · rw [hcalls]
    split_ifs with hjk
    · exact CallPC.sees_of_not_selecting hf
    · exact CallPC.sees_of_not_selecting fun hselecting =>
        hothers j hj hjk (CallPC.running_of_selecting hselecting)
  · have hle := h.total_le hrouted hk hpc hb
    have hbalanced := h.balanced a ha b hb
    rw [htotal, htotal]
    split_ifs with hai hbi hbi
    · omega
    · omega
    · rw [hbi] at hbalanced
      omega
    · exact hbalanced

theorem Serving.InTurn.move (h : s.InTurn) (hacc : s.Accounted) (hrouted : s.Routed)
    (hleak : ∀ k, ¬ (s.calls k).Leaked) {a : Action} (hturn : NotOverlapping s a)
    (hclosed : NoCircuitOpen s) (hmove : s.Move cfg a s') : s'.InTurn := by
  have hsees := h.sees
  cases hmove with
  | pass time => exact ⟨h.alone, h.sees, h.balanced⟩
  | observe i now hnow => exact h.atEndpoint (refreshCircuitLocked_load _ now).2.2
  | call kind =>
    refine ⟨fun j hj k hk hj' hk' => ?_, fun k hk => ?_, h.balanced⟩
    · rw [update_calls] at hj' hk'
      split_ifs at hj' hk' with hjs hks hks
      · rw [hjs, hks]
      · exact absurd hj' Bool.false_ne_true
      · exact absurd hk' Bool.false_ne_true
      · exact h.alone j (Nat.lt_of_le_of_ne (Nat.le_of_lt_succ hj) hjs) k
          (Nat.lt_of_le_of_ne (Nat.le_of_lt_succ hk) hks) hj' hk'
    · rw [update_calls]
      split_ifs with hks
      · trivial
      · exact h.sees k (Nat.lt_of_le_of_ne (Nat.le_of_lt_succ hk) hks)
  | cancel k hk => exact h.update (fun hprogress => h.others hk hprogress) (h.sees k hk)
  | start k hk hpc =>
    have hidle : ¬ (s.calls k).InProgress := by
      rw [Call.InProgress, hpc]
      exact Bool.false_ne_true
    exact h.update (fun _ j hj _ => hturn.resolve_left hidle j hj) fun r hr => absurd hr (by simp)
  | read k hk now i selected reads hpc hi =>
    have hprogress : (s.calls k).InProgress := by rw [Call.InProgress, hpc]; rfl
    have hselecting : (s.calls k).pc.Selecting := by
      rw [hpc]
      trivial
    have hk' := hsees k hk
    rw [hpc] at hk'
    have hidle := hacc.idle hleak hselecting (h.others hk hprogress) i
    have hnew : UpToDate s.endpoints (reads ++ [((s.endpoints i).selectionState now).1]) := by
      refine List.forall_mem_append.mpr ⟨hk', List.forall_mem_singleton.mpr ?_⟩
      rw [selectionState_eq]
      refine ⟨?_, hidle, by rw [hrouted.index]⟩
      simp [WorkerEndpoint.circuitOpenLocked, hclosed i hi]
    have hafter : (s.goto k (.select now (i + 1)
        (consider selected ((s.endpoints i).selectionState now).1)
        (reads ++ [((s.endpoints i).selectionState now).1]))).InTurn :=
      h.goOn hk hprogress hnew
    exact hafter.atEndpoint (f := fun e => (e.refreshCircuitLocked now).2)
      (refreshCircuitLocked_load _ now).2.2
  | choose k hk now i best reads hpc hi =>
    have hk' := hsees k hk
    rw [hpc] at hk'
    exact h.goOn hk (by rw [Call.InProgress, hpc]; rfl) hk'
  | refuse k hk now i selected reads err hpc =>
    exact h.goOn hk (by rw [Call.InProgress, hpc]; rfl) trivial
  | begin k hk i reads hpc => exact h.begin hrouted hk hpc rfl id
  | measured k hk next hpc =>
    have hk' := hsees k hk
    rw [hpc] at hk'
    exact h.goOn hk (by rw [Call.InProgress, hpc]; rfl) hk'
  | measure k hk op ops next hpc =>
    obtain ⟨hcalls, hstarted⟩ := setMetric_calls s op
    have hset := h.setMetric op
    have hk' := hset.sees k (hstarted ▸ hk)
    rw [hcalls, hpc] at hk'
    exact hset.goOn (hstarted ▸ hk) (by rw [hcalls, Call.InProgress, hpc]; rfl) hk'
  | finish k hk i latency err now next ops hpc =>
    have hk' := hsees k hk
    rw [hpc] at hk'
    have hafter := h.goOn (k := k) hk (by rw [Call.InProgress, hpc]; rfl)
      (f := fun c => { c with finished := c.finished + 1, pc := .metrics ops next }) hk'
    exact hafter.atEndpoint (f := fun e => e.finish cfg latency err now)
      (finish_load cfg _ latency err now).2.2
  | fail k hk err hpc => exact h.goOn hk (by rw [Call.InProgress, hpc]; rfl) trivial
  | flushable k hk i handler hpc hkind =>
    exact h.goOn hk (by rw [Call.InProgress, hpc]; rfl) trivial
  | unflushable k hk i handler hpc hkind =>
    exact h.goOn hk (by rw [Call.InProgress, hpc]; rfl) trivial
  | answer k hk i err latency next hpc hnext =>
    refine h.goOn hk (by rw [Call.InProgress, hpc]; rfl) ?_
    obtain rfl | ⟨e, -, rfl⟩ := hnext <;> trivial
  | opened k hk i latency hpc => exact h.goOn hk (by rw [Call.InProgress, hpc]; rfl) trivial
  | event k hk i handler event latency hpc =>
    exact h.goOn hk (by rw [Call.InProgress, hpc]; rfl) trivial
  | recvError k hk i handler err latency hpc honce =>
    exact h.goOn hk (by rw [Call.InProgress, hpc]; rfl) trivial
  | recvAgain k hk i handler err latency hpc honce =>
    exact h.goOn hk (by rw [Call.InProgress, hpc]; rfl) trivial
  | round k hk i handler h' event effects hpc =>
    exact h.goOn hk (by rw [Call.InProgress, hpc]; rfl) trivial
  | lastRound k hk i handler result writeErr effects hpc hlast =>
    exact h.goOn hk (by rw [Call.InProgress, hpc]; rfl) trivial

theorem newServing_inTurn (size : Nat) (streaming : Nat → Bool) :
    (newServing size streaming).InTurn :=
  ⟨fun _ hj => absurd hj (Nat.not_lt_zero _), fun _ hk => absurd hk (Nat.not_lt_zero _),
    fun _ _ _ _ => Nat.zero_le _⟩

theorem run_routed {size : Nat} {streaming : Nat → Bool} {actions : List Action}
    (h : run (step cfg) (newServing size streaming) actions = some s) : s.Routed :=
  run_invariant (motive := Serving.Routed) h (newServing_routed size streaming)
    fun _ _ _ hs hstep => hs.move (step_move hstep)

/-- Selection refuses exactly when every circuit is open, and finds the one least endpoint
otherwise. Where calls do not overlap, no circuit opens and no handler leaves its stream unread, it
spreads them evenly. -/
theorem selection_least_and_balanced (cfg : Config) (size : Nat) (streaming : Nat → Bool) :
    (∀ actions s, run (step cfg.normalized) (newServing size streaming) actions = some s →
      ∀ now : Int,
        (selectEndpoint s.endpoints s.size now =
            .error (.status .unavailable "no available workers") ↔
          ∀ i < s.size, (s.endpoints i).circuitOpenLocked now = true) ∧
        ((∃ i < s.size, (s.endpoints i).circuitOpenLocked now = false) →
          ∃ i, selectEndpoint s.endpoints s.size now = .ok i ∧ s.Least now i ∧
            ∀ j, s.Least now j → j = i)) ∧
    ∀ actions s, run (step cfg.normalized) (newServing size streaming) actions = some s →
      Along (step cfg.normalized)
        (fun s a => (NotOverlapping s a ∧ NoCircuitOpen s) ∧ KeepsStream s a)
        (newServing size streaming) actions →
      ∀ i < s.size, ∀ j < s.size,
        (s.endpoints i).totalBatches ≤ (s.endpoints j).totalBatches + 1 := by
  refine ⟨fun actions s hrun now => ⟨selectEndpoint_error s now, ?_⟩,
    fun actions s hrun halong => ?_⟩
  · rintro ⟨i, hi⟩
    have hindex := (run_routed hrun).index
    obtain ⟨b, hb, hleast⟩ := selectEndpoint_least hindex hi
    exact ⟨b, hb, hleast, fun j hj => hj.unique hindex hleast⟩
  · have hinvariant : s.InTurn ∧ s.Accounted ∧ s.Routed ∧ ∀ k, ¬ (s.calls k).Leaked := by
      refine run_along (motive := fun s : Serving =>
        s.InTurn ∧ s.Accounted ∧ s.Routed ∧ ∀ k, ¬ (s.calls k).Leaked) hrun halong ?_ ?_
      · exact ⟨newServing_inTurn size streaming,
          ⟨fun k => ⟨rfl, rfl, rfl⟩, fun k _ => rfl, fun i => rfl⟩,
          newServing_routed size streaming, fun k hleak => hleak.2.1 rfl⟩
      · rintro s a t ⟨⟨hturn, hclosed⟩, hkeeps⟩ ⟨h, hacc, hrouted, hleak⟩ hstep
        have hmove := step_move hstep
        exact ⟨h.move hacc hrouted hleak hturn hclosed hmove, hacc.move hmove,
          hrouted.move hmove, fun k => not_leaked_move hacc (hleak k) hkeeps hmove⟩
    exact hinvariant.1.balanced

/-- A batch, a stream that is read to its end and a batch, one after the other on two workers. -/
theorem callsInTurn_balanced :
    let cfg : Config := { promptTokens := fun n => n }
    let batch : Nat → List Action := fun k =>
      .call .batch :: List.replicate 8 (.advance k) ++
        .answer k none 1 :: List.replicate 4 (.advance k)
    let span : Gateway.ActiveSpan := ⟨0, "trace", "span", "", "http.predict.stream"⟩
    let h : StreamHandler :=
      { requestID := "req-1", httpSpan := span, workerSpan := span, backendSpan := span }
    let token : StreamResponse := { id := "req-1", eventType := "token", delta := "hi" }
    let stream : Nat → List Action := fun k =>
      .call (.stream h true) :: List.replicate 8 (.advance k) ++
        [.answer k none 1, .advance k, .recv k (.ok token) 2, .deliver k none,
          .recv k (.error .eof) 3] ++ List.replicate 4 (.advance k) ++ [.deliver k none]
    let actions := batch 0 ++ stream 1 ++ batch 2
    ∃ s, run (step cfg.normalized) (newServing 2 fun _ => true) actions = some s ∧
      (s.endpoints 0).totalBatches = 2 ∧ (s.endpoints 1).totalBatches = 1 ∧
      ∀ i < s.size, ∀ j < s.size,
        (s.endpoints i).totalBatches ≤ (s.endpoints j).totalBatches + 1 := by
  intro cfg batch span h token stream actions
  have htotals : (run (step cfg.normalized) (newServing 2 fun _ => true) actions).map
      (fun s => ((s.endpoints 0).totalBatches, (s.endpoints 1).totalBatches)) = some (2, 1) := by
    decide +kernel
  obtain ⟨s, hrun, hs⟩ := Option.map_eq_some_iff.mp htotals
  obtain ⟨hzero, hone⟩ := Prod.mk.inj hs
  exact ⟨s, hrun, hzero, hone,
    (selection_least_and_balanced cfg 2 fun _ => true).2 actions s hrun (by decide +kernel)⟩

/-- After a stream that its handler has left unread, calls one after the other all go to the other
worker. -/
theorem abandonedStream_unbalances :
    let cfg : Config := { promptTokens := fun n => n }
    let batch : Nat → List Action := fun k =>
      .call .batch :: List.replicate 8 (.advance k) ++
        .answer k none 1 :: List.replicate 4 (.advance k)
    let actions := abandonedStream ++ batch 2 ++ batch 3
    ∃ s, run (step cfg.normalized) (newServing 2 fun _ => true) actions = some s ∧
      Along (step cfg.normalized) (fun s a => NotOverlapping s a ∧ NoCircuitOpen s)
        (newServing 2 fun _ => true) actions ∧
      ¬ ∀ i < s.size, ∀ j < s.size,
        (s.endpoints i).totalBatches ≤ (s.endpoints j).totalBatches + 1 := by
  intro cfg batch actions
  refine ⟨_, rfl, by decide +kernel, fun hbalanced => ?_⟩
  exact absurd (hbalanced 1 (by decide) 0 (by decide)) (by decide +kernel)

end Laminar.Pool
