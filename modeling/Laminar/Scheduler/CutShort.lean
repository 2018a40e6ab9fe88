import Laminar.Scheduler.Lifecycle

/-! A run under some polls next to the run that no poll cuts short. -/
namespace Laminar.Scheduler
variable {config : ContinuousBatcherConfig} {requests : List SequenceRequest}
  {isCancelled : Nat → Bool} {n N : Nat}
  {out whole : Machine × List SchedulerStep × ContinuousBatchingStats}

theorem Ended.steps_length (h : Ended config requests isCancelled n out) :
    (finish out).steps.length = n := by
  rw [finish, h.steps, List.length_map, List.length_range]

theorem Ended.results_length (h : Ended config requests isCancelled n out) :
    (finish out).results.length = requests.length := by
  obtain ⟨ha, hlength⟩ := h.aligned
  exact ha.length.trans hlength

/-- A loop that ends with no sequence left went through the steps of the whole run. -/
theorem Ended.same (h : Ended config requests isCancelled n out)
    (hwhole : Ended config requests (fun _ => false) N whole)
    (hidle : (machineAt config requests n).unfinishedCount = 0)
    (hout : out.1 = machineAt config requests n) : n = N ∧ out = whole := by
  obtain ⟨hidle', hout'⟩ := hwhole.idle
  have hn : n = N := by
    rcases Nat.lt_trichotomy n N with hlt | heq | hlt
    · have hbusy := (hwhole.polls n hlt).2
      omega
    · exact heq
    · have hbusy := (h.polls N hlt).2
      omega
  subst hn
  have hsteps : out.2.1 = whole.2.1 := by rw [h.steps, hwhole.steps]
  have hstats : out.2.2 = whole.2.2 := by rw [h.stats, hwhole.stats, hsteps]
  exact ⟨rfl, Prod.ext (by rw [hout, hout']) (Prod.ext hsteps hstats)⟩

theorem Ended.none_cancelled (h : Ended config requests (fun _ => false) N whole)
    {r : SequenceResult} (hr : r ∈ (finish whole).results) : r.status ≠ .cancelled := by
  obtain ⟨i, hi, hri⟩ := List.getElem_of_mem hr
  have hlt : i < requests.length := by rwa [h.results_length] at hi
  obtain ⟨s, r', hslot, -, -, hcancel⟩ := h.settled (List.getElem?_eq_getElem hlt)
  have hget : (finish whole).results[i]? = some r := by rw [List.getElem?_eq_getElem hi, hri]
  obtain rfl := Option.some.inj (hget.symm.trans hslot.result)
  exact fun hc => Bool.false_ne_true (hcancel hc)

/-- A poll that answers true leaves a cancelled sequence behind. -/
theorem Ended.some_cancelled (h : Ended config requests isCancelled n out)
    (hbusy : 0 < (machineAt config requests n).unfinishedCount) :
    ∃ r ∈ (finish out).results, r.status = .cancelled := by
  obtain ⟨s, hs, hd⟩ := List.countP_pos_iff.mp hbusy
  obtain ⟨i, hi⟩ := List.mem_iff_getElem?.mp hs
  obtain ⟨ha, -⟩ := machineAt_tracked config requests n
  obtain ⟨r, hslot⟩ := ha.slot hi
  have hd : s.done = false := by simpa using hd
  obtain ⟨r', hslot', ⟨hd', -⟩ | ⟨-, -, rfl⟩⟩ := h.slot hslot
  · exact absurd (hd.symm.trans hd') Bool.false_ne_true
  · exact ⟨_, List.mem_of_getElem? hslot'.result, rfl⟩

/-- A run is the whole run, or a poll before its end cuts it short. -/
theorem Ended.whole_or_cut (h : Ended config requests isCancelled n out)
    (hwhole : Ended config requests (fun _ => false) N whole) :
    (n = N ∧ out = whole ∧ ∀ k < N, isCancelled k = false) ∨
      (n < N ∧ isCancelled n = true ∧ ∃ r ∈ (finish out).results, r.status = .cancelled) := by
  obtain ⟨hidle, hout⟩ | ⟨hbusy, hpoll, -⟩ := h.last
  · obtain ⟨rfl, rfl⟩ := h.same hwhole hidle hout
    exact Or.inl ⟨rfl, rfl, fun k hk => (h.polls k hk).1⟩
  · refine Or.inr ⟨?_, hpoll, h.some_cancelled hbusy⟩
    obtain ⟨hidle, -⟩ := hwhole.idle
    rcases Nat.lt_trichotomy n N with hlt | rfl | hlt
    · exact hlt
    · omega
    · have hbusy' := (h.polls N hlt).2
      omega

end Laminar.Scheduler
