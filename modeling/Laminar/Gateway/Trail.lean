import Laminar.Gateway.Tracing
import Laminar.Library.Sums

/-! The spans that the batcher makes for one request, from the first to the last: how far they have
come, and what the recorder holds of them beside other spans. -/
namespace Laminar.Gateway
open Laminar.Sums

/-- The spans of a request, outermost first; the first is the handler's. -/
def chainNames : List String :=
  ["http.predict", "batch.queue_wait", "batch.flush", "worker.grpc", "backend.inference"]

def ActiveSpan.record (s : ActiveSpan) (status : String) : TraceSpan :=
  { traceID := s.traceID, spanID := s.spanID, parentSpanID := s.parentID, name := s.name
    status := status }

structure Mark where
  span : ActiveSpan
  status : Option String := none

def Mark.ended (m : Mark) : Bool := m.status.isSome

def Mark.recorded (m : Mark) : Option TraceSpan := m.status.map m.span.record

structure Trail where
  marks : List Mark := []
  named : marks.map (fun m => m.span.name) <+: chainNames.tail := by simp
  linked : marks.IsChain (fun m n => n.span.parentID = m.span.spanID) := by simp

def Trail.recorded (t : Trail) : List TraceSpan := t.marks.filterMap Mark.recorded

def Trail.ended (t : Trail) : List Bool := t.marks.map Mark.ended

theorem recorded_of_ended {t : Trail} (h : ∀ b ∈ t.ended, b = true) :
    t.recorded = t.marks.map fun m => m.span.record (m.status.getD "") := by
  have hall : ∀ m ∈ t.marks, m.recorded = some (m.span.record (m.status.getD "")) := by
    intro m hm
    have hsome := h m.ended (List.mem_map_of_mem hm)
    obtain ⟨status, hstatus⟩ := Option.isSome_iff_exists.mp hsome
    simp [Mark.recorded, hstatus]
  rw [Trail.recorded, List.filterMap_congr hall]
  exact congrFun List.filterMap_eq_map t.marks

theorem prefix_extend {α : Type*} {xs ys : List α} {y : α} (h : xs <+: ys)
    (hy : ys[xs.length]? = some y) : xs ++ [y] <+: ys := by
  obtain ⟨rest, rfl⟩ := h
  cases rest with
  | nil => simp at hy
  | cons z rest =>
    obtain rfl : z = y := by simpa using hy
    exact ⟨rest, by simp⟩

def Trail.add (t : Trail) (m : Mark) (hname : chainNames[t.marks.length + 1]? = some m.span.name)
    (hparent : ∀ last ∈ t.marks.getLast?, m.span.parentID = last.span.spanID) : Trail where
  marks := t.marks ++ [m]
  named := by
    rw [List.map_append, List.map_singleton]
    exact prefix_extend t.named (by rw [List.length_map, List.getElem?_tail]; exact hname)
  linked := by
    refine List.isChain_append.mpr ⟨t.linked, by simp, fun last hlast next hnext => ?_⟩
    obtain rfl : m = next := by simpa using hnext
    exact hparent last hlast

theorem map_set_of_eq {α β : Type*} {f : α → β} {xs : List α} {i : Nat} {x y : α}
    (hx : xs[i]? = some x) (hy : f y = f x) : (xs.set i y).map f = xs.map f := by
  refine List.ext_getElem? fun j => ?_
  simp only [List.getElem?_map, List.getElem?_set]
  split_ifs with hij hlt
  · subst hij
    simp [hx, hy]
  · subst hij
    simp [List.getElem?_eq_none (Nat.not_lt.mp hlt)]
  · rfl

def Trail.close (t : Trail) (i : Nat) (m : Mark) (status : String) (hm : t.marks[i]? = some m) :
    Trail where
  marks := t.marks.set i { m with status := some status }
  named := by
    have hnames := map_set_of_eq (f := fun m : Mark => m.span.name)
      (y := { m with status := some status }) hm rfl
    rw [hnames]
    exact t.named
  linked := by
    have hspans := map_set_of_eq (f := Mark.span) (y := { m with status := some status }) hm rfl
    have hlinked := (List.isChain_map (R := fun s s' : ActiveSpan => s'.parentID = s.spanID)
      Mark.span).mpr t.linked
    rw [← hspans] at hlinked
    exact (List.isChain_map Mark.span).mp hlinked

def TraceRecorder.Stores (r : TraceRecorder) (all : List TraceSpan) : Prop :=
  r.spans = all.drop (all.length - r.capacity)

theorem TraceRecorder.Stores.recordSpan {r : TraceRecorder} {all : List TraceSpan}
    (h : r.Stores all) (span : TraceSpan) : (r.recordSpan span).Stores (all ++ [span]) := by
  have hlength : r.spans.length = all.length - (all.length - r.capacity) := by
    rw [h, List.length_drop]
  have hspans : r.spans ++ [span] = (all ++ [span]).drop (all.length - r.capacity) := by
    rw [h, List.drop_append_of_le_length (Nat.sub_le _ _)]
  simp only [TraceRecorder.Stores, TraceRecorder.recordSpan, List.length_append,
    List.length_singleton, hlength]
  rw [hspans, List.drop_drop]
  congr 1
  omega

structure TraceRecorder.Holds (r : TraceRecorder) (others : Multiset TraceSpan)
    (foreign : Nat → Prop) (trails : Nat → Trail) (n : Nat) : Prop where
  stores : ∃ all, r.Stores all ∧ (all : Multiset TraceSpan) =
    others + ∑ k ∈ Finset.range n, ((trails k).recorded : Multiset TraceSpan)
  drawn : ∀ k, ∀ m ∈ (trails k).marks, m.span.serial < r.draws
  ended : ∀ serial ∈ r.ended, serial < r.draws
  opened : ∀ k, ∀ m ∈ (trails k).marks, m.status = none → m.span.serial ∉ r.ended
  apart : ∀ (j k i i' : Nat) (m m' : Mark), (trails j).marks[i]? = some m →
    (trails k).marks[i']? = some m' → m.span.serial = m'.span.serial → j = k ∧ i = i'
  beyond : ∀ k, n ≤ k → (trails k).marks = []
  foreign : ∀ serial, foreign serial → serial < r.draws ∧ serial ∉ r.ended ∧
    ∀ k, ∀ m ∈ (trails k).marks, m.span.serial ≠ serial

section
variable {r r' : TraceRecorder} {trails : Nat → Trail} {n : Nat} {others : Multiset TraceSpan}
  {foreign : Nat → Prop}

/-- Others draw random ids, and may start a span with the last of them. -/
theorem TraceRecorder.Holds.draw (h : r.Holds others foreign trails n) {draws : Nat}
    (hdraws : r.draws ≤ draws) {foreign' : Nat → Prop}
    (hforeign : ∀ serial, foreign' serial →
      foreign serial ∨ (r.draws ≤ serial ∧ serial < draws)) :
    TraceRecorder.Holds { r with draws := draws } others foreign' trails n := by
  refine ⟨h.stores, fun k m hm => (h.drawn k m hm).trans_le hdraws,
    fun serial hs => (h.ended serial hs).trans_le hdraws, h.opened, h.apart, h.beyond,
    fun serial hs => ?_⟩
  obtain hold | ⟨hnew, hlt⟩ := hforeign serial hs
  · exact ⟨(h.foreign serial hold).1.trans_le hdraws, (h.foreign serial hold).2⟩
  · exact ⟨hlt, fun hs => absurd (h.ended serial hs) (Nat.not_lt.mpr hnew),
      fun k m hm => Nat.ne_of_lt ((h.drawn k m hm).trans_le hnew)⟩

theorem TraceRecorder.Holds.grow (h : r.Holds others foreign trails n) :
    r.Holds others foreign trails (n + 1) := by
  obtain ⟨all, hall, hsum⟩ := h.stores
  refine ⟨⟨all, hall, ?_⟩, h.drawn, h.ended, h.opened, h.apart, fun k hk => h.beyond k (by omega),
    h.foreign⟩
  rw [Finset.sum_range_succ, hsum, Trail.recorded, h.beyond n (Nat.le_refl n)]
  simp

theorem TraceRecorder.Holds.endForeign (h : r.Holds others foreign trails n) {s : ActiveSpan}
    (hs : foreign s.serial) (status : String) {foreign' : Nat → Prop}
    (hforeign : ∀ serial, foreign' serial → foreign serial ∧ serial ≠ s.serial) :
    (r.endSpan s status).Holds (others + {s.record status}) foreign' trails n := by
  obtain ⟨all, hall, hsum⟩ := h.stores
  obtain ⟨hdrawn, hopen, hother⟩ := h.foreign s.serial hs
  have hrecord : r.endSpan s status = TraceRecorder.recordSpan
      { r with ended := s.serial :: r.ended } (s.record status) := if_neg hopen
  rw [hrecord]
  refine ⟨⟨_, TraceRecorder.Stores.recordSpan (r := { r with ended := s.serial :: r.ended })
    hall _, ?_⟩, h.drawn, fun serial hmem => ?_, fun k m hm hnone hmem => ?_, h.apart, h.beyond,
    fun serial hmem => ?_⟩
  · rw [← Multiset.coe_add, hsum, Multiset.coe_singleton, add_right_comm]
  · obtain rfl | hmem := List.mem_cons.mp hmem
    · exact hdrawn
    · exact h.ended serial hmem
  · obtain hsame | hmem := List.mem_cons.mp hmem
    · exact hother k m hm hsame
    · exact h.opened k m hm hnone hmem
  · obtain ⟨hold, hne⟩ := hforeign serial hmem
    obtain ⟨hlt, hnot, hapart⟩ := h.foreign serial hold
    refine ⟨hlt, fun hin => ?_, hapart⟩
    obtain hsame | hin := List.mem_cons.mp hin
    · exact hne hsame
    · exact hnot hin

theorem recorded_add {t t' : Trail} {m : Mark} (ht : t'.marks = t.marks ++ [m]) :
    (t'.recorded : Multiset TraceSpan) = t.recorded + (m.recorded.toList : Multiset TraceSpan) := by
  simp only [Trail.recorded, ht, List.filterMap_append, Multiset.coe_add]
  cases hm : m.recorded <;> simp [hm]

theorem TraceRecorder.Holds.add (h : r.Holds others foreign trails n) {k : Nat} (hk : k < n)
    {t : Trail} {m : Mark}
    (ht : t.marks = (trails k).marks ++ [m]) (hserial : r.draws ≤ m.span.serial)
    (hdraws : m.span.serial < r'.draws) (hended : r'.ended = r.ended)
    (hstores : ∀ all, r.Stores all → r'.Stores (all ++ m.recorded.toList)) :
    r'.Holds others foreign (Function.update trails k t) n := by
  obtain ⟨all, hall, hsum⟩ := h.stores
  have hmarks : ∀ (j i : Nat) (m' : Mark), (Function.update trails k t j).marks[i]? = some m' →
      (trails j).marks[i]? = some m' ∨ (j = k ∧ i = (trails k).marks.length ∧ m' = m) := by
    intro j i m' hm'
    rw [Function.update_apply] at hm'
    split_ifs at hm' with hjk
    · rw [ht, List.getElem?_append] at hm'
      split_ifs at hm' with hlt
      · exact Or.inl (hjk ▸ hm')
      · have hi : i - (trails k).marks.length = 0 := by
          by_contra hne
          rw [List.getElem?_eq_none (by simp; omega)] at hm'
          exact absurd hm' (by simp)
        rw [hi] at hm'
        exact Or.inr ⟨hjk, by omega, (Option.some.inj hm').symm⟩
    · exact Or.inl hm'
  have hmem : ∀ j, ∀ m' ∈ (Function.update trails k t j).marks, m' ∈ (trails j).marks ∨ m' = m := by
    intro j m' hm'
    obtain ⟨i, hi⟩ := List.mem_iff_getElem?.mp hm'
    obtain hold | ⟨-, -, hnew⟩ := hmarks j i m' hi
    · exact Or.inl (List.mem_of_getElem? hold)
    · exact Or.inr hnew
  have hold : ∀ (j i : Nat) (m' : Mark), (trails j).marks[i]? = some m' →
      m'.span.serial < m.span.serial := fun j i m' hm' =>
    (h.drawn j m' (List.mem_of_getElem? hm')).trans_le hserial
  refine ⟨⟨_, hstores all hall, ?_⟩, fun j m' hm' => ?_, fun serial hs => ?_,
    fun j m' hm' hopen => ?_,
    fun j j' i i' m' m'' hm' hm'' hsame => ?_, fun j hj => ?_, fun serial hs => ?_⟩
  · have hgrow := sum_range_grow (fun t : Trail => (t.recorded : Multiset TraceSpan)) n k trails t
      (m.recorded.toList : Multiset TraceSpan) hk (recorded_add ht)
    simp only [Function.update_apply]
    rw [hgrow, ← Multiset.coe_add, hsum, add_assoc]
  · obtain hm' | rfl := hmem j m' hm'
    · exact (h.drawn j m' hm').trans (hserial.trans_lt hdraws)
    · exact hdraws
  · rw [hended] at hs
    exact (h.ended serial hs).trans (hserial.trans_lt hdraws)
  · rw [hended]
    obtain hm' | rfl := hmem j m' hm'
    · exact h.opened j m' hm' hopen
    · exact fun hs => absurd (h.ended _ hs) (Nat.not_lt.mpr hserial)
  · obtain hfirst | ⟨hj, hi, hnew⟩ := hmarks j i m' hm'
    · obtain hsecond | ⟨-, -, hnew'⟩ := hmarks j' i' m'' hm''
      · exact h.apart j j' i i' m' m'' hfirst hsecond hsame
      · exact absurd hsame (Nat.ne_of_lt (hnew' ▸ hold j i m' hfirst))
    · obtain hsecond | ⟨hj', hi', -⟩ := hmarks j' i' m'' hm''
      · exact absurd hsame.symm (Nat.ne_of_lt (hnew ▸ hold j' i' m'' hsecond))
      · exact ⟨hj.trans hj'.symm, hi.trans hi'.symm⟩
  · rw [Function.update_of_ne (by omega)]
    exact h.beyond j hj
  · obtain ⟨hlt, hopen, hother⟩ := h.foreign serial hs
    refine ⟨hlt.trans (hserial.trans_lt hdraws), hended ▸ hopen, fun j m' hm' => ?_⟩
    obtain hm' | rfl := hmem j m' hm'
    · exact hother j m' hm'
    · exact (Nat.ne_of_lt (hlt.trans_le hserial)).symm

theorem filterMap_set {α β : Type*} {f : α → Option β} {xs : List α} {i : Nat} {x y : α} {b : β}
    (hx : xs[i]? = some x) (hnone : f x = none) (hy : f y = some b) :
    ((xs.set i y).filterMap f : Multiset β) = (xs.filterMap f : Multiset β) + {b} := by
  induction xs generalizing i with
  | nil => simp at hx
  | cons z zs ih =>
    cases i with
    | zero =>
      obtain rfl : z = x := by simpa using hx
      rw [List.set_cons_zero, List.filterMap_cons_some hy, List.filterMap_cons_none hnone,
        ← Multiset.cons_coe, Multiset.add_comm, Multiset.singleton_add]
    | succ i =>
      have hi := ih (i := i) (by simpa using hx)
      rw [List.set_cons_succ, List.filterMap_cons, List.filterMap_cons]
      cases f z with
      | none => exact hi
      | some c => rw [← Multiset.cons_coe, ← Multiset.cons_coe, hi, Multiset.cons_add]

theorem TraceRecorder.Holds.close (h : r.Holds others foreign trails n) {k i : Nat}
    (hk : k < n) {m : Mark}
    (hm : (trails k).marks[i]? = some m) (hopen : m.status = none) (status : String) :
    (r.endSpan m.span status).Holds others foreign
      (Function.update trails k ((trails k).close i m status hm)) n := by
  obtain ⟨all, hall, hsum⟩ := h.stores
  have hmem := List.mem_of_getElem? hm
  have hrecord : r.endSpan m.span status = TraceRecorder.recordSpan
      { r with ended := m.span.serial :: r.ended } (m.span.record status) :=
    if_neg (h.opened k m hmem hopen)
  have hmarks : ∀ (j i' : Nat) (m' : Mark),
      (Function.update trails k ((trails k).close i m status hm) j).marks[i']? = some m' →
      ∃ m₀, (trails j).marks[i']? = some m₀ ∧ m'.span = m₀.span ∧
        (m'.status = none → m' = m₀ ∧ (j = k → i' ≠ i)) := by
    intro j i' m' hm'
    rw [Function.update_apply] at hm'
    split_ifs at hm' with hjk
    · subst hjk
      simp only [Trail.close, List.getElem?_set] at hm'
      split_ifs at hm' with hii
      · obtain rfl := Option.some.inj hm'
        exact ⟨m, hii ▸ hm, rfl, by simp⟩
      · exact ⟨m', hm', rfl, fun _ => ⟨rfl, fun _ => Ne.symm hii⟩⟩
    · exact ⟨m', hm', rfl, fun _ => ⟨rfl, fun hj => absurd hj hjk⟩⟩
  rw [hrecord]
  refine ⟨⟨_, TraceRecorder.Stores.recordSpan (r := { r with ended := m.span.serial :: r.ended })
    hall _, ?_⟩, fun j m' hm' => ?_, fun serial hs => ?_, fun j m' hm' hnone => ?_,
    fun j j' i' i'' m' m'' hm' hm'' hsame => ?_, fun j hj => ?_, fun serial hs => ?_⟩
  · have hrecorded : (((trails k).close i m status hm).recorded : Multiset TraceSpan) =
        (trails k).recorded + {m.span.record status} :=
      filterMap_set (f := Mark.recorded) hm (by simp [Mark.recorded, hopen]) rfl
    have hgrow := sum_range_grow (fun t : Trail => (t.recorded : Multiset TraceSpan)) n k trails _
      _ hk hrecorded
    simp only [Function.update_apply]
    rw [hgrow, ← Multiset.coe_add, hsum, Multiset.coe_singleton, add_assoc]
  · obtain ⟨i', hi'⟩ := List.mem_iff_getElem?.mp hm'
    obtain ⟨m₀, hm₀, hspan, -⟩ := hmarks j i' m' hi'
    rw [hspan]
    exact h.drawn j m₀ (List.mem_of_getElem? hm₀)
  · obtain rfl | hs := List.mem_cons.mp hs
    · exact h.drawn k m hmem
    · exact h.ended serial hs
  · obtain ⟨i', hi'⟩ := List.mem_iff_getElem?.mp hm'
    obtain ⟨m₀, hm₀, -, hold⟩ := hmarks j i' m' hi'
    obtain ⟨rfl, hne⟩ := hold hnone
    refine fun hs => ?_
    obtain hsame | hs := List.mem_cons.mp hs
    · obtain ⟨hjk, hii⟩ := h.apart j k i' i m' m hm₀ hm hsame
      exact hne hjk hii
    · exact h.opened j m' (List.mem_of_getElem? hm₀) hnone hs
  · obtain ⟨m₀, hm₀, hspan, -⟩ := hmarks j i' m' hm'
    obtain ⟨m₁, hm₁, hspan', -⟩ := hmarks j' i'' m'' hm''
    rw [hspan, hspan'] at hsame
    exact h.apart j j' i' i'' m₀ m₁ hm₀ hm₁ hsame
  · rw [Function.update_of_ne (by omega)]
    exact h.beyond j hj
  · obtain ⟨hlt, hnot, hother⟩ := h.foreign serial hs
    refine ⟨hlt, fun hin => ?_, fun j m' hm' => ?_⟩
    · obtain hsame | hin := List.mem_cons.mp hin
      · exact hother k m hmem hsame.symm
      · exact hnot hin
    · obtain ⟨i', hi'⟩ := List.mem_iff_getElem?.mp hm'
      obtain ⟨m₀, hm₀, hspan, -⟩ := hmarks j i' m' hi'
      rw [hspan]
      exact hother j m₀ (List.mem_of_getElem? hm₀)

end

end Laminar.Gateway
