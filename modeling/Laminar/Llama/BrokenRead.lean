import Laminar.Llama.Incremental

/-! Which responses of the streaming client pass for a success when the connection breaks. -/
namespace Laminar.Llama
open Laminar.Lines
variable {σ : Type} {onBody : Bytes → σ → Bool × σ} {run : Bytes → Bool × σ}

def HttpResponse.Failed (r : HttpResponse) : Prop := r.error = cancelled ∨ r.ok = false

/-- When the client stops at a read, its response is no success. -/
theorem receive_stops (micros : Int) (seen bytes : Bytes)
    (h : ((absorb run micros seen).receive onBody bytes).1 = false) :
    ((absorb run micros seen).receive onBody bytes).2.response.Failed := by
  revert h
  cases hs : find headerEnd seen with
  | none =>
    rw [absorb_none micros hs]
    unfold StreamRead.receive
    cases hs' : find headerEnd (seen ++ bytes) with
    | none =>
      simp only [hs', Bool.not_false, if_true]
      split_ifs
      · exact fun _ => Or.inr rfl
      · simp
    | some header =>
      simp only [hs', Bool.not_false, if_true, StreamRead.handOn]
      split_ifs
      · simp
      · simp
      · exact fun _ => Or.inl rfl
      · simp
  | some header =>
    rw [absorb_some micros hs]
    unfold StreamRead.receive
    by_cases hok : success (statusOf seen) = true
    · simp only [hok, Bool.not_true, Bool.false_eq_true, if_false, if_true, StreamRead.handOn]
      split_ifs
      · simp
      · exact fun _ => Or.inl rfl
    · simp only [hok, Bool.not_true, Bool.false_eq_true, if_false]
      split_ifs
      · exact fun _ => Or.inr (by simp)
      · simp

/-- When the client goes on, the header limit held and the callback took its piece. -/
theorem receive_goes_on (hf : Feeds onBody run) (micros : Int) {seen bytes : Bytes}
    (hacc : Accepted run seen) (h : ((absorb run micros seen).receive onBody bytes).1 = true) :
    Accepted run (seen ++ bytes) ∧
      (find headerEnd (seen ++ bytes) = none → (seen ++ bytes).length ≤ 64 * 1024) := by
  revert h
  cases hs : find headerEnd seen with
  | none =>
    rw [absorb_none micros hs]
    unfold StreamRead.receive
    cases hs' : find headerEnd (seen ++ bytes) with
    | none =>
      simp only [hs', Bool.not_false, if_true]
      split_ifs with hlong
      · simp
      · exact fun _ => ⟨fun header hh => absurd hh (by simp [hs']), fun _ => by omega⟩
    | some header =>
      intro h
      refine ⟨fun header' hh hok => ?_, fun hnone => absurd hnone (by simp)⟩
      obtain rfl := Option.some.inj (hs'.symm.trans hh)
      by_cases hpiece : (seen ++ bytes).drop (header + 4) = []
      · rw [hpiece]
        exact hf.start
      have haccepts := hf.accepts [] ((seen ++ bytes).drop (header + 4)) hf.start
      rw [List.nil_append] at haccepts
      rw [← haccepts]
      simp only [hs', Bool.not_false, if_true, if_neg hpiece, hok, StreamRead.handOn] at h
      by_contra hrefused
      simp [hrefused] at h
  | some header =>
    rw [absorb_some micros hs]
    have hs' := find_append headerEnd seen bytes header hs
    intro h
    refine ⟨fun header' hh hok => ?_, fun hnone => absurd hnone (by simp [hs'])⟩
    obtain rfl := Option.some.inj (hs'.symm.trans hh)
    rw [statusOf_append hs bytes] at hok
    have hbefore := hacc header hs hok
    rw [drop_header hs bytes, ← hf.accepts _ _ hbefore]
    unfold StreamRead.receive at h
    simp only [hok, Bool.not_true, Bool.false_eq_true, if_false, if_true, StreamRead.handOn] at h
    by_contra hrefused
    simp [hrefused] at h

variable (onBody run) in
/-- Once the headers are there, the response carries their status. -/
theorem receive_found (micros : Int) {seen bytes : Bytes} {header : Nat}
    (h : find headerEnd (seen ++ bytes) = some header) :
    ((absorb run micros seen).receive onBody bytes).2.headersParsed = true ∧
      ((absorb run micros seen).receive onBody bytes).2.response.ok =
        success (statusOf (seen ++ bytes)) := by
  cases hs : find headerEnd seen with
  | none =>
    rw [absorb_none micros hs]
    unfold StreamRead.receive
    simp only [h, Bool.not_false, if_true, StreamRead.handOn]
    split_ifs <;> exact ⟨rfl, rfl⟩
  | some header' =>
    rw [absorb_some micros hs, statusOf_append hs bytes]
    unfold StreamRead.receive
    simp only [Bool.not_true, Bool.false_eq_true, if_false, StreamRead.handOn]
    split_ifs <;> exact ⟨rfl, rfl⟩

/-- Once the headers carry a failure status the response stays a failure. -/
theorem streamLoop_failed (isCancelled : Nat → Bool) (c : Connection) (reads : List Read)
    (r : StreamRead σ) (polls : Nat) (hp : r.headersParsed = true) (hok : r.response.ok = false) :
    (streamLoop isCancelled onBody c reads r polls).2.1.response.ok = false := by
  induction reads generalizing r polls with
  | nil =>
    simp only [streamLoop]
    split_ifs <;> exact hok
  | cons read rest ih =>
    cases read with
    | interrupted =>
      simp only [streamLoop]
      split_ifs
      · exact hok
      · exact ih r _ hp hok
    | data first bytes =>
      have hstep : ∀ t : StreamRead σ, t.headersParsed = true → t.response.ok = false →
          (t.receive onBody (first :: bytes)).2.headersParsed = true ∧
            (t.receive onBody (first :: bytes)).2.response.ok = false := by
        intro t htp htok
        unfold StreamRead.receive
        simp only [htp, htok, Bool.not_true, Bool.false_eq_true, if_false]
        split_ifs <;> exact ⟨rfl, rfl⟩
      obtain ⟨hp', hok'⟩ := hstep { r with response := r.response.timed c } hp hok
      simp only [streamLoop]
      split_ifs
      · exact hok
      · exact ih _ _ hp' hok'
      · exact hok'

/-- What the callback keeps true of its state until it refuses is true when the reading ends, unless
the reading ends with the refusal. -/
theorem streamLoop_kept {p q : σ → Prop}
    (hkeep : ∀ piece s, p s → ((onBody piece s).1 = true ∧ p (onBody piece s).2) ∨
      ((onBody piece s).1 = false ∧ q (onBody piece s).2))
    (isCancelled : Nat → Bool) (c : Connection) (reads : List Read) (r : StreamRead σ) (polls : Nat)
    (h : p r.sink) :
    p (streamLoop isCancelled onBody c reads r polls).2.1.sink ∨
      (q (streamLoop isCancelled onBody c reads r polls).2.1.sink ∧
        (streamLoop isCancelled onBody c reads r polls).1 = false ∧
        (streamLoop isCancelled onBody c reads r polls).2.1.response.error = cancelled) := by
  induction reads generalizing r polls with
  | nil =>
    left
    simp only [streamLoop]
    split_ifs <;> exact h
  | cons read rest ih =>
    cases read with
    | interrupted =>
      simp only [streamLoop]
      split_ifs
      · exact Or.inl h
      · exact ih r _ h
    | data first bytes =>
      have hhand : ∀ (t : StreamRead σ) piece, p t.sink →
          p (t.handOn onBody piece).2.sink ∨ (q (t.handOn onBody piece).2.sink ∧
            (t.handOn onBody piece).1 = false ∧
            (t.handOn onBody piece).2.response.error = cancelled) := by
        intro t piece ht
        unfold StreamRead.handOn
        rcases hkeep piece t.sink ht with ⟨hok, hs⟩ | ⟨hno, hs⟩
        · simp only [hok, if_true]
          exact Or.inl hs
        · simp only [hno, Bool.false_eq_true, if_false]
          exact Or.inr ⟨hs, trivial, trivial⟩
      have hstep : ∀ t : StreamRead σ, p t.sink →
          p (t.receive onBody (first :: bytes)).2.sink ∨
            (q (t.receive onBody (first :: bytes)).2.sink ∧
              (t.receive onBody (first :: bytes)).1 = false ∧
              (t.receive onBody (first :: bytes)).2.response.error = cancelled) := by
        intro t ht
        unfold StreamRead.receive
        cases t.headersParsed with
        | true =>
          simp only [Bool.not_true, Bool.false_eq_true, if_false]
          split_ifs
          · exact hhand _ _ ht
          · exact Or.inl ht
          · exact Or.inl ht
        | false =>
          simp only [Bool.not_false, if_true]
          cases find headerEnd (t.buffered ++ first :: bytes) with
          | none =>
            simp only
            split_ifs <;> exact Or.inl ht
          | some header =>
            simp only
            split_ifs
            · exact Or.inl ht
            · exact hhand _ _ ht
            · exact Or.inl ht
      have hread := hstep { r with response := r.response.timed c } h
      simp only [streamLoop]
      split_ifs with hcancel hmore
      · exact Or.inl h
      · refine ih _ _ (hread.resolve_right fun hrefused => ?_)
        exact Bool.false_ne_true (hrefused.2.1.symm.trans hmore)
      · exact hread.imp_right fun hrefused => ⟨hrefused.1, rfl, hrefused.2.2⟩

theorem streamLoop_sink {motive : σ → Prop}
    (hkeep : ∀ piece s, motive s → motive (onBody piece s).2)
    (isCancelled : Nat → Bool) (c : Connection) (reads : List Read) (r : StreamRead σ) (polls : Nat)
    (h : motive r.sink) : motive (streamLoop isCancelled onBody c reads r polls).2.1.sink := by
  refine (streamLoop_kept (p := motive) (q := motive) (fun piece s hs => ?_) isCancelled c reads r
    polls h).elim id And.left
  cases hok : (onBody piece s).1 with
  | true => exact Or.inl ⟨rfl, hkeep piece s hs⟩
  | false => exact Or.inr ⟨rfl, hkeep piece s hs⟩

/-- A broken connection whose response still passes for a success was read to the break. -/
theorem streamLoop_passed (hf : Feeds onBody run) (isCancelled : Nat → Bool) (c : Connection)
    (hc : c.closed = false) (reads : List Read) (seen : Bytes) (micros : Int) (polls : Nat)
    (hacc : Accepted run seen)
    (hseen : find headerEnd seen = none → seen.length ≤ 64 * 1024)
    (hpass : ¬ (streamLoop isCancelled onBody c reads (absorb run micros seen)
      polls).2.1.response.Failed) :
    (∀ k ≤ reads.length, isCancelled (polls + k) = false) ∧
      (∀ n, find headerEnd (seen ++ received (reads.take n)) = none →
        (seen ++ received (reads.take n)).length ≤ 64 * 1024) ∧
      (∃ header, find headerEnd (seen ++ received reads) = some header) ∧
      success (statusOf (seen ++ received reads)) = true ∧
      Accepted run (seen ++ received reads) := by
  induction reads generalizing seen micros polls with
  | nil =>
    simp only [streamLoop, hc, Bool.false_eq_true, if_false] at hpass
    split_ifs at hpass with hpoll
    · exact absurd (Or.inl rfl) hpass
    have hnil : received [] = [] := rfl
    simp only [hnil, List.append_nil, List.take_nil]
    cases hs : find headerEnd seen with
    | none => exact absurd (Or.inr (by simp [absorb_none _ hs])) hpass
    | some header =>
      refine ⟨fun k hk => ?_, fun _ hnone => absurd hnone (by simp), ⟨header, rfl⟩, ?_, hacc⟩
      · obtain rfl : k = 0 := Nat.le_zero.mp hk
        simpa using hpoll
      · by_contra hbad
        exact hpass (Or.inr (by simpa [absorb_some _ hs] using hbad))
  | cons read rest ih =>
    have hsplit : ∀ rs, seen ++ received (read :: rs) = (seen ++ read.bytes) ++ received rs := by
      simp [received]
    -- what the later reads give, shifted by this one
    have hshift : ∀ micros', isCancelled polls = false → Accepted run (seen ++ read.bytes) →
        (find headerEnd (seen ++ read.bytes) = none →
          (seen ++ read.bytes).length ≤ 64 * 1024) →
        ¬ (streamLoop isCancelled onBody c rest (absorb run micros' (seen ++ read.bytes))
          (polls + 1)).2.1.response.Failed →
        (∀ k ≤ (read :: rest).length, isCancelled (polls + k) = false) ∧
          (∀ n, find headerEnd (seen ++ received ((read :: rest).take n)) = none →
            (seen ++ received ((read :: rest).take n)).length ≤ 64 * 1024) ∧
          (∃ header, find headerEnd (seen ++ received (read :: rest)) = some header) ∧
          success (statusOf (seen ++ received (read :: rest))) = true ∧
          Accepted run (seen ++ received (read :: rest)) := by
      intro micros' hpoll hacc' hseen' hpass'
      obtain ⟨hquiet, hlimit, hrest⟩ := ih _ micros' (polls + 1) hacc' hseen' hpass'
      rw [hsplit]
      refine ⟨fun k hk => ?_, fun n hn => ?_, hrest⟩
      · cases k with
        | zero => exact hpoll
        | succ k =>
          have hq := hquiet k (by simpa using hk)
          rwa [show polls + (k + 1) = polls + 1 + k by omega]
      · cases n with
        | zero => simpa [received] using hseen (by simpa [received] using hn)
        | succ n =>
          rw [List.take_succ_cons, hsplit] at hn ⊢
          exact hlimit n hn
    cases hpoll : isCancelled polls with
    | true =>
      cases read <;> simp only [streamLoop, hpoll, if_true] at hpass <;>
        exact absurd (Or.inl rfl) hpass
    | false =>
      cases read with
      | interrupted =>
        simp only [streamLoop, hpoll, Bool.false_eq_true, if_false] at hpass
        refine hshift micros hpoll ?_ ?_ ?_ <;> simpa [Read.bytes]
      | data first bytes =>
        simp only [streamLoop, hpoll, Bool.false_eq_true, if_false, absorb_timed] at hpass
        set micros' := if micros < 0 then c.firstByteMicros else micros
        cases hstep : ((absorb run micros' seen).receive onBody (first :: bytes)).1 with
        | false =>
          rw [hstep] at hpass
          exact absurd (receive_stops micros' seen _ hstep) hpass
        | true =>
          rw [hstep] at hpass
          simp only [if_true] at hpass
          obtain ⟨hacc', hseen'⟩ := receive_goes_on hf micros' hacc hstep
          by_cases hbad : ∃ header, find headerEnd (seen ++ first :: bytes) = some header ∧
              success (statusOf (seen ++ first :: bytes)) = false
          · obtain ⟨header, hfind, hstatus⟩ := hbad
            obtain ⟨hparsed, hok⟩ := receive_found onBody run micros' hfind
            rw [hstatus] at hok
            exact absurd (Or.inr (streamLoop_failed isCancelled c rest _ _ hparsed hok)) hpass
          · have hfit : Fits (seen ++ first :: bytes) :=
              ⟨hseen', fun header hfind hstatus => absurd ⟨header, hfind, hstatus⟩ hbad⟩
            rw [receive_absorb hf micros' hacc' hfit] at hpass
            exact hshift micros' hpoll hacc' hseen' hpass

end Laminar.Llama
