import Laminar.Llama.Http

/-! The state of the streaming client after some bytes, computed from the bytes alone. -/
namespace Laminar.Llama
open Laminar.Lines
variable {σ : Type}

/-- `run body` is what a callback makes of a body fed to it in pieces, however it is cut. -/
structure Feeds (onBody : Bytes → σ → Bool × σ) (run : Bytes → Bool × σ) : Prop where
  start : (run []).1 = true
  before : ∀ seen bytes, (run (seen ++ bytes)).1 = true → (run seen).1 = true
  accepts : ∀ seen bytes, (run seen).1 = true →
    (onBody bytes (run seen).2).1 = (run (seen ++ bytes)).1
  state : ∀ seen bytes, (run seen).1 = true → (run (seen ++ bytes)).1 = true →
    (onBody bytes (run seen).2).2 = (run (seen ++ bytes)).2

def absorb (run : Bytes → Bool × σ) (micros : Int) (seen : Bytes) : StreamRead σ :=
  match find headerEnd seen with
  | none =>
    { buffered := seen, response := { firstResponseByteMicros := micros }, sink := (run []).2 }
  | some header =>
    let ok := success (statusOf seen)
    let body := seen.drop (header + 4)
    { headersParsed := true
      response :=
        { ok := ok, statusCode := statusOf seen, firstResponseByteMicros := micros
          body := if ok then [] else body }
      sink := if ok then (run body).2 else (run []).2 }

def Accepted (run : Bytes → Bool × σ) (seen : Bytes) : Prop :=
  ∀ header, find headerEnd seen = some header → success (statusOf seen) = true →
    (run (seen.drop (header + 4))).1 = true

/-- Neither limit of the streaming client is passed. -/
structure Fits (seen : Bytes) : Prop where
  header : find headerEnd seen = none → seen.length ≤ 64 * 1024
  body : ∀ header, find headerEnd seen = some header → success (statusOf seen) = false →
    (seen.drop (header + 4)).length ≤ 1024 * 1024

def FitsAll : Bytes → List Read → Prop
  | _, [] => True
  | seen, r :: rest => Fits (seen ++ r.bytes) ∧ FitsAll (seen ++ r.bytes) rest

theorem drop_header {seen : Bytes} {header : Nat} (h : find headerEnd seen = some header)
    (bytes : Bytes) :
    (seen ++ bytes).drop (header + 4) = seen.drop (header + 4) ++ bytes := by
  have hle := find_le headerEnd seen header h
  have hlen : headerEnd.length = 4 := rfl
  exact List.drop_append_of_le_length (by omega)

/-- The status line lies within the header, so further bytes do not change it. -/
theorem statusOf_append {seen : Bytes} {header : Nat} (h : find headerEnd seen = some header)
    (bytes : Bytes) : statusOf (seen ++ bytes) = statusOf seen := by
  obtain ⟨i, -, hi⟩ := find_prefix (text "\r\n") headerEnd seen ⟨text "\r\n", rfl⟩ header h
  have hle := find_le _ _ _ hi
  have hi' := find_append (text "\r\n") seen bytes i hi
  unfold statusOf
  rw [hi, hi', Option.getD_some, Option.getD_some, List.take_append_of_le_length (by omega)]

theorem Accepted.before {onBody : Bytes → σ → Bool × σ} {run : Bytes → Bool × σ}
    (hf : Feeds onBody run) {seen bytes : Bytes} (h : Accepted run (seen ++ bytes)) :
    Accepted run seen := by
  intro header hh hs
  have ha := h header (find_append _ _ _ _ hh) (by rw [statusOf_append hh]; exact hs)
  rw [drop_header hh] at ha
  exact hf.before _ _ ha

theorem absorb_none {run : Bytes → Bool × σ} {seen : Bytes} (micros : Int)
    (h : find headerEnd seen = none) :
    absorb run micros seen =
      { buffered := seen, response := { firstResponseByteMicros := micros }
        sink := (run []).2 } := by
  simp only [absorb, h]

theorem absorb_some {run : Bytes → Bool × σ} {seen : Bytes} {header : Nat} (micros : Int)
    (h : find headerEnd seen = some header) :
    absorb run micros seen =
      { headersParsed := true
        response :=
          { ok := success (statusOf seen), statusCode := statusOf seen
            firstResponseByteMicros := micros
            body := if success (statusOf seen) then [] else seen.drop (header + 4) }
        sink := if success (statusOf seen) then (run (seen.drop (header + 4))).2
          else (run []).2 } := by
  simp only [absorb, h]

theorem receive_absorb {onBody : Bytes → σ → Bool × σ} {run : Bytes → Bool × σ}
    (hf : Feeds onBody run) {seen bytes : Bytes} (micros : Int)
    (hacc : Accepted run (seen ++ bytes)) (hfit : Fits (seen ++ bytes)) :
    (absorb run micros seen).receive onBody bytes = (true, absorb run micros (seen ++ bytes)) := by
  cases hs : find headerEnd seen with
  | some header =>
    have hs' := find_append headerEnd seen bytes header hs
    have hbody := drop_header hs bytes
    have hstatus := statusOf_append hs bytes
    rw [absorb_some micros hs, absorb_some micros hs', hstatus, hbody]
    unfold StreamRead.receive
    by_cases hok : success (statusOf seen) = true
    · have hrun := hacc header hs' (by rw [hstatus]; exact hok)
      rw [hbody] at hrun
      have hbefore := hf.before _ _ hrun
      simp only [hok, Bool.not_true, Bool.false_eq_true, if_false, if_true, StreamRead.handOn,
        hf.accepts _ _ hbefore, hf.state _ _ hbefore hrun, hrun]
    · have hlen := hfit.body header hs' (by rw [hstatus]; simpa using hok)
      rw [hbody] at hlen
      simp only [hok, Bool.not_true, Bool.false_eq_true, if_false, gt_iff_lt,
        if_neg (Nat.not_lt.mpr hlen)]
  | none =>
    rw [absorb_none micros hs]
    unfold StreamRead.receive
    cases hs' : find headerEnd (seen ++ bytes) with
    | none =>
      have hlen := hfit.header hs'
      simp only [hs', Bool.not_false, if_true, gt_iff_lt, if_neg (Nat.not_lt.mpr hlen),
        absorb_none micros hs']
    | some header =>
      rw [absorb_some micros hs']
      by_cases hpiece : (seen ++ bytes).drop (header + 4) = []
      · simp [hs', hpiece]
      by_cases hok : success (statusOf (seen ++ bytes)) = true
      · have hrun := hacc header hs' hok
        have haccepts := hf.accepts [] ((seen ++ bytes).drop (header + 4)) hf.start
        have hstate := hf.state [] ((seen ++ bytes).drop (header + 4)) hf.start hrun
        simp only [List.nil_append] at haccepts hstate
        simp only [hs', Bool.not_false, if_true, if_neg hpiece, hok, StreamRead.handOn, haccepts,
          hstate, hrun]
      · simp [hs', hpiece, hok]

theorem absorb_timed (run : Bytes → Bool × σ) (c : Connection) (micros : Int) (seen : Bytes) :
    ({ absorb run micros seen with
      response := (absorb run micros seen).response.timed c } : StreamRead σ) =
      absorb run (if micros < 0 then c.firstByteMicros else micros) seen := by
  cases hs : find headerEnd seen with
  | none => simp [absorb_none _ hs, HttpResponse.timed]
  | some header => simp [absorb_some _ hs, HttpResponse.timed]

theorem fitsAll_of_take (reads : List Read) (seen : Bytes)
    (h : ∀ n, Fits (seen ++ received (reads.take n))) : FitsAll seen reads := by
  induction reads generalizing seen with
  | nil => trivial
  | cons r rest ih =>
    refine ⟨by simpa [received] using h 1, ih _ fun n => ?_⟩
    simpa [received] using h (n + 1)

/-- The streaming client reads to the end of the script, whatever the chunks. -/
theorem streamLoop_absorb {onBody : Bytes → σ → Bool × σ} {run : Bytes → Bool × σ}
    (hf : Feeds onBody run) (isCancelled : Nat → Bool) (c : Connection) (reads : List Read)
    (seen : Bytes) (micros : Int) (polls : Nat)
    (hquiet : ∀ k ≤ reads.length, isCancelled (polls + k) = false)
    (hacc : Accepted run (seen ++ received reads)) (hfit : FitsAll seen reads) :
    ∃ micros', streamLoop isCancelled onBody c reads (absorb run micros seen) polls =
      (c.closed,
        let r := absorb run micros' (seen ++ received reads)
        if c.closed then r else { r with response := { r.response with error := readError } },
        polls + reads.length + 1) := by
  induction reads generalizing seen micros polls with
  | nil =>
    have hpoll := hquiet 0 (Nat.le_refl 0)
    refine ⟨micros, ?_⟩
    simp only [Nat.add_zero] at hpoll
    cases hc : c.closed <;> simp [streamLoop, hpoll, hc, received]
  | cons read rest ih =>
    have hpoll := hquiet 0 (Nat.zero_le _)
    simp only [Nat.add_zero] at hpoll
    have hrest : ∀ k ≤ rest.length, isCancelled (polls + 1 + k) = false := by
      intro k hk
      rw [Nat.add_assoc, Nat.add_comm 1 k]
      exact hquiet (k + 1) (by simpa using hk)
    have hsplit : seen ++ received (read :: rest) = (seen ++ read.bytes) ++ received rest := by
      simp [received]
    rw [hsplit] at hacc ⊢
    obtain ⟨hfit1, hfit2⟩ := hfit
    have hcount : polls + (read :: rest).length + 1 = polls + 1 + rest.length + 1 := by
      simp only [List.length_cons]
      omega
    rw [hcount]
    cases read with
    | interrupted =>
      simp only [Read.bytes, List.append_nil] at hacc hfit2 ⊢
      simp only [streamLoop, hpoll, Bool.false_eq_true, if_false]
      exact ih seen micros (polls + 1) hrest hacc hfit2
    | data first bytes =>
      simp only [streamLoop, hpoll, Bool.false_eq_true, if_false, absorb_timed, Read.bytes]
        at hacc ⊢
      rw [receive_absorb hf _ (hacc.before hf) hfit1]
      exact ih _ _ (polls + 1) hrest hacc hfit2

end Laminar.Llama
