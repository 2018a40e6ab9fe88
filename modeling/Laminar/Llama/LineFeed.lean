import Laminar.Llama.Incremental
import Laminar.Llama.Server

/-! The body of a streamed answer line by line: how it is cut into reads makes no difference. -/
namespace Laminar.Llama
open Laminar.Lines

def StreamState.withPending (s : StreamState) (pendingLine : Bytes) : StreamState :=
  { s with pendingLine := pendingLine }

@[simp] theorem withPending_withPending (s : StreamState) (p p' : Bytes) :
    (s.withPending p).withPending p' = s.withPending p' := rfl

section
variable (accepts : List BackendStreamEvent → Bool)

/-- Consuming a line neither reads nor writes the pending bytes. -/
theorem consumeLine_pending (line : Bytes) (s : StreamState) (p : Bytes) :
    consumeLine accepts line (s.withPending p) =
      ((consumeLine accepts line s).1, (consumeLine accepts line s).2.withPending p) := by
  unfold consumeLine
  simp only [StreamState.withPending, StreamState.emit]
  split_ifs <;> rfl

theorem foldLines_pending (lines : List Bytes) (s : StreamState) (p : Bytes) :
    foldUntil (consumeLine accepts) lines (s.withPending p) =
      ((foldUntil (consumeLine accepts) lines s).1,
        (foldUntil (consumeLine accepts) lines s).2.withPending p) := by
  induction lines generalizing s with
  | nil => rfl
  | cons line lines ih =>
    simp only [foldUntil, consumeLine_pending, ih]
    split_ifs <;> rfl

/-- The loop of `on_body` consumes the complete lines and keeps the unfinished one. -/
theorem drainLines_split (rounds : Nat) (s : StreamState) (h : s.pendingLine.length ≤ rounds) :
    (drainLines accepts rounds s).1 =
        (foldUntil (consumeLine accepts) (splitLines 10 s.pendingLine).1 s).1 ∧
      ((drainLines accepts rounds s).1 = true →
        (drainLines accepts rounds s).2 =
          (foldUntil (consumeLine accepts) (splitLines 10 s.pendingLine).1 s).2.withPending
            (splitLines 10 s.pendingLine).2) := by
  induction rounds generalizing s with
  | zero =>
    have hnil : s.pendingLine = [] := List.length_eq_zero_iff.mp (Nat.le_zero.mp h)
    obtain ⟨completion, pendingLine, tokenIndex, events⟩ := s
    subst hnil
    exact ⟨rfl, fun _ => rfl⟩
  | succ rounds ih =>
    rw [splitLines_find]
    unfold drainLines
    cases hfind : find [10] s.pendingLine with
    | none => exact ⟨rfl, fun _ => rfl⟩
    | some newline =>
      have hle := find_le _ _ _ hfind
      have hdrop : (s.pendingLine.drop (newline + 1)).length ≤ rounds := by
        rw [List.length_drop]
        simp only [List.length_singleton] at hle
        omega
      have hline := consumeLine_pending accepts (s.pendingLine.take newline) s
        (s.pendingLine.drop (newline + 1))
      simp only [StreamState.withPending] at hline
      simp only [foldUntil, hline]
      split_ifs with hok
      · have hrest := ih ((consumeLine accepts (s.pendingLine.take newline) s).2.withPending
          (s.pendingLine.drop (newline + 1))) hdrop
        rw [foldLines_pending] at hrest
        exact hrest
      · exact ⟨rfl, fun hf => absurd hf (by simp)⟩

/-- What the callback of `ProcessStream` makes of a body, read as a whole. -/
def runLines (body : Bytes) : Bool × StreamState :=
  let r := foldUntil (consumeLine accepts) (splitLines 10 body).1 {}
  (r.1, r.2.withPending (splitLines 10 body).2)

theorem onBody_feeds : Feeds (onBody accepts) (runLines accepts) := by
  have hsplit : ∀ seen bytes : Bytes, runLines accepts (seen ++ bytes) =
      let r := foldUntil (consumeLine accepts) (splitLines 10 seen).1 {}
      let next := splitLines 10 ((splitLines 10 seen).2 ++ bytes)
      if r.1 then
        ((foldUntil (consumeLine accepts) next.1 r.2).1,
          (foldUntil (consumeLine accepts) next.1 r.2).2.withPending next.2)
      else (false, r.2.withPending next.2) := by
    intro seen bytes
    simp only [runLines, splitLines_append 10 seen bytes, foldUntil_append]
    split_ifs with hok
    · rfl
    · simp only [hok]
  have hbody : ∀ seen bytes : Bytes,
      let r := foldUntil (consumeLine accepts) (splitLines 10 seen).1 ({} : StreamState)
      let next := splitLines 10 ((splitLines 10 seen).2 ++ bytes)
      (onBody accepts bytes (runLines accepts seen).2).1 =
          (foldUntil (consumeLine accepts) next.1 r.2).1 ∧
        ((onBody accepts bytes (runLines accepts seen).2).1 = true →
          (onBody accepts bytes (runLines accepts seen).2).2 =
            (foldUntil (consumeLine accepts) next.1 r.2).2.withPending next.2) := by
    intro seen bytes
    have h := drainLines_split accepts ((splitLines 10 seen).2 ++ bytes).length
      ((foldUntil (consumeLine accepts) (splitLines 10 seen).1 ({} : StreamState)).2.withPending
        ((splitLines 10 seen).2 ++ bytes)) (Nat.le_refl _)
    rw [foldLines_pending] at h
    exact h
  refine ⟨rfl, ?_, ?_, ?_⟩
  · intro seen bytes h
    rw [hsplit] at h
    by_contra hno
    simp only [runLines] at hno
    simp [hno] at h
  · intro seen bytes h
    have hok : (foldUntil (consumeLine accepts) (splitLines 10 seen).1
      ({} : StreamState)).1 = true := h
    rw [(hbody seen bytes).1, hsplit]
    simp only [hok, if_true]
  · intro seen bytes h h'
    have hok : (foldUntil (consumeLine accepts) (splitLines 10 seen).1
      ({} : StreamState)).1 = true := h
    rw [hsplit] at h' ⊢
    simp only [hok, if_true] at h' ⊢
    exact (hbody seen bytes).2 ((hbody seen bytes).1.trans h')

omit accepts in
theorem trimWhitespace_trim (value : Bytes) :
    trimWhitespace (trimWhitespace value) = trimWhitespace value := by
  have hdef : ∀ xs : Bytes, trimWhitespace xs = (xs.dropWhile isSpace).rdropWhile isSpace :=
    fun _ => rfl
  rw [hdef (trimWhitespace value), hdef value]
  set y := value.dropWhile isSpace with hy
  have hhead : (y.rdropWhile isSpace).dropWhile isSpace = y.rdropWhile isSpace := by
    rw [List.dropWhile_eq_self_iff]
    intro hlen
    have hpre := List.rdropWhile_prefix isSpace (l := y)
    have hy0 : 0 < y.length := hlen.trans_le hpre.length_le
    rw [hpre.getElem hlen]
    exact List.dropWhile_get_zero_not isSpace value hy0
  rw [hhead, List.rdropWhile_idempotent]

omit accepts in
theorem parseLlamaServerChunk_done {data : Bytes} (h : trimWhitespace data = data) :
    (parseLlamaServerChunk data).done = true ↔ data = text "[DONE]" := by
  unfold parseLlamaServerChunk
  simp only [h]
  split_ifs with hd <;> simp [hd]

/-- The streaming path merges a line into its completion as the buffered path does. -/
theorem consumeLine_completion (line : Bytes) (s : StreamState) :
    (consumeLine accepts line s).2.completion = parseLine s.completion line := by
  unfold consumeLine parseLine
  by_cases hd : startsWith (trimWhitespace line) (text "data:") = true
  · simp only [hd, Bool.not_true, Bool.false_eq_true, if_false, if_true]
    set data := trimWhitespace ((trimWhitespace line).drop (text "data:").length) with hdata
    have hdone := parseLlamaServerChunk_done (show trimWhitespace data = data from
      trimWhitespace_trim _)
    by_cases hnil : data = []
    · simp only [if_pos hnil, if_pos (Or.inl hnil)]
    by_cases h : data = text "[DONE]"
    · simp only [if_neg hnil, if_pos (Or.inr h), if_pos (hdone.mpr h)]
    · have hmore : ¬ (data = [] ∨ data = text "[DONE]") := by simp [hnil, h]
      have hchunk : ¬ (parseLlamaServerChunk data).done = true := fun hc => h (hdone.mp hc)
      simp only [if_neg hnil, if_neg hmore, if_neg hchunk, mergeLlamaServerJsonChunk,
        LlamaServerCompletion.append, StreamState.emit]
      cases (parseLlamaServerChunk data).hasContent <;> rfl
  · simp [hd]

end

end Laminar.Llama
