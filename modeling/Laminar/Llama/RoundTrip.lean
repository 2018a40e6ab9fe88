import Laminar.Llama.Json

/-! What `ExtractJsonStringField` reads back of a string that `JsonStringValue` wrote. The
decoder knows fewer escapes than the encoder uses. -/
namespace Laminar.Llama
open Laminar.Lines

/-- The bytes that survive: every one but the control characters without an escape that the
decoder knows. -/
def survives (c : UInt8) : Bool := 32 ≤ c || c == 9 || c == 10 || c == 13

/-- What the decoder makes of the escape of one byte: it drops the backslash alone. -/
def readBack (c : UInt8) : Bytes :=
  if survives c then [c] else (jsonEscapeByte c).tail

theorem hexDigit_plain (v : UInt8) (h : v < 16) : hexDigit v ≠ 92 ∧ hexDigit v ≠ 34 := by
  unfold hexDigit
  split_ifs
  · grind
  · grind

theorem text_quote : text "\"" = [34] := rfl

theorem scanString_byte (c : UInt8) (value rest : Bytes) :
    scanString false value (jsonEscapeByte c ++ rest) =
      scanString false (value ++ readBack c) rest := by
  unfold readBack survives jsonEscapeByte
  by_cases hq : c = 34
  · subst hq
    rfl
  by_cases hb : c = 92
  · subst hb
    rfl
  by_cases h8 : c = 8
  · subst h8
    rfl
  by_cases h12 : c = 12
  · subst h12
    rfl
  by_cases h10 : c = 10
  · subst h10
    rfl
  by_cases h13 : c = 13
  · subst h13
    rfl
  by_cases h9 : c = 9
  · subst h9
    rfl
  by_cases hlow : c < 32
  · have hhigh : ¬ 32 ≤ c := UInt8.not_le.mpr hlow
    obtain ⟨hx, hx'⟩ := hexDigit_plain (c / 16) (by grind)
    obtain ⟨hy, hy'⟩ := hexDigit_plain (c % 16) (by grind)
    have hu : text "\\u00" = [92, 117, 48, 48] := rfl
    simp [hq, hb, h8, h12, h10, h13, h9, hlow, hhigh, hu, scanString, unescape, hx, hx', hy, hy']
  · have hhigh : 32 ≤ c := UInt8.not_lt.mp hlow
    simp [hq, hb, h8, h12, h10, h13, h9, hlow, hhigh, scanString]

theorem scanString_escape (s value rest : Bytes) :
    scanString false value (jsonEscape s ++ text "\"" ++ rest) =
      some (value ++ s.flatMap readBack) := by
  induction s generalizing value with
  | nil => simp [jsonEscape, scanString, text_quote]
  | cons c s ih =>
    have hsplit : jsonEscape (c :: s) ++ text "\"" ++ rest =
        jsonEscapeByte c ++ (jsonEscape s ++ text "\"" ++ rest) := by
      simp [jsonEscape]
    rw [hsplit, scanString_byte, ih]
    simp

theorem fieldText_object (f literal : Bytes) :
    fieldText (text "\x7b" ++ text "\"" ++ f ++ text "\":" ++ literal) f = some literal := by
  set key := text "\"" ++ f ++ text "\"" with hkey
  have hcolon : text "\":" = text "\"" ++ text ":" := rfl
  have hsplit : text "\x7b" ++ text "\"" ++ f ++ text "\":" ++ literal =
      123 :: (key ++ (text ":" ++ literal)) := by
    rw [hcolon, hkey]
    simp [show text "\x7b" = [123] from rfl]
  have hfind : find key (123 :: (key ++ (text ":" ++ literal))) = some 1 := by
    rw [find_later key _ 123 (by simp [hkey, text_quote]) (by simp [hkey, text_quote]), find_start]
    rfl
  unfold fieldText
  rw [hsplit]
  simp only [← hkey, hfind]
  have hdrop :
      (123 :: (key ++ (text ":" ++ literal))).drop (1 + key.length) = text ":" ++ literal := by
    rw [Nat.add_comm, List.drop_succ_cons, List.drop_left]
  rw [hdrop, find_start]
  rfl

theorem readBack_changed (c : UInt8) (h : survives c = false) :
    ∃ d rest, readBack c = d :: rest ∧ d ≠ c := by
  have hlow : c < 32 ∧ c ≠ 9 ∧ c ≠ 10 ∧ c ≠ 13 := by
    simpa [survives, and_assoc] using h
  unfold readBack jsonEscapeByte
  rw [h]
  by_cases h8 : c = 8
  · subst h8
    exact ⟨98, [], rfl, by decide⟩
  by_cases h12 : c = 12
  · subst h12
    exact ⟨102, [], rfl, by decide⟩
  refine ⟨117, [48, 48, hexDigit (c / 16), hexDigit (c % 16)], ?_, by grind⟩
  have hquote : c ≠ 34 := by grind
  have hslash : c ≠ 92 := by grind
  have hu : text "\\u00" = [92, 117, 48, 48] := rfl
  simp [h8, h12, hlow, hquote, hslash, hu]

/-- Nothing is lost when every byte survives; otherwise the first that does not is changed. -/
theorem flatMap_readBack (s : Bytes) :
    s.flatMap readBack = s ↔ ∀ c ∈ s, survives c = true := by
  induction s with
  | nil => simp
  | cons c s ih =>
    rw [List.flatMap_cons, List.forall_mem_cons]
    by_cases hc : survives c = true
    · have hself : readBack c = [c] := by rw [readBack, if_pos hc]
      rw [hself, and_iff_right hc, ← ih]
      exact List.cons_inj_right c
    · obtain ⟨d, rest, hd, hne⟩ := readBack_changed c (by simpa using hc)
      rw [hd]
      exact iff_of_false (fun heq => hne (List.cons.inj heq).1) (fun hall => hc hall.1)

/-- The decoder undoes the encoder exactly on the strings whose control characters are tabs,
line feeds and carriage returns. -/
theorem decoder_inverts_iff (f s : Bytes) :
    extractJsonStringField
        (text "\x7b" ++ text "\"" ++ f ++ text "\":" ++ (jsonStringValue s ++ text "\x7d")) f =
      some s ↔ ∀ c ∈ s, survives c = true := by
  rw [← flatMap_readBack, extractJsonStringField, fieldText_object]
  have hliteral : (jsonStringValue s ++ text "\x7d").dropWhile isSpace =
      34 :: (jsonEscape s ++ text "\"" ++ text "\x7d") := by
    simp [jsonStringValue, text_quote, isSpace]
  simp only [hliteral, if_true, scanString_escape, List.nil_append, Option.some.injEq]

/-- A backspace comes back as the letter of its escape. -/
theorem decoder_backspace : ¬ extractJsonStringField
    (text "\x7b" ++ text "\"" ++ text "content" ++ text "\":" ++
      (jsonStringValue [8] ++ text "\x7d")) (text "content") = some [8] := by
  decide

end Laminar.Llama
