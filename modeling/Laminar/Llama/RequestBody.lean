import Laminar.Library.Decimal
import Laminar.Library.JsonText
import Laminar.Llama.Json

/-! The request body for llama-server as a JSON reader sees it. Whatever the prompt holds, its
literal ends where `JsonStringValue` ended it. -/
namespace Laminar.Llama
open Laminar.JsonText Laminar.Decimal

theorem decimal_negSucc (n : Nat) : decimal (Int.negSucc n) = 45 :: digits (n + 1) := by
  have hsplit : toString (Int.negSucc n) = "-" ++ toString (n + 1) := rfl
  have hsign : bytes "-" = [45] := rfl
  calc decimal (Int.negSucc n) = bytes ("-" ++ toString (n + 1)) := by rw [← hsplit]; rfl
    _ = 45 :: digits (n + 1) := by rw [bytes_append, hsign]; rfl

theorem isUnsigned_digits (n : Nat) : isUnsigned (digits n) = true := by
  by_cases hn : n = 0
  · subst hn
    rw [digits_lt 0 (by omega)]
    rfl
  have hhead := digits_head n hn
  have hrange := digits_range n
  cases hds : digits n with
  | nil => exact absurd hds (digits_ne_nil n)
  | cons d ds =>
    rw [hds] at hhead hrange
    have hdigit : ∀ c ∈ d :: ds, JsonText.isDigit c = true := by
      intro c hc
      simpa [JsonText.isDigit] using hrange c hc
    obtain ⟨hd, hrest⟩ := List.forall_mem_cons.mp hdigit
    have hdrop : ds.dropWhile JsonText.isDigit = [] := by
      simpa [List.dropWhile_eq_nil_iff] using hrest
    rw [isUnsigned, if_neg (fun h => hhead (by rw [h]; rfl)), hd, hdrop]
    rfl

theorem isNumber_decimal (v : Int) : isNumber (decimal v) = true := by
  cases v with
  | ofNat n =>
    have hsign : (digits n).head? ≠ some 45 := by
      intro h
      have hrange := digits_range n 45 (List.mem_of_mem_head? h)
      exact absurd hrange.1 (by decide)
    rw [show decimal (Int.ofNat n) = digits n from rfl, isNumber, if_neg hsign]
    exact isUnsigned_digits n
  | negSucc n =>
    rw [decimal_negSucc, isNumber, if_pos (by rfl)]
    exact isUnsigned_digits (n + 1)

theorem hexValue_hexDigit (v : UInt8) (h : v < 16) : hexValue (hexDigit v) = some v.toNat := by
  revert h
  revert v
  decide +kernel

/-- One escaped byte is read as the byte. -/
theorem readChars_escapeByte (fuel : Nat) (c : UInt8) (t : Bytes) :
    readChars (fuel + 1) (jsonEscapeByte c ++ t) =
      (readChars fuel t).map (fun r => (c :: r.1, r.2)) := by
  have hstep : ∀ rest e, readEscape (e :: rest) = some ([c], t) →
      readChars (fuel + 1) (92 :: e :: rest) =
        (readChars fuel t).map (fun r => (c :: r.1, r.2)) := by
    intro rest e he
    rw [readChars, if_neg (by decide), if_pos rfl, he]
    simp only [Option.bind_eq_bind, Option.bind_some]
    cases readChars fuel t <;> rfl
  unfold jsonEscapeByte
  by_cases hq : c = 34
  · subst hq
    exact hstep t 34 rfl
  by_cases hb : c = 92
  · subst hb
    exact hstep t 92 rfl
  by_cases h8 : c = 8
  · subst h8
    exact hstep t 98 rfl
  by_cases h12 : c = 12
  · subst h12
    exact hstep t 102 rfl
  by_cases h10 : c = 10
  · subst h10
    exact hstep t 110 rfl
  by_cases h13 : c = 13
  · subst h13
    exact hstep t 114 rfl
  by_cases h9 : c = 9
  · subst h9
    exact hstep t 116 rfl
  by_cases hlow : c < 32
  · simp only [hq, hb, h8, h12, h10, h13, h9, hlow, if_false, if_true]
    refine hstep ([48, 48, hexDigit (c / 16), hexDigit (c % 16)] ++ t) 117 ?_
    have hu : ∀ a b : UInt8, a < 16 → b < 16 → readHex4 ([48, 48, hexDigit a, hexDigit b] ++ t) =
        some (a.toNat * 16 + b.toNat, t) := by
      intro a b ha hb
      have h0 : hexValue 48 = some 0 := rfl
      simp [readHex4, h0, hexValue_hexDigit a ha, hexValue_hexDigit b hb]
    have hcode : (c / 16).toNat * 16 + (c % 16).toNat = c.toNat := by
      simp only [UInt8.toNat_div, UInt8.toNat_mod, UInt8.reduceToNat]
      omega
    have hsmall : c.toNat < 32 := UInt8.lt_iff_toNat_lt.mp hlow
    rw [readEscape, if_pos rfl, readUnicode, hu _ _ (by grind) (by grind), hcode]
    simp only [Option.bind_eq_bind, Option.bind_some]
    rw [if_neg (by omega), if_neg (by omega), utf8, if_pos (by omega)]
    simp
  · simp only [hq, hb, h8, h12, h10, h13, h9, hlow, if_false, List.cons_append, List.nil_append]
    rw [readChars, if_neg hq, if_neg hb, if_neg hlow]
    simp only [Option.bind_eq_bind]
    cases readChars fuel t <;> rfl

theorem readChars_escape (s rest : Bytes) :
    readChars (s.length + 1) (jsonEscape s ++ 34 :: rest) = some (s, rest) := by
  induction s with
  | nil => simp [jsonEscape, readChars]
  | cons c s ih =>
    have hsplit : jsonEscape (c :: s) ++ 34 :: rest =
        jsonEscapeByte c ++ (jsonEscape s ++ 34 :: rest) := by
      simp [jsonEscape]
    rw [hsplit, List.length_cons, readChars_escapeByte, ih]
    rfl

theorem length_jsonEscape (s : Bytes) : s.length ≤ (jsonEscape s).length := by
  induction s with
  | nil => simp
  | cons c s ih =>
    have hone : 1 ≤ (jsonEscapeByte c).length := by
      unfold jsonEscapeByte
      split_ifs <;> first | decide | simp
    simp only [jsonEscape, List.flatMap_cons, List.length_append, List.length_cons] at ih ⊢
    omega

/-- A JSON reader takes the literal of a string, no more and no less, for the string. -/
theorem readString_jsonStringValue (s rest : Bytes) :
    readString (jsonStringValue s ++ rest) = some (s, rest) := by
  have hlength := length_jsonEscape s
  have hsplit : jsonStringValue s ++ rest = 34 :: (jsonEscape s ++ 34 :: rest) := by
    have hquote : text "\"" = [34] := rfl
    simp [jsonStringValue, hquote]
  rw [hsplit]
  refine readString_of_chars (readChars_escape s rest) ?_
  simp only [List.length_append, List.length_cons]
  omega

def bodyMembers (prompt : Bytes) (maxTokens : Int) (temperature : Bytes)
    (cachePrompt stream timingsPerToken : Bool) : List Member :=
  [⟨text "prompt", jsonStringValue prompt, .string prompt⟩,
    ⟨text "n_predict", decimal maxTokens, .number (decimal maxTokens)⟩,
    ⟨text "temperature", temperature, .number temperature⟩,
    ⟨text "stream", boolToJson stream, .boolean stream⟩,
    ⟨text "cache_prompt", boolToJson cachePrompt, .boolean cachePrompt⟩,
    ⟨text "return_tokens", boolToJson timingsPerToken, .boolean timingsPerToken⟩,
    ⟨text "timings_per_token", boolToJson timingsPerToken, .boolean timingsPerToken⟩]

theorem requestBody_eq (prompt : Bytes) (maxTokens : Int) (temperature : Bytes)
    (cachePrompt stream timingsPerToken : Bool) :
    buildLlamaServerRequestBody prompt maxTokens temperature cachePrompt stream timingsPerToken =
      123 :: (writeMembers
        (bodyMembers prompt maxTokens temperature cachePrompt stream timingsPerToken) ++
        [125]) := by
  have hprompt : text "\"prompt\":" = quoted (text "prompt") ++ [58] := rfl
  have hpredict : text ",\"n_predict\":" = 44 :: (quoted (text "n_predict") ++ [58]) := rfl
  have htemperature : text ",\"temperature\":" = 44 :: (quoted (text "temperature") ++ [58]) := rfl
  have hstream : text ",\"stream\":" = 44 :: (quoted (text "stream") ++ [58]) := rfl
  have hcache : text ",\"cache_prompt\":" = 44 :: (quoted (text "cache_prompt") ++ [58]) := rfl
  have htokens : text ",\"return_tokens\":" = 44 :: (quoted (text "return_tokens") ++ [58]) := rfl
  have htimings : text ",\"timings_per_token\":" =
      44 :: (quoted (text "timings_per_token") ++ [58]) := rfl
  have hopen : text "\x7b" = [123] := rfl
  have hclose : text "\x7d" = [125] := rfl
  simp only [buildLlamaServerRequestBody, hopen, hclose, hprompt, hpredict, htemperature, hstream,
    hcache, htokens, htimings, bodyMembers, writeMembers, Member.write, List.append_assoc,
    List.cons_append, List.nil_append]

theorem reads_boolToJson (value : Bool) : Reads (boolToJson value) (.boolean value) := by
  cases value with
  | true => exact reads_true
  | false => exact reads_false

theorem bodyMembers_sound (prompt : Bytes) (maxTokens : Int) {temperature : Bytes}
    (h : isNumber temperature = true) (cachePrompt stream timingsPerToken : Bool) :
    ∀ m ∈ bodyMembers prompt maxTokens temperature cachePrompt stream timingsPerToken, m.Sound := by
  have hstring : Reads (jsonStringValue prompt) (.string prompt) :=
    reads_string rfl (readString_jsonStringValue prompt)
  simp only [bodyMembers, List.forall_mem_cons, List.not_mem_nil, false_implies, implies_true,
    and_true]
  exact ⟨⟨rfl, hstring⟩, ⟨rfl, reads_number (isNumber_decimal maxTokens)⟩,
    ⟨rfl, reads_number h⟩, ⟨rfl, reads_boolToJson _⟩, ⟨rfl, reads_boolToJson _⟩,
    ⟨rfl, reads_boolToJson _⟩, ⟨rfl, reads_boolToJson _⟩⟩

/-- Whatever the prompt, the body is one object with the seven members intended, in order, and
the literal of the prompt is read as the prompt. -/
theorem requestBody_parses (prompt : Bytes) (maxTokens : Int) (temperature : Bytes)
    (cachePrompt stream timingsPerToken : Bool) (h : isNumber temperature = true) :
    (∃ rest, buildLlamaServerRequestBody prompt maxTokens temperature cachePrompt stream
          timingsPerToken = text "\x7b\"prompt\":" ++ (jsonStringValue prompt ++ rest) ∧
        readString (jsonStringValue prompt ++ rest) = some (prompt, rest)) ∧
      readDocument (buildLlamaServerRequestBody prompt maxTokens temperature cachePrompt stream
          timingsPerToken) =
        some (.object [(text "prompt", .string prompt),
          (text "n_predict", .number (decimal maxTokens)),
          (text "temperature", .number temperature),
          (text "stream", .boolean stream),
          (text "cache_prompt", .boolean cachePrompt),
          (text "return_tokens", .boolean timingsPerToken),
          (text "timings_per_token", .boolean timingsPerToken)]) := by
  have hopen : text "\x7b\"prompt\":" = 123 :: (quoted (text "prompt") ++ [58]) := rfl
  refine ⟨⟨44 :: (writeMembers (bodyMembers prompt maxTokens temperature cachePrompt stream
    timingsPerToken).tail ++ [125]), ?_, readString_jsonStringValue prompt _⟩, ?_⟩
  · rw [requestBody_eq, hopen]
    simp [bodyMembers, writeMembers, Member.write]
  · rw [requestBody_eq, readDocument_object _ (by simp [bodyMembers])
      (bodyMembers_sound prompt maxTokens h cachePrompt stream timingsPerToken)]
    rfl

/-- A prompt that tries to end its literal and to add a member. -/
theorem requestBody_injection :
    readDocument (buildLlamaServerRequestBody (text "\",\"n_predict\":9,\"x\":\"") 16 (text "0.700")
        true true false) =
      some (.object [(text "prompt", .string (text "\",\"n_predict\":9,\"x\":\"")),
        (text "n_predict", .number (decimal 16)), (text "temperature", .number (text "0.700")),
        (text "stream", .boolean true), (text "cache_prompt", .boolean true),
        (text "return_tokens", .boolean false), (text "timings_per_token", .boolean false)]) :=
  (requestBody_parses (text "\",\"n_predict\":9,\"x\":\"") 16 (text "0.700") true true false
    (by decide)).2

end Laminar.Llama
