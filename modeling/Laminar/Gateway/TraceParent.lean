import Laminar.Gateway.Predict

/-! The headers that `parseTraceParent` accepts and `formatTraceParent` writes. -/
namespace Laminar.Gateway

def isLowerHexDigit (ch : Char) : Bool := ('0' ≤ ch && ch ≤ '9') || ('a' ≤ ch && ch ≤ 'f')

def isHexDigit (ch : Char) : Bool := isLowerHexDigit ch || ('A' ≤ ch && ch ≤ 'F')

def isHex (value : String) (length : Nat) : Bool :=
  value.toList.length == length && value.toList.all isHexDigit

structure TraceParent where
  traceID : String
  spanID : String
  traceFlags : String
  trace : isHex traceID 32 = true ∧ isAllZero traceID = false
  span : isHex spanID 16 = true ∧ isAllZero spanID = false
  flags : isHex traceFlags 2 = true

namespace TraceParent

def header (w : TraceParent) : String :=
  "00-" ++ w.traceID ++ "-" ++ w.spanID ++ "-" ++ w.traceFlags

def context (w : TraceParent) : TraceContext :=
  { traceID := w.traceID, parentSpanID := w.spanID, traceFlags := w.traceFlags }

end TraceParent

theorem toLower_hexDigit (c : Char) :
    isLowerHexDigit c.toLower = isHexDigit c ∧ isHexDigit c.toLower = isHexDigit c := by
  simp only [isHexDigit, isLowerHexDigit, Char.toLower, Char.le_def]
  constructor <;> grind

theorem toLower_zero (c : Char) : c.toLower = '0' ↔ c = '0' := by
  unfold Char.toLower
  split_ifs with h
  · simp only [Char.ext_iff]
    grind
  · rfl

theorem toLower_idem (c : Char) : c.toLower.toLower = c.toLower := by
  simp only [Char.toLower, Char.ext_iff]
  grind

theorem utf8Size_hexDigit (c : Char) (h : isLowerHexDigit c = true) : c.utf8Size = 1 := by
  simp only [isLowerHexDigit, Char.le_def] at h
  simp only [Char.utf8Size]
  grind

theorem hexDigit_plain {c : Char} (h : isHexDigit c = true) : c ≠ '-' ∧ isSpace c = false := by
  simp only [isHexDigit, isLowerHexDigit, Char.le_def, UInt32.le_iff_toNat_le, Bool.or_eq_true,
    Bool.and_eq_true, decide_eq_true_eq] at h
  refine ⟨?_, ?_⟩
  · rintro rfl
    exact absurd h (by decide)
  · have hval : c.val.toNat = c.toNat := rfl
    simp only [isSpace, ← hval, Bool.or_eq_false_iff, Bool.and_eq_false_iff, beq_eq_false_iff_ne,
      decide_eq_false_iff_not]
    simp at h
    omega

theorem toList_toLower (s : String) : (toLower s).toList = s.toList.map Char.toLower := by
  simp [toLower]

theorem toLower_toLower (s : String) : toLower (toLower s) = toLower s := by
  rw [toLower, toList_toLower, List.map_map, toLower]
  refine congrArg String.ofList (List.map_congr_left fun c _ => toLower_idem c)

theorem toLower_append (s t : String) : toLower (s ++ t) = toLower s ++ toLower t := by
  simp [toLower]

theorem isAllZero_toLower (s : String) : isAllZero (toLower s) = isAllZero s := by
  rw [isAllZero, toList_toLower, List.all_map, isAllZero]
  refine congrArg s.toList.all (funext fun c => ?_)
  simp [toLower_zero]

theorem isHex_toLower (s : String) (n : Nat) : isHex (toLower s) n = isHex s n := by
  rw [isHex, toList_toLower, List.length_map, List.all_map, isHex]
  have hall : isHexDigit ∘ Char.toLower = isHexDigit := funext fun c => (toLower_hexDigit c).2
  rw [hall]

theorem utf8ByteSize_ascii (cs : List Char) (h : ∀ c ∈ cs, c.utf8Size = 1) :
    (String.ofList cs).utf8ByteSize = cs.length := by
  induction cs with
  | nil => rfl
  | cons c cs ih =>
    obtain ⟨hc, hcs⟩ := List.forall_mem_cons.mp h
    rw [String.ofList_cons, String.utf8ByteSize_append, String.utf8ByteSize_singleton, hc, ih hcs,
      List.length_cons, Nat.add_comm]

/-- The check of a lowered text for hexadecimal digits, its length counted in bytes. -/
theorem isLowerHex_toLower (s : String) (n : Nat) : isLowerHex (toLower s) n = isHex s n := by
  have hall : (toLower s).toList.all isLowerHexDigit = s.toList.all isHexDigit := by
    rw [toList_toLower, List.all_map]
    exact congrArg s.toList.all (funext fun c => (toLower_hexDigit c).1)
  change ((toLower s).utf8ByteSize == n && (toLower s).toList.all isLowerHexDigit) = isHex s n
  rw [hall, isHex]
  cases hhex : s.toList.all isHexDigit with
  | false => simp
  | true =>
    rw [hhex, List.all_eq_true] at hall
    have hsize : (toLower s).utf8ByteSize = s.toList.length := by
      rw [toLower, utf8ByteSize_ascii, List.length_map]
      rw [← toList_toLower]
      exact fun c hc => utf8Size_hexDigit c (hall c hc)
    rw [hsize]

theorem trimSpace_plain {s : String} (h : ∀ c ∈ s.toList, isSpace c = false) : trimSpace s = s := by
  have hdrop : ∀ cs : List Char, (∀ c ∈ cs, isSpace c = false) → cs.dropWhile isSpace = cs := by
    intro cs hcs
    cases cs with
    | nil => rfl
    | cons c cs => rw [List.dropWhile_cons_of_neg (by simp [hcs c])]
  rw [trimSpace, hdrop _ h, hdrop _ fun c hc => h c (List.mem_reverse.mp hc), List.reverse_reverse,
    String.ofList_toList]

theorem isHex_digits {s : String} {n : Nat} (h : isHex s n = true) :
    s.toList.length = n ∧ ∀ c ∈ s.toList, isHexDigit c = true := by
  simpa [isHex] using h

namespace TraceParent

def lower (w : TraceParent) : TraceParent where
  traceID := toLower w.traceID
  spanID := toLower w.spanID
  traceFlags := toLower w.traceFlags
  trace := by rw [isHex_toLower, isAllZero_toLower]; exact w.trace
  span := by rw [isHex_toLower, isAllZero_toLower]; exact w.span
  flags := by rw [isHex_toLower]; exact w.flags

theorem lower_lower (w : TraceParent) : w.lower.lower = w.lower := by
  simp only [lower, toLower_toLower]

theorem lower_header (w : TraceParent) : w.lower.header = toLower w.header := by
  have hversion : toLower "00-" = "00-" := rfl
  have hdash : toLower "-" = "-" := rfl
  simp only [header, lower, toLower_append, hversion, hdash]

theorem header_plain (w : TraceParent) : ∀ c ∈ w.header.toList, isSpace c = false := by
  have hhex : ∀ {s : String} {n : Nat}, isHex s n = true → ∀ c ∈ s.toList, isSpace c = false :=
    fun h c hc => (hexDigit_plain ((isHex_digits h).2 c hc)).2
  have hdashSpace : isSpace '-' = false := rfl
  have hzeroSpace : isSpace '0' = false := rfl
  have hversion : ∀ c ∈ "00-".toList, isSpace c = false := by simp [hdashSpace, hzeroSpace]
  have hdash : ∀ c ∈ "-".toList, isSpace c = false := by simp [hdashSpace]
  intro c hc
  simp only [header, String.toList_append, List.mem_append] at hc
  rcases hc with ((((hc | hc) | hc) | hc) | hc) | hc
  · exact hversion c hc
  · exact hhex w.trace.1 c hc
  · exact hdash c hc
  · exact hhex w.span.1 c hc
  · exact hdash c hc
  · exact hhex w.flags c hc

theorem header_parts (w : TraceParent) : (w.header.toList.splitOn '-').map String.ofList =
    ["00", w.traceID, w.spanID, w.traceFlags] := by
  have hhex : ∀ {s : String} {n : Nat}, isHex s n = true → '-' ∉ s.toList :=
    fun h hc => (hexDigit_plain ((isHex_digits h).2 '-' hc)).1 rfl
  have hjoin : w.header.toList = ['-'].intercalate
      ["00".toList, w.traceID.toList, w.spanID.toList, w.traceFlags.toList] := by
    simp [header, List.intercalate]
  rw [hjoin, List.splitOn_intercalate]
  · simp
  · simp [hhex w.trace.1, hhex w.span.1, hhex w.flags]
  · simp

theorem valid (w : TraceParent) : isValidTraceID (toLower w.traceID) = true ∧
    isValidSpanID (toLower w.spanID) = true ∧ isLowerHex (toLower w.traceFlags) 2 = true := by
  refine ⟨?_, ?_, by rw [isLowerHex_toLower, w.flags]⟩
  · rw [isValidTraceID, isLowerHex_toLower, isAllZero_toLower, w.trace.1, w.trace.2]
    rfl
  · rw [isValidSpanID, isLowerHex_toLower, isAllZero_toLower, w.span.1, w.span.2]
    rfl

theorem parse_header (w : TraceParent) {header : String} (h : trimSpace header = w.header) :
    parseTraceParent header = some w.lower.context := by
  simp [parseTraceParent, h, w.header_parts, w.valid.1, w.valid.2.1, w.valid.2.2, context, lower]

end TraceParent

theorem hex_of_valid {s : String} {n : Nat}
    (h : (isLowerHex (toLower s) n && !isAllZero (toLower s)) = true) :
    isHex s n = true ∧ isAllZero s = false := by
  rw [isLowerHex_toLower, isAllZero_toLower] at h
  simpa using h

theorem header_of_parse {header : String} {c : TraceContext}
    (h : parseTraceParent header = some c) :
    ∃ w : TraceParent, trimSpace header = w.header ∧ c = w.lower.context := by
  unfold parseTraceParent at h
  split at h
  · rename_i version traceID spanID traceFlags hparts
    simp only at h
    split_ifs at h with hversion hvalid
    simp only [Bool.or_eq_true, Bool.not_eq_true', not_or, Bool.not_eq_false] at hvalid
    obtain ⟨⟨htrace, hspan⟩, hflags⟩ := hvalid
    rw [isLowerHex_toLower] at hflags
    refine ⟨⟨traceID, spanID, traceFlags, hex_of_valid htrace, hex_of_valid hspan, hflags⟩, ?_,
      (Option.some.inj h).symm⟩
    have hjoin := congrArg (fun parts => ['-'].intercalate (parts.map String.toList)) hparts
    simp only [List.map_map, Function.comp_def, String.toList_ofList, List.map_id',
      List.intercalate_splitOn] at hjoin
    rw [← String.toList_inj, hjoin, not_not.mp hversion]
    simp [TraceParent.header, List.intercalate]
  · exact absurd h (by simp)

theorem parseTraceParent_iff (header : String) (c : TraceContext) :
    parseTraceParent header = some c ↔
      ∃ w : TraceParent, trimSpace header = w.header ∧ c = w.lower.context := by
  refine ⟨header_of_parse, ?_⟩
  rintro ⟨w, hheader, rfl⟩
  exact w.parse_header hheader

def flagsOrDefault (traceFlags : String) : String :=
  if trimSpace traceFlags = "" then defaultTraceFlags else trimSpace traceFlags

theorem formatTraceParent_iff (traceID spanID traceFlags header : String) :
    formatTraceParent traceID spanID traceFlags = some header ↔
      ∃ w : TraceParent, trimSpace traceID = w.traceID ∧ trimSpace spanID = w.spanID ∧
        flagsOrDefault traceFlags = w.traceFlags ∧ header = w.lower.header := by
  have hflags : (if toLower (trimSpace traceFlags) = "" then defaultTraceFlags
      else toLower (trimSpace traceFlags)) = toLower (flagsOrDefault traceFlags) := by
    have hdefault : toLower defaultTraceFlags = defaultTraceFlags := rfl
    have hempty : toLower (trimSpace traceFlags) = "" ↔ trimSpace traceFlags = "" := by
      rw [← String.toList_inj, toList_toLower, ← String.toList_inj]
      simp
    unfold flagsOrDefault
    simp only [hempty]
    split_ifs
    · exact hdefault.symm
    · rfl
  simp only [formatTraceParent, hflags]
  constructor
  · intro h
    split_ifs at h with hvalid
    simp only [Bool.or_eq_true, Bool.not_eq_true', not_or, Bool.not_eq_false] at hvalid
    obtain ⟨⟨htrace, hspan⟩, hlast⟩ := hvalid
    rw [isLowerHex_toLower] at hlast
    exact ⟨⟨trimSpace traceID, trimSpace spanID, flagsOrDefault traceFlags, hex_of_valid htrace,
      hex_of_valid hspan, hlast⟩, rfl, rfl, rfl, (Option.some.inj h).symm⟩
  · rintro ⟨w, htrace, hspan, hlast, rfl⟩
    simp [htrace, hspan, hlast, w.valid.1, w.valid.2.1, w.valid.2.2, TraceParent.header,
      TraceParent.lower]

theorem trimSpace_hex {s : String} {n : Nat} (h : isHex s n = true) : trimSpace s = s :=
  trimSpace_plain fun c hc => (hexDigit_plain ((isHex_digits h).2 c hc)).2

theorem TraceParent.format (w : TraceParent) :
    formatTraceParent w.traceID w.spanID w.traceFlags = some w.lower.header := by
  have hflags : trimSpace w.traceFlags ≠ "" := by
    rw [trimSpace_hex w.flags]
    intro hempty
    have hlength := (isHex_digits w.flags).1
    simp [hempty] at hlength
  refine (formatTraceParent_iff _ _ _ _).mpr ⟨w, trimSpace_hex w.trace.1, trimSpace_hex w.span.1,
    ?_, rfl⟩
  rw [flagsOrDefault, if_neg hflags, trimSpace_hex w.flags]

/-- `parseTraceParent` accepts the headers of the W3C form, blanks around them apart, and lowers
their fields; `formatTraceParent` writes the fields of that form, lowered; each reads back what the
other has made. -/
theorem traceParent_roundTrip :
    (∀ header c, parseTraceParent header = some c ↔
      ∃ w : TraceParent, trimSpace header = w.header ∧ c = w.lower.context) ∧
    (∀ traceID spanID traceFlags header, formatTraceParent traceID spanID traceFlags = some header ↔
      ∃ w : TraceParent, trimSpace traceID = w.traceID ∧ trimSpace spanID = w.spanID ∧
        flagsOrDefault traceFlags = w.traceFlags ∧ header = w.lower.header) ∧
    (∀ traceID spanID traceFlags header, formatTraceParent traceID spanID traceFlags = some header →
      parseTraceParent header = some
        { traceID := toLower (trimSpace traceID)
          parentSpanID := toLower (trimSpace spanID)
          traceFlags := toLower (flagsOrDefault traceFlags) }) ∧
    (∀ header c, parseTraceParent header = some c →
      formatTraceParent c.traceID c.parentSpanID c.traceFlags =
        some (toLower (trimSpace header))) := by
  refine ⟨parseTraceParent_iff, formatTraceParent_iff, fun traceID spanID traceFlags header h => ?_,
    fun header c h => ?_⟩
  · obtain ⟨w, htrace, hspan, hflags, rfl⟩ := (formatTraceParent_iff _ _ _ _).mp h
    rw [w.lower.parse_header (trimSpace_plain w.lower.header_plain), w.lower_lower, htrace, hspan,
      hflags]
    rfl
  · obtain ⟨w, hheader, rfl⟩ := (parseTraceParent_iff _ _).mp h
    rw [hheader, ← w.lower_header]
    have hformat := w.lower.format
    rwa [w.lower_lower] at hformat

end Laminar.Gateway
