import Laminar.Llama.ChunkFields

/-! `ParseLlamaServerChunk` reads a field of a flat object from its own member exactly where the
first occurrence of the quoted name leads there. -/
namespace Laminar.Llama
open Laminar.Lines Laminar.JsonText Laminar.Decimal

theorem ownText_length {field ys : Bytes} {entries : List Entry}
    (h : ownText field entries = some ys) : ys.length < (continued entries).length := by
  induction entries with
  | nil => simp [ownText] at h
  | cons e rest ih =>
    rw [ownText] at h
    split at h
    · obtain rfl := Option.some.inj h
      simp only [Entry.behindColon, continued, List.length_append, List.length_cons]
      omega
    · have hlt := ih h
      simp only [continued, List.length_append, List.length_cons]
      omega

theorem behindName_length {field xs ys : Bytes} (h : behindName field xs = some ys) :
    ys.length ≤ xs.length := by
  obtain ⟨pos, -, rfl⟩ := Option.map_eq_some_iff.mp h
  simp

theorem behindColon_length {xs ys : Bytes} (h : behindColon xs = some ys) :
    ys.length ≤ xs.length := by
  obtain ⟨pos, -, rfl⟩ := Option.map_eq_some_iff.mp h
  simp

theorem fieldText_length {field xs ys : Bytes}
    (h : (behindName field xs).bind behindColon = some ys) : ys.length ≤ xs.length := by
  obtain ⟨zs, hzs, hys⟩ := Option.bind_eq_some_iff.mp h
  exact (behindColon_length hys).trans (behindName_length hzs)

theorem Scalar.write_ne_nil (value : Scalar) : value.write ≠ [] := by
  cases value with
  | string s => exact List.cons_ne_nil _ _
  | integer negative magnitude => simp [Scalar.write, digits_ne_nil]
  | boolean value => cases value <;> decide
  | null => decide

theorem continued_shorter (e : Entry) (rest : List Entry) :
    (continued rest).length < (e.behindColon rest).length := by
  have hpos := List.length_pos_of_ne_nil e.value.write_ne_nil
  simp only [Entry.behindColon, List.length_append]
  omega

theorem Entry.colon_named (e : Entry) (h : 58 ∈ e.key) : 58 ∈ e.name :=
  (readString_legal e.named).2 h

/-- The first colon behind a value belongs to the next member, or lies in its key. -/
theorem behindColon_continued {field : Bytes} (hword : isWord field = true)
    (rest : List Entry) :
    behindColon (continued rest) = ownText field rest ↔ ∀ e ∈ rest.head?, e.name = field := by
  cases rest with
  | nil =>
    have hnone : behindColon [125] = none := rfl
    simp [continued, ownText, hnone]
  | cons e rest =>
    have hquote : behindColon (continued (e :: rest)) = behindColon (e.key ++ (34 ::
        (e.afterKey ++ 58 :: e.behindColon rest))) := by
      have hsplit : continued (e :: rest) = (44 :: (e.beforeKey ++ [34])) ++ (e.key ++ (34 ::
          (e.afterKey ++ 58 :: e.behindColon rest))) := by
        simp [continued, quoted, Entry.behindColon]
      rw [hsplit, behindColon_skip]
      have hblank := (unquoted_of_blank e.blanks.1).2
      simp [hblank]
    have hend : behindColon (34 :: (e.afterKey ++ 58 :: e.behindColon rest)) =
        some (e.behindColon rest) := by
      rw [← List.cons_append, behindColon_skip, behindColon_here]
      have hblank := (unquoted_of_blank e.blanks.2.1).2
      simp [hblank]
    have hlater : ∀ ys, ownText field rest = some ys → ys.length < (e.behindColon rest).length :=
      fun ys hys => (ownText_length hys).trans (continued_shorter e rest)
    by_cases hcolon : 58 ∈ e.key
    · have hne : e.name ≠ field := fun heq =>
        ((isWord_spec hword).2 58 (heq ▸ e.colon_named hcolon)).2.2.1 rfl
      obtain ⟨before, after, hkey, hbefore⟩ := List.eq_append_cons_of_mem hcolon
      rw [hquote, hkey, List.append_assoc, behindColon_skip _ _ hbefore, List.cons_append,
        behindColon_here, ownText, if_neg hne]
      refine iff_of_false (fun heq => ?_) (by simpa using hne)
      have hlt := hlater _ heq.symm
      simp only [List.length_append, List.length_cons] at hlt
      omega
    · rw [hquote, behindColon_skip _ _ hcolon, hend, ownText]
      by_cases hname : e.name = field
      · simp [hname]
      · rw [if_neg hname]
        refine iff_of_false (fun heq => ?_) (by simpa using hname)
        exact absurd (hlater _ heq.symm) (by omega)

theorem behindName_entry {field : Bytes} (hword : isWord field = true) (e : Entry)
    (rest : List Entry) :
    behindName field (continued (e :: rest)) =
      if e.shows field then some (e.afterKey ++ 58 :: e.behindColon rest)
      else if e.value = .string field then some (e.afterValue ++ continued rest)
      else behindName field (continued rest) := by
  have hblanks := e.blanks
  have hkey : behindName field (continued (e :: rest)) =
      behindName field (quoted e.key ++ (e.afterKey ++ 58 :: e.behindColon rest)) := by
    have hsplit : continued (e :: rest) =
        (44 :: e.beforeKey) ++ (quoted e.key ++ (e.afterKey ++ 58 :: e.behindColon rest)) := rfl
    rw [hsplit, behindName_unquoted]
    simp [(unquoted_of_blank hblanks.1).1]
  have hafter : Parted (e.afterKey ++ 58 :: e.behindColon rest) :=
    Parted.blanks hblanks.2.1 (Parted.of_head _ (Or.inl rfl))
  rw [hkey]
  by_cases hshows : e.shows field = true
  · rw [if_pos hshows, behindName_found hword e.named hafter ((e.shows_iff field).mp hshows)]
  rw [if_neg hshows,
    behindName_passed hword e.named hafter (fun h => hshows ((e.shows_iff field).mpr h))]
  have hvalue : behindName field (e.afterKey ++ 58 :: e.behindColon rest) =
      behindName field (e.value.write ++ (e.afterValue ++ continued rest)) := by
    have hsplit : e.afterKey ++ 58 :: e.behindColon rest =
        (e.afterKey ++ 58 :: e.beforeValue) ++
        (e.value.write ++ (e.afterValue ++ continued rest)) :=
      by simp [Entry.behindColon]
    rw [hsplit, behindName_unquoted]
    simp [(unquoted_of_blank hblanks.2.1).1, (unquoted_of_blank hblanks.2.2.1).1]
  rw [hvalue, Scalar.behindName hword (Parted.blanks hblanks.2.2.2 (parted_continued rest))
    e.simple,
    behindName_unquoted _ _ _ (unquoted_of_blank hblanks.2.2.2).1]

theorem fieldText_continued {field : Bytes} (hword : isWord field = true) (entries : List Entry) :
    (behindName field (continued entries)).bind behindColon = ownText field entries ↔
      ReadsOwn field entries := by
  induction entries with
  | nil =>
    have hnone : behindName field (continued []) = none := by
      have hskip := behindName_unquoted field [125] [] (by decide)
      rw [List.append_nil] at hskip
      rw [continued, hskip, behindName, quoted, find_absent _ _ _ List.not_mem_nil]
      rfl
    simp [hnone, ownText, ReadsOwn]
  | cons e rest ih =>
    have hcolon : behindColon (e.afterKey ++ 58 :: e.behindColon rest) =
        some (e.behindColon rest) := by
      rw [behindColon_skip _ _ (unquoted_of_blank e.blanks.2.1).2, behindColon_here]
    have hshorter := continued_shorter e rest
    rw [behindName_entry hword, ReadsOwn, ownText]
    by_cases hshows : e.shows field = true
    · rw [if_pos hshows, if_pos hshows, Option.bind_some, hcolon]
      by_cases hname : e.name = field
      · simp [hname]
      · rw [if_neg hname]
        refine iff_of_false (fun heq => ?_) hname
        have hlt := ownText_length heq.symm
        omega
    rw [if_neg hshows, if_neg hshows]
    by_cases hvalue : e.value = .string field
    · rw [if_pos hvalue, if_pos hvalue, Option.bind_some,
        behindColon_skip _ _ (unquoted_of_blank e.blanks.2.2.2).2]
      by_cases hname : e.name = field
      · rw [if_pos hname]
        refine iff_of_false (fun heq => ?_) (fun h => h.1 hname)
        have hle := behindColon_length heq
        omega
      · rw [if_neg hname, behindColon_continued hword]
        simp [hname]
    · rw [if_neg hvalue, if_neg hvalue]
      by_cases hname : e.name = field
      · rw [if_pos hname]
        refine iff_of_false (fun heq => ?_) (fun h => h.1 hname)
        have hle := fieldText_length heq
        omega
      · rw [if_neg hname, ih]
        simp [hname]

theorem trimWhitespace_braces {before mid after : Bytes} (hbefore : ∀ x ∈ before, isSpace x = true)
    (hafter : ∀ x ∈ after, isSpace x = true) :
    trimWhitespace (before ++ 123 :: (mid ++ [125]) ++ after) = 123 :: (mid ++ [125]) := by
  have hopen : isSpace 123 = false := rfl
  have hclose : isSpace 125 = false := rfl
  rw [trimWhitespace, List.append_assoc, List.dropWhile_append_of_pos hbefore, List.cons_append,
    List.dropWhile_cons_of_neg (by simp [hopen]), ← List.cons_append, List.reverse_append,
    List.dropWhile_append_of_pos fun x hx => hafter x (List.mem_reverse.mp hx),
    ← List.cons_append, List.reverse_append, List.reverse_singleton, List.singleton_append,
    List.dropWhile_cons_of_neg (by simp [hclose]), List.reverse_cons, List.reverse_reverse]

theorem isSpace_of_blank {c : UInt8} (h : isBlank c = true) : isSpace c = true := by
  simp only [isBlank, Bool.or_eq_true, beq_iff_eq] at h
  rcases h with ((rfl | rfl) | rfl) | rfl <;> rfl

theorem continued_closed (entries : List Entry) : ∃ body, continued entries = body ++ [125] := by
  induction entries with
  | nil => exact ⟨[], rfl⟩
  | cons e rest ih =>
    obtain ⟨body, hbody⟩ := ih
    refine ⟨44 :: (e.beforeKey ++ (quoted e.key ++ (e.afterKey ++ 58 :: (e.beforeValue ++
      (e.value.write ++ (e.afterValue ++ body)))))), ?_⟩
    rw [continued, hbody]
    simp

theorem FlatObject.core_braces (o : FlatObject) : ∃ mid, o.core = 123 :: (mid ++ [125]) := by
  cases hentries : o.entries with
  | nil => exact ⟨o.inside, by rw [core, hentries]⟩
  | cons e rest =>
    obtain ⟨body, hbody⟩ := continued_closed rest
    refine ⟨e.beforeKey ++ (quoted e.key ++ (e.afterKey ++ 58 :: (e.beforeValue ++
      (e.value.write ++ (e.afterValue ++ body))))), ?_⟩
    rw [core, hentries]
    simp [continued, hbody]

theorem FlatObject.trim (o : FlatObject) : trimWhitespace o.text = o.core := by
  obtain ⟨mid, hmid⟩ := o.core_braces
  have hblank := o.blank
  simp only [List.mem_append] at hblank
  rw [text, hmid]
  refine trimWhitespace_braces (fun x hx => isSpace_of_blank (hblank x (Or.inl (Or.inl hx))))
    (fun x hx => isSpace_of_blank (hblank x (Or.inr hx)))

/-- A field is read from its own member exactly where the first occurrence of its quoted name
leads there. -/
theorem fieldText_object_iff {field : Bytes} (hword : isWord field = true) (o : FlatObject) :
    fieldText o.core field = ownText field o.entries ↔ ReadsOwn field o.entries := by
  rw [fieldText_eq]
  cases hentries : o.entries with
  | nil =>
    have hquote : 34 ∉ o.core := by
      have hblank := o.blank
      simp only [List.mem_append] at hblank
      have hinside := (unquoted_of_blank fun c hc => hblank c (Or.inl (Or.inr hc))).1
      simp [FlatObject.core, hentries, hinside]
    rw [behindName, quoted, find_absent _ _ _ hquote]
    simp [ownText, ReadsOwn]
  | cons e rest =>
    have hcore : behindName field o.core = behindName field (continued (e :: rest)) := by
      have hopen := behindName_unquoted field [123] (continued (e :: rest)).tail (by decide)
      have hcomma := behindName_unquoted field [44] (continued (e :: rest)).tail (by decide)
      rw [FlatObject.core, hentries]
      exact hopen.trans hcomma.symm
    rw [hcore]
    exact fieldText_continued hword (e :: rest)

theorem ownText_member (field : Bytes) (entries : List Entry) :
    (entries.find? (fun e => e.name = field) = none ∧ ownText field entries = none) ∨
      ∃ e rest, entries.find? (fun e => e.name = field) = some e ∧
        ownText field entries = some (e.behindColon rest) := by
  induction entries with
  | nil => exact Or.inl ⟨rfl, rfl⟩
  | cons e rest ih =>
    by_cases hname : e.name = field
    · exact Or.inr ⟨e, rest, by simp [hname], by rw [ownText, if_pos hname]⟩
    · simpa [ownText, hname] using ih

theorem scanString_plain (s value rest : Bytes) (h : ∀ c ∈ s, isPlain c = true) :
    scanString false value (s ++ 34 :: rest) = some (value ++ s) := by
  induction s generalizing value with
  | nil => simp [scanString]
  | cons c s ih =>
    have hc := h c (by simp)
    simp only [isPlain, Bool.and_eq_true, decide_eq_true_eq] at hc
    rw [List.cons_append, scanString, if_neg hc.1.2, if_neg hc.1.1,
      ih (value ++ [c]) fun x hx => h x (List.mem_cons_of_mem c hx)]
    simp

theorem isDigit_of_range {c : UInt8} (h : 48 ≤ c ∧ c ≤ 57) :
    isDigit c = true ∧ isSpace c = false ∧ c ≠ 34 ∧ c ≠ 43 ∧ c ≠ 45 := by
  simp only [isDigit, isSpace]
  grind

/-- Behind an integer stands no further digit. -/
theorem takeWhile_digits {ds rest : Bytes} (hds : ∀ d ∈ ds, 48 ≤ d ∧ d ≤ 57)
    (hrest : Parted rest) : (ds ++ rest).takeWhile isDigit = ds := by
  rw [List.takeWhile_append_of_pos fun d hd => (isDigit_of_range (hds d hd)).1]
  cases rest with
  | nil => simp
  | cons c rest =>
    have hc : isDigit c = false := by
      have hparted := hrest c rfl
      simp only [isBlank, Bool.or_eq_true, beq_iff_eq, or_assoc] at hparted
      rcases hparted with rfl | rfl | rfl | rfl | rfl | rfl | rfl <;> rfl
    rw [List.takeWhile_cons_of_neg (by simp [hc]), List.append_nil]

theorem digitsValue_digits (n : Nat) : digitsValue (digits n) = n := value_digits n

theorem readDecimal_integer (negative : Bool) (magnitude : Nat) {rest : Bytes}
    (hrest : Parted rest) :
    readDecimal ((Scalar.integer negative magnitude).write ++ rest) =
      some (if negative then -(magnitude : Int) else magnitude) := by
  obtain ⟨d, ds, hdigits⟩ := List.exists_cons_of_ne_nil (digits_ne_nil magnitude)
  have hd := isDigit_of_range (digits_range magnitude d (by simp [hdigits]))
  have htake := takeWhile_digits (digits_range magnitude) hrest
  have hminus : isSpace 45 = false := rfl
  cases negative with
  | true =>
    simp only [Scalar.write, if_true, readDecimal, List.cons_append, List.nil_append,
      List.dropWhile_cons_of_neg (by simp [hminus] : ¬ isSpace 45 = true), List.head?_cons,
      true_or, List.tail_cons, htake, digits_ne_nil, if_false, digitsValue_digits]
  | false =>
    have hdrop : (digits magnitude ++ rest).dropWhile isSpace = digits magnitude ++ rest := by
      rw [hdigits, List.cons_append, List.dropWhile_cons_of_neg (by simp [hd.2.1])]
    have hhead : (digits magnitude ++ rest).head? = some d := by rw [hdigits]; rfl
    simp only [Scalar.write, Bool.false_eq_true, if_false, List.nil_append, readDecimal, hdrop,
      hhead, Option.some.injEq, hd.2.2.2.1, hd.2.2.2.2, or_false, htake, digits_ne_nil,
      digitsValue_digits]

theorem toInt_of_range {v : Int} (hlow : -2 ^ 31 ≤ v) (hhigh : v < 2 ^ 31) :
    toInt (max (-2 ^ 63) (min v (2 ^ 63 - 1))) = v := by
  have hclamp : max (-2 ^ 63) (min v (2 ^ 63 - 1)) = v := by omega
  rw [hclamp, toInt, Int.bmod_eq_of_le (by omega) (by omega)]

theorem Scalar.dropWhile_write (value : Scalar) (rest : Bytes) :
    (value.write ++ rest).dropWhile isSpace = value.write ++ rest := by
  cases value with
  | string s => rfl
  | integer negative magnitude =>
    cases negative with
    | true => rfl
    | false =>
      obtain ⟨d, ds, hdigits⟩ := List.exists_cons_of_ne_nil (digits_ne_nil magnitude)
      have hd := isDigit_of_range (digits_range magnitude d (by simp [hdigits]))
      rw [Scalar.write, hdigits]
      simp [hd.2.1]
  | boolean value => cases value <;> rfl
  | null => rfl

theorem Entry.dropWhile_behindColon (e : Entry) (rest : List Entry) :
    (e.behindColon rest).dropWhile isSpace = e.value.write ++ (e.afterValue ++ continued rest) := by
  rw [Entry.behindColon,
    List.dropWhile_append_of_pos fun c hc => isSpace_of_blank (e.blanks.2.2.1 c hc),
    Scalar.dropWhile_write]

theorem string_of_member {json field : Bytes} {e : Entry} {rest : List Entry}
    (h : fieldText json field = some (e.behindColon rest)) :
    extractJsonStringField json field = e.value.string? := by
  have hsimple := e.simple
  simp only [extractJsonStringField, h, e.dropWhile_behindColon]
  cases hvalue : e.value with
  | string s =>
    rw [hvalue] at hsimple
    have hscan := scanString_plain s [] (e.afterValue ++ continued rest) hsimple
    simpa [Scalar.write, quoted, Scalar.string?] using hscan
  | integer negative magnitude =>
    cases negative with
    | true => rfl
    | false =>
      obtain ⟨d, ds, hdigits⟩ := List.exists_cons_of_ne_nil (digits_ne_nil magnitude)
      have hd := isDigit_of_range (digits_range magnitude d (by simp [hdigits]))
      simp [Scalar.write, hdigits, hd.2.2.1, Scalar.string?]
  | boolean value => cases value <;> rfl
  | null => rfl

theorem integer_of_member {json field : Bytes} {e : Entry} {rest : List Entry}
    (h : fieldText json field = some (e.behindColon rest)) :
    extractJsonIntField json field = e.value.integer? := by
  have hsimple := e.simple
  simp only [extractJsonIntField, h, e.dropWhile_behindColon]
  cases hvalue : e.value with
  | integer negative magnitude =>
    rw [hvalue] at hsimple
    have hrest := Parted.blanks e.blanks.2.2.2 (parted_continued rest)
    rw [strtol, readDecimal_integer negative magnitude hrest, Option.map_some, Option.map_some,
      Scalar.integer?, toInt_of_range]
    all_goals
      simp only [Scalar.Simple] at hsimple
      cases negative <;> simp at hsimple ⊢ <;> omega
  | string s => rfl
  | boolean value => cases value <;> rfl
  | null => rfl

def fieldNames : List Bytes := [text "content", text "tokens_predicted", text "tokens_evaluated"]

theorem fieldNames_word : ∀ field ∈ fieldNames, isWord field = true := by
  decide

theorem FlatObject.core_ne_done (o : FlatObject) : o.core ≠ Laminar.text "[DONE]" := by
  obtain ⟨mid, hmid⟩ := o.core_braces
  have hdone : Laminar.text "[DONE]" = [91, 68, 79, 78, 69, 93] := rfl
  simp [hmid, hdone]

theorem FlatObject.string_own (o : FlatObject) {field : Bytes} (hword : isWord field = true)
    (h : ReadsOwn field o.entries) :
    extractJsonStringField o.core field = (o.member field).bind Scalar.string? := by
  have hown := (fieldText_object_iff hword o).mpr h
  rcases ownText_member field o.entries with ⟨hfind, hnone⟩ | ⟨e, rest, hfind, hsome⟩
  · rw [hnone] at hown
    simp [extractJsonStringField, hown, member, hfind]
  · rw [hsome] at hown
    simp [string_of_member hown, member, hfind]

theorem FlatObject.integer_own (o : FlatObject) {field : Bytes} (hword : isWord field = true)
    (h : ReadsOwn field o.entries) :
    extractJsonIntField o.core field = (o.member field).bind Scalar.integer? := by
  have hown := (fieldText_object_iff hword o).mpr h
  rcases ownText_member field o.entries with ⟨hfind, hnone⟩ | ⟨e, rest, hfind, hsome⟩
  · rw [hnone] at hown
    simp [extractJsonIntField, hown, member, hfind]
  · rw [hsome] at hown
    simp [integer_of_member hown, member, hfind]

/-- Each field is read from its own member exactly where the first occurrence of its quoted name
leads there, and where it does for all of them the chunk is the object's. -/
theorem chunk_fields_iff (o : FlatObject) :
    (∀ field ∈ fieldNames, (fieldText (trimWhitespace o.text) field = ownText field o.entries ↔
      ReadsOwn field o.entries)) ∧
    ((∀ field ∈ fieldNames, ReadsOwn field o.entries) →
      parseLlamaServerChunk o.text = o.chunk) := by
  rw [o.trim]
  refine ⟨fun field hfield => fieldText_object_iff (fieldNames_word field hfield) o, fun h => ?_⟩
  have hcontent := o.string_own (fieldNames_word _ (by simp [fieldNames])) (h (text "content")
    (by simp [fieldNames]))
  have hpredicted := o.integer_own (fieldNames_word _ (by simp [fieldNames]))
    (h (text "tokens_predicted") (by simp [fieldNames]))
  have hevaluated := o.integer_own (fieldNames_word _ (by simp [fieldNames]))
    (h (text "tokens_evaluated") (by simp [fieldNames]))
  rw [parseLlamaServerChunk, o.trim, if_neg o.core_ne_done, hcontent, hpredicted, hevaluated]
  rfl

def tightEntry (name : Bytes) (value : Scalar) (named : readString (quoted name) = some (name, []))
    (simple : value.Simple) : Entry :=
  ⟨name, name, value, [], [], [], [], named, simple, by simp⟩

/-- A generated token that is the name of a count, before another count and the count itself. -/
def tokenNamedLikeField : FlatObject :=
  ⟨[tightEntry (text "content") (.string (text "tokens_predicted")) (by decide) (by decide +kernel),
    tightEntry (text "tokens_evaluated") (.integer false 5) (by decide) (by decide),
    tightEntry (text "tokens_predicted") (.integer false 7) (by decide) (by decide)],
    [], [], [], by simp, by decide⟩

theorem tokenNamedLikeField_misread :
    (parseLlamaServerChunk tokenNamedLikeField.text).tokensPredicted = 5 ∧
      tokenNamedLikeField.chunk.tokensPredicted = 7 ∧
      ¬ ∀ o : FlatObject, parseLlamaServerChunk o.text = o.chunk := by
  have hread : (parseLlamaServerChunk tokenNamedLikeField.text).tokensPredicted = 5 := by
    decide +kernel
  have hmeant : tokenNamedLikeField.chunk.tokensPredicted = 7 := by decide +kernel
  refine ⟨hread, hmeant, fun h => ?_⟩
  rw [h, hmeant] at hread
  exact absurd hread (by decide)

end Laminar.Llama
