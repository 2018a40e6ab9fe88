import Mathlib

/-! A reader for JSON texts after the grammar of RFC 8259, over bytes. Bytes above 127 stand for
themselves: whether they are well-formed UTF-8 is not checked. -/
namespace Laminar.JsonText

inductive Value where
  | null
  | boolean (value : Bool)
  | number (lexeme : List UInt8)
  | string (value : List UInt8)
  | array (elements : List Value)
  | object (members : List (List UInt8 × Value))

def isBlank (c : UInt8) : Bool := c == 32 || c == 9 || c == 10 || c == 13

def skipBlanks (t : List UInt8) : List UInt8 := t.dropWhile isBlank

def isDigit (c : UInt8) : Bool := 48 ≤ c && c ≤ 57

def expect (c : UInt8) : List UInt8 → Option (List UInt8)
  | [] => none
  | d :: rest => if d = c then some rest else none

def hexValue (c : UInt8) : Option Nat :=
  if 48 ≤ c ∧ c ≤ 57 then some (c.toNat - 48)
  else if 65 ≤ c ∧ c ≤ 70 then some (c.toNat - 55)
  else if 97 ≤ c ∧ c ≤ 102 then some (c.toNat - 87)
  else none

def readHex4 : List UInt8 → Option (Nat × List UInt8)
  | a :: b :: c :: d :: rest => do
    let a ← hexValue a
    let b ← hexValue b
    let c ← hexValue c
    let d ← hexValue d
    some (((a * 16 + b) * 16 + c) * 16 + d, rest)
  | _ => none

def utf8 (code : Nat) : List UInt8 :=
  if code < 0x80 then [code.toUInt8]
  else if code < 0x800 then [(0xC0 + code / 64).toUInt8, (0x80 + code % 64).toUInt8]
  else if code < 0x10000 then
    [(0xE0 + code / 4096).toUInt8, (0x80 + code / 64 % 64).toUInt8, (0x80 + code % 64).toUInt8]
  else
    [(0xF0 + code / 262144).toUInt8, (0x80 + code / 4096 % 64).toUInt8,
      (0x80 + code / 64 % 64).toUInt8, (0x80 + code % 64).toUInt8]

def readUnicode (t : List UInt8) : Option (List UInt8 × List UInt8) := do
  let (high, rest) ← readHex4 t
  if 0xD800 ≤ high ∧ high < 0xDC00 then
    let rest ← expect 92 rest
    let rest ← expect 117 rest
    let (low, rest) ← readHex4 rest
    if 0xDC00 ≤ low ∧ low < 0xE000 then
      some (utf8 (0x10000 + (high - 0xD800) * 1024 + (low - 0xDC00)), rest)
    else none
  else if 0xDC00 ≤ high ∧ high < 0xE000 then none
  else some (utf8 high, rest)

def simpleEscape (c : UInt8) : Option UInt8 :=
  if c = 34 ∨ c = 92 ∨ c = 47 then some c
  else if c = 98 then some 8
  else if c = 102 then some 12
  else if c = 110 then some 10
  else if c = 114 then some 13
  else if c = 116 then some 9
  else none

def readEscape : List UInt8 → Option (List UInt8 × List UInt8)
  | [] => none
  | c :: rest =>
    if c = 117 then readUnicode rest else (simpleEscape c).map (fun b => ([b], rest))

def readChars : Nat → List UInt8 → Option (List UInt8 × List UInt8)
  | 0, _ => none
  | _ + 1, [] => none
  | fuel + 1, c :: rest =>
    if c = 34 then some ([], rest)
    else if c = 92 then do
      let (bytes, rest) ← readEscape rest
      let (value, rest) ← readChars fuel rest
      some (bytes ++ value, rest)
    else if c < 32 then none
    else do
      let (value, rest) ← readChars fuel rest
      some (c :: value, rest)

/-- A string literal. Every character takes at least one byte, so the fuel never runs out. -/
def readString (t : List UInt8) : Option (List UInt8 × List UInt8) := do
  let rest ← expect 34 t
  readChars rest.length rest

def isExponent : List UInt8 → Bool
  | [] => true
  | c :: rest =>
    let digits := if rest.head? = some 43 ∨ rest.head? = some 45 then rest.tail else rest
    (c == 101 || c == 69) && digits ≠ [] && digits.all isDigit

def isFraction : List UInt8 → Bool
  | [] => true
  | c :: rest =>
    if c = 46 then rest.head?.any isDigit && isExponent (rest.dropWhile isDigit)
    else isExponent (c :: rest)

def isUnsigned : List UInt8 → Bool
  | [] => false
  | c :: rest =>
    if c = 48 then isFraction rest else isDigit c && isFraction (rest.dropWhile isDigit)

def isNumber (t : List UInt8) : Bool :=
  isUnsigned (if t.head? = some 45 then t.tail else t)

def isNumberChar (c : UInt8) : Bool :=
  isDigit c || c == 43 || c == 45 || c == 46 || c == 69 || c == 101

/-- A number ends where no character can continue one. -/
def readNumber (t : List UInt8) : Option (List UInt8 × List UInt8) :=
  let lexeme := t.takeWhile isNumberChar
  if isNumber lexeme then some (lexeme, t.dropWhile isNumberChar) else none

def readScalar (t : List UInt8) : Option (Value × List UInt8) :=
  if t.head? = some 34 then (readString t).map (fun r => (.string r.1, r.2))
  else if [110, 117, 108, 108].isPrefixOf t then some (.null, t.drop 4)
  else if [116, 114, 117, 101].isPrefixOf t then some (.boolean true, t.drop 4)
  else if [102, 97, 108, 115, 101].isPrefixOf t then some (.boolean false, t.drop 5)
  else (readNumber t).map (fun r => (.number r.1, r.2))

mutual

def readValue : Nat → List UInt8 → Option (Value × List UInt8)
  | 0, _ => none
  | fuel + 1, t =>
    if t.head? = some 123 then
      match expect 125 (skipBlanks t.tail) with
      | some rest => some (.object [], rest)
      | none => (readMembers fuel (skipBlanks t.tail)).map (fun r => (.object r.1, r.2))
    else if t.head? = some 91 then
      match expect 93 (skipBlanks t.tail) with
      | some rest => some (.array [], rest)
      | none => (readElements fuel (skipBlanks t.tail)).map (fun r => (.array r.1, r.2))
    else readScalar t

/-- The members of an object behind its brace, at least one. -/
def readMembers : Nat → List UInt8 → Option (List (List UInt8 × Value) × List UInt8)
  | 0, _ => none
  | fuel + 1, t => do
    let (name, rest) ← readString t
    let rest ← expect 58 (skipBlanks rest)
    let (value, rest) ← readValue fuel (skipBlanks rest)
    let rest := skipBlanks rest
    match expect 125 rest with
    | some rest => some ([(name, value)], rest)
    | none =>
      let rest ← expect 44 rest
      let (members, rest) ← readMembers fuel (skipBlanks rest)
      some ((name, value) :: members, rest)

def readElements : Nat → List UInt8 → Option (List Value × List UInt8)
  | 0, _ => none
  | fuel + 1, t => do
    let (value, rest) ← readValue fuel t
    let rest := skipBlanks rest
    match expect 93 rest with
    | some rest => some ([value], rest)
    | none =>
      let rest ← expect 44 rest
      let (elements, rest) ← readElements fuel (skipBlanks rest)
      some (value :: elements, rest)

end

/-- A whole JSON text. Every value, member and element takes at least one byte. -/
def readDocument (t : List UInt8) : Option Value :=
  match readValue (t.length + 1) (skipBlanks t) with
  | none => none
  | some (value, rest) => if skipBlanks rest = [] then some value else none

theorem readChars_succ {fuel : Nat} {t : List UInt8} {r : List UInt8 × List UInt8}
    (h : readChars fuel t = some r) : readChars (fuel + 1) t = some r := by
  induction fuel generalizing t r with
  | zero => simp [readChars] at h
  | succ fuel ih =>
    cases t with
    | nil => simp [readChars] at h
    | cons c rest =>
      rw [readChars] at h ⊢
      split_ifs at h ⊢ with hquote hslash
      · exact h
      · obtain ⟨⟨bytes, rest'⟩, he, h⟩ := Option.bind_eq_some_iff.mp h
        obtain ⟨r', hr, h⟩ := Option.bind_eq_some_iff.mp h
        simp only [he, Option.bind_eq_bind, Option.bind_some, ih hr]
        exact h
      · obtain ⟨r', hr, h⟩ := Option.bind_eq_some_iff.mp h
        simp only [Option.bind_eq_bind, Option.bind_some, ih hr]
        exact h

theorem readChars_mono {fuel fuel' : Nat} (hle : fuel ≤ fuel') {t : List UInt8}
    {r : List UInt8 × List UInt8} (h : readChars fuel t = some r) : readChars fuel' t = some r := by
  induction hle with
  | refl => exact h
  | step _ ih => exact readChars_succ ih

theorem readString_of_chars {fuel : Nat} {rest : List UInt8} {r : List UInt8 × List UInt8}
    (h : readChars fuel rest = some r) (hle : fuel ≤ rest.length) :
    readString (34 :: rest) = some r := by
  simp only [readString, expect, if_true, Option.bind_eq_bind, Option.bind_some]
  exact readChars_mono hle h

def isPlain (c : UInt8) : Bool := c ≠ 34 && c ≠ 92 && 32 ≤ c

theorem readChars_plain (s rest : List UInt8) (h : ∀ c ∈ s, isPlain c = true) :
    readChars (s.length + 1) (s ++ 34 :: rest) = some (s, rest) := by
  induction s with
  | nil => simp [readChars]
  | cons c s ih =>
    obtain ⟨hc, hs⟩ := List.forall_mem_cons.mp h
    simp only [isPlain, Bool.and_eq_true, decide_eq_true_eq] at hc
    obtain ⟨⟨hquote, hslash⟩, hlow⟩ := hc
    rw [List.length_cons, List.cons_append, readChars, if_neg hquote, if_neg hslash,
      if_neg (UInt8.not_lt.mpr hlow), ih hs]
    rfl

theorem hexValue_quote (c : UInt8) (v : Nat) (h : hexValue c = some v) : c ≠ 34 ∧ c ≠ 58 := by
  constructor
  · rintro rfl
    simp [hexValue] at h
  · rintro rfl
    simp [hexValue] at h

theorem readHex4_consumes {t : List UInt8} {v : Nat} {rest : List UInt8}
    (h : readHex4 t = some (v, rest)) :
    ∃ consumed, t = consumed ++ rest ∧ 34 ∉ consumed ∧ 58 ∉ consumed := by
  unfold readHex4 at h
  split at h
  · rename_i a b c d rest'
    obtain ⟨va, ha, h⟩ := Option.bind_eq_some_iff.mp h
    obtain ⟨vb, hb, h⟩ := Option.bind_eq_some_iff.mp h
    obtain ⟨vc, hc, h⟩ := Option.bind_eq_some_iff.mp h
    obtain ⟨vd, hd, h⟩ := Option.bind_eq_some_iff.mp h
    obtain rfl : rest' = rest := (Prod.mk.inj (Option.some.inj h)).2
    have ha' := hexValue_quote a va ha
    have hb' := hexValue_quote b vb hb
    have hc' := hexValue_quote c vc hc
    have hd' := hexValue_quote d vd hd
    refine ⟨[a, b, c, d], rfl, ?_, ?_⟩
    · simp [ha'.1.symm, hb'.1.symm, hc'.1.symm, hd'.1.symm]
    · simp [ha'.2.symm, hb'.2.symm, hc'.2.symm, hd'.2.symm]
  · simp at h

theorem expect_eq {c : UInt8} {t rest : List UInt8} (h : expect c t = some rest) :
    t = c :: rest := by
  cases t with
  | nil => simp [expect] at h
  | cons d ds =>
    rw [expect] at h
    split_ifs at h with hd
    rw [hd, Option.some.inj h]

theorem readUnicode_consumes {t bytes rest : List UInt8} (h : readUnicode t = some (bytes, rest)) :
    ∃ consumed, t = consumed ++ rest ∧ 34 ∉ consumed ∧ 58 ∉ consumed := by
  obtain ⟨⟨high, rest₁⟩, h₁, hrest⟩ := Option.bind_eq_some_iff.mp h
  obtain ⟨first, hfirst, hq, hc⟩ := readHex4_consumes h₁
  simp only at hrest
  split_ifs at hrest
  · obtain ⟨rest₂, h₂, hrest⟩ := Option.bind_eq_some_iff.mp hrest
    obtain ⟨rest₃, h₃, hrest⟩ := Option.bind_eq_some_iff.mp hrest
    obtain ⟨⟨low, rest₄⟩, h₄, hrest⟩ := Option.bind_eq_some_iff.mp hrest
    obtain ⟨second, hsecond, hq', hc'⟩ := readHex4_consumes h₄
    simp only at hrest
    split_ifs at hrest
    obtain rfl : rest₄ = rest := (Prod.mk.inj (Option.some.inj hrest)).2
    refine ⟨first ++ 92 :: 117 :: second, ?_, ?_, ?_⟩
    · rw [hfirst, expect_eq h₂, expect_eq h₃, hsecond]
      simp
    · simp [hq, hq']
    · simp [hc, hc']
  · obtain rfl : rest₁ = rest := (Prod.mk.inj (Option.some.inj hrest)).2
    exact ⟨first, hfirst, hq, hc⟩

theorem readEscape_consumes {t bytes rest : List UInt8} (h : readEscape t = some (bytes, rest)) :
    ∃ consumed, t = consumed ++ rest ∧
      ((∃ e, consumed = [e]) ∨ 34 ∉ consumed) ∧ 58 ∉ consumed := by
  cases t with
  | nil => simp [readEscape] at h
  | cons c t =>
    rw [readEscape] at h
    split_ifs at h with hu
    · obtain ⟨consumed, rfl, hq, hc⟩ := readUnicode_consumes h
      refine ⟨c :: consumed, rfl, Or.inr ?_, ?_⟩
      · simp [hu, hq]
      · simp [hu, hc]
    · obtain ⟨b, hb, heq⟩ := Option.map_eq_some_iff.mp h
      obtain rfl : t = rest := (Prod.mk.inj heq).2
      refine ⟨[c], rfl, Or.inl ⟨c, rfl⟩, ?_⟩
      simp only [List.mem_singleton]
      rintro rfl
      simp [simpleEscape] at hb

/-- In a literal every quote stands behind a backslash, and a colon stands for itself. -/
theorem readChars_legal {fuel : Nat} {key name : List UInt8}
    (h : readChars fuel (key ++ [34]) = some (name, [])) :
    (∀ before after, key = before ++ 34 :: after → before.getLast? = some 92) ∧
      (58 ∈ key → 58 ∈ name) := by
  induction fuel generalizing key name with
  | zero => simp [readChars] at h
  | succ fuel ih =>
    cases key with
    | nil => simp
    | cons c key =>
      rw [List.cons_append, readChars] at h
      split_ifs at h with hquote hslash
      · simp at h
      · obtain ⟨⟨bytes, rest⟩, he, h⟩ := Option.bind_eq_some_iff.mp h
        obtain ⟨⟨value, rest'⟩, hr, h⟩ := Option.bind_eq_some_iff.mp h
        obtain ⟨rfl, rfl⟩ := Prod.mk.inj (Option.some.inj h)
        obtain ⟨consumed, hsplit, hq, hc⟩ := readEscape_consumes he
        -- what the escape leaves still ends in the closing quote
        obtain ⟨key', rfl⟩ : ∃ key', rest = key' ++ [34] := by
          rcases List.eq_nil_or_concat rest with rfl | ⟨key', d, rfl⟩
          · cases fuel <;> simp [readChars] at hr
          · have hlast := congrArg List.getLast? hsplit
            simp at hlast
            exact ⟨key', by rw [← hlast]; simp⟩
        obtain ⟨hquotes, hcolon⟩ := ih hr
        have hkey : key = consumed ++ key' := by
          rw [← List.append_assoc] at hsplit
          exact List.append_cancel_right hsplit
        refine ⟨fun before after heq => ?_, fun hmem => ?_⟩
        · cases before with
          | nil => exact absurd (List.cons.inj heq).1 hquote
          | cons d before =>
            obtain ⟨hd, heq⟩ := List.cons.inj heq
            rw [hkey] at heq
            rcases List.append_eq_append_iff.mp heq with ⟨gap, hbefore, hafter⟩ | ⟨gap, hin, hafter⟩
            · have hlast := hquotes gap after hafter
              rw [hbefore]
              simp [List.getLast?_cons, List.getLast?_append, hlast]
            · cases gap with
              | nil => exact absurd (hquotes [] after hafter.symm) (by simp)
              | cons g gap =>
                obtain rfl : (34 : UInt8) = g := (List.cons.inj hafter).1
                rcases hq with ⟨e, he⟩ | hq
                · rw [he] at hin
                  have hnil : before = [] := by
                    have hlen := congrArg List.length hin
                    simp only [List.length_cons, List.length_append, List.length_nil] at hlen
                    exact List.length_eq_zero_iff.mp (by omega)
                  rw [hnil, ← hd, hslash]
                  rfl
                · exact absurd (by rw [hin]; simp) hq
        · rw [hkey, hslash] at hmem
          rcases List.mem_cons.mp hmem with hbad | hmem
          · exact absurd hbad (by decide)
          · exact List.mem_append_right _ (hcolon ((List.mem_append.mp hmem).resolve_left hc))
      · obtain ⟨⟨value, rest'⟩, hr, h⟩ := Option.bind_eq_some_iff.mp h
        obtain ⟨rfl, rfl⟩ := Prod.mk.inj (Option.some.inj h)
        obtain ⟨hquotes, hcolon⟩ := ih hr
        refine ⟨fun before after heq => ?_, fun hmem => ?_⟩
        · cases before with
          | nil => exact absurd (List.cons.inj heq).1 hquote
          | cons d before =>
            have hlast := hquotes before after (List.cons.inj heq).2
            simp [List.getLast?_cons, hlast]
        · rcases List.mem_cons.mp hmem with rfl | hmem
          · simp
          · exact List.mem_cons_of_mem _ (hcolon hmem)

def quoted (s : List UInt8) : List UInt8 := 34 :: (s ++ [34])

theorem readString_legal {key name : List UInt8} (h : readString (quoted key) = some (name, [])) :
    (∀ before after, key = before ++ 34 :: after → before.getLast? = some 92) ∧
      (58 ∈ key → 58 ∈ name) :=
  have hchars : readChars (key ++ [34]).length (key ++ [34]) = some (name, []) := h
  readChars_legal hchars

theorem readString_quoted (s rest : List UInt8) (h : ∀ c ∈ s, isPlain c = true) :
    readString (quoted s ++ rest) = some (s, rest) := by
  have hsplit : quoted s ++ rest = 34 :: (s ++ 34 :: rest) := by simp [quoted]
  rw [hsplit]
  exact readString_of_chars (readChars_plain s rest h) (by simp)

theorem all_of_dropWhile {p q : UInt8 → Bool} {t : List UInt8} (hpq : ∀ c, p c = true → q c = true)
    (h : (t.dropWhile p).all q = true) : t.all q = true := by
  rw [← List.takeWhile_append_dropWhile (p := p) (l := t), List.all_append, h, Bool.and_true,
    List.all_eq_true]
  exact fun c hc => hpq c (List.mem_takeWhile_imp hc)

theorem isDigit_numberChar (c : UInt8) (h : isDigit c = true) : isNumberChar c = true := by
  simp [isNumberChar, h]

theorem isExponent_chars (t : List UInt8) (h : isExponent t = true) :
    t.all isNumberChar = true := by
  cases t with
  | nil => rfl
  | cons c rest =>
    simp only [isExponent, Bool.and_eq_true, Bool.or_eq_true, beq_iff_eq] at h
    obtain ⟨⟨hc, -⟩, hdigits⟩ := h
    have hhead : isNumberChar c = true := by
      rcases hc with rfl | rfl <;> rfl
    have htail : ∀ ds : List UInt8, ds.all isDigit = true → ds.all isNumberChar = true := by
      intro ds hds
      rw [List.all_eq_true] at hds ⊢
      exact fun d hd => isDigit_numberChar d (hds d hd)
    rw [List.all_cons, hhead, Bool.true_and]
    split_ifs at hdigits with hsign
    · cases rest with
      | nil => rfl
      | cons s ds =>
        have hs : isNumberChar s = true := by
          simp only [List.head?_cons, Option.some.injEq] at hsign
          rcases hsign with rfl | rfl <;> rfl
        rw [List.all_cons, hs, Bool.true_and]
        exact htail ds hdigits
    · exact htail rest hdigits

theorem isFraction_chars (t : List UInt8) (h : isFraction t = true) :
    t.all isNumberChar = true := by
  cases t with
  | nil => rfl
  | cons c rest =>
    rw [isFraction] at h
    split_ifs at h with hc
    · rw [Bool.and_eq_true] at h
      rw [List.all_cons, hc]
      exact all_of_dropWhile isDigit_numberChar (isExponent_chars _ h.2)
    · exact isExponent_chars _ h

/-- A number starts with a digit or a minus sign and consists of number characters. -/
theorem isUnsigned_chars (t : List UInt8) (h : isUnsigned t = true) :
    (∃ c rest, t = c :: rest ∧ isDigit c = true) ∧ t.all isNumberChar = true := by
  cases t with
  | nil => simp [isUnsigned] at h
  | cons c rest =>
    rw [isUnsigned] at h
    split_ifs at h with hc
    · subst hc
      exact ⟨⟨48, rest, rfl, rfl⟩, isFraction_chars rest h⟩
    · rw [Bool.and_eq_true] at h
      refine ⟨⟨c, rest, rfl, h.1⟩, ?_⟩
      rw [List.all_cons, isDigit_numberChar c h.1, Bool.true_and]
      exact all_of_dropWhile isDigit_numberChar (isFraction_chars _ h.2)

theorem isNumber_chars (t : List UInt8) (h : isNumber t = true) :
    (∃ c rest, t = c :: rest ∧ (c = 45 ∨ isDigit c = true)) ∧ t.all isNumberChar = true := by
  rw [isNumber] at h
  split_ifs at h with hsign
  · cases t with
    | nil => simp at hsign
    | cons c rest =>
      obtain rfl : c = 45 := by simpa using hsign
      exact ⟨⟨45, rest, rfl, Or.inl rfl⟩, (isUnsigned_chars rest h).2⟩
  · obtain ⟨⟨c, rest, ht, hc⟩, hall⟩ := isUnsigned_chars t h
    exact ⟨⟨c, rest, ht, Or.inr hc⟩, hall⟩

/-- The value of a member ends at a comma, a closing brace or a blank. -/
def Ends (rest : List UInt8) : Prop :=
  ∃ c r, rest = c :: r ∧ (c = 44 ∨ c = 125 ∨ isBlank c = true)

/-- `lexeme` is read as `value` wherever a member's value may stand. -/
structure Reads (lexeme : List UInt8) (value : Value) : Prop where
  start : ∃ c rest, lexeme = c :: rest ∧ isBlank c = false
  read : ∀ fuel rest, Ends rest → readValue (fuel + 1) (lexeme ++ rest) = some (value, rest)

theorem reads_number {lexeme : List UInt8} (h : isNumber lexeme = true) :
    Reads lexeme (.number lexeme) := by
  obtain ⟨⟨c, tail, rfl, hc⟩, hall⟩ := isNumber_chars lexeme h
  have hfirst : c ≠ 34 ∧ c ≠ 123 ∧ c ≠ 91 ∧ c ≠ 110 ∧ c ≠ 116 ∧ c ≠ 102 ∧ isBlank c = false := by
    rcases hc with rfl | hc
    · decide
    · simp only [isDigit, Bool.and_eq_true, decide_eq_true_eq] at hc
      simp only [isBlank]
      grind
  refine ⟨⟨c, tail, rfl, hfirst.2.2.2.2.2.2⟩, ?_⟩
  rintro fuel rest ⟨d, r, rfl, hd⟩
  have hend : isNumberChar d = false := by
    rcases hd with rfl | rfl | hd
    · rfl
    · rfl
    · simp only [isBlank, Bool.or_eq_true, beq_iff_eq] at hd
      rcases hd with ((rfl | rfl) | rfl) | rfl <;> rfl
  have hall' : ∀ x ∈ c :: tail, isNumberChar x = true := List.all_eq_true.mp hall
  have htake : ((c :: tail) ++ d :: r).takeWhile isNumberChar = c :: tail := by
    rw [List.takeWhile_append_of_pos hall', List.takeWhile_cons_of_neg (by simp [hend]),
      List.append_nil]
  have hdrop : ((c :: tail) ++ d :: r).dropWhile isNumberChar = d :: r := by
    rw [List.dropWhile_append_of_pos hall', List.dropWhile_cons_of_neg (by simp [hend])]
  obtain ⟨hq, hbrace, hbracket, hn, ht, hf, -⟩ := hfirst
  rw [readValue, readScalar, readNumber, htake, hdrop]
  simp [hq, hbrace, hbracket, hn.symm, ht.symm, hf.symm, h]

theorem reads_string {lexeme value : List UInt8} (hhead : lexeme.head? = some 34)
    (h : ∀ rest, readString (lexeme ++ rest) = some (value, rest)) :
    Reads lexeme (.string value) := by
  cases lexeme with
  | nil => simp at hhead
  | cons c tail =>
    obtain rfl : c = 34 := by simpa using hhead
    refine ⟨⟨34, tail, rfl, rfl⟩, fun fuel rest _ => ?_⟩
    rw [readValue, readScalar, h rest]
    simp

theorem reads_true : Reads [116, 114, 117, 101] (.boolean true) :=
  ⟨⟨116, _, rfl, rfl⟩, fun fuel rest _ => by simp [readValue, readScalar]⟩

theorem reads_false : Reads [102, 97, 108, 115, 101] (.boolean false) :=
  ⟨⟨102, _, rfl, rfl⟩, fun fuel rest _ => by simp [readValue, readScalar]⟩

structure Member where
  name : List UInt8
  lexeme : List UInt8
  value : Value

structure Member.Sound (m : Member) : Prop where
  name : m.name.all isPlain = true
  value : Reads m.lexeme m.value

def Member.write (m : Member) : List UInt8 := quoted m.name ++ 58 :: m.lexeme

def writeMembers : List Member → List UInt8
  | [] => []
  | [m] => m.write
  | m :: m' :: ms => m.write ++ 44 :: writeMembers (m' :: ms)

theorem skipBlanks_cons (c : UInt8) (rest : List UInt8) (h : isBlank c = false) :
    skipBlanks (c :: rest) = c :: rest := by
  simp [skipBlanks, h]

theorem Reads.skipBlanks {lexeme : List UInt8} {value : Value} (h : Reads lexeme value)
    (rest : List UInt8) : JsonText.skipBlanks (lexeme ++ rest) = lexeme ++ rest := by
  obtain ⟨c, tail, rfl, hc⟩ := h.start
  exact skipBlanks_cons c _ hc

theorem readMembers_member {m : Member} (h : m.Sound) (fuel : Nat) {d : UInt8} (rest : List UInt8)
    (hd : d = 44 ∨ d = 125) :
    readMembers (fuel + 2) (m.write ++ d :: rest) =
      if d = 125 then some ([(m.name, m.value)], rest)
      else (readMembers (fuel + 1) (skipBlanks rest)).map
        (fun r => ((m.name, m.value) :: r.1, r.2)) := by
  have hsplit : m.write ++ d :: rest = quoted m.name ++ (58 :: (m.lexeme ++ d :: rest)) := by
    simp [Member.write]
  have hends : Ends (d :: rest) := ⟨d, rest, rfl, by rcases hd with rfl | rfl <;> simp⟩
  have hblank : isBlank d = false := by rcases hd with rfl | rfl <;> rfl
  rw [hsplit, readMembers, readString_quoted _ _ (List.all_eq_true.mp h.name)]
  simp only [Option.bind_eq_bind, Option.bind_some, skipBlanks_cons 58 _ rfl, expect, if_true,
    h.value.skipBlanks, h.value.read fuel _ hends, skipBlanks_cons d rest hblank]
  rcases hd with rfl | rfl
  · simp only [show ((44 : UInt8) = 125) = False from by decide, if_false,
      Option.bind_some, if_true]
    cases readMembers (fuel + 1) (skipBlanks rest) <;> rfl
  · rfl

theorem readMembers_write (ms : List Member) (hne : ms ≠ []) (h : ∀ m ∈ ms, m.Sound) (fuel : Nat)
    (rest : List UInt8) (hfuel : ms.length < fuel) :
    readMembers fuel (writeMembers ms ++ 125 :: rest) =
      some (ms.map (fun m => (m.name, m.value)), rest) := by
  induction ms generalizing fuel with
  | nil => exact absurd rfl hne
  | cons m ms ih =>
    obtain ⟨hm, hms⟩ := List.forall_mem_cons.mp h
    obtain ⟨k, rfl⟩ : ∃ k, fuel = k + 2 :=
      ⟨fuel - 2, by simp only [List.length_cons] at hfuel; omega⟩
    cases ms with
    | nil => exact (readMembers_member hm k rest (Or.inr rfl)).trans (if_pos rfl)
    | cons m' ms =>
      have hstart : skipBlanks (writeMembers (m' :: ms) ++ 125 :: rest) =
          writeMembers (m' :: ms) ++ 125 :: rest := by
        cases ms <;> simp [writeMembers, Member.write, quoted, skipBlanks, isBlank]
      have htail := ih (by simp) hms (k + 1) (by simp only [List.length_cons] at hfuel ⊢; omega)
      rw [writeMembers, List.append_assoc, List.cons_append, readMembers_member hm k _ (Or.inl rfl),
        if_neg (by decide), hstart, htail]
      rfl

theorem length_writeMembers (ms : List Member) : ms.length ≤ (writeMembers ms).length := by
  induction ms with
  | nil => simp
  | cons m ms ih =>
    cases ms with
    | nil => simp [writeMembers, Member.write, quoted]
    | cons m' ms =>
      simp only [writeMembers, List.length_append, List.length_cons] at ih ⊢
      omega

theorem readDocument_object (ms : List Member) (hne : ms ≠ []) (h : ∀ m ∈ ms, m.Sound) :
    readDocument (123 :: (writeMembers ms ++ [125])) =
      some (.object (ms.map (fun m => (m.name, m.value)))) := by
  have hlength := length_writeMembers ms
  have hread := readMembers_write ms hne h (123 :: (writeMembers ms ++ [125])).length [] (by
    simp only [List.length_cons, List.length_append, List.length_nil]
    omega)
  have hstart : ∃ rest, writeMembers ms ++ [125] = 34 :: rest := by
    cases ms with
    | nil => exact absurd rfl hne
    | cons m ms => cases ms <;> simp [writeMembers, Member.write, quoted]
  obtain ⟨rest, hrest⟩ := hstart
  have hskip : skipBlanks (writeMembers ms ++ [125]) = writeMembers ms ++ [125] := by
    rw [hrest]
    exact skipBlanks_cons 34 rest rfl
  have hexpect : expect 125 (writeMembers ms ++ [125]) = none := by
    rw [hrest]
    rfl
  rw [readDocument, skipBlanks_cons 123 _ rfl, readValue]
  simp only [List.head?_cons, if_true, List.tail_cons, hskip, hexpect]
  rw [hread]
  rfl

end Laminar.JsonText
