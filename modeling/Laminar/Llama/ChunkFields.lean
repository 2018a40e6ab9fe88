import Laminar.Llama.RequestBody
import Laminar.Llama.RoundTrip

/-! Flat JSON objects and the fields that `ParseLlamaServerChunk` picks out of them. A field is
found by searching for its quoted name, so a string value equal to the name is found as well. -/
namespace Laminar.Llama
open Laminar.Lines Laminar.JsonText Laminar.Decimal

inductive Scalar where
  | string (value : Bytes)
  | integer (negative : Bool) (magnitude : Nat)
  | boolean (value : Bool)
  | null
deriving DecidableEq

def Scalar.write : Scalar → Bytes
  | .string value => quoted value
  | .integer negative magnitude => (if negative then [45] else []) ++ digits magnitude
  | .boolean value => boolToJson value
  | .null => text "null"

/-- Strings need no escape and integers have 32 bits. -/
def Scalar.Simple : Scalar → Prop
  | .string value => ∀ c ∈ value, isPlain c = true
  | .integer negative magnitude => magnitude < 2 ^ 31 ∨ (negative = true ∧ magnitude = 2 ^ 31)
  | .boolean _ => True
  | .null => True

instance : DecidablePred Scalar.Simple
  | .string value => inferInstanceAs (Decidable (∀ c ∈ value, isPlain c = true))
  | .integer negative magnitude =>
    inferInstanceAs (Decidable (magnitude < 2 ^ 31 ∨ (negative = true ∧ magnitude = 2 ^ 31)))
  | .boolean _ => inferInstanceAs (Decidable True)
  | .null => inferInstanceAs (Decidable True)

def Scalar.string? : Scalar → Option Bytes
  | .string value => some value
  | _ => none

def Scalar.integer? : Scalar → Option Int
  | .integer negative magnitude => some (if negative then -(magnitude : Int) else magnitude)
  | _ => none

/-- A member with the blanks around its parts. `key` is the name as it is written, which may
use escapes. -/
structure Entry where
  key : Bytes
  name : Bytes
  value : Scalar
  beforeKey : Bytes
  afterKey : Bytes
  beforeValue : Bytes
  afterValue : Bytes
  named : readString (quoted key) = some (name, [])
  simple : value.Simple
  blank : ∀ c ∈ beforeKey ++ afterKey ++ beforeValue ++ afterValue, isBlank c = true

def continued : List Entry → Bytes
  | [] => [125]
  | e :: rest =>
    44 :: (e.beforeKey ++ (quoted e.key ++ (e.afterKey ++ 58 :: (e.beforeValue ++
      (e.value.write ++ (e.afterValue ++ continued rest))))))

def Entry.behindColon (e : Entry) (rest : List Entry) : Bytes :=
  e.beforeValue ++ (e.value.write ++ (e.afterValue ++ continued rest))

/-- A flat object: blanks may stand around it, and inside it where it has no member. -/
structure FlatObject where
  entries : List Entry
  before : Bytes
  inside : Bytes
  after : Bytes
  blank : ∀ c ∈ before ++ inside ++ after, isBlank c = true
  distinct : (entries.map Entry.name).Nodup

def FlatObject.core (o : FlatObject) : Bytes :=
  match o.entries with
  | [] => 123 :: (o.inside ++ [125])
  | e :: rest => 123 :: (continued (e :: rest)).tail

def FlatObject.text (o : FlatObject) : Bytes := o.before ++ o.core ++ o.after

def FlatObject.member (o : FlatObject) (field : Bytes) : Option Scalar :=
  (o.entries.find? (fun e => e.name = field)).map Entry.value

/-- What `ParseLlamaServerChunk` is meant to read from the object. -/
def FlatObject.chunk (o : FlatObject) : LlamaServerChunk :=
  let content := (o.member (Laminar.text "content")).bind Scalar.string?
  { hasContent := content.isSome
    content := content.getD []
    tokensPredicted :=
      ((o.member (Laminar.text "tokens_predicted")).bind Scalar.integer?).getD (-1)
    tokensEvaluated :=
      ((o.member (Laminar.text "tokens_evaluated")).bind Scalar.integer?).getD (-1) }

def ownText (field : Bytes) : List Entry → Option Bytes
  | [] => none
  | e :: rest => if e.name = field then some (e.behindColon rest) else ownText field rest

/-- The quoted name occurs in the key as it is written: the key is the name, or ends in an
escaped quote and the name. -/
def Entry.shows (e : Entry) (field : Bytes) : Bool :=
  decide (e.key = field) || (34 :: field).isSuffixOf e.key

/-- The first place where the quoted name occurs leads to the member with that name: it is its
key, or the string value right before it, or there is no such member and no colon follows. -/
def ReadsOwn (field : Bytes) : List Entry → Prop
  | [] => True
  | e :: rest =>
    if e.shows field then e.name = field
    else if e.value = .string field then
      e.name ≠ field ∧ ∀ e' ∈ rest.head?, e'.name = field
    else e.name ≠ field ∧ ReadsOwn field rest

def isWord (field : Bytes) : Bool :=
  field ≠ [] && field.all (fun c => (97 ≤ c && c ≤ 122) || c == 95)

def behindName (field json : Bytes) : Option Bytes :=
  (find (quoted field) json).map (fun pos => json.drop (pos + (quoted field).length))

def behindColon (json : Bytes) : Option Bytes :=
  (find [58] json).map (fun pos => json.drop (pos + 1))

theorem fieldText_eq (json field : Bytes) :
    fieldText json field = (behindName field json).bind behindColon := by
  have hkey : text "\"" ++ field ++ text "\"" = quoted field := by simp [text_quote, quoted]
  have hcolon : text ":" = [58] := rfl
  simp only [fieldText, hkey, hcolon, behindName]
  cases find (quoted field) json with
  | none => rfl
  | some pos =>
    simp only [Option.map_some, Option.bind_some, behindColon]
    cases find [58] (json.drop (pos + (quoted field).length)) <;> rfl

theorem behindColon_skip (xs ys : Bytes) (h : 58 ∉ xs) :
    behindColon (xs ++ ys) = behindColon ys := by
  rw [behindColon, find_skip_absent 58 [] xs ys h, Option.map_map, behindColon]
  refine congrArg (fun f => (find [58] ys).map f) (funext fun n => ?_)
  have hdrop : (xs ++ ys).drop (n + xs.length + 1) = ys.drop (n + 1) := by
    rw [show n + xs.length + 1 = xs.length + (n + 1) by omega, List.drop_length_add_append]
  exact hdrop

theorem behindColon_here (ys : Bytes) : behindColon (58 :: ys) = some ys := by
  simp [behindColon, find]

theorem behindName_skip (field xs ys : Bytes)
    (h : ∀ i < xs.length, ¬ quoted field <+: xs.drop i ++ ys) :
    behindName field (xs ++ ys) = behindName field ys := by
  rw [behindName, find_skip _ xs ys h, Option.map_map, behindName]
  refine congrArg (fun f => (find (quoted field) ys).map f) (funext fun n => ?_)
  have hdrop : (xs ++ ys).drop (n + xs.length + (quoted field).length) =
      ys.drop (n + (quoted field).length) := by
    rw [show n + xs.length + (quoted field).length =
        xs.length + (n + (quoted field).length) by omega,
      List.drop_length_add_append]
  exact hdrop

theorem behindName_unquoted (field xs ys : Bytes) (h : 34 ∉ xs) :
    behindName field (xs ++ ys) = behindName field ys := by
  refine behindName_skip field xs ys fun i hi hp => h ?_
  rw [List.drop_eq_getElem_cons hi, List.cons_append, quoted] at hp
  rw [(List.cons_prefix_cons.mp hp).1]
  exact List.getElem_mem hi

theorem behindName_here (field ys : Bytes) : behindName field (quoted field ++ ys) = some ys := by
  rw [behindName, find_start]
  simp

theorem isWord_spec {field : Bytes} (h : isWord field = true) :
    field ≠ [] ∧ ∀ c ∈ field, c ≠ 34 ∧ c ≠ 92 ∧ c ≠ 58 ∧ c ≠ 44 ∧ c ≠ 125 ∧ isBlank c = false := by
  simp only [isWord, Bool.and_eq_true, decide_eq_true_eq, List.all_eq_true, Bool.or_eq_true,
    beq_iff_eq] at h
  refine ⟨h.1, fun c hc => ?_⟩
  have hrange := h.2 c hc
  simp only [isBlank]
  grind

/-- What the text may go on with behind a string literal: no letter. -/
def Parted (rest : Bytes) : Prop :=
  ∀ c ∈ rest.head?, c = 58 ∨ c = 44 ∨ c = 125 ∨ isBlank c = true

/-- An occurrence of the quoted name that starts in a literal ends with the literal. -/
theorem occurrence_end {field key name rest : Bytes} (hword : isWord field = true)
    (hnamed : readString (quoted key) = some (name, [])) (hrest : Parted rest) {i : Nat}
    (hi : i < (quoted key).length) (h : quoted field <+: (quoted key).drop i ++ rest) :
    (quoted key).drop i = quoted field := by
  obtain ⟨hne, hchars⟩ := isWord_spec hword
  have hlast : ((quoted key).drop i).getLast? = some 34 := by
    rw [List.getLast?_drop, if_neg (by omega), quoted, ← List.cons_append, List.getLast?_concat]
  have hquote : 34 ∉ field := fun hmem => (hchars 34 hmem).1 rfl
  rcases List.prefix_or_prefix_of_prefix h (List.prefix_append _ rest) with hin | hout
  · obtain ⟨more, hmore⟩ := hin
    rcases List.eq_nil_or_concat' more with rfl | ⟨more', d, rfl⟩
    · rw [← hmore, List.append_nil]
    -- a quote inside the literal stands behind a backslash, and the name ends in none
    obtain rfl : d = 34 := by
      rw [← hmore] at hlast
      simpa using hlast
    have hsplit := List.take_append_drop i (quoted key)
    rw [← hmore] at hsplit
    generalize (quoted key).take i = before at hsplit
    have hkey : (before ++ 34 :: field) ++ 34 :: more' = 34 :: key := by
      have hsame : ((before ++ 34 :: field) ++ 34 :: more') ++ [34] = (34 :: key) ++ [34] := by
        rw [List.cons_append, ← quoted, ← hsplit]
        simp [quoted]
      exact List.append_cancel_right hsame
    obtain ⟨b, hb, hfield⟩ : ∃ b, key = b ++ 34 :: more' ∧ b.getLast? = field.getLast? := by
      cases before with
      | nil => exact ⟨field, (List.cons.inj hkey).2.symm, rfl⟩
      | cons d before =>
        refine ⟨(before ++ [34]) ++ field, ?_, List.getLast?_append_of_ne_nil _ hne⟩
        rw [← (List.cons.inj hkey).2]
        simp
    have hslash := (readString_legal hnamed).1 b more' hb
    rw [hfield] at hslash
    exact absurd rfl (hchars 92 (List.mem_of_getLast? hslash)).2.1
  · obtain ⟨more, hmore⟩ := hout
    rcases List.eq_nil_or_concat' more with rfl | ⟨more', d, rfl⟩
    · rw [← hmore, List.append_nil]
    cases hdrop : (quoted key).drop i with
    | nil => simp [hdrop] at hlast
    | cons x xs =>
      rw [hdrop] at hmore hlast h
      have hsplit : xs ++ more' = field := by
        have htail : xs ++ (more' ++ [d]) = field ++ [34] := (List.cons.inj hmore).2
        rw [← List.append_assoc] at htail
        exact (List.append_inj' htail rfl).1
      obtain rfl : xs = [] := by
        by_contra hxs
        rw [List.getLast?_cons_of_ne_nil hxs] at hlast
        exact hquote (hsplit ▸ List.mem_append_left _ (List.mem_of_getLast? hlast))
      have hhead : field ++ [34] <+: rest := (List.cons_prefix_cons.mp h).2
      obtain ⟨f, fs, rfl⟩ := List.exists_cons_of_ne_nil hne
      obtain ⟨tail, htail⟩ := hhead
      have hparted := hrest f (by rw [← htail]; rfl)
      have hf := hchars f (by simp)
      simp [hf.2.2.1, hf.2.2.2.1, hf.2.2.2.2.1, hf.2.2.2.2.2] at hparted

def shows (key field : Bytes) : Prop := key = field ∨ 34 :: field <:+ key

theorem Entry.shows_iff (e : Entry) (field : Bytes) :
    e.shows field = true ↔ Llama.shows e.key field := by
  simp [Entry.shows, Llama.shows]

theorem behindName_found {field key name rest : Bytes} (hword : isWord field = true)
    (hnamed : readString (quoted key) = some (name, [])) (hrest : Parted rest)
    (h : shows key field) : behindName field (quoted key ++ rest) = some rest := by
  rcases h with rfl | ⟨before, hkey⟩
  · exact behindName_here key rest
  have hsplit : quoted key = (34 :: before) ++ quoted field := by
    simp [quoted, ← hkey]
  rw [hsplit, List.append_assoc, behindName_skip, behindName_here]
  intro i hi hp
  have hlt : i < (quoted key).length := by
    rw [hsplit, List.length_append]
    omega
  have hdrop : (quoted key).drop i = (34 :: before).drop i ++ quoted field := by
    rw [hsplit, List.drop_append_of_le_length (by omega)]
  have hend := occurrence_end hword hnamed hrest hlt (by rwa [hdrop, List.append_assoc])
  have hlength := congrArg List.length (hdrop.symm.trans hend)
  rw [List.length_append, List.length_drop] at hlength
  omega

theorem behindName_passed {field key name rest : Bytes} (hword : isWord field = true)
    (hnamed : readString (quoted key) = some (name, [])) (hrest : Parted rest)
    (h : ¬ shows key field) :
    behindName field (quoted key ++ rest) = behindName field rest := by
  refine behindName_skip field _ rest fun i hi hp => h ?_
  have hend := occurrence_end hword hnamed hrest hi hp
  cases i with
  | zero =>
    have hbody : key ++ [34] = field ++ [34] := (List.cons.inj hend).2
    exact Or.inl (List.append_cancel_right hbody)
  | succ i =>
    refine Or.inr ⟨key.take i, ?_⟩
    have hi' : i ≤ key.length := by
      simp only [quoted, List.length_cons, List.length_append, List.length_nil] at hi
      omega
    have hbody : key.drop i ++ [34] = (34 :: field) ++ [34] := by
      rw [quoted, List.drop_succ_cons, List.drop_append_of_le_length hi'] at hend
      exact hend
    rw [← List.append_cancel_right hbody, List.take_append_drop]

theorem isBlank_ne {c : UInt8} (h : isBlank c = true) : c ≠ 34 ∧ c ≠ 58 := by
  simp only [isBlank, Bool.or_eq_true, beq_iff_eq] at h
  rcases h with ((rfl | rfl) | rfl) | rfl <;> decide

theorem unquoted_of_blank {blanks : Bytes} (h : ∀ c ∈ blanks, isBlank c = true) :
    34 ∉ blanks ∧ 58 ∉ blanks :=
  ⟨fun hmem => (isBlank_ne (h 34 hmem)).1 rfl, fun hmem => (isBlank_ne (h 58 hmem)).2 rfl⟩

theorem Parted.blanks {blanks rest : Bytes} (h : ∀ c ∈ blanks, isBlank c = true)
    (hrest : Parted rest) : Parted (blanks ++ rest) := by
  cases blanks with
  | nil => exact hrest
  | cons b blanks =>
    intro c hc
    obtain rfl : b = c := by simpa using hc
    exact Or.inr (Or.inr (Or.inr (h b (by simp))))

theorem Parted.of_head {c : UInt8} (rest : Bytes) (h : c = 58 ∨ c = 44 ∨ c = 125) :
    Parted (c :: rest) := by
  intro d hd
  obtain rfl : c = d := by simpa using hd
  rcases h with h | h | h <;> simp [h]

theorem parted_continued (rest : List Entry) : Parted (continued rest) := by
  cases rest with
  | nil => exact Parted.of_head [] (by simp)
  | cons e rest => exact Parted.of_head _ (by simp)

theorem Entry.blanks (e : Entry) :
    (∀ c ∈ e.beforeKey, isBlank c = true) ∧ (∀ c ∈ e.afterKey, isBlank c = true) ∧
      (∀ c ∈ e.beforeValue, isBlank c = true) ∧ (∀ c ∈ e.afterValue, isBlank c = true) := by
  have h := e.blank
  simp only [List.mem_append, or_assoc] at h
  exact ⟨fun c hc => h c (Or.inl hc), fun c hc => h c (Or.inr (Or.inl hc)),
    fun c hc => h c (Or.inr (Or.inr (Or.inl hc))), fun c hc => h c (Or.inr (Or.inr (Or.inr hc)))⟩

theorem digits_unquoted (n : Nat) : 34 ∉ digits n ∧ 58 ∉ digits n := by
  refine ⟨fun h => ?_, fun h => ?_⟩
  · exact absurd (digits_range n 34 h).1 (by decide)
  · exact absurd (digits_range n 58 h).2 (by decide)

/-- A value shows the name only as a string equal to it. -/
theorem Scalar.behindName {field rest : Bytes} (hword : isWord field = true) (hrest : Parted rest)
    {value : Scalar} (h : value.Simple) :
    Llama.behindName field (value.write ++ rest) =
      if value = .string field then some rest else Llama.behindName field rest := by
  cases value with
  | string s =>
    have hnamed : readString (quoted s) = some (s, []) := by
      simpa using readString_quoted s [] h
    by_cases hs : s = field
    · rw [if_pos (by rw [hs])]
      exact behindName_found hword hnamed hrest (Or.inl hs)
    · rw [if_neg (by simpa using hs)]
      refine behindName_passed hword hnamed hrest ?_
      rintro (heq | ⟨before, hbefore⟩)
      · exact hs heq
      · have hquote := h 34 (by rw [← hbefore]; simp)
        exact absurd hquote (by decide)
  | integer negative magnitude =>
    rw [if_neg (by simp)]
    refine behindName_unquoted field _ rest ?_
    cases negative <;> simp [Scalar.write, (digits_unquoted magnitude).1]
  | boolean value =>
    rw [if_neg (by simp)]
    refine behindName_unquoted field _ rest ?_
    cases value <;> decide
  | null =>
    rw [if_neg (by simp)]
    exact behindName_unquoted field _ rest (by decide)

end Laminar.Llama
