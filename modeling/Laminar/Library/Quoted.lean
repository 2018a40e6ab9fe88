import Mathlib

/-! Text between quotes, with an escape in front of every quote and escape in it, and how it is
read back out of a longer text. -/
namespace Laminar.Quoted
variable {α : Type*} [DecidableEq α] (escape quote : α)

def quoted (xs : List α) : List α :=
  xs.flatMap fun x => if x = escape ∨ x = quote then [escape, x] else [x]

/-- What comes before the first quote that no escape is in front of, and what comes after it. -/
def unquote : List α → Option (List α × List α)
  | [] => none
  | [x] => if x = quote then some ([], []) else none
  | x :: y :: rest =>
    if x = quote then some ([], y :: rest)
    else if x = escape then (unquote rest).map fun p => (y :: p.1, p.2)
    else (unquote (y :: rest)).map fun p => (x :: p.1, p.2)

def firstQuoted (text : List α) : Option (List α × List α) :=
  unquote escape quote ((text.dropWhile (· ≠ quote)).drop 1)

variable {escape quote}

theorem unquote_quote (rest : List α) : unquote escape quote (quote :: rest) = some ([], rest) := by
  cases rest <;> simp [unquote]

theorem unquote_escape (h : escape ≠ quote) (x : α) (rest : List α) :
    unquote escape quote (escape :: x :: rest) =
      (unquote escape quote rest).map fun p => (x :: p.1, p.2) := by
  rw [unquote, if_neg h, if_pos rfl]

theorem unquote_plain {x : α} (hescape : x ≠ escape) (hquote : x ≠ quote) {rest : List α}
    (hrest : rest ≠ []) :
    unquote escape quote (x :: rest) =
      (unquote escape quote rest).map fun p => (x :: p.1, p.2) := by
  cases rest with
  | nil => exact absurd rfl hrest
  | cons y rest => rw [unquote, if_neg hquote, if_neg hescape]

/-- Whatever the text is, it is read back, and the reading ends with it. -/
theorem unquote_quoted (h : escape ≠ quote) (xs rest : List α) :
    unquote escape quote (quoted escape quote xs ++ quote :: rest) = some (xs, rest) := by
  induction xs with
  | nil => exact unquote_quote rest
  | cons x xs ih =>
    rw [quoted, List.flatMap_cons, ← quoted, List.append_assoc]
    split_ifs with hx
    · rw [List.cons_append, List.singleton_append, unquote_escape h, ih]
      rfl
    · obtain ⟨hescape, hquote⟩ := not_or.mp hx
      rw [List.singleton_append, unquote_plain hescape hquote (by simp), ih]
      rfl

theorem quoted_plain {xs : List α} (h : ∀ x ∈ xs, x ≠ escape ∧ x ≠ quote) :
    quoted escape quote xs = xs := by
  induction xs with
  | nil => rfl
  | cons x xs ih =>
    obtain ⟨hescape, hquote⟩ := h x List.mem_cons_self
    have hrest := ih fun y hy => h y (List.mem_cons_of_mem x hy)
    rw [quoted, List.flatMap_cons, ← quoted, hrest, if_neg (not_or.mpr ⟨hescape, hquote⟩),
      List.singleton_append]

theorem firstQuoted_append (h : escape ≠ quote) {header : List α} (hheader : quote ∉ header)
    (xs rest : List α) :
    firstQuoted escape quote
      (header ++ quote :: (quoted escape quote xs ++ quote :: rest)) = some (xs, rest) := by
  have hdrop : (header ++ quote :: (quoted escape quote xs ++ quote :: rest)).dropWhile
      (· ≠ quote) = quote :: (quoted escape quote xs ++ quote :: rest) := by
    rw [List.dropWhile_append_of_pos fun x hx => by
      simpa using ne_of_mem_of_not_mem hx hheader]
    simp
  rw [firstQuoted, hdrop, List.drop_one, List.tail_cons, unquote_quoted h]

end Laminar.Quoted
