import Mathlib

/-! Computations that ask an oracle now and then whether to go on, and give up when it says so.
The oracle's answers are numbered in the order of the polls. -/
namespace Laminar
variable {α β γ : Type}

/-- A value or nothing, and the number of polls made so far. -/
def Polling (α : Type) : Type := (Nat → Bool) → Nat → Option α × Nat

namespace Polling

protected def pure (a : α) : Polling α := fun _ polls => (some a, polls)

protected def bind (x : Polling α) (f : α → Polling β) : Polling β := fun isRaised polls =>
  match x isRaised polls with
  | (none, polls) => (none, polls)
  | (some a, polls) => f a isRaised polls

instance : Monad Polling where
  pure := Polling.pure
  bind := Polling.bind

def poll : Polling Unit := fun isRaised polls =>
  (if isRaised polls then none else some (), polls + 1)

def giveUp : Polling α := fun _ polls => (none, polls)

def otherwise (x : Polling α) (a : α) : Polling α := fun isRaised polls =>
  (some ((x isRaised polls).1.getD a), (x isRaised polls).2)

/-- Some poll from `first` up to `last`, that one excluded, was answered true. -/
def Raised (isRaised : Nat → Bool) (first last : Nat) : Prop :=
  ∃ k, first ≤ k ∧ k < last ∧ isRaised k = true

theorem not_raised_self (isRaised : Nat → Bool) (first : Nat) : ¬ Raised isRaised first first := by
  rintro ⟨k, hk, hk', -⟩
  omega

theorem raised_split (isRaised : Nat → Bool) (first n m : Nat) :
    Raised isRaised first (first + (n + m)) ↔
      Raised isRaised first (first + n) ∨ Raised isRaised (first + n) (first + n + m) := by
  constructor
  · rintro ⟨k, hk, hk', hr⟩
    by_cases h : k < first + n
    · exact Or.inl ⟨k, hk, h, hr⟩
    · exact Or.inr ⟨k, Nat.le_of_not_lt h, by omega, hr⟩
  · rintro (⟨k, hk, hk', hr⟩ | ⟨k, hk, hk', hr⟩)
    · exact ⟨k, hk, by omega, hr⟩
    · exact ⟨k, by omega, by omega, hr⟩

theorem raised_one (isRaised : Nat → Bool) (first : Nat) :
    Raised isRaised first (first + 1) ↔ isRaised first = true := by
  constructor
  · rintro ⟨k, hk, hk', hr⟩
    obtain rfl : k = first := by omega
    exact hr
  · exact fun h => ⟨first, Nat.le_refl _, Nat.lt_succ_self _, h⟩

/-- `x` makes `n` polls and has the value `a`, unless one of them is answered true. -/
structure Yields (x : Polling α) (a : α) (n : Nat) : Prop where
  quiet : ∀ isRaised polls, ¬ Raised isRaised polls (polls + n) →
    x isRaised polls = (some a, polls + n)
  raised : ∀ isRaised polls, Raised isRaised polls (polls + n) → (x isRaised polls).1 = none

def GivesUp (x : Polling α) : Prop := ∀ isRaised polls, (x isRaised polls).1 = none

theorem bind_some {x : Polling α} {f : α → Polling β} {isRaised : Nat → Bool} {polls n : Nat}
    {a : α} (h : x isRaised polls = (some a, n)) : (x >>= f) isRaised polls = f a isRaised n := by
  change Polling.bind x f isRaised polls = _
  rw [Polling.bind, h]

theorem bind_none {x : Polling α} {f : α → Polling β} {isRaised : Nat → Bool} {polls : Nat}
    (h : (x isRaised polls).1 = none) : ((x >>= f) isRaised polls).1 = none := by
  change (Polling.bind x f isRaised polls).1 = none
  obtain ⟨n, hn⟩ : ∃ n, x isRaised polls = (none, n) := ⟨_, Prod.ext h rfl⟩
  rw [Polling.bind, hn]

instance : LawfulMonad Polling := LawfulMonad.mk' Polling
  (by
    intro α x
    funext isRaised polls
    change Polling.bind x Polling.pure isRaised polls = x isRaised polls
    rcases h : x isRaised polls with ⟨_ | a, n⟩ <;> simp only [Polling.bind, h, Polling.pure])
  (by intro α β a f; rfl)
  (by
    intro α β γ x f g
    funext isRaised polls
    change Polling.bind (Polling.bind x f) g isRaised polls =
      Polling.bind x (fun a => Polling.bind (f a) g) isRaised polls
    rcases h : x isRaised polls with ⟨_ | a, n⟩ <;> simp only [Polling.bind, h])

theorem map_apply (f : α → β) (x : Polling α) (isRaised : Nat → Bool) (polls : Nat) :
    (f <$> x) isRaised polls = ((x isRaised polls).1.map f, (x isRaised polls).2) := by
  change Polling.bind x (fun a => Polling.pure (f a)) isRaised polls = _
  rcases h : x isRaised polls with ⟨_ | a, n⟩ <;> simp only [Polling.bind, h, Polling.pure] <;> rfl

theorem otherwise_map (f : α → β) (x : Polling α) (a : α) :
    (f <$> x).otherwise (f a) = f <$> x.otherwise a := by
  funext isRaised polls
  rw [map_apply, Polling.otherwise, map_apply, Polling.otherwise, Option.getD_map, Option.map_some]

theorem GivesUp.bind {x : Polling α} (h : GivesUp x) (f : α → Polling β) : GivesUp (x >>= f) :=
  fun isRaised polls => bind_none (h isRaised polls)

theorem givesUp_giveUp : GivesUp (giveUp : Polling α) := fun _ _ => rfl

/-- A computation gives up when what comes after its first part does. -/
theorem GivesUp.after (x : Polling α) {f : α → Polling β} (h : ∀ a, GivesUp (f a)) :
    GivesUp (x >>= f) := by
  intro isRaised polls
  rcases hx : x isRaised polls with ⟨_ | a, n⟩
  · exact bind_none (congrArg Prod.fst hx)
  · rw [bind_some hx]
    exact h a isRaised n

/-- What gave up goes on with the value put in its place. -/
theorem GivesUp.otherwise {x : Polling α} {f : α → Polling β} {a : α} (h : GivesUp x)
    (hf : GivesUp (f a)) : GivesUp (x.otherwise a >>= f) := by
  intro isRaised polls
  have hx : x.otherwise a isRaised polls = (some a, (x isRaised polls).2) := by
    rw [Polling.otherwise, h isRaised polls, Option.getD_none]
  rw [bind_some hx]
  exact hf _ _

theorem Yields.pure (a : α) : Yields (pure a : Polling α) a 0 :=
  ⟨fun _ _ _ => rfl, fun isRaised polls h => absurd h (not_raised_self isRaised polls)⟩

theorem Yields.poll : Yields poll () 1 := by
  constructor
  · intro isRaised polls h
    rw [raised_one] at h
    rw [Polling.poll, if_neg h]
  · intro isRaised polls h
    rw [raised_one] at h
    rw [Polling.poll, if_pos h]

theorem Yields.bind {x : Polling α} {f : α → Polling β} {a : α} {b : β} {n m : Nat}
    (hx : Yields x a n) (hf : Yields (f a) b m) : Yields (x >>= f) b (n + m) := by
  constructor
  · intro isRaised polls h
    rw [raised_split, not_or] at h
    rw [bind_some (hx.quiet isRaised polls h.1), hf.quiet isRaised _ h.2, Nat.add_assoc]
  · intro isRaised polls h
    by_cases hn : Raised isRaised polls (polls + n)
    · exact bind_none (hx.raised isRaised polls hn)
    · rw [bind_some (hx.quiet isRaised polls hn)]
      exact hf.raised isRaised _ (((raised_split isRaised polls n m).mp h).resolve_left hn)

theorem Yields.otherwise {x : Polling α} {f : α → Polling β} {a d : α} {b : β} {n m : Nat}
    (hx : Yields x a n) (hf : Yields (f a) b m) (hd : GivesUp (f d)) :
    Yields (x.otherwise d >>= f) b (n + m) := by
  have hquiet : ∀ isRaised polls, ¬ Raised isRaised polls (polls + n) →
      x.otherwise d isRaised polls = (some a, polls + n) := by
    intro isRaised polls h
    rw [Polling.otherwise, hx.quiet isRaised polls h, Option.getD_some]
  constructor
  · intro isRaised polls h
    rw [raised_split, not_or] at h
    rw [bind_some (hquiet isRaised polls h.1), hf.quiet isRaised _ h.2, Nat.add_assoc]
  · intro isRaised polls h
    by_cases hn : Raised isRaised polls (polls + n)
    · have hx' : x.otherwise d isRaised polls = (some d, (x isRaised polls).2) := by
        rw [Polling.otherwise, hx.raised isRaised polls hn, Option.getD_none]
      rw [bind_some hx']
      exact hd _ _
    · rw [bind_some (hquiet isRaised polls hn)]
      exact hf.raised isRaised _ (((raised_split isRaised polls n m).mp h).resolve_left hn)

/-- A loop that builds its result up, each of its rounds making `n` polls. -/
theorem Yields.foldlM {f : β → α → Polling β} {g : β → α → β} {n : Nat}
    (h : ∀ b a, Yields (f b a) (g b a) n) (l : List α) (b : β) :
    Yields (l.foldlM f b) (l.foldl g b) (l.length * n) := by
  induction l generalizing b with
  | nil =>
    rw [List.foldlM_nil, List.foldl_nil, List.length_nil, Nat.zero_mul]
    exact Yields.pure b
  | cons a rest ih =>
    rw [List.foldlM_cons, List.foldl_cons, List.length_cons, Nat.succ_mul, Nat.add_comm]
    exact (h b a).bind (ih _)

/-- A loop that polls once before each of its rounds. -/
theorem Yields.pollLoop (g : β → α → β) (l : List α) (b : β) :
    Yields (l.foldlM (fun b a => do Polling.poll; Pure.pure (g b a)) b) (l.foldl g b)
      l.length := by
  have hround : ∀ b a, Yields (do Polling.poll; Pure.pure (g b a)) (g b a) (1 + 0) :=
    fun b a => Yields.poll.bind (Yields.pure (g b a))
  have hloop := Yields.foldlM hround l b
  rwa [Nat.mul_one] at hloop

/-- A loop that answers element by element. -/
theorem Yields.mapM {f : α → Polling β} {g : α → β} (l : List α)
    (h : ∀ a ∈ l, ∃ n, Yields (f a) (g a) n) : ∃ n, Yields (l.mapM f) (l.map g) n := by
  induction l with
  | nil =>
    rw [List.mapM_nil]
    exact ⟨0, Yields.pure []⟩
  | cons a rest ih =>
    obtain ⟨n, hn⟩ := h a List.mem_cons_self
    obtain ⟨m, hm⟩ := ih (fun b hb => h b (List.mem_cons_of_mem a hb))
    rw [List.mapM_cons, List.map_cons]
    exact ⟨_, hn.bind (hm.bind (Yields.pure _))⟩

end Polling

end Laminar
