import Spvirit.Foundation.Fallible

/-! Computations on machine words: an overflow or an access out of range panics. -/

/-- How a computation on machine words stops short. -/
inductive Stop (ε : Type) where
  | panic
  | error (e : ε)

namespace Machine

open Fallible

variable {σ ε α β : Type}

/-- The numbers a word can hold are below this. -/
def wordBound : Nat := 2 ^ 64

def fail (e : ε) : Fallible σ (Stop ε) α := throw (.error e)

/-- A computation that does not panic. -/
def lift (m : Fallible σ ε α) : Fallible σ (Stop ε) α := fun s => ((m s).1.mapError .error, (m s).2)

def add (a b : Nat) : Fallible σ (Stop ε) Nat := if a + b < wordBound then pure (a + b) else throw .panic

def sub (a b : Nat) : Fallible σ (Stop ε) Nat := if b ≤ a then pure (a - b) else throw .panic

def index (xs : List α) (i : Nat) : Fallible σ (Stop ε) α :=
  match xs[i]? with
  | some x => pure x
  | none => throw .panic

def sliceFrom (xs : List α) (start : Nat) : Fallible σ (Stop ε) (List α) :=
  if start ≤ xs.length then pure (xs.drop start) else throw .panic

def slice (xs : List α) (start stop : Nat) : Fallible σ (Stop ε) (List α) :=
  if start ≤ stop ∧ stop ≤ xs.length then pure ((xs.drop start).take (stop - start)) else throw .panic

/-- A panic passes every handler. -/
def passes (hard : ε → Bool) : Stop ε → Bool
  | .panic => true
  | .error e => hard e

section

variable {f : α → Fallible σ (Stop ε) β} {g : Nat → Fallible σ (Stop ε) β} {h : List α → Fallible σ (Stop ε) β}
  {a b start stop : Nat} {xs : List α} {x : α}

theorem add_bind (fits : a + b < 2 ^ 64) : (add a b >>= g) = g (a + b) := by
  rw [add, wordBound, if_pos fits]
  rfl

theorem sub_bind (fits : b ≤ a) : (sub a b >>= g) = g (a - b) := by
  rw [sub, if_pos fits]
  rfl

theorem index_bind {i : Nat} (found : xs[i]? = some x) : (index xs i >>= f) = f x := by
  rw [index, found]
  rfl

theorem sliceFrom_bind (inside : start ≤ xs.length) : (sliceFrom xs start >>= h) = h (xs.drop start) := by
  rw [sliceFrom, if_pos inside]
  rfl

theorem slice_bind (ordered : start ≤ stop) (inside : stop ≤ xs.length) :
    (slice xs start stop >>= h) = h ((xs.drop start).take (stop - start)) := by
  rw [slice, if_pos ⟨ordered, inside⟩]
  rfl

end

section

variable {m : Fallible σ ε α} {f : α → Fallible σ ε β} {g : Fallible σ (Stop ε) α} {h : α → Fallible σ (Stop ε) β}
  {hard : ε → Bool} {s : σ}

theorem lift_ok {a : α} {t : σ} (returned : m s = (.ok a, t)) : lift m s = (.ok a, t) := by
  rw [lift, returned]
  rfl

theorem lift_error {e : ε} {t : σ} (failed : m s = (.error e, t)) : lift m s = (.error (.error e), t) := by
  rw [lift, failed]
  rfl

/-- The same first step, and the same next one after each of its results. -/
theorem bind_lift (first : g s = lift m s) (next : ∀ a t, m s = (.ok a, t) → h a t = lift (f a) t) :
    (g >>= h) s = lift (m >>= f) s := by
  rcases result : m s with ⟨_ | a, t⟩
  · rw [lift_error result] at first
    rw [bind_error first, lift_error (bind_error result)]
  · rw [lift_ok result] at first
    rw [bind_ok first, next a t result, lift, lift, bind_ok result]

theorem bindExcept_lift {r : Except ε α} (first : g s = lift (ofExcept r) s)
    (next : ∀ a, r = .ok a → h a s = lift (f a) s) : (g >>= h) s = lift (ofExcept r >>= f) s := by
  refine bind_lift first fun a t result => ?_
  obtain ⟨returned, rfl⟩ := Prod.mk.inj result
  exact next a returned

theorem attempt_lift (same : g s = lift m s) : attempt (passes hard) g s = lift (attempt hard m) s := by
  rcases result : m s with ⟨e | a, t⟩
  · rw [lift_error result] at same
    cases severity : hard e with
    | true => rw [attempt_hard same (by exact severity), lift_error (attempt_hard result severity)]
    | false => rw [attempt_soft same (by exact severity), lift_ok (attempt_soft result severity)]
  · rw [lift_ok result] at same
    rw [attempt_ok same, lift_ok (attempt_ok result)]

end

end Machine
