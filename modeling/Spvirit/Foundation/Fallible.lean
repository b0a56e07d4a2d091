import Mathlib.Tactic

/-! Computations over mutable cells that return or fail. The cells keep what was done before a failure. -/

/-- A computation over cells of type `σ` that fails with an `ε`. -/
def Fallible (σ ε α : Type) : Type := σ → Except ε α × σ

namespace Fallible

variable {σ ε α β : Type}

instance : Monad (Fallible σ ε) where
  pure a := fun s => (.ok a, s)
  bind m f := fun s =>
    match m s with
    | (.ok a, t) => f a t
    | (.error e, t) => (.error e, t)

def throw (e : ε) : Fallible σ ε α := fun s => (.error e, s)

def get : Fallible σ ε σ := fun s => (.ok s, s)

def modify (f : σ → σ) : Fallible σ ε Unit := fun s => (.ok (), f s)

/-- A computation that touches no cell. -/
def ofExcept (r : Except ε α) : Fallible σ ε α := fun s => (r, s)

/-- A failure that is not hard counts as no result. -/
def attempt (hard : ε → Bool) (m : Fallible σ ε α) : Fallible σ ε (Option α) := fun s =>
  match m s with
  | (.ok a, t) => (.ok (some a), t)
  | (.error e, t) => if hard e then (.error e, t) else (.ok none, t)

section

variable {m : Fallible σ ε α} {f : α → Fallible σ ε β} {s t : σ} {a : α} {e : ε} {hard : ε → Bool}

@[simp] theorem pure_apply : (pure a : Fallible σ ε α) s = (.ok a, s) := rfl

@[simp] theorem ofExcept_apply (r : Except ε α) : (ofExcept r : Fallible σ ε α) s = (r, s) := rfl

theorem bind_ok (returned : m s = (.ok a, t)) : (m >>= f) s = f a t := by
  change (match m s with | (.ok a, t) => f a t | (.error e, t) => (.error e, t)) = f a t
  rw [returned]

theorem bind_error (failed : m s = (.error e, t)) : (m >>= f) s = (.error e, t) := by
  change (match m s with | (.ok a, t) => f a t | (.error e, t) => (.error e, t)) = (.error e, t)
  rw [failed]

/-- A sequence that fails does so in its first or in its second part. -/
theorem error_of_bind (failed : (m >>= f) s = (.error e, t)) :
    m s = (.error e, t) ∨ ∃ a u, m s = (.ok a, u) ∧ f a u = (.error e, t) := by
  rcases result : m s with ⟨r, u⟩
  cases r with
  | ok a => exact Or.inr ⟨a, u, rfl, (bind_ok result).symm.trans failed⟩
  | error e' =>
    cases (@bind_error _ _ _ _ m f _ _ _ result).symm.trans failed
    exact Or.inl rfl

@[simp] theorem pure_bind : (pure a >>= f : Fallible σ ε β) = f a := rfl

@[simp] theorem ofExcept_ok_bind : (ofExcept (.ok a) >>= f : Fallible σ ε β) = f a := rfl

theorem attempt_ok (returned : m s = (.ok a, t)) : attempt hard m s = (.ok (some a), t) := by
  rw [attempt, returned]

theorem attempt_soft (failed : m s = (.error e, t)) (soft : hard e = false) : attempt hard m s = (.ok none, t) := by
  rw [attempt, failed]
  simp [soft]

theorem attempt_hard (failed : m s = (.error e, t)) (isHard : hard e = true) :
    attempt hard m s = (.error e, t) := by
  rw [attempt, failed]
  simp [isHard]

end

section

variable {m : Fallible σ ε α} {f : α → Fallible σ ε β} {a : α} {e : ε} {hard : ε → Bool} {post : α → Prop}
  {post' : β → Prop}

/-- Whatever the computation returns meets its postcondition, from any cells. -/
def Returns (m : Fallible σ ε α) (post : α → Prop) : Prop := ∀ s a t, m s = (.ok a, t) → post a

theorem Returns.pure (holds : post a) : Returns (pure a : Fallible σ ε α) post := fun _ _ _ result => by
  cases result
  exact holds

theorem Returns.throw : Returns (throw e : Fallible σ ε α) post := fun s b t result => by cases result

theorem Returns.ofExcept {r : Except ε α} (holds : ∀ a, r = .ok a → post a) :
    Returns (ofExcept r : Fallible σ ε α) post := fun _ b _ result => holds b (congrArg Prod.fst result)

theorem Returns.always (holds : ∀ a, post a) : Returns m post := fun _ a _ _ => holds a

theorem Returns.weaken {weaker : α → Prop} (returns : Returns m post) (implies : ∀ a, post a → weaker a) :
    Returns m weaker := fun s a t result => implies a (returns s a t result)

theorem Returns.and {other : α → Prop} (returns : Returns m post) (too : Returns m other) :
    Returns m fun a => post a ∧ other a := fun s a t result => ⟨returns s a t result, too s a t result⟩

theorem Returns.bind (first : Returns m post) (next : ∀ a, post a → Returns (f a) post') :
    Returns (m >>= f) post' := fun s b u result => by
  rcases returned : m s with ⟨r, t⟩
  cases r with
  | ok a => exact next a (first s a t returned) t b u ((bind_ok returned).symm.trans result)
  | error e => cases (bind_error returned).symm.trans result

theorem Returns.skip (next : ∀ a, Returns (f a) post') : Returns (m >>= f) post' :=
  (Returns.always fun _ => trivial).bind fun a _ => next a

theorem Returns.bindExcept {r : Except ε α} (next : ∀ a, r = .ok a → Returns (f a) post') :
    Returns (Fallible.ofExcept r >>= f : Fallible σ ε β) post' :=
  (Returns.ofExcept fun _ h => h).bind next

theorem Returns.attempt (returns : Returns m post) : Returns (attempt hard m) fun o => ∀ a, o = some a → post a :=
  fun s o t result => by
    rcases returned : m s with ⟨r, u⟩
    cases r with
    | ok a =>
      cases (attempt_ok returned).symm.trans result
      rintro b ⟨⟩
      exact returns s a _ returned
    | error e =>
      cases severity : hard e with
      | true => cases (attempt_hard returned severity).symm.trans result
      | false =>
        cases (attempt_soft returned severity).symm.trans result
        simp

end

section

variable (hard : ε → Bool) (step : σ → σ → Prop) (fine : σ → Prop)

/-- Unless the outcome is a hard failure the cells are `fine`, and a result
meets its postcondition. -/
def Meets (post : α → σ → Prop) : Except ε α → σ → Prop
  | .ok a, t => fine t ∧ post a t
  | .error e, t => hard e = true ∨ fine t

/-- Whatever the outcome, the cells move along `step`. -/
structure Runs (m : Fallible σ ε α) (s : σ) (post : α → σ → Prop) : Prop where
  moves : step s (m s).2
  meets : Meets hard fine post (m s).1 (m s).2

variable {hard step fine} {m : Fallible σ ε α} {f : α → Fallible σ ε β} {s : σ}
  {post : α → σ → Prop} {post' : β → σ → Prop}

theorem Runs.of_eq {r : Except ε α} {t : σ} (runs : Runs hard step fine m s post) (result : m s = (r, t)) :
    step s t ∧ Meets hard fine post r t := by
  have moves := runs.moves
  have meets := runs.meets
  rw [result] at moves meets
  exact ⟨moves, meets⟩

theorem runs_of_eq {r : Except ε α} {t : σ} (result : m s = (r, t)) (moves : step s t)
    (meets : Meets hard fine post r t) : Runs hard step fine m s post := by
  refine ⟨?_, ?_⟩ <;> rwa [result]

theorem Runs.weaken {post' : α → σ → Prop} (runs : Runs hard step fine m s post)
    (implies : ∀ a t, step s t → fine t → post a t → post' a t) : Runs hard step fine m s post' := by
  rcases result : m s with ⟨r, t⟩
  obtain ⟨moves, meets⟩ := runs.of_eq result
  refine runs_of_eq result moves ?_
  cases r with
  | ok a => exact ⟨meets.1, implies a t moves meets.1 meets.2⟩
  | error e => exact meets

theorem Runs.attempt (runs : Runs hard step fine m s post) :
    Runs hard step fine (attempt hard m) s fun o t => ∀ a, o = some a → post a t := by
  rcases result : m s with ⟨r, t⟩
  obtain ⟨moves, meets⟩ := runs.of_eq result
  cases r with
  | ok a => exact runs_of_eq (attempt_ok result) moves ⟨meets.1, fun b same => Option.some.inj same ▸ meets.2⟩
  | error e =>
    cases severity : hard e with
    | true => exact runs_of_eq (attempt_hard result severity) moves (Or.inl severity)
    | false =>
      exact runs_of_eq (attempt_soft result severity) moves ⟨meets.resolve_left (by simp [severity]), by simp⟩

section

variable (reflexive : ∀ s, step s s)
include reflexive

theorem Runs.pure {a : α} (ok : fine s) (holds : post a s) : Runs hard step fine (pure a) s post :=
  ⟨reflexive s, ok, holds⟩

theorem Runs.throw {e : ε} (ok : fine s) : Runs hard step fine (throw e : Fallible σ ε α) s post :=
  ⟨reflexive s, Or.inr ok⟩

theorem Runs.ofExcept {r : Except ε α} (ok : fine s) (holds : ∀ a, r = .ok a → post a s) :
    Runs hard step fine (ofExcept r) s post := by
  refine runs_of_eq rfl (reflexive s) ?_
  cases r with
  | ok a => exact ⟨ok, holds a rfl⟩
  | error e => exact Or.inr ok

end

theorem Runs.bind (transitive : ∀ {s t u}, step s t → step t u → step s u) (first : Runs hard step fine m s post)
    (next : ∀ a t, step s t → fine t → post a t → Runs hard step fine (f a) t post') :
    Runs hard step fine (m >>= f) s post' := by
  rcases result : m s with ⟨r, t⟩
  obtain ⟨moves, meets⟩ := first.of_eq result
  cases r with
  | ok a =>
    rcases rest : f a t with ⟨r', u⟩
    have later := (next a t moves meets.1 meets.2).of_eq rest
    exact runs_of_eq ((bind_ok result).trans rest) (transitive moves later.1) later.2
  | error e => exact runs_of_eq (bind_error result) moves meets

end

section

variable {inv : σ → Prop} {m : Fallible σ ε α} {f : α → Fallible σ ε β} {a : α} {e : ε} {hard : ε → Bool}
  {post : α → Prop} {post' : β → Prop}

/-- From cells that satisfy `inv` the computation leaves such cells, whatever its
outcome, and what it returns meets its postcondition. -/
def Maintains (inv : σ → Prop) (m : Fallible σ ε α) (post : α → Prop) : Prop :=
  ∀ s, inv s → inv (m s).2 ∧ ∀ a, (m s).1 = .ok a → post a

theorem Maintains.pure (holds : post a) : Maintains inv (pure a : Fallible σ ε α) post :=
  fun _ ok => ⟨ok, fun _ same => Except.ok.inj same ▸ holds⟩

theorem Maintains.throw : Maintains inv (throw e : Fallible σ ε α) post :=
  fun _ ok => ⟨ok, fun _ same => by cases same⟩

theorem Maintains.ofExcept {r : Except ε α} (holds : ∀ a, r = .ok a → post a) :
    Maintains inv (ofExcept r : Fallible σ ε α) post := fun _ ok => ⟨ok, holds⟩

theorem Maintains.modify {g : σ → σ} (keeps : ∀ s, inv s → inv (g s)) :
    Maintains inv (modify g : Fallible σ ε Unit) fun _ => True :=
  fun s ok => ⟨keeps s ok, fun _ _ => trivial⟩

theorem Maintains.bind (first : Maintains inv m post) (next : ∀ a, post a → Maintains inv (f a) post') :
    Maintains inv (m >>= f) post' := fun s ok => by
  have before := first s ok
  rcases returned : m s with ⟨r, t⟩
  rw [returned] at before
  cases r with
  | ok a =>
    rw [bind_ok returned]
    exact next a (before.2 a rfl) t before.1
  | error e =>
    rw [bind_error returned]
    exact ⟨before.1, fun b same => by cases same⟩

theorem Maintains.bindExcept {r : Except ε α} (next : ∀ a, r = .ok a → Maintains inv (f a) post') :
    Maintains inv (Fallible.ofExcept r >>= f : Fallible σ ε β) post' :=
  (Maintains.ofExcept fun _ same => same).bind next

theorem Maintains.bindGet {f : σ → Fallible σ ε β} (next : ∀ s, inv s → Maintains inv (f s) post') :
    Maintains inv (get >>= f) post' := fun s ok => next s ok s ok

theorem Maintains.attempt (maintains : Maintains inv m post) :
    Maintains inv (attempt hard m) fun o => ∀ a, o = some a → post a := fun s ok => by
  have before := maintains s ok
  rcases returned : m s with ⟨r, t⟩
  rw [returned] at before
  cases r with
  | ok a =>
    rw [attempt_ok returned]
    exact ⟨before.1, fun o same b found => before.2 b (congrArg Except.ok (Option.some.inj (Except.ok.inj same ▸ found)))⟩
  | error e =>
    cases severity : hard e with
    | true =>
      rw [attempt_hard returned severity]
      exact ⟨before.1, fun o same => by cases same⟩
    | false =>
      rw [attempt_soft returned severity]
      exact ⟨before.1, fun o same b found => by cases same; cases found⟩

end

section

/-- The cells are changed once the computation is over, whatever its outcome. -/
def afterwards (m : Fallible σ ε α) (f : σ → σ) : Fallible σ ε α := fun s => ((m s).1, f (m s).2)

/-- The cells are changed where the computation fails. -/
def onError (m : Fallible σ ε α) (f : σ → σ) : Fallible σ ε α := fun s =>
  match m s with
  | (.ok a, t) => (.ok a, t)
  | (.error e, t) => (.error e, f t)

variable (step : σ → σ → Prop) (may : σ → Prop)

/-- Whatever the outcome, the cells move along `step`, and the computation fails only if the
cells satisfy `may`. -/
structure MovesFrom (m : Fallible σ ε α) (s : σ) : Prop where
  moved : step s (m s).2
  fails : ∀ e, (m s).1 = .error e → may s

def Moves (m : Fallible σ ε α) : Prop := ∀ s, MovesFrom step may m s

variable {step may} {m : Fallible σ ε α} {f : α → Fallible σ ε β} {g : σ → σ} {e : ε} {s t : σ}

theorem MovesFrom.of_ok {a : α} (result : m s = (.ok a, t)) (moved : step s t) : MovesFrom step may m s := by
  refine ⟨?_, ?_⟩ <;> rw [result]
  · exact moved
  · rintro e ⟨⟩

theorem MovesFrom.of_error (result : m s = (.error e, t)) (moved : step s t) (fails : may s) :
    MovesFrom step may m s := by
  refine ⟨?_, ?_⟩ <;> rw [result]
  · exact moved
  · exact fun _ _ => fails

/-- Where the computation may fail from any cells. -/
theorem Moves.of_moved (moved : ∀ s, step s (m s).2) : Moves step (fun _ => True) m :=
  fun s => ⟨moved s, fun _ _ => trivial⟩

theorem Moves.pure (reflexive : ∀ s, step s s) {a : α} : Moves step may (pure a : Fallible σ ε α) :=
  fun s => .of_ok rfl (reflexive s)

theorem Moves.modify (moves : ∀ s, step s (g s)) : Moves step may (modify g : Fallible σ ε Unit) :=
  fun s => .of_ok rfl (moves s)

theorem Moves.bindGet {f : σ → Fallible σ ε β} (next : ∀ s, MovesFrom step may (f s) s) : Moves step may (get >>= f) :=
  fun s => ⟨(next s).moved, (next s).fails⟩

section

variable (transitive : ∀ {s t u}, step s t → step t u → step s u) (back : ∀ {s t}, step s t → may t → may s)
include transitive back

/-- The rest may fail from cells only if the whole may from the cells before. -/
theorem MovesFrom.bind {post : α → Prop} (first : MovesFrom step may m s)
    (returns : Returns m post) (next : ∀ a, post a → ∀ t, step s t → MovesFrom step may (f a) t) :
    MovesFrom step may (m >>= f) s := by
  obtain ⟨moved, fails⟩ := first
  rcases result : m s with ⟨r, t⟩
  rw [result] at moved fails
  cases r with
  | ok a =>
    obtain ⟨later, laterFails⟩ := next a (returns s a t result) t moved
    rcases rest : f a t with ⟨r', u⟩
    rw [rest] at later laterFails
    have whole := (bind_ok result).trans rest
    cases r' with
    | ok b => exact .of_ok whole (transitive moved later)
    | error e => exact .of_error whole (transitive moved later) (back moved (laterFails e rfl))
  | error e => exact .of_error (bind_error result) moved (fails e rfl)

theorem Moves.bindReturns {post : α → Prop} (first : Moves step may m)
    (returns : Returns m post) (next : ∀ a, post a → Moves step may (f a)) : Moves step may (m >>= f) :=
  fun s => (first s).bind transitive back returns fun a holds t _ => next a holds t

theorem Moves.bind (first : Moves step may m) (next : ∀ a, Moves step may (f a)) : Moves step may (m >>= f) :=
  first.bindReturns transitive back (.always fun _ => trivial) fun a _ => next a

end

theorem onError_ok {s t : σ} {a : α} (returned : m s = (.ok a, t)) : onError m g s = (.ok a, t) := by
  rw [onError, returned]

theorem onError_error {s t : σ} (failed : m s = (.error e, t)) : onError m g s = (.error e, g t) := by
  rw [onError, failed]

end

end Fallible
