import Mathlib.Tactic

/-! Runs of a deterministic machine that can fault, with the positions they visit. -/

namespace Trace

variable {σ ℓ : Type*} (halted : σ → Bool) (pc : σ → ℓ) (step : σ → Option σ)

/-- The machine's loop; `none` is a fault or the end of the fuel. -/
def loop : Nat → σ → Option (σ × List ℓ)
  | 0, s => if halted s then some (s, []) else none
  | fuel + 1, s =>
    if halted s then some (s, [])
    else (step s).bind fun s' => (loop fuel s').map fun r => (r.1, pc s :: r.2)

/-- A finite run, with the positions of the steps it took. -/
inductive Run : σ → List ℓ → σ → Prop
  | refl (s : σ) : Run s [] s
  | step {s s' t : σ} {visited : List ℓ} : halted s = false → step s = some s' → Run s' visited t →
      Run s (pc s :: visited) t

variable {halted pc step} {s t u : σ} {before visited : List ℓ}

theorem Run.single (active : halted s = false) (next : step s = some t) : Run halted pc step s [pc s] t :=
  .step active next (.refl t)

theorem Run.trans (first : Run halted pc step s before t) (second : Run halted pc step t visited u) :
    Run halted pc step s (before ++ visited) u := by
  induction first with
  | refl => exact second
  | step active next _ ih => exact .step active next (ih second)

theorem Run.loop_eq {fuel : Nat} (run : Run halted pc step s visited t) (ended : halted t = true)
    (enough : visited.length ≤ fuel) : loop halted pc step fuel s = some (t, visited) := by
  induction run generalizing fuel with
  | refl => cases fuel <;> simp [loop, ended]
  | step active next _ ih =>
    obtain ⟨fuel, rfl⟩ : ∃ n, fuel = n + 1 := ⟨fuel - 1, by simp only [List.length_cons] at enough; omega⟩
    have rest := @ih fuel ended (by simpa using enough)
    simp [loop, active, next, rest]

/-- Positions visited in strictly rising order within `[lo, hi)`, none twice. -/
inductive Rising : Nat → Nat → List Nat → Prop
  | nil {lo hi : Nat} : lo ≤ hi → Rising lo hi []
  | cons {lo hi k : Nat} {visited : List Nat} : lo ≤ k → Rising (k + 1) hi visited → Rising lo hi (k :: visited)

namespace Rising

variable {lo mid hi : Nat} {before visited : List Nat}

theorem le (rising : Rising lo hi visited) : lo ≤ hi := by
  induction rising with
  | nil ordered => exact ordered
  | cons ordered _ ih => omega

theorem append (first : Rising lo mid before) (second : Rising mid hi visited) : Rising lo hi (before ++ visited) := by
  induction first with
  | @nil lo mid ordered =>
    cases second with
    | nil further => exact .nil (ordered.trans further)
    | cons start rest => exact .cons (ordered.trans start) rest
  | cons start _ ih => exact .cons start (ih second)

theorem length_le (rising : Rising lo hi visited) : visited.length ≤ hi - lo := by
  induction rising with
  | nil => simp
  | cons start rest ih =>
    have := rest.le
    simp only [List.length_cons]
    omega

theorem mem (rising : Rising lo hi visited) : ∀ k ∈ visited, lo ≤ k ∧ k < hi := by
  induction rising with
  | nil => simp
  | @cons lo hi k visited start rest ih =>
    have ordered := rest.le
    intro j member
    rcases List.mem_cons.mp member with rfl | later
    · omega
    · have := ih j later
      omega

theorem pairwise (rising : Rising lo hi visited) : visited.Pairwise (· < ·) := by
  induction rising with
  | nil => exact .nil
  | cons _ rest ih => exact .cons (fun j member => (rest.mem j member).1) ih

end Rising

end Trace
