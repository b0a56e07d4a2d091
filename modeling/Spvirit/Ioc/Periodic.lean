import Mathlib.Tactic

/-! The loop of a periodic scan thread on its grid of deadlines, in nanoseconds. The clock's readings, the
wake-ups and the durations of the passes are given. -/

namespace Spvirit.Ioc.Periodic

/-- The greatest number of a `u64`, where a deadline saturates. -/
def maxNanos : Nat := 2 ^ 64 - 1

def deadlineNanos (period n : Nat) : Nat := min (period * n) maxNanos

/-- The period of a thread and the instant it started at. -/
structure Grid where
  period : Nat
  start : Nat

/-- What one turn of the loop meets: whether the thread is to end, before the sleep and after
it, what the clock reads after the sleep, whether the scanner is still there, and what the
clock reads once the pass has ended. -/
structure Round where
  doneBefore : Bool
  doneAfter : Bool
  woke : Nat
  alive : Bool
  ended : Nat

/-- A pass: its tick, the reading it began at and the one taken when it had ended, and the
tick the loop goes on with. There is none if the counter has run out. -/
structure Pass where
  n : Nat
  began : Nat
  ended : Nat
  next : Option Nat
  deriving DecidableEq

namespace Grid

variable (grid : Grid)

def deadlineFor (n : Nat) : Nat := grid.start + deadlineNanos grid.period n

/-- Forward to the first deadline after the reading. -/
def catchUp (now n : Nat) : Option Nat :=
  if grid.deadlineFor n ≤ now then
    if n + 1 ≤ maxNanos then catchUp now (n + 1) else none
  else some n
termination_by maxNanos - n

/-- The tick after a pass that ended at the reading. -/
def advance (ended n : Nat) : Option Nat := if n + 1 ≤ maxNanos then grid.catchUp ended (n + 1) else none

/-- How a turn of the loop goes. -/
inductive Outcome where
  | stop
  | sleepAgain
  | pass (next : Option Nat)

def turn (n : Nat) (round : Round) : Outcome :=
  if round.doneBefore then .stop
  else if round.doneAfter then .stop
  else if round.woke < grid.deadlineFor n then .sleepAgain
  else if !round.alive then .stop
  else .pass (grid.advance round.ended n)

/-- The passes the loop runs from a tick on. -/
def periodicLoop : Nat → List Round → List Pass
  | _, [] => []
  | n, round :: rest =>
    match grid.turn n round with
    | .stop => []
    | .sleepAgain => periodicLoop n rest
    | .pass none => [⟨n, round.woke, round.ended, none⟩]
    | .pass (some next) => ⟨n, round.woke, round.ended, some next⟩ :: periodicLoop next rest

end Grid

variable {grid : Grid}

theorem deadlineFor_eq {n : Nat} (unsaturated : grid.period * n ≤ maxNanos) :
    grid.deadlineFor n = grid.start + n * grid.period := by
  rw [Grid.deadlineFor, deadlineNanos, min_eq_left unsaturated, Nat.mul_comm]

theorem catchUp_spec {now n m : Nat} (found : grid.catchUp now n = some m) :
    n ≤ m ∧ ∀ k, n ≤ k → k < m → grid.deadlineFor k ≤ now := by
  fun_induction Grid.catchUp grid now n with
  | case1 n past _ ih =>
    obtain ⟨above, skipped⟩ := ih found
    refine ⟨by omega, fun k from_n below => ?_⟩
    rcases Nat.eq_or_lt_of_le from_n with rfl | later
    · exact past
    · exact skipped k later below
  | case2 => cases found
  | case3 n =>
    cases found
    exact ⟨le_rfl, fun k from_n below => absurd from_n (by omega)⟩

/-- The walk forward ends while the clock is within what the deadlines can reach. -/
theorem catchUp_returns (positive : 0 < grid.period) {now : Nat} (within : now < grid.start + maxNanos) {n : Nat}
    (counted : n ≤ maxNanos) : (grid.catchUp now n).isSome := by
  fun_induction Grid.catchUp grid now n with
  | case1 n _ fits ih => exact ih fits
  | case2 n past out =>
    have last : n = maxNanos := by omega
    have reach : maxNanos ≤ grid.period * n := by
      rw [last]
      exact Nat.le_mul_of_pos_left _ positive
    rw [Grid.deadlineFor, deadlineNanos, min_eq_right reach] at past
    omega
  | case3 => rfl

theorem advance_spec {ended n m : Nat} (found : grid.advance ended n = some m) :
    n < m ∧ ∀ k, n < k → k < m → grid.deadlineFor k ≤ ended := by
  unfold Grid.advance at found
  split_ifs at found
  exact catchUp_spec found

/-- The pass began when it was due, and the loop went on from it by its grid. -/
structure Pass.OnGrid (grid : Grid) (p : Pass) : Prop where
  due : grid.deadlineFor p.n ≤ p.began
  next : p.next = grid.advance p.ended p.n

/-- The next pass takes up where this one left off. -/
structure Pass.GoesOn (p q : Pass) : Prop where
  next : p.next = some q.n
  later : p.n < q.n

theorem turn_pass {n : Nat} {round : Round} {next : Option Nat} (passes : grid.turn n round = .pass next) :
    Pass.OnGrid grid ⟨n, round.woke, round.ended, next⟩ := by
  unfold Grid.turn at passes
  split_ifs at passes with _ _ early
  cases passes
  exact ⟨by simpa using early, rfl⟩

/-- The passes from a tick on: the first one is of that tick, each is on the grid, and
each is taken up by the one after it. -/
theorem periodicLoop_spec (rounds : List Round) (n : Nat) :
    (∀ first ∈ (grid.periodicLoop n rounds).head?, first.n = n) ∧
      (∀ p ∈ grid.periodicLoop n rounds, p.OnGrid grid) ∧ (grid.periodicLoop n rounds).IsChain Pass.GoesOn := by
  fun_induction Grid.periodicLoop grid n rounds with
  | case1 | case2 => simp
  | case3 n round rest _ ih => exact ih
  | case4 n round rest passes =>
    refine ⟨by simp, ?_, .singleton _⟩
    simp only [List.mem_singleton, forall_eq]
    exact turn_pass passes
  | case5 n round rest next passes ih =>
    obtain ⟨first, each, chain⟩ := ih
    have here := turn_pass passes
    refine ⟨by simp, List.forall_mem_cons.mpr ⟨here, each⟩, ?_⟩
    refine List.isChain_cons.mpr ⟨fun q head => ?_, chain⟩
    obtain rfl := first q head
    exact ⟨rfl, (advance_spec here.next.symm).1⟩

theorem ticks_increase {passes : List Pass} (chain : passes.IsChain Pass.GoesOn) :
    passes.Pairwise fun p q => p.n < q.n :=
  List.isChain_iff_pairwise.mp (chain.imp fun _ _ goesOn => goesOn.later)

theorem tick_ge {passes : List Pass} {n : Nat} (first : ∀ p ∈ passes.head?, p.n = n)
    (chain : passes.IsChain Pass.GoesOn) {p : Pass} (ran : p ∈ passes) : n ≤ p.n := by
  cases passes with
  | nil => cases ran
  | cons head rest =>
    obtain rfl := first head rfl
    rcases List.mem_cons.mp ran with rfl | later
    · exact le_rfl
    · exact ((List.pairwise_cons.mp (ticks_increase chain)).1 p later).le

/-- A tick below one that was run, and not run itself, was due when the last pass before
it had ended. -/
theorem skipped_due {passes : List Pass} {n : Nat} (first : ∀ p ∈ passes.head?, p.n = n)
    (each : ∀ p ∈ passes, p.OnGrid grid) (chain : passes.IsChain Pass.GoesOn) {q : Pass} (ran : q ∈ passes) {k : Nat}
    (from_n : n ≤ k) (below : k < q.n) (skipped : ∀ p ∈ passes, p.n ≠ k) :
    ∃ p ∈ passes, p.n < k ∧ (∀ other ∈ passes, other.n ≤ p.n ∨ k < other.n) ∧ grid.deadlineFor k ≤ p.ended := by
  induction passes generalizing n with
  | nil => cases ran
  | cons p rest ih =>
    obtain rfl := first p rfl
    have before : p.n < k := lt_of_le_of_ne from_n (skipped p List.mem_cons_self)
    have later : q ∈ rest := by
      rcases List.mem_cons.mp ran with rfl | later
      · omega
      · exact later
    rw [List.isChain_cons] at chain
    cases rest with
    | nil => cases later
    | cons second rest =>
      have goesOn := chain.1 second rfl
      have increase := List.pairwise_cons.mp (ticks_increase chain.2)
      by_cases between : k < second.n
      · refine ⟨p, List.mem_cons_self, before, ?_, ?_⟩
        · rw [List.forall_mem_cons, List.forall_mem_cons]
          exact ⟨Or.inl le_rfl, Or.inr between, fun other member => Or.inr (between.trans (increase.1 other member))⟩
        · have next := (each p List.mem_cons_self).next
          rw [goesOn.next] at next
          exact (advance_spec next.symm).2 k before between
      · obtain ⟨last, member, earlier, nearest, due⟩ := @ih second.n (by simp) (fun p member => each p (.tail _ member))
          chain.2 later (by omega) fun p member => skipped p (.tail _ member)
        refine ⟨last, .tail _ member, earlier, List.forall_mem_cons.mpr ⟨Or.inl ?_, nearest⟩, due⟩
        rcases List.mem_cons.mp member with rfl | member
        · exact goesOn.later.le
        · exact (goesOn.later.trans (increase.1 last member)).le

/-- The passes keep to the grid, as long as its deadlines are not saturated: their ticks
increase from one, each begins at or after its deadline, a tick left out was due when the last
pass before it had ended, and waking before a deadline runs nothing. -/
theorem periodicLoop_on_grid (grid : Grid) (rounds : List Round)
    (unsaturated : ∀ p ∈ grid.periodicLoop 1 rounds, grid.period * p.n ≤ maxNanos) :
    (grid.periodicLoop 1 rounds).Pairwise (fun p q => p.n < q.n) ∧
    (∀ p ∈ grid.periodicLoop 1 rounds, 1 ≤ p.n ∧ grid.start + p.n * grid.period ≤ p.began) ∧
    (∀ q ∈ grid.periodicLoop 1 rounds, ∀ k, 1 ≤ k → k < q.n → (∀ p ∈ grid.periodicLoop 1 rounds, p.n ≠ k) →
      ∃ p ∈ grid.periodicLoop 1 rounds, p.n < k ∧
        (∀ other ∈ grid.periodicLoop 1 rounds, other.n ≤ p.n ∨ k < other.n) ∧
        grid.start + k * grid.period ≤ p.ended) ∧
    ∀ n round rest, grid.period * n ≤ maxNanos → round.woke < grid.start + n * grid.period →
      grid.periodicLoop n (round :: rest) =
        if round.doneBefore || round.doneAfter then [] else grid.periodicLoop n rest := by
  obtain ⟨first, each, chain⟩ := @periodicLoop_spec grid rounds 1
  refine ⟨ticks_increase chain, fun p ran => ⟨?_, ?_⟩, fun q ran k positive below skipped => ?_, ?_⟩
  · exact tick_ge first chain ran
  · rw [← deadlineFor_eq (unsaturated p ran)]
    exact (each p ran).due
  · obtain ⟨p, member, earlier, nearest, due⟩ := skipped_due first each chain ran positive below skipped
    have fits : grid.period * k ≤ maxNanos := (Nat.mul_le_mul_left _ below.le).trans (unsaturated q ran)
    exact ⟨p, member, earlier, nearest, deadlineFor_eq fits ▸ due⟩
  · intro n round rest fits early
    rw [← deadlineFor_eq fits] at early
    rw [Grid.periodicLoop, Grid.turn]
    cases round.doneBefore <;> cases round.doneAfter <;> simp [early]

/-- A thread that is woken early, then runs over two deadlines, and then is on time. -/
def overrunRounds : List Round :=
  [⟨false, false, 105, true, 0⟩, ⟨false, false, 112, true, 135⟩, ⟨false, false, 141, true, 142⟩]

theorem overrun_passes :
    Grid.periodicLoop ⟨10, 100⟩ 1 overrunRounds = [⟨1, 112, 135, some 4⟩, ⟨4, 141, 142, some 5⟩] := by
  have late : Grid.catchUp ⟨10, 100⟩ 135 2 = some 4 := by
    simp [Grid.catchUp, Grid.deadlineFor, deadlineNanos, maxNanos]
  have punctual : Grid.catchUp ⟨10, 100⟩ 142 5 = some 5 := by
    simp [Grid.catchUp, Grid.deadlineFor, deadlineNanos, maxNanos]
  simp [overrunRounds, Grid.periodicLoop, Grid.turn, Grid.advance, Grid.deadlineFor, deadlineNanos, maxNanos, late,
    punctual]

theorem periodicLoop_on_grid_overrun :
    ∃ p ∈ Grid.periodicLoop ⟨10, 100⟩ 1 overrunRounds, p.n < 3 ∧ 100 + 3 * 10 ≤ p.ended := by
  have onGrid := periodicLoop_on_grid ⟨10, 100⟩ overrunRounds (by rw [overrun_passes]; decide)
  obtain ⟨p, ran, earlier, _, due⟩ := onGrid.2.2.1 ⟨4, 141, 142, some 5⟩ (by rw [overrun_passes]; decide) 3 (by decide)
    (by decide) (by rw [overrun_passes]; decide)
  exact ⟨p, ran, earlier, due⟩

theorem catchUp_ahead {now n m : Nat} (found : grid.catchUp now n = some m) : now < grid.deadlineFor m := by
  fun_induction Grid.catchUp grid now n with
  | case1 n _ _ ih => exact ih found
  | case2 => cases found
  | case3 n ahead =>
    cases found
    exact not_le.mp ahead

/-- While the clock is within what the deadlines can reach the thread goes on after every pass,
with a deadline that is still to come: it neither ends by itself nor makes up for what it missed. -/
theorem periodicLoop_goes_on (grid : Grid) (rounds : List Round) (positive : 0 < grid.period)
    (within : ∀ p ∈ grid.periodicLoop 1 rounds, max p.began p.ended < grid.start + maxNanos) :
    ∀ p ∈ grid.periodicLoop 1 rounds, ∃ m, p.next = some m ∧ p.ended < grid.deadlineFor m := by
  intro p ran
  obtain ⟨began, ended⟩ := max_lt_iff.mp (within p ran)
  obtain ⟨due, next⟩ := (periodicLoop_spec rounds 1).2.1 p ran
  have counted : p.n + 1 ≤ maxNanos := by
    by_contra most
    have reach : maxNanos ≤ grid.period * p.n :=
      (Nat.lt_succ_iff.mp (not_le.mp most)).trans (Nat.le_mul_of_pos_left _ positive)
    rw [Grid.deadlineFor, deadlineNanos, min_eq_right reach] at due
    omega
  rw [Grid.advance, if_pos counted] at next
  obtain ⟨m, found⟩ := Option.isSome_iff_exists.mp (catchUp_returns positive ended counted)
  exact ⟨m, next.trans found, catchUp_ahead found⟩

theorem periodicLoop_goes_on_overrun : ∃ m, some 4 = some m ∧ 135 < Grid.deadlineFor ⟨10, 100⟩ m :=
  periodicLoop_goes_on ⟨10, 100⟩ overrunRounds (by decide) (by rw [overrun_passes]; decide) ⟨1, 112, 135, some 4⟩
    (by rw [overrun_passes]; decide)

end Spvirit.Ioc.Periodic
