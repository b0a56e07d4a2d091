import Mathlib.Data.List.Nodup
import Mathlib.Tactic.Ring

/-! A stack of items to visit, each at most once. A visit changes a state and pushes items. -/

/-- The head of the queue is popped first. -/
structure Worklist (σ α : Type) where
  state : σ
  queue : List α
  visited : List α

namespace Worklist

variable {σ α : Type} [DecidableEq α]

/-- The items a visit pushes stand with the last pushed first. -/
def run (visit : α → σ → σ × List α) : Nat → Worklist σ α → Worklist σ α
  | 0, w => w
  | fuel + 1, w =>
    match w.queue with
    | [] => w
    | a :: rest =>
      if a ∈ w.visited then run visit fuel { w with queue := rest }
      else
        let (s, pushed) := visit a w.state
        run visit fuel ⟨s, pushed ++ rest, a :: w.visited⟩

/-- No visit pushes an item that counts and has been visited already. -/
def fresh (counts : α → Bool) (visit : α → σ → σ × List α) : Nat → Worklist σ α → Bool
  | 0, _ => true
  | fuel + 1, w =>
    match w.queue with
    | [] => true
    | a :: rest =>
      if a ∈ w.visited then fresh counts visit fuel { w with queue := rest }
      else
        let (s, pushed) := visit a w.state
        (pushed.all fun b => counts b → b ∉ a :: w.visited) &&
          fresh counts visit fuel ⟨s, pushed ++ rest, a :: w.visited⟩

variable {visit : α → σ → σ × List α}

/-- What a visit and the skipping of a visited item keep holds at the end. -/
theorem run_keeps {inv : Worklist σ α → Prop} {counts : α → Bool}
    (skip : ∀ s a rest visited, a ∈ visited → inv ⟨s, a :: rest, visited⟩ → inv ⟨s, rest, visited⟩)
    (step : ∀ s a rest visited, (∀ b ∈ (visit a s).2, counts b = true → b ∉ a :: visited) →
      inv ⟨s, a :: rest, visited⟩ → inv ⟨(visit a s).1, (visit a s).2 ++ rest, a :: visited⟩)
    (fuel : Nat) (w : Worklist σ α) (timely : fresh counts visit fuel w = true) (start : inv w) :
    inv (run visit fuel w) := by
  induction fuel generalizing w with
  | zero => exact start
  | succ fuel ih =>
    obtain ⟨s, queue, visited⟩ := w
    cases queue with
    | nil => exact start
    | cons a rest =>
      simp only [run]
      simp only [fresh] at timely
      split_ifs with seen
      · rw [if_pos seen] at timely
        exact ih _ timely (skip s a rest visited seen start)
      · rw [if_neg seen, Bool.and_eq_true] at timely
        refine ih _ timely.2 (step s a rest visited (fun b pushed counted => ?_) start)
        simpa [counted] using List.all_eq_true.mp timely.1 b pushed

def unvisited (items visited : List α) : List α := items.filter fun a => a ∉ visited

theorem unvisited_cons_lt {items visited : List α} {a : α} (member : a ∈ items) (new : a ∉ visited) :
    (unvisited items (a :: visited)).length < (unvisited items visited).length := by
  have narrowed : unvisited items (a :: visited) = (unvisited items visited).filter fun b => b ≠ a := by
    unfold unvisited
    rw [List.filter_filter]
    refine List.filter_congr fun b _ => ?_
    simp [not_or]
  rw [narrowed]
  refine List.length_filter_lt_length_iff_exists.mpr ⟨a, ?_, by simp⟩
  exact List.mem_filter.mpr ⟨member, by simpa using new⟩

/-- Every visit pushes at most `most` items, all among the items. Then the queue drains: each
item is visited once, and a pop that visits nothing shortens the queue. -/
theorem run_drains {items : List α} {most : Nat}
    (bounded : ∀ a s, (visit a s).2.length ≤ most ∧ ∀ b ∈ (visit a s).2, b ∈ items)
    (fuel : Nat) (w : Worklist σ α) (queued : ∀ a ∈ w.queue, a ∈ items)
    (enough : w.queue.length + most * (unvisited items w.visited).length ≤ fuel) :
    (run visit fuel w).queue = [] := by
  induction fuel generalizing w with
  | zero => exact List.length_eq_zero_iff.mp (by simp only [run]; omega)
  | succ fuel ih =>
    obtain ⟨s, queue, visited⟩ := w
    cases queue with
    | nil => rfl
    | cons a rest =>
      have later : ∀ b ∈ rest, b ∈ items := fun b member => queued b (List.mem_cons_of_mem a member)
      simp only [List.length_cons] at enough
      simp only [run]
      split_ifs with seen
      · exact ih _ later (by dsimp only; omega)
      · obtain ⟨few, inside⟩ := bounded a s
        refine ih _ ?_ ?_
        · intro b member
          rcases List.mem_append.mp member with new | old
          · exact inside b new
          · exact later b old
        · have fewer := unvisited_cons_lt (queued a List.mem_cons_self) seen
          have paid : most * ((unvisited items (a :: visited)).length + 1) ≤
              most * (unvisited items visited).length := Nat.mul_le_mul_left most fewer
          rw [Nat.mul_add, Nat.mul_one] at paid
          rw [List.length_append]
          dsimp only
          omega

end Worklist
