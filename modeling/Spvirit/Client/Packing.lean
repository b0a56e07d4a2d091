import Mathlib.Tactic

/-! The sizes of the names searched for, packed in order into datagrams by greedy next-fit. -/

namespace Spvirit.Packing

/-- A half-open range of indices. -/
structure Range where
  start : Nat
  stop : Nat
  deriving DecidableEq

structure Loop where
  runs : List Range
  start : Nat
  used : Nat

/-- A run that the next item does not fit is ended before that item. -/
def Loop.close (capacity : Nat) (loop : Loop) (i size : Nat) : Loop :=
  if loop.start < i ∧ capacity < (loop.used + size) % 2 ^ 64 then
    { runs := loop.runs ++ [⟨loop.start, i⟩], start := i, used := 0 }
  else loop

def Loop.turn (capacity : Nat) (loop : Loop) (i size : Nat) : Loop :=
  { loop.close capacity i size with used := ((loop.close capacity i size).used + size) % 2 ^ 64 }

def Loop.after (capacity : Nat) : Loop → Nat → List Nat → Loop
  | loop, _, [] => loop
  | loop, i, size :: sizes => (loop.turn capacity i size).after capacity (i + 1) sizes

def packNextFit (sizes : List Nat) (capacity : Nat) : List Range :=
  let loop := Loop.after capacity ⟨[], 0, 0⟩ 0 sizes
  if loop.start < sizes.length then loop.runs ++ [⟨loop.start, sizes.length⟩] else loop.runs

variable {sizes : List Nat} {capacity : Nat}

/-- What the items of a range come to. -/
def total (sizes : List Nat) (start stop : Nat) : Nat := ((sizes.take stop).drop start).sum

/-- The runs divide the items below `stop` into consecutive ranges, in order; each is within
the capacity or a single item. -/
inductive Divides (sizes : List Nat) (capacity : Nat) : Nat → List Range → Prop
  | nothing : Divides sizes capacity 0 []
  | next {start stop runs} : Divides sizes capacity start runs → start ≤ stop →
      total sizes start stop ≤ capacity ∨ stop = start + 1 →
      Divides sizes capacity stop (runs ++ [⟨start, stop⟩])

theorem total_mono {start stop before past : Nat} (early : before ≤ start) (late : stop ≤ past) :
    total sizes start stop ≤ total sizes before past := by
  have inside : ((sizes.take stop).drop start).Sublist ((sizes.take past).drop before) :=
    ((List.take_sublist_take_left late).drop start).trans (List.drop_sublist_drop_left _ early)
  exact inside.sum_le_sum fun _ _ => Nat.zero_le _

theorem total_next {start i size : Nat} (here : sizes[i]? = some size) (past : start ≤ i) :
    total sizes start (i + 1) = total sizes start i + size := by
  obtain ⟨inside, value⟩ := List.getElem?_eq_some_iff.mp here
  have long : start ≤ (sizes.take i).length := by rw [List.length_take]; omega
  rw [total, total, List.take_succ_eq_append_getElem inside, value, List.drop_append_of_le_length long, List.sum_append,
    List.sum_singleton]

/-- What holds before item `i`: the runs so far divide the items below `start`, the run
under way fits, and every division that gets beyond `start` has more runs than these. -/
structure Greedy (sizes : List Nat) (capacity i : Nat) (loop : Loop) : Prop where
  divides : Divides sizes capacity loop.start loop.runs
  filled : ∀ run ∈ loop.runs, run.start < run.stop
  used : loop.used = total sizes loop.start i
  begun : loop.start < i ∨ i = 0 ∧ loop.start = 0 ∧ loop.runs = []
  fits : total sizes loop.start i ≤ capacity ∨ i ≤ loop.start + 1
  least : ∀ {stop rival}, loop.start < stop → Divides sizes capacity stop rival →
    loop.runs.length < rival.length

namespace Greedy

variable {loop : Loop} {i size : Nat} (greedy : Greedy sizes capacity i loop)
include greedy

theorem fits_open (begun : loop.start < i) : total sizes loop.start i ≤ capacity ∨ i = loop.start + 1 :=
  greedy.fits.imp_right fun short => by omega

theorem filled_push {stop : Nat} (past : loop.start < stop) :
    ∀ run ∈ loop.runs ++ [⟨loop.start, stop⟩], run.start < run.stop :=
  List.forall_mem_append.mpr ⟨greedy.filled, List.forall_mem_singleton.mpr past⟩

/-- The run that reaches past an item which did not fit begins after the greedy run did, so
the runs before it already outnumber the greedy ones. -/
theorem close_least (here : sizes[i]? = some size) (begun : loop.start < i) (full : capacity < loop.used + size)
    {stop : Nat} {rival : List Range} (past : i < stop) (divides : Divides sizes capacity stop rival) :
    loop.runs.length + 1 < rival.length := by
  cases divides with
  | nothing => omega
  | @next start _ earlier divides _ fits =>
    rw [List.length_append, List.length_singleton, Nat.add_lt_add_iff_right]
    refine greedy.least (Nat.lt_of_not_le fun early => ?_) divides
    have more : total sizes loop.start (i + 1) ≤ total sizes start stop := total_mono early past
    rw [total_next here begun.le, ← greedy.used] at more
    omega

theorem turn (bounded : sizes.sum < 2 ^ 64) (here : sizes[i]? = some size) :
    Greedy sizes capacity (i + 1) (loop.turn capacity i size) := by
  have within : ∀ start stop, total sizes start stop < 2 ^ 64 := fun start stop =>
    (((List.drop_sublist _ _).trans (List.take_sublist _ _)).sum_le_sum fun _ _ => Nat.zero_le _).trans_lt bounded
  have reached : loop.start ≤ i := by rcases greedy.begun with begun | ⟨none, begun, -⟩ <;> omega
  have sum : loop.used + size = total sizes loop.start (i + 1) := by rw [greedy.used, total_next here reached]
  have alone : total sizes i (i + 1) = size := by
    rw [total_next here le_rfl, total, List.drop_eq_nil_of_le (List.length_take_le _ _), List.sum_nil, Nat.zero_add]
  rw [Loop.turn, Loop.close, Nat.mod_eq_of_lt (sum ▸ within _ _)]
  split_ifs with full
  · refine ⟨greedy.divides.next full.1.le (greedy.fits_open full.1), greedy.filled_push full.1, ?_,
      .inl (Nat.lt_succ_self i), .inr le_rfl, ?_⟩
    · rw [Nat.zero_add, Nat.mod_eq_of_lt (alone ▸ within _ _), alone]
    · intro stop rival past divides
      rw [List.length_append, List.length_singleton]
      exact greedy.close_least here full.1 full.2 past divides
  · refine ⟨greedy.divides, greedy.filled, ?_, .inl (Nat.lt_succ_of_le reached), ?_, greedy.least⟩
    · exact (Nat.mod_eq_of_lt (sum ▸ within _ _)).trans sum
    · change total sizes loop.start (i + 1) ≤ capacity ∨ i + 1 ≤ loop.start + 1
      omega

end Greedy

theorem Greedy.after {loop : Loop} {done rest : List Nat} (bounded : (done ++ rest).sum < 2 ^ 64)
    (greedy : Greedy (done ++ rest) capacity done.length loop) :
    Greedy (done ++ rest) capacity (done ++ rest).length (loop.after capacity done.length rest) := by
  induction rest generalizing done loop with
  | nil => simpa only [List.append_nil, Loop.after] using greedy
  | cons size rest ih =>
    have next : Greedy (done ++ size :: rest) capacity (done.length + 1) (loop.turn capacity done.length size) :=
      greedy.turn bounded (by simp)
    rw [List.append_cons] at bounded next ⊢
    have length : (done ++ [size]).length = done.length + 1 := List.length_append
    rw [Loop.after, ← length]
    exact ih bounded (length ▸ next)

/-- Greedy next-fit divides all items into runs, none of them empty, and no division has
fewer. -/
theorem packNextFit_optimal (sizes : List Nat) (capacity : Nat) (bounded : sizes.sum < 2 ^ 64) :
    Divides sizes capacity sizes.length (packNextFit sizes capacity) ∧
      (∀ run ∈ packNextFit sizes capacity, run.start < run.stop) ∧
      ∀ rival, Divides sizes capacity sizes.length rival → (packNextFit sizes capacity).length ≤ rival.length := by
  have start : Greedy ([] ++ sizes) capacity ([] : List Nat).length ⟨[], 0, 0⟩ :=
    ⟨.nothing, List.forall_mem_nil _, rfl, .inr ⟨rfl, rfl, rfl⟩, .inr (Nat.zero_le _), fun past divides => by
      cases divides with
      | nothing => omega
      | next => simp⟩
  have greedy : Greedy sizes capacity sizes.length (Loop.after capacity ⟨[], 0, 0⟩ 0 sizes) :=
    start.after (by simpa using bounded)
  rw [packNextFit]
  split_ifs with left
  · refine ⟨greedy.divides.next left.le (greedy.fits_open left), greedy.filled_push left, fun rival divides => ?_⟩
    rw [List.length_append, List.length_singleton]
    exact greedy.least left divides
  · obtain begun | ⟨none, start, runs⟩ := greedy.begun
    · exact absurd begun left
    · rw [none, runs]
      exact ⟨.nothing, List.forall_mem_nil _, fun _ _ => Nat.zero_le _⟩

theorem packNextFit_optimal_oversized :
    [3, 3, 9, 1].sum < 2 ^ 64 ∧ packNextFit [3, 3, 9, 1] 7 = [⟨0, 2⟩, ⟨2, 3⟩, ⟨3, 4⟩] ∧
      Divides [3, 3, 9, 1] 7 4 (packNextFit [3, 3, 9, 1] 7) ∧
      (∀ run ∈ packNextFit [3, 3, 9, 1] 7, run.start < run.stop) ∧
      ∀ rival, Divides [3, 3, 9, 1] 7 4 rival → (packNextFit [3, 3, 9, 1] 7).length ≤ rival.length :=
  ⟨by decide, by decide, packNextFit_optimal [3, 3, 9, 1] 7 (by decide)⟩

end Spvirit.Packing
