import Mathlib.Tactic

/-! Binary search in a list that a comparison runs through in order. -/

namespace BinarySearch

variable {α : Type*} {cmp : α → Ordering} {xs left right : List α} {place : Nat}

/-- Halves a window of items until one is left, and gives that one's place. -/
def halve (cmp : α → Ordering) : Nat → List α → Nat
  | 0, _ => 0
  | fuel + 1, window =>
    let half := window.length / 2
    if 1 < window.length then
      if (window[half]?).map cmp = some .gt then halve cmp fuel (window.take (window.length - half))
      else half + halve cmp fuel (window.drop half)
    else 0

/-- The place of an item that compares equal, or else the place such an item would take. -/
def verdict (base : Nat) : Ordering → Except Nat Nat
  | .eq => .ok base
  | .lt => .error (base + 1)
  | .gt => .error base

def binarySearchBy (cmp : α → Ordering) (xs : List α) : Except Nat Nat :=
  match xs[halve cmp xs.length xs]? with
  | none => .error 0
  | some x => verdict (halve cmp xs.length xs) (cmp x)

def partitionPoint (pred : α → Bool) (xs : List α) : Nat :=
  match binarySearchBy (fun x => if pred x then .lt else .gt) xs with
  | .ok i | .error i => i

def Ordered (cmp : α → Ordering) (xs : List α) : Prop := xs.Pairwise fun a b => cmp a = .lt ∨ cmp b = .gt

/-- Before the place all items are less, after it all are greater. -/
def Splits (cmp : α → Ordering) (xs : List α) (place : Nat) : Prop :=
  ∃ before x after, xs = before ++ x :: after ∧ place = before.length ∧ (∀ a ∈ before, cmp a = .lt) ∧
    ∀ a ∈ after, cmp a = .gt

theorem splits_single (single : xs.length = 1) : Splits cmp xs 0 := by
  obtain ⟨x, rfl⟩ := List.length_eq_one_iff.mp single
  exact ⟨[], x, [], rfl, rfl, List.forall_mem_nil _, List.forall_mem_nil _⟩

theorem Splits.append (splits : Splits cmp left place) (greater : ∀ a ∈ right, cmp a = .gt) :
    Splits cmp (left ++ right) place := by
  obtain ⟨before, x, after, rfl, here, less, more⟩ := splits
  exact ⟨before, x, after ++ right, by simp, here, less, List.forall_mem_append.mpr ⟨more, greater⟩⟩

theorem Splits.prepend (splits : Splits cmp right place) (less : ∀ a ∈ left, cmp a = .lt) :
    Splits cmp (left ++ right) (left.length + place) := by
  obtain ⟨before, x, after, rfl, rfl, fewer, greater⟩ := splits
  exact ⟨left ++ before, x, after, by simp, by simp, List.forall_mem_append.mpr ⟨less, fewer⟩, greater⟩

/-- What an item says of those before it, and of itself and those behind. -/
theorem Ordered.around {i : Nat} {x : α} (ordered : Ordered cmp xs) (here : xs[i]? = some x) :
    (cmp x ≠ .gt → ∀ a ∈ xs.take i, cmp a = .lt) ∧ (cmp x = .gt → ∀ a ∈ xs.drop i, cmp a = .gt) := by
  obtain ⟨inside, rfl⟩ := List.getElem?_eq_some_iff.mp here
  rw [← List.take_append_drop i xs, Ordered, List.drop_eq_getElem_cons inside, List.pairwise_append, List.pairwise_cons]
    at ordered
  refine ⟨fun notGreater a member => (ordered.2.2 a member _ List.mem_cons_self).resolve_right notGreater, fun greater => ?_⟩
  rw [List.drop_eq_getElem_cons inside]
  exact List.forall_mem_cons.mpr ⟨greater, fun a member => (ordered.2.1.1 a member).resolve_left (by simp [greater])⟩

theorem halve_splits {fuel : Nat} (filled : 0 < xs.length) (enough : xs.length ≤ fuel + 1) (ordered : Ordered cmp xs) :
    Splits cmp xs (halve cmp fuel xs) := by
  induction fuel generalizing xs with
  | zero => exact splits_single (by omega)
  | succ fuel ih =>
    rw [halve]
    split_ifs with several greater
    · -- what is cut off begins no earlier than the middle item
      obtain ⟨x, here, greater⟩ := Option.map_eq_some_iff.mp greater
      have cut : ∀ a ∈ xs.drop (xs.length - xs.length / 2), cmp a = .gt := fun a member =>
        (ordered.around here).2 greater a ((List.drop_sublist_drop_left xs (by omega)).subset member)
      have splits := (@ih (xs.take (xs.length - xs.length / 2)) (by rw [List.length_take]; omega) (by rw [List.length_take]; omega)
        (ordered.sublist (List.take_sublist _ _))).append cut
      rwa [List.take_append_drop] at splits
    · have here : xs[xs.length / 2]? = some _ := List.getElem?_eq_getElem (by omega)
      have cut := (ordered.around here).1 fun same => greater (by rw [here, Option.map_some, same])
      have splits := (@ih (xs.drop (xs.length / 2)) (by rw [List.length_drop]; omega) (by rw [List.length_drop]; omega)
        (ordered.sublist (List.drop_sublist _ _))).prepend cut
      rwa [List.take_append_drop, List.length_take_of_le (by omega)] at splits
    · exact splits_single (by omega)

theorem binarySearchBy_splits (filled : 0 < xs.length) (ordered : Ordered cmp xs) :
    ∃ before x after, xs = before ++ x :: after ∧ binarySearchBy cmp xs = verdict before.length (cmp x) ∧
      (∀ a ∈ before, cmp a = .lt) ∧ ∀ a ∈ after, cmp a = .gt := by
  obtain ⟨before, x, after, parts, place, less, greater⟩ := halve_splits filled (Nat.le_succ _) ordered
  have here : xs[before.length]? = some x := by simp [parts]
  exact ⟨before, x, after, parts, by rw [binarySearchBy, place, here], less, greater⟩

theorem binarySearchBy_finds (ordered : Ordered cmp xs) {x : α} (member : x ∈ xs) (equal : cmp x = .eq) :
    ∃ before after, xs = before ++ x :: after ∧ binarySearchBy cmp xs = .ok before.length := by
  obtain ⟨before, y, after, rfl, search, less, greater⟩ := binarySearchBy_splits (List.length_pos_of_mem member) ordered
  rcases List.mem_append.mp member with early | late
  · cases equal.symm.trans (less x early)
  rcases List.mem_cons.mp late with rfl | late
  · exact ⟨before, after, rfl, by rw [search, equal, verdict]⟩
  · cases equal.symm.trans (greater x late)

theorem partitionPoint_splits {pred : α → Bool} (ordered : xs.Pairwise fun a b => pred a = true ∨ pred b = false) :
    ∃ before after, xs = before ++ after ∧ partitionPoint pred xs = before.length ∧ (∀ a ∈ before, pred a = true) ∧
      ∀ a ∈ after, pred a = false := by
  rcases Nat.eq_zero_or_pos xs.length with empty | filled
  · cases List.length_eq_zero_iff.mp empty
    exact ⟨[], [], rfl, rfl, List.forall_mem_nil _, List.forall_mem_nil _⟩
  have compared : Ordered (fun a => if pred a then Ordering.lt else .gt) xs := ordered.imp (by simp)
  obtain ⟨before, x, after, rfl, search, early, late⟩ := binarySearchBy_splits filled compared
  simp only [ite_eq_left_iff, ite_eq_right_iff, reduceCtorEq, imp_false, Bool.not_eq_true, Bool.not_eq_false] at early late
  cases value : pred x with
  | true =>
    refine ⟨before ++ [x], after, by simp, by simp [partitionPoint, search, value, verdict], ?_, late⟩
    exact List.forall_mem_append.mpr ⟨early, List.forall_mem_singleton.mpr value⟩
  | false =>
    refine ⟨before, x :: after, rfl, by simp [partitionPoint, search, value, verdict], early, ?_⟩
    exact List.forall_mem_cons.mpr ⟨value, late⟩

end BinarySearch
