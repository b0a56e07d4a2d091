import Spvirit.Payload.View

/-! Views against the trees they stand for: equal views are equal trees, and a
view is written as its tree is. -/

namespace Spvirit

def DecodedValue.kind : DecodedValue → Option Kind
  | .null => some .null
  | .boolean _ => some .boolean
  | .int8 _ => some .int8
  | .int16 _ => some .int16
  | .int32 _ => some .int32
  | .int64 _ => some .int64
  | .uint8 _ => some .uint8
  | .uint16 _ => some .uint16
  | .uint32 _ => some .uint32
  | .uint64 _ => some .uint64
  | .float32 _ => some .float32
  | .float64 _ => some .float64
  | .string _ => some .string
  | .array _ => some .array
  | .structure _ => some .struct
  | .raw _ => none

theorem kind_of_equal {x y : DecodedValue} (equal : decodedValuesEqual x y = true) : x.kind = y.kind := by
  cases x <;> cases y <;> first | rfl | simp [decodedValuesEqual] at equal

theorem kind_dvScalar (v : ScalarValue) : (dvScalar v).kind = some (scalarKind v) := by cases v <;> rfl

theorem kind_items (a : ScalarArrayValue) : ∀ x ∈ a.items, (dvScalar x).kind = some (scalarArrayKind a) := by
  intro x member
  cases a <;>
  · obtain ⟨y, -, rfl⟩ := List.mem_map.mp member
    rfl

section

variable {xs ys : List DecodedValue}

theorem length_of_itemsEqual (equal : decodedItemsEqual xs ys = true) : xs.length = ys.length := by
  induction xs generalizing ys with
  | nil => cases ys <;> simp [decodedItemsEqual] at equal ⊢
  | cons x xs ih =>
    cases ys with
    | nil => simp [decodedItemsEqual] at equal
    | cons y ys =>
      simp only [decodedItemsEqual, Bool.and_eq_true] at equal
      simpa using ih equal.2

theorem itemsEqual_of_kinds {k k' : Kind} (differ : k ≠ k') (kinds : ∀ x ∈ xs, x.kind = some k)
    (kinds' : ∀ y ∈ ys, y.kind = some k') :
    decodedItemsEqual xs ys = (decide (xs.length = 0) && decide (ys.length = 0)) := by
  cases xs with
  | nil => cases ys <;> simp [decodedItemsEqual]
  | cons x xs =>
    cases ys with
    | nil => simp [decodedItemsEqual]
    | cons y ys =>
      have unequal : decodedValuesEqual x y = false := by
        by_contra equal
        have same := kind_of_equal (Bool.eq_true_of_not_eq_false equal)
        rw [kinds x List.mem_cons_self, kinds' y List.mem_cons_self] at same
        exact differ (Option.some.inj same)
      simp [decodedItemsEqual, unequal]

end

theorem itemsEqual_map {α : Type} (f : α → DecodedValue) (same : α → α → Bool)
    (agrees : ∀ a b, decodedValuesEqual (f a) (f b) = same a b) (xs ys : List α) :
    decodedItemsEqual (xs.map f) (ys.map f) = (decide (xs.length = ys.length) && (xs.zip ys).all fun p => same p.1 p.2) := by
  induction xs generalizing ys with
  | nil => cases ys <;> simp [decodedItemsEqual]
  | cons x xs ih =>
    cases ys with
    | nil => simp [decodedItemsEqual]
    | cons y ys =>
      simp only [List.map_cons, decodedItemsEqual, agrees, ih, List.length_cons, List.zip_cons_cons, List.all_cons,
        Nat.add_right_cancel_iff]
      rw [Bool.and_left_comm]

theorem itemsEqual_map_eq {α : Type} [DecidableEq α] (f : α → DecodedValue)
    (agrees : ∀ a b, decodedValuesEqual (f a) (f b) = decide (a = b)) (xs ys : List α) :
    decodedItemsEqual (xs.map f) (ys.map f) = decide (xs = ys) := by
  induction xs generalizing ys with
  | nil => cases ys <;> simp [decodedItemsEqual]
  | cons x xs ih =>
    cases ys with
    | nil => simp [decodedItemsEqual]
    | cons y ys => simp [decodedItemsEqual, agrees, ih]

theorem scalarArraysEqual_eq (x y : ScalarArrayValue) :
    scalarArraysEqual x y = decodedValuesEqual (dvScalarArray x) (dvScalarArray y) := by
  rw [dvScalarArray, dvScalarArray, decodedValuesEqual]
  have mixed : scalarArrayKind x ≠ scalarArrayKind y →
      decodedItemsEqual (x.items.map dvScalar) (y.items.map dvScalar)
        = (decide (x.items.length = 0) && decide (y.items.length = 0)) := fun differ => by
    have kinds : ∀ a : ScalarArrayValue, ∀ v ∈ a.items.map dvScalar, v.kind = some (scalarArrayKind a) := fun a v member => by
      obtain ⟨s, inside, rfl⟩ := List.mem_map.mp member
      exact kind_items a s inside
    rw [itemsEqual_of_kinds differ (kinds x) (kinds y), List.length_map, List.length_map]
  cases x <;> cases y
  case f32.f32 =>
    rw [ScalarArrayValue.items, ScalarArrayValue.items, List.map_map, List.map_map]
    exact (itemsEqual_map _ F32.same (fun _ _ => rfl) _ _).symm
  case f64.f64 =>
    rw [ScalarArrayValue.items, ScalarArrayValue.items, List.map_map, List.map_map]
    exact (itemsEqual_map _ F64.same (fun _ _ => rfl) _ _).symm
  all_goals first
    | exact (mixed (by simp [scalarArrayKind])).symm
    | (rw [ScalarArrayValue.items, ScalarArrayValue.items, List.map_map, List.map_map]
       exact (itemsEqual_map_eq _ (by intro a b; rfl) _ _).symm)

@[simp] theorem View.decodedFields_eq (fields : List (String × View)) :
    View.decodedFields fields = fields.map fun f => (f.1, f.2.toDecoded) := by
  induction fields with
  | nil => rfl
  | cons f fs ih => rw [View.decodedFields, ih, List.map_cons]

theorem View.kind_toDecoded (v : View) : v.toDecoded.kind = some v.kind := by
  cases v with
  | scalar v => exact kind_dvScalar v
  | codecParameters p =>
    simp only [View.toDecoded, dvCodecParameters, View.kind]
    split <;> rfl
  | _ => rfl

theorem View.toDecoded_array {v : View} (isArray : v.kind = .array) :
    ∃ items, v.toDecoded = .array items ∧ items.length = v.arrayLen ∧ ∀ x ∈ items, x.kind = some v.elementKind := by
  cases v with
  | scalar v => cases v <;> simp [View.kind, scalarKind] at isArray
  | codecParameters p =>
    simp only [View.kind] at isArray
    split at isArray <;> cases isArray
  | struct fields => cases isArray
  | array a =>
    refine ⟨_, rfl, List.length_map _, fun x member => ?_⟩
    obtain ⟨s, inside, rfl⟩ := List.mem_map.mp member
    exact kind_items a s inside
  | strings _ | standardChoices | dimensions _ | attributes _ =>
    refine ⟨_, rfl, List.length_map _, fun x member => ?_⟩
    obtain ⟨s, -, rfl⟩ := List.mem_map.mp member
    rfl

/-- The quick rejections agree with the trees. -/
theorem otherViewsEqual_eq (a b : View) : otherViewsEqual a b = decodedValuesEqual a.toDecoded b.toDecoded := by
  unfold otherViewsEqual
  have kinds : decodedValuesEqual a.toDecoded b.toDecoded = true → a.kind = b.kind := fun equal => by
    have same := kind_of_equal equal
    rw [a.kind_toDecoded, b.kind_toDecoded] at same
    exact Option.some.inj same
  split_ifs with differ lengths empty elements
  · exact (Bool.eq_false_iff.mpr fun equal => differ (kinds equal)).symm
  · obtain ⟨isArray, fact⟩ := lengths
    obtain ⟨items, tree, length, -⟩ := View.toDecoded_array isArray
    obtain ⟨items', tree', length', -⟩ := View.toDecoded_array ((not_not.mp differ) ▸ isArray)
    rw [tree, tree', decodedValuesEqual]
    refine (Bool.eq_false_iff.mpr fun equal => fact ?_).symm
    rw [← length, ← length', length_of_itemsEqual equal]
  · obtain ⟨isArray, fact⟩ := empty
    obtain ⟨items, tree, length, -⟩ := View.toDecoded_array isArray
    obtain ⟨items', tree', length', -⟩ := View.toDecoded_array ((not_not.mp differ) ▸ isArray)
    have same : a.arrayLen = b.arrayLen := by
      by_contra unequal
      exact lengths ⟨isArray, unequal⟩
    rw [List.length_eq_zero_iff.mp (length.trans fact)] at tree
    rw [List.length_eq_zero_iff.mp (length'.trans (same.symm.trans fact))] at tree'
    rw [tree, tree']
    rfl
  · obtain ⟨isArray, fact⟩ := elements
    obtain ⟨items, tree, length, kind⟩ := View.toDecoded_array isArray
    obtain ⟨items', tree', length', kind'⟩ := View.toDecoded_array ((not_not.mp differ) ▸ isArray)
    have some : items.length ≠ 0 := fun none => empty ⟨isArray, length.symm.trans none⟩
    rw [tree, tree', decodedValuesEqual, itemsEqual_of_kinds fact kind kind', decide_eq_false some]
    rfl
  · rfl

end Spvirit
