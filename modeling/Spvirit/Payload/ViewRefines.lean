import Spvirit.Payload.ViewTree

/-! The comparison and the writing of views refine those of trees. -/

namespace Spvirit

namespace StringMap

variable {m m' : StringMap}

theorem get_of_mem {key value : String} (member : (key, value) ∈ m.entries) : m.get key = some value := by
  unfold get
  obtain ⟨entry, found⟩ : ∃ entry, m.entries.find? (fun e => e.1 = key) = some entry :=
    Option.isSome_iff_exists.mp (List.find?_isSome.mpr ⟨_, member, by simp⟩)
  have inside := List.mem_of_find?_eq_some found
  have named : entry.1 = key := by simpa using List.find?_some found
  have same : entry = (key, value) := List.inj_on_of_nodup_map m.distinct inside member named
  rw [found, same]
  rfl

theorem mem_of_get {key value : String} (found : m.get key = some value) : (key, value) ∈ m.entries := by
  obtain ⟨entry, first, rfl⟩ := Option.map_eq_some_iff.mp found
  have named : entry.1 = key := by simpa using List.find?_some first
  rw [← named]
  exact List.mem_of_find?_eq_some first

theorem sortedKeys_perm (m : StringMap) : m.sortedKeys.Perm m.keys := List.mergeSort_perm _ _

theorem sortedKeys_eq_of_perm (same : m.keys.Perm m'.keys) : m.sortedKeys = m'.sortedKeys := by
  have sorted : ∀ m : StringMap, m.sortedKeys.Pairwise fun a b => decide (a ≤ b) = true := fun m =>
    List.pairwise_mergeSort (by simpa using fun a b c => String.le_trans) (by simpa using String.le_total) m.keys
  refine List.Perm.eq_of_pairwise (fun a b _ _ ab ba => ?_) (sorted m) (sorted m')
    ((m.sortedKeys_perm.trans same).trans m'.sortedKeys_perm.symm)
  exact String.le_antisymm (of_decide_eq_true ab) (of_decide_eq_true ba)

def sortedEntries (m : StringMap) : List (String × String) := m.sortedKeys.map fun key => (key, (m.get key).getD "")

theorem mem_sortedEntries {entry : String × String} : entry ∈ m.sortedEntries ↔ entry ∈ m.entries := by
  constructor
  · intro member
    obtain ⟨key, known, rfl⟩ := List.mem_map.mp member
    obtain ⟨⟨_, value⟩, inside, rfl⟩ := List.mem_map.mp (m.sortedKeys_perm.mem_iff.mp known)
    rw [get_of_mem inside]
    exact inside
  · intro inside
    refine List.mem_map.mpr ⟨entry.1, m.sortedKeys_perm.mem_iff.mpr (List.mem_map_of_mem inside), ?_⟩
    rw [@get_of_mem m entry.1 entry.2 inside]
    rfl

theorem sortedEntries_length (m : StringMap) : m.sortedEntries.length = m.entries.length := by
  rw [sortedEntries, List.length_map, m.sortedKeys_perm.length_eq, keys, List.length_map]

/-- Equal maps list the same entries. -/
theorem eq_iff : m.eq m' = true ↔ m.sortedEntries = m'.sortedEntries := by
  simp only [eq, Bool.and_eq_true, decide_eq_true_eq, List.all_eq_true]
  constructor
  · rintro ⟨length, each⟩
    have known : m.keys ⊆ m'.keys := fun key member => by
      obtain ⟨entry, inside, rfl⟩ := List.mem_map.mp member
      exact List.mem_map_of_mem (mem_of_get (each entry inside))
    have perm : m.keys.Perm m'.keys := (List.subperm_of_subset m.distinct known).perm_of_length_le
      (by simp [keys, length])
    rw [sortedEntries, sortedEntries, ← sortedKeys_eq_of_perm perm]
    refine List.map_congr_left fun key member => ?_
    obtain ⟨⟨_, value⟩, inside, rfl⟩ := List.mem_map.mp (m.sortedKeys_perm.mem_iff.mp member)
    rw [get_of_mem inside, each _ inside]
  · intro same
    refine ⟨?_, fun entry inside => ?_⟩
    · rw [← m.sortedEntries_length, same, m'.sortedEntries_length]
    · refine get_of_mem (mem_sortedEntries.mp ?_)
      rw [← same]
      exact mem_sortedEntries.mpr inside

end StringMap

theorem fieldsEqual_strings (xs ys : List (String × String)) :
    decodedFieldsEqual (xs.map fun e => (e.1, .string e.2)) (ys.map fun e => (e.1, .string e.2)) = decide (xs = ys) := by
  induction xs generalizing ys with
  | nil => cases ys <;> simp [decodedFieldsEqual]
  | cons x xs ih =>
    cases ys with
    | nil => simp [decodedFieldsEqual]
    | cons y ys => simp [decodedFieldsEqual, decodedValuesEqual, ih, Prod.ext_iff, Bool.and_assoc]

theorem parameterFields_eq (p : StringMap) : parameterFields p = p.sortedEntries.map fun e => (e.1, .string e.2) := by
  simp [parameterFields, StringMap.sortedEntries, Function.comp_def]

theorem codecParametersEqual_eq (x y : StringMap) :
    x.eq y = decodedValuesEqual (dvCodecParameters x) (dvCodecParameters y) := by
  have empty : ∀ m : StringMap, m.entries.isEmpty = m.sortedEntries.isEmpty := fun m => by
    rw [Bool.eq_iff_iff, List.isEmpty_iff_length_eq_zero, List.isEmpty_iff_length_eq_zero, m.sortedEntries_length]
  have equal : x.eq y = decide (x.sortedEntries = y.sortedEntries) := by
    rw [Bool.eq_iff_iff, StringMap.eq_iff, decide_eq_true_eq]
  rw [equal, dvCodecParameters, dvCodecParameters, empty x, empty y, parameterFields_eq, parameterFields_eq]
  rcases x.sortedEntries with _ | ⟨e, es⟩ <;> rcases y.sortedEntries with _ | ⟨e', es'⟩
  · rfl
  · rfl
  · rfl
  · exact (fieldsEqual_strings (e :: es) (e' :: es')).symm

theorem dimensionsEqual_eq (x y : List NdDimension) :
    decide (x = y) = decodedValuesEqual (dvDimensions x) (dvDimensions y) := by
  have each : ∀ a b : NdDimension,
      decodedValuesEqual (.structure (dimensionFields a)) (.structure (dimensionFields b)) = decide (a = b) := by
    rintro ⟨size, offset, fullSize, binning, reverse⟩ ⟨size', offset', fullSize', binning', reverse'⟩
    simp [decodedValuesEqual, decodedFieldsEqual, dimensionFields]
  exact (itemsEqual_map_eq _ each x y).symm

theorem stringsEqual_eq (x y : List String) :
    decide (x = y) = decodedValuesEqual (dvStringArray x) (dvStringArray y) :=
  (itemsEqual_map_eq _ (by intro a b; rfl) x y).symm

theorem scalarsEqual_eq (x y : ScalarValue) :
    (scalarsEqual x y).getD (otherViewsEqual (.scalar x) (.scalar y)) = decodedValuesEqual (dvScalar x) (dvScalar y) := by
  have other : otherViewsEqual (.scalar x) (.scalar y) = decodedValuesEqual (dvScalar x) (dvScalar y) := otherViewsEqual_eq _ _
  rw [other]
  cases x <;> cases y <;> rfl

theorem strings_of_array (x : List String) : (View.array (.str x)).toDecoded = dvStringArray x := by
  simp [View.toDecoded, dvScalarArray, dvStringArray, ScalarArrayValue.items, dvScalar]

mutual

theorem viewsEqual_eq : ∀ a b : View, viewsEqual a b = decodedValuesEqual a.toDecoded b.toDecoded
  | .struct x, b => by
    cases b with
    | struct y => exact viewFieldsEqual_eq x y
    | _ => exact otherViewsEqual_eq _ _
  | .scalar x, b => by
    cases b with
    | scalar y => exact scalarsEqual_eq x y
    | _ => exact otherViewsEqual_eq _ _
  | .array x, b => by
    cases b with
    | array y => exact scalarArraysEqual_eq x y
    | strings y =>
      cases x with
      | str x =>
        rw [strings_of_array]
        exact stringsEqual_eq x y
      | _ => exact otherViewsEqual_eq _ _
    | _ => exact otherViewsEqual_eq _ _
  | .strings x, b => by
    cases b with
    | strings y => exact stringsEqual_eq x y
    | array y =>
      cases y with
      | str y =>
        rw [strings_of_array]
        exact (decide_eq_decide.mpr eq_comm).trans (stringsEqual_eq x y)
      | _ => exact otherViewsEqual_eq _ _
    | _ => exact otherViewsEqual_eq _ _
  | .standardChoices, b => by
    cases b with
    | standardChoices => rfl
    | _ => exact otherViewsEqual_eq _ _
  | .dimensions x, b => by
    cases b with
    | dimensions y => exact dimensionsEqual_eq x y
    | _ => exact otherViewsEqual_eq _ _
  | .attributes x, b => by cases b <;> exact otherViewsEqual_eq _ _
  | .codecParameters x, b => by
    cases b with
    | codecParameters y => exact codecParametersEqual_eq x y
    | _ => exact otherViewsEqual_eq _ _

theorem viewFieldsEqual_eq : ∀ x y : List (String × View),
    viewFieldsEqual x y = decodedFieldsEqual (View.decodedFields x) (View.decodedFields y)
  | [], [] => rfl
  | [], _ :: _ => rfl
  | _ :: _, [] => rfl
  | x :: xs, y :: ys => by
    rw [viewFieldsEqual, View.decodedFields, View.decodedFields, decodedFieldsEqual, viewsEqual_eq x.2 y.2,
      viewFieldsEqual_eq xs ys]

end

mutual

theorem pushView_eq (isBe : Bool) : ∀ v : View, pushView isBe v = pushDecodedValue isBe v.toDecoded
  | .scalar v => (push_dvScalar isBe v).symm
  | .array a => (push_dvScalarArray isBe a).symm
  | .strings s => (push_dvStringArray isBe s).symm
  | .standardChoices => (push_dvStringArray isBe standardFormChoices).symm
  | .dimensions _ => rfl
  | .attributes _ => rfl
  | .codecParameters _ => rfl
  | .struct fields => pushViewFields_eq isBe fields

theorem pushViewFields_eq (isBe : Bool) : ∀ fields : List (String × View),
    pushViewFields isBe fields = pushDecodedFields isBe (View.decodedFields fields)
  | [] => rfl
  | f :: fs => by rw [pushViewFields, View.decodedFields, pushDecodedFields, pushView_eq isBe f.2, pushViewFields_eq isBe fs]

end

end Spvirit
