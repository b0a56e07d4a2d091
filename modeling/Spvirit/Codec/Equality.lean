import Spvirit.Codec.Types

/-! Types and decoded values can be told apart, so that a run of the decoder can be evaluated. -/

namespace Spvirit

attribute [ext] FieldDescOf StructureDescOf

mutual

def FieldType.same : FieldType → FieldType → Bool
  | .scalar x, .scalar y | .scalarArray x, .scalarArray y => x = y
  | .boundedString x, .boundedString y => x = y
  | .string, .string | .stringArray, .stringArray | .variant, .variant | .variantArray, .variantArray => true
  | .structure x, .structure y | .structureArray x, .structureArray y =>
    x.structId = y.structId && sameFieldTypes x.fields y.fields
  | .union x, .union y | .unionArray x, .unionArray y => sameFieldTypes x y
  | _, _ => false

def sameFieldTypes : List (FieldDescOf FieldType) → List (FieldDescOf FieldType) → Bool
  | [], [] => true
  | f :: fs, g :: gs => f.name = g.name && f.fieldType.same g.fieldType && sameFieldTypes fs gs
  | _, _ => false

end

theorem sameFieldTypes_iff {fs : List FieldDesc} (each : ∀ f ∈ fs, ∀ ft, f.fieldType.same ft ↔ f.fieldType = ft)
    (gs : List FieldDesc) : sameFieldTypes fs gs ↔ fs = gs := by
  induction fs generalizing gs with
  | nil => cases gs <;> simp [sameFieldTypes]
  | cons f fs ih =>
    obtain ⟨head, tail⟩ := List.forall_mem_cons.mp each
    cases gs <;> simp [sameFieldTypes, head, ih tail, FieldDescOf.ext_iff]

theorem FieldType.same_iff (ft ft' : FieldType) : ft.same ft' ↔ ft = ft' := by
  induction ft generalizing ft' with
  | struct _ ih | structArray _ ih => cases ft' <;> simp [same, sameFieldTypes_iff ih, StructureDescOf.ext_iff]
  | union _ ih | unionArray _ ih => cases ft' <;> simp [same, sameFieldTypes_iff ih]
  | _ => cases ft' <;> simp [same]

instance : DecidableEq FieldType := fun ft ft' => decidable_of_iff _ (FieldType.same_iff ft ft')

end Spvirit
