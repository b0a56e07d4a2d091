import Spvirit.Codec.Marked

/-! What a bitset means: the block of values that carries the selected leaves, and what a result must report. -/

namespace Spvirit

mutual

/-- The fields hold no leaf: they are structures without one. -/
def leafless : List (FieldDescOf FieldType) → Bool
  | [] => true
  | f :: fs => leaflessField f.fieldType && leafless fs

def leaflessField : FieldType → Bool
  | .structure desc => leafless desc.fields
  | _ => false

end

mutual

/-- Each selected leaf has its own bit, or lies in a structure whose bit is set and
below which no bit is. `above` says that a structure around the fields is selected;
the flags are the bits of the fields, depth first. -/
def readable : Bool → List (FieldDescOf FieldType) → List Bool → Bool
  | _, [], _ => true
  | above, f :: fs, flags =>
    readableField above f.fieldType (flags.headD false) ((flags.drop 1).take (countNested f.fieldType)) &&
      readable above fs (flags.drop (1 + countNested f.fieldType))

def readableField : Bool → FieldType → Bool → List Bool → Bool
  | above, .structure desc, own, inner =>
    if inner.any id then readable (above || own) desc.fields inner else own || !above || leafless desc.fields
  | above, _, own, _ => own || !above

end

/-- The result reports the selected leaves, in order, with the given values. A
structure in which no leaf is selected may be reported empty or left out. -/
inductive Shows : Bool → List FieldDesc → List Bool → List DecodedValue → List (String × DecodedValue) → Prop
  | nil (above : Bool) : Shows above [] [] [] []
  | leaf {above own : Bool} (name : String) {ft fs flags v vs out} : ft.isStructure = false → (above || own) = true →
      Shows above fs flags vs out → Shows above (⟨name, ft⟩ :: fs) (own :: flags) (v :: vs) ((name, v) :: out)
  | unset {above own : Bool} (name : String) {ft fs flags vs out} : ft.isStructure = false → (above || own) = false →
      Shows above fs flags vs out → Shows above (⟨name, ft⟩ :: fs) (own :: flags) vs out
  | nested {above own : Bool} (name : String) {desc : StructureDesc} {inner fs flags ws vs inside out} :
      Shows (above || own) desc.fields inner ws inside → Shows above fs flags vs out →
      Shows above (⟨name, .structure desc⟩ :: fs) (own :: (inner ++ flags)) (ws ++ vs) ((name, .structure inside) :: out)
  | hidden {above own : Bool} (name : String) {desc : StructureDesc} {inner fs flags vs out} :
      Shows (above || own) desc.fields inner [] [] → Shows above fs flags vs out →
      Shows above (⟨name, .structure desc⟩ :: fs) (own :: (inner ++ flags)) vs out

namespace PvdDecoder

/-- The bytes read as `v` wherever they stand, with so many levels of nesting to spare. -/
def ReadsLeaf (dec : PvdDecoder) (levels nodes : Nat) (ft : FieldType) (bytes : List UInt8) (v : DecodedValue) : Prop :=
  ∀ fuel, levels ≤ fuel → dec.ReadsAlways levels nodes (fun data => dec.decodeValueFuel fuel data ft) bytes v

/-- A block of values: the bytes of the selected leaves in field order, and no others. -/
inductive Block (dec : PvdDecoder) (levels : Nat) :
    Bool → List FieldDesc → List Bool → List DecodedValue → List UInt8 → Nat → Prop
  | nil (above : Bool) : Block dec levels above [] [] [] [] 0
  | leaf {above own : Bool} (name : String) {ft fs flags v vs bytes bs n m} : ft.isStructure = false →
      (above || own) = true → dec.ReadsLeaf levels n ft bytes v → Block dec levels above fs flags vs bs m →
      Block dec levels above (⟨name, ft⟩ :: fs) (own :: flags) (v :: vs) (bytes ++ bs) (n + m)
  | unset {above own : Bool} (name : String) {ft fs flags vs bs m} : ft.isStructure = false → (above || own) = false →
      Block dec levels above fs flags vs bs m → Block dec levels above (⟨name, ft⟩ :: fs) (own :: flags) vs bs m
  | nested {above own : Bool} (name : String) {desc : StructureDesc} {inner fs flags ws vs bytes bs n m} :
      Block dec levels (above || own) desc.fields inner ws bytes n → Block dec levels above fs flags vs bs m →
      Block dec levels above (⟨name, .structure desc⟩ :: fs) (own :: (inner ++ flags)) (ws ++ vs) (bytes ++ bs) (n + m)

end PvdDecoder

section

variable {above own : Bool} {fs : List FieldDesc} {flags inner : List Bool} {vs : List DecodedValue}
  {out : List (String × DecodedValue)} {name : String}

theorem Shows.flags_length (shows : Shows above fs flags vs out) : flags.length = countFields fs := by
  induction shows with
  | nil => rfl
  | leaf _ leaf _ _ ih | unset _ leaf _ _ ih =>
    rw [List.length_cons, ih, countFields, PvdDecoder.countNested_of_leaf leaf]
    omega
  | nested _ _ _ ih ih' | hidden _ _ _ ih ih' =>
    rw [List.length_cons, List.length_append, ih, ih', countFields, countNested]
    omega

theorem readable_cons {f : FieldDesc} (length : inner.length = countNested f.fieldType) :
    readable above (f :: fs) (own :: (inner ++ flags))
      = (readableField above f.fieldType own inner && readable above fs flags) := by
  have first : ((own :: (inner ++ flags)).drop 1).take (countNested f.fieldType) = inner := by
    rw [List.drop_succ_cons, List.drop_zero, ← length, List.take_left]
  have others : (own :: (inner ++ flags)).drop (1 + countNested f.fieldType) = flags := by
    rw [Nat.add_comm, List.drop_succ_cons, ← length, List.drop_left]
  rw [readable, first, others]
  rfl

theorem readableField_leaf {ft : FieldType} (leaf : ft.isStructure = false) :
    readableField above ft own inner = (own || !above) := by
  cases ft <;> first | rfl | simp [FieldType.isStructure] at leaf

theorem readable_leaf {ft : FieldType} (leaf : ft.isStructure = false) :
    readable above (⟨name, ft⟩ :: fs) (own :: flags) = ((own || !above) && readable above fs flags) := by
  have cons := @readable_cons above own fs flags [] ⟨name, ft⟩ (PvdDecoder.countNested_of_leaf leaf).symm
  rwa [List.nil_append, readableField_leaf leaf] at cons

theorem readable_structure {desc : StructureDesc} (length : inner.length = countFields desc.fields) :
    readable above (⟨name, .structure desc⟩ :: fs) (own :: (inner ++ flags))
      = (readableField above (.structure desc) own inner && readable above fs flags) :=
  readable_cons length

end

end Spvirit
