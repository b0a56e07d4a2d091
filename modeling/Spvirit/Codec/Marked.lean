import Spvirit.Codec.Bitset
import Spvirit.Codec.ValueReads

/-! The fields a bitset selects, the bytes that carry them, and the walk that reads them. -/

namespace Spvirit

open Fallible

/-- The bits from `bit` on are the given flags. -/
def BitsAre (bitset : List UInt8) : Nat → List Bool → Prop
  | _, [] => True
  | bit, b :: bs => bitAt bitset bit = b ∧ BitsAre bitset (bit + 1) bs

theorem bitsAre_append {bitset : List UInt8} {bit : Nat} {xs ys : List Bool} :
    BitsAre bitset bit (xs ++ ys) ↔ BitsAre bitset bit xs ∧ BitsAre bitset (bit + xs.length) ys := by
  induction xs generalizing bit with
  | nil => simp [BitsAre]
  | cons x xs ih =>
    have shift : bit + (x :: xs).length = bit + 1 + xs.length := by
      rw [List.length_cons]
      omega
    rw [List.cons_append, BitsAre, ih, BitsAre, shift, and_assoc]

theorem BitsAre.any {bitset : List UInt8} {bit : Nat} {flags : List Bool} (bits : BitsAre bitset bit flags) :
    ((List.range flags.length).any fun i => bitAt bitset (bit + i)) = flags.any id := by
  induction flags generalizing bit with
  | nil => rfl
  | cons b bs ih =>
    have tail := ih bits.2
    rw [List.length_cons, List.range_succ_eq_map, List.any_cons, List.any_map, List.any_cons, ← tail, Nat.add_zero, bits.1]
    simp only [Function.comp_def, id, Nat.succ_eq_add_one]
    congr 2
    funext i
    rw [Nat.add_comm i 1, Nat.add_assoc]

theorem bitsAre_of_forall {bitset : List UInt8} {bit : Nat} {flags : List Bool}
    (each : ∀ i (inside : i < flags.length), bitAt bitset (bit + i) = flags[i]) : BitsAre bitset bit flags := by
  induction flags generalizing bit with
  | nil => trivial
  | cons b bs ih =>
    refine ⟨each 0 (Nat.succ_pos _), ih fun i inside => ?_⟩
    rw [Nat.add_assoc, Nat.add_comm 1]
    exact each (i + 1) (Nat.succ_lt_succ inside)

mutual

theorem subtreeFieldCounts_length : ∀ fs : List FieldDesc, (subtreeFieldCounts fs).length = countFields fs
  | [] => rfl
  | f :: fs => by
    simp only [subtreeFieldCounts, countFields, List.cons_append, List.length_cons, List.length_append,
      nestedCounts_length f.fieldType, subtreeFieldCounts_length fs]
    omega

theorem nestedCounts_length : ∀ ft : FieldType, (nestedCounts ft).length = countNested ft
  | .structure desc => subtreeFieldCounts_length desc.fields
  | .scalar _ | .scalarArray _ | .string | .stringArray | .structureArray _ | .union _ | .unionArray _ | .variant
  | .variantArray | .boundedString _ => rfl

end

def FieldType.isStructure : FieldType → Bool
  | .structure _ => true
  | _ => false

/-- A nested structure is reported unless nothing of it is. -/
def nestedField (name : String) (fields : List (String × DecodedValue)) : List (String × DecodedValue) :=
  if fields.isEmpty then [] else [(name, .structure fields)]

namespace PvdDecoder

/-- `Marked dec fields flags values bytes nodes`: with the flags as the bits of the
fields, depth first, the bytes carry the values. A structure's own flag counts
only if none below it is set: it then stands for the structure as a whole. -/
inductive Marked (dec : PvdDecoder) :
    List FieldDesc → List Bool → List (String × DecodedValue) → List UInt8 → Nat → Prop
  | nil : Marked dec [] [] [] [] 0
  | sent (name : String) {ft v bytes n fs flags vs bs m} : ft.isStructure = false →
      dec.ReadsAs dec.limits.maxDepth n ft bytes v → Marked dec fs flags vs bs m →
      Marked dec (⟨name, ft⟩ :: fs) (true :: flags) ((name, v) :: vs) (bytes ++ bs) (n + m)
  | skipped (name : String) {ft fs flags vs bs m} : ft.isStructure = false → Marked dec fs flags vs bs m →
      Marked dec (⟨name, ft⟩ :: fs) (false :: flags) vs bs m
  | walked (name : String) (own : Bool) {desc inner ws bytes n fs flags vs bs m} : Marked dec desc.fields inner ws bytes n →
      inner.any id = true → Marked dec fs flags vs bs m →
      Marked dec (⟨name, .structure desc⟩ :: fs) (own :: (inner ++ flags)) (nestedField name ws ++ vs) (bytes ++ bs) (n + m)
  | whole (name : String) {desc inner v bytes n fs flags vs bs m} : inner.length = countFields desc.fields →
      inner.any id = false →
      dec.Reads dec.limits.maxDepth n (fun data => dec.decodeStructure data desc) bytes v →
      Marked dec fs flags vs bs m →
      Marked dec (⟨name, .structure desc⟩ :: fs) (true :: (inner ++ flags)) ((name, v) :: vs) (bytes ++ bs) (n + m)
  | absent (name : String) {desc inner fs flags vs bs m} : inner.length = countFields desc.fields → inner.any id = false →
      Marked dec fs flags vs bs m → Marked dec (⟨name, .structure desc⟩ :: fs) (false :: (inner ++ flags)) vs bs m

variable {dec : PvdDecoder} {fs : List FieldDesc} {flags : List Bool} {vs : List (String × DecodedValue)}
  {bytes data rest bitset : List UInt8} {counts : List Nat} {n offset k : Nat}

theorem Marked.cast {bytes' : List UInt8} {n' : Nat} (marked : Marked dec fs flags vs bytes n) (same : bytes = bytes')
    (cost : n = n') : Marked dec fs flags vs bytes' n' := same ▸ cost ▸ marked

theorem countNested_of_leaf {ft : FieldType} (leaf : ft.isStructure = false) : countNested ft = 0 := by
  cases ft <;> first | rfl | simp [FieldType.isStructure] at leaf

theorem Marked.flags_length (marked : Marked dec fs flags vs bytes n) : flags.length = countFields fs := by
  induction marked with
  | nil => rfl
  | sent _ leaf _ _ ih | skipped _ leaf _ ih =>
    rw [List.length_cons, ih, countFields, countNested_of_leaf leaf]
    omega
  | walked _ _ _ _ _ ih ih' =>
    rw [List.length_cons, List.length_append, ih, ih', countFields, countNested]
    omega
  | whole _ count _ _ _ ih | absent _ count _ _ ih =>
    rw [List.length_cons, List.length_append, count, ih, countFields, countNested]
    omega

theorem walkField_leaf {ft : FieldType} {name : String} {bit : Nat} (leaf : ft.isStructure = false) :
    dec.walkField data bitset counts ft name offset bit = dec.walkLeaf data bitset ft name offset bit := by
  cases ft <;> first | rfl | simp [FieldType.isStructure] at leaf

theorem inside_of_drop (nonempty : rest ≠ []) (here : data.drop offset = bytes ++ rest) : offset < data.length := by
  by_contra past
  rw [List.drop_eq_nil_of_le (by omega)] at here
  simp [nonempty] at here

/-- From the offset and the bit behind `k` on, the walk over the fields reports the values and
stops behind so many bytes and flags. -/
def Walks (dec : PvdDecoder) (data bitset : List UInt8) (counts : List Nat) (fs : List FieldDesc) (offset k : Nat)
    (vs : List (String × DecodedValue)) (bytes : List UInt8) (flags : List Bool) (n : Nat) : Prop :=
  dec.Yields dec.limits.maxDepth n (dec.walkFields data bitset counts fs offset (k + 1))
    ⟨vs, offset + bytes.length, k + 1 + flags.length, true⟩

theorem Walks.cons (f : FieldDesc) (own : Bool) (inner : List Bool) (bytes : List UInt8)
    {out : List (String × DecodedValue)} {bs : List UInt8} {m : Nat}
    (head : dec.Yields dec.limits.maxDepth n (dec.walkField data bitset counts f.fieldType f.name offset (k + 1))
      ⟨out, offset + bytes.length, k + 1 + inner.length + 1, true⟩)
    (tail : dec.Walks data bitset counts fs (offset + bytes.length) (k + 1 + inner.length) vs bs flags m) :
    dec.Walks data bitset counts (f :: fs) offset k (out ++ vs) (bytes ++ bs) (own :: (inner ++ flags)) (n + m) := by
  have behind : k + 1 + (own :: (inner ++ flags)).length = k + 1 + inner.length + 1 + flags.length := by
    rw [List.length_cons, List.length_append]
    omega
  rw [Walks, PvdDecoder.walkFields, behind, List.length_append, ← Nat.add_assoc]
  refine head.bind ?_
  rw [if_pos rfl]
  exact tail.bindThen .pure

/-- The count of a field's own fields stands at its bit, theirs and its siblings' behind it. -/
theorem aligned_cons {f : FieldDesc} {more : List Nat} (aligned : counts.drop k = subtreeFieldCounts (f :: fs) ++ more) :
    counts.getD k 0 = countNested f.fieldType ∧
      counts.drop (k + 1) = nestedCounts f.fieldType ++ (subtreeFieldCounts fs ++ more) ∧
      counts.drop (k + 1 + countNested f.fieldType) = subtreeFieldCounts fs ++ more := by
  have first : counts.drop k
      = countNested f.fieldType :: (nestedCounts f.fieldType ++ (subtreeFieldCounts fs ++ more)) := by
    rw [aligned, subtreeFieldCounts, nestedCounts_length]
    simp
  have next : counts.drop (k + 1) = nestedCounts f.fieldType ++ (subtreeFieldCounts fs ++ more) := by
    rw [← List.drop_drop, first]
    rfl
  refine ⟨?_, next, ?_⟩
  · have := congrArg (fun l : List Nat => l[0]?) first
    simp only [List.getElem?_drop, Nat.add_zero, List.getElem?_cons_zero] at this
    simp [List.getD_eq_getElem?_getD, this]
  · rw [← List.drop_drop, next, ← nestedCounts_length, List.drop_left]

theorem drop_append_bytes {bs : List UInt8} (here : data.drop offset = bytes ++ bs ++ rest) :
    data.drop offset = bytes ++ (bs ++ rest) ∧ data.drop (offset + bytes.length) = bs ++ rest := by
  rw [List.append_assoc] at here
  exact ⟨here, by rw [← List.drop_drop, here, List.drop_left]⟩

theorem walkField_structure {desc : StructureDesc} {name : String} {inner : List Bool}
    (count : counts.getD k 0 = inner.length) (bits : BitsAre bitset (k + 1 + 1) inner) :
    dec.walkField data bitset counts (.structure desc) name offset (k + 1) =
      if bitAt bitset (k + 1) ∧ ¬ inner.any id then dec.walkWhole data desc name offset (k + 1 + 1 + inner.length)
      else if inner.any id then do
        let w ← dec.walkFields data bitset counts desc.fields offset (k + 1 + 1)
        if w.finished then
          pure { w with fields := if w.fields.isEmpty then [] else [(name, .structure w.fields)] }
        else pure { w with fields := [] }
      else pure ⟨[], offset, k + 1 + 1 + inner.length, true⟩ := by
  rw [walkField, Nat.add_sub_cancel, count, bits.any]

/-- The bits of a structure's own fields follow its bit, and then its siblings'. -/
theorem structure_bits {own : Bool} {inner : List Bool} (bits : BitsAre bitset (k + 1) (own :: (inner ++ flags))) :
    BitsAre bitset (k + 1 + 1) inner ∧ BitsAre bitset (k + 1 + inner.length + 1) flags := by
  have := bitsAre_append.mp bits.2
  rwa [Nat.add_right_comm (k + 1) 1] at this

theorem aligned_leaf {name : String} {ft : FieldType} {more : List Nat} (leaf : ft.isStructure = false)
    (aligned : counts.drop k = subtreeFieldCounts (⟨name, ft⟩ :: fs) ++ more) :
    counts.drop (k + 1) = subtreeFieldCounts fs ++ more := by
  simpa [countNested_of_leaf leaf] using (aligned_cons aligned).2.2

theorem aligned_structure {name : String} {desc : StructureDesc} {inner : List Bool} {more : List Nat}
    (length : inner.length = countFields desc.fields)
    (aligned : counts.drop k = subtreeFieldCounts (⟨name, .structure desc⟩ :: fs) ++ more) :
    counts.getD k 0 = inner.length ∧ counts.drop (k + 1) = subtreeFieldCounts desc.fields ++ (subtreeFieldCounts fs ++ more) ∧
      counts.drop (k + 1 + inner.length) = subtreeFieldCounts fs ++ more := by
  rw [length]
  exact aligned_cons aligned

namespace Walks

variable {name : String} {v : DecodedValue} {bs : List UInt8} {m : Nat}

theorem leaf {ft : FieldType} (leaf : ft.isStructure = false) (set : bitAt bitset (k + 1) = true)
    (inside : offset < data.length)
    (value : dec.Yields dec.limits.maxDepth n (dec.decodeValue (data.drop offset) ft) (v, bytes.length))
    (tail : dec.Walks data bitset counts fs (offset + bytes.length) (k + 1) vs bs flags m) :
    dec.Walks data bitset counts (⟨name, ft⟩ :: fs) offset k ((name, v) :: vs) (bytes ++ bs) (true :: flags) (n + m) := by
  have head : dec.Yields dec.limits.maxDepth n (dec.walkField data bitset counts ft name offset (k + 1))
      ⟨[(name, v)], offset + bytes.length, k + 1 + 1, true⟩ := by
    rw [walkField_leaf leaf, walkLeaf, if_pos set, if_neg (by omega)]
    exact value.attempt.bindThen .pure
  exact cons ⟨name, ft⟩ true [] bytes head tail

theorem unset {ft : FieldType} (leaf : ft.isStructure = false) (clear : bitAt bitset (k + 1) = false)
    (tail : dec.Walks data bitset counts fs offset (k + 1) vs bytes flags n) :
    dec.Walks data bitset counts (⟨name, ft⟩ :: fs) offset k vs bytes (false :: flags) n := by
  have head : dec.Yields dec.limits.maxDepth 0 (dec.walkField data bitset counts ft name offset (k + 1))
      ⟨[], offset, k + 1 + 1, true⟩ := by
    rw [walkField_leaf leaf, walkLeaf, if_neg (by simp [clear])]
    exact .pure
  have all := cons ⟨name, ft⟩ false [] [] head tail
  rwa [Nat.zero_add] at all

variable {desc : StructureDesc} {inner : List Bool} {own : Bool} (count : counts.getD k 0 = inner.length)
  (bits : BitsAre bitset (k + 1) (own :: (inner ++ flags)))

include count bits

theorem walked {ws : List (String × DecodedValue)} (some : inner.any id = true)
    (nested : dec.Walks data bitset counts desc.fields offset (k + 1) ws bytes inner n)
    (tail : dec.Walks data bitset counts fs (offset + bytes.length) (k + 1 + inner.length) vs bs flags m) :
    dec.Walks data bitset counts (⟨name, .structure desc⟩ :: fs) offset k (nestedField name ws ++ vs) (bytes ++ bs)
      (own :: (inner ++ flags)) (n + m) := by
  refine cons ⟨name, .structure desc⟩ own inner bytes ?_ tail
  dsimp only
  rw [walkField_structure count (structure_bits bits).1, if_neg (by simp [some]), if_pos some, Nat.add_right_comm (k + 1)]
  refine Yields.bindThen nested ?_
  rw [if_pos rfl]
  exact .pure

theorem whole {out : List (String × DecodedValue)} (set : own = true) (none : inner.any id = false)
    (value : dec.Yields dec.limits.maxDepth n (dec.walkWhole data desc name offset (k + 1 + inner.length + 1))
      ⟨out, offset + bytes.length, k + 1 + inner.length + 1, true⟩)
    (tail : dec.Walks data bitset counts fs (offset + bytes.length) (k + 1 + inner.length) vs bs flags m) :
    dec.Walks data bitset counts (⟨name, .structure desc⟩ :: fs) offset k (out ++ vs) (bytes ++ bs)
      (own :: (inner ++ flags)) (n + m) := by
  refine cons ⟨name, .structure desc⟩ own inner bytes ?_ tail
  dsimp only
  rw [walkField_structure count (structure_bits bits).1, if_pos ⟨bits.1.trans set, by simp [none]⟩, Nat.add_right_comm (k + 1)]
  exact value

theorem absent (clear : own = false) (none : inner.any id = false)
    (tail : dec.Walks data bitset counts fs offset (k + 1 + inner.length) vs bytes flags n) :
    dec.Walks data bitset counts (⟨name, .structure desc⟩ :: fs) offset k vs bytes (own :: (inner ++ flags)) n := by
  have head : dec.Yields dec.limits.maxDepth 0 (dec.walkField data bitset counts (.structure desc) name offset (k + 1))
      ⟨[], offset, k + 1 + inner.length + 1, true⟩ := by
    rw [walkField_structure count (structure_bits bits).1, if_neg (by simp [bits.1, clear]), if_neg (by simp [none]),
      Nat.add_right_comm (k + 1)]
    exact .pure
  have all := cons ⟨name, .structure desc⟩ own inner [] head tail
  rwa [Nat.zero_add] at all

end Walks

theorem Marked.walks {more : List Nat} (marked : Marked dec fs flags vs bytes n) (nonempty : rest ≠ [])
    (bits : BitsAre bitset (k + 1) flags) (aligned : counts.drop k = subtreeFieldCounts fs ++ more)
    (here : data.drop offset = bytes ++ rest) : dec.Walks data bitset counts fs offset k vs bytes flags n := by
  induction marked generalizing offset k more rest with
  | nil => exact Yields.pure
  | @sent name ft v bytes n fs flags vs bs m leaf reads tail ih =>
    obtain ⟨split, next⟩ := drop_append_bytes here
    have further : bs ++ rest ≠ [] := by simp [nonempty]
    have value := reads (bs ++ rest) further
    rw [← split] at value
    exact .leaf leaf bits.1 (inside_of_drop further split) value (ih nonempty bits.2 (aligned_leaf leaf aligned) next)
  | skipped name leaf tail ih => exact .unset leaf bits.1 (ih nonempty bits.2 (aligned_leaf leaf aligned) here)
  | walked name own nested some tail ihNested ih =>
    obtain ⟨split, next⟩ := drop_append_bytes here
    obtain ⟨count, below, behind⟩ := aligned_structure nested.flags_length aligned
    obtain ⟨innerBits, others⟩ := structure_bits bits
    exact .walked count bits some (ihNested (by simp [nonempty]) innerBits below split) (ih nonempty others behind next)
  | @whole name desc inner v bytes n fs flags vs bs m length none reads tail ih =>
    obtain ⟨split, next⟩ := drop_append_bytes here
    obtain ⟨count, -, behind⟩ := aligned_structure length aligned
    have further : bs ++ rest ≠ [] := by simp [nonempty]
    have value := reads (bs ++ rest) further
    rw [← split] at value
    have read : dec.Yields dec.limits.maxDepth n (dec.walkWhole data desc name offset (k + 1 + inner.length + 1))
        ⟨[(name, v)], offset + bytes.length, k + 1 + inner.length + 1, true⟩ := by
      rw [walkWhole, if_pos (inside_of_drop further split)]
      exact value.attempt.bindThen .pure
    exact .whole count bits rfl none read (ih nonempty (structure_bits bits).2 behind next)
  | absent name length none tail ih =>
    obtain ⟨count, -, behind⟩ := aligned_structure length aligned
    exact .absent count bits rfl none (ih nonempty (structure_bits bits).2 behind here)

end PvdDecoder

end Spvirit
