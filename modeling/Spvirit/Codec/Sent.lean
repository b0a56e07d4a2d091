import Spvirit.Codec.UpdateReads

/-! Values that read back with nothing behind them, as at the end of a PUT. -/

namespace Spvirit

open Fallible

namespace PvdDecoder

variable {dec : PvdDecoder} {fuel : Nat}

/-- The bytes read as `v` at the type, whether anything follows them or not. -/
def StandsAs (dec : PvdDecoder) (fuel : Nat) (ft : FieldType) (bytes : List UInt8) (v : DecodedValue) : Prop :=
  dec.ReadsAlways fuel 0 (fun data => dec.decodeValueFuel fuel data ft) bytes v

theorem StandsAs.level {ft : FieldType} {bytes : List UInt8} {v : DecodedValue}
    (reads : dec.ReadsAlways fuel 0 (fun data => dec.decodeValueWith (dec.decodeValueFuel fuel) data ft) bytes v) :
    dec.StandsAs (fuel + 1) ft bytes v :=
  fun rest => (reads rest).enter.scope

theorem standsAs_scalar {v : DecodedValue} {tc : TypeCode} (code : v.scalarCode = some tc) :
    dec.StandsAs (fuel + 1) (.scalar tc) (pushDecodedValue dec.isBe v) v :=
  .level fun _ => .ofExcept (decodeScalar_push code)

theorem standsAs_string {s : String} (short : Short s) :
    dec.StandsAs (fuel + 1) .string (pushString s dec.isBe) (.string s) :=
  .level fun rest => (readsAlways_string dec fuel short rest).bindFree .pure

theorem standsAs_boundedString {s : String} (bound : UInt32) (short : Short s) :
    dec.StandsAs (fuel + 1) (.boundedString bound) (pushString s dec.isBe) (.string s) :=
  .level fun rest => (readsAlways_string dec fuel short rest).bindFree .pure

abbrev Elements := List (List UInt8 × DecodedValue)

theorem standsAs_array {ft : FieldType} {item : List UInt8 → Nat → DecodeM (DecodedValue × Nat)} {minElem limit : Nat}
    {kind : String} (xs : Elements)
    (array : ∀ data, dec.decodeValueWith (dec.decodeValueFuel fuel) data ft
      = dec.decodeArray data minElem kind limit (item data))
    (small : xs.length < 2 ^ 32) (within : xs.length ≤ limit) (wide : ∀ x ∈ xs, minElem ≤ x.1.length)
    (each : ∀ x ∈ xs, ∀ data offset rest, data.drop offset = x.1 ++ rest →
      dec.Yields fuel 0 (item data offset) (x.2, offset + x.1.length)) :
    dec.StandsAs (fuel + 1) ft (pushSize xs.length dec.isBe ++ xs.flatMap Prod.fst) (.array (xs.map Prod.snd)) := by
  have yields := @decodeArray_yields dec _ fuel (fun _ => True) (fun _ => trivial) Prod.snd Prod.fst (fun _ => 0) xs item _ _
    kind small within wide fun x member data offset rest _ => each x member data offset rest
  refine .level fun rest => ?_
  simpa [array] using yields rest trivial

theorem standsAs_union {fs : List FieldDesc} {selector : Nat} {field : FieldDesc} {bytes : List UInt8} {v : DecodedValue}
    (small : selector < 2 ^ 32) (selected : fs[selector]? = some field)
    (stands : dec.StandsAs fuel field.fieldType bytes v) :
    dec.StandsAs (fuel + 1) (.union fs) (pushSize selector dec.isBe ++ bytes) (.structure [(field.name, v)]) := by
  refine .level fun rest => ?_
  have item := unionItem_yields small selected (stands rest)
    (List.drop_zero : (pushSize selector dec.isBe ++ bytes ++ rest).drop 0 = _)
  rwa [Nat.zero_add] at item

/-- `Sent dec fields flags values bytes`: with the flags as the bits of the fields, depth
first, the bytes carry the values. Only leaves are flagged. -/
inductive Sent (dec : PvdDecoder) : List FieldDesc → List Bool → List (String × DecodedValue) → List UInt8 → Prop
  | nil : Sent dec [] [] [] []
  | sent (name : String) {ft v bytes fs flags vs bs} : ft.isStructure = false → bytes ≠ [] →
      dec.StandsAs dec.limits.maxDepth ft bytes v → Sent dec fs flags vs bs →
      Sent dec (⟨name, ft⟩ :: fs) (true :: flags) ((name, v) :: vs) (bytes ++ bs)
  | skipped (name : String) {ft fs flags vs bs} : ft.isStructure = false → Sent dec fs flags vs bs →
      Sent dec (⟨name, ft⟩ :: fs) (false :: flags) vs bs
  | walked (name : String) {desc inner ws bytes fs flags vs bs} : Sent dec desc.fields inner ws bytes →
      inner.any id = true → ws ≠ [] → Sent dec fs flags vs bs →
      Sent dec (⟨name, .structure desc⟩ :: fs) (false :: (inner ++ flags)) ((name, .structure ws) :: vs) (bytes ++ bs)
  | absent (name : String) {desc fs flags vs bs} : Sent dec fs flags vs bs →
      Sent dec (⟨name, .structure desc⟩ :: fs) (false :: (List.replicate (countFields desc.fields) false ++ flags)) vs bs

variable {fs : List FieldDesc} {flags : List Bool} {vs : List (String × DecodedValue)}
  {bytes data rest bitset : List UInt8} {counts : List Nat} {offset k : Nat}

theorem Sent.flags_length (sent : Sent dec fs flags vs bytes) : flags.length = countFields fs := by
  induction sent with
  | nil => rfl
  | sent _ leaf _ _ _ ih | skipped _ leaf _ ih =>
    rw [List.length_cons, ih, countFields, countNested_of_leaf leaf]
    omega
  | walked _ _ _ _ _ ih ih' =>
    rw [List.length_cons, List.length_append, ih, ih', countFields, countNested]
    omega
  | absent _ _ ih =>
    rw [List.length_cons, List.length_append, List.length_replicate, ih, countFields, countNested]
    omega

theorem inside_of_bytes (nonempty : bytes ≠ []) (here : data.drop offset = bytes ++ rest) : offset < data.length := by
  by_contra past
  rw [List.drop_eq_nil_of_le (by omega)] at here
  exact nonempty (List.append_eq_nil_iff.mp here.symm).1

theorem Sent.walks {more : List Nat} (sent : Sent dec fs flags vs bytes) (bits : BitsAre bitset (k + 1) flags)
    (aligned : counts.drop k = subtreeFieldCounts fs ++ more) (here : data.drop offset = bytes ++ rest) :
    dec.Walks data bitset counts fs offset k vs bytes flags 0 := by
  induction sent generalizing offset k more rest with
  | nil => exact Yields.pure
  | @sent name ft v bytes fs flags vs bs leaf nonempty stands tail ih =>
    obtain ⟨split, next⟩ := drop_append_bytes here
    have value := stands (bs ++ rest)
    rw [← split] at value
    exact .leaf leaf bits.1 (inside_of_bytes nonempty split) value (ih bits.2 (aligned_leaf leaf aligned) next)
  | skipped name leaf tail ih => exact .unset leaf bits.1 (ih bits.2 (aligned_leaf leaf aligned) here)
  | @walked name desc inner ws bytes fs flags vs bs nested some filled tail ihNested ih =>
    obtain ⟨split, next⟩ := drop_append_bytes here
    obtain ⟨count, below, behind⟩ := aligned_structure nested.flags_length aligned
    obtain ⟨innerBits, others⟩ := structure_bits bits
    have shown : nestedField name ws = [(name, .structure ws)] := if_neg (by simpa using filled)
    have walk := @Walks.walked _ _ _ _ _ _ _ _ _ _ _ name _ _ desc _ _ count bits _ some (ihNested innerBits below split)
      (ih others behind next)
    rwa [shown] at walk
  | absent name tail ih =>
    obtain ⟨count, -, behind⟩ := aligned_structure List.length_replicate aligned
    exact .absent count bits rfl (by simp) (ih (structure_bits bits).2 behind here)

/-- Behind its size, a nonempty bitset is taken whole and the rest read as the values. -/
theorem decodeStructureWithBitset_bits {desc : StructureDesc} (small : bitset.length < 2 ^ 32) (filled : bitset ≠ []) :
    dec.decodeStructureWithBitset (pushSize bitset.length dec.isBe ++ bitset ++ bytes) desc = (do
      let (value, consumed) ← dec.decodeStructureWithBitsetBody bytes desc bitset
      pure (value, (pushSize bitset.length dec.isBe).length + bitset.length + consumed)) := by
  have size : decodeSizePrefixed (pushSize bitset.length dec.isBe ++ (bitset ++ bytes)) dec.isBe
      = .ok (bitset.length, (pushSize bitset.length dec.isBe).length) := decodeSizePrefixed_pushSize small
  have positive : bitset.length ≠ 0 := by simpa using filled
  have start : ¬ (pushSize bitset.length dec.isBe ++ bitset ++ bytes).isEmpty := by simp [filled]
  unfold PvdDecoder.decodeStructureWithBitset
  rw [if_neg start, decodeSize, List.append_assoc, size, ofExcept_ok_bind]
  dsimp only
  rw [if_neg (by simp only [List.length_append]; omega), List.drop_left, List.take_left, ← List.drop_drop, List.drop_left,
    List.drop_left]

theorem Sent.decodeStructureWithBitset {desc : StructureDesc} (sent : Sent dec desc.fields flags vs bytes)
    (bits : BitsAre bitset 1 flags) (whole : bitAt bitset 0 = false) (small : bitset.length < 2 ^ 32)
    (filled : bitset ≠ []) :
    (dec.decodeStructureWithBitset (pushSize bitset.length dec.isBe ++ bitset ++ bytes) desc dec.fresh).1
      = .ok (.structure vs, (pushSize bitset.length dec.isBe ++ bitset ++ bytes).length) := by
  have aligned : (subtreeFieldCounts desc.fields).drop 0 = subtreeFieldCounts desc.fields ++ [] := by simp
  have fields := sent.walks bits aligned (List.drop_zero : (bytes ++ []).drop 0 = bytes ++ [])
  simp only [Walks, List.append_nil, Nat.zero_add] at fields
  have walk : dec.Yields dec.limits.maxDepth 0 (dec.bitsetBody bytes desc bitset) (.structure vs, bytes.length) := by
    rw [bitsetBody, if_neg (by simp [whole])]
    exact fields.bindThen .pure
  have value : (dec.decodeStructureWithBitsetBody bytes desc bitset dec.fresh).1 = .ok (.structure vs, bytes.length) :=
    scope_fresh walk (Nat.zero_le _)
  rcases result : dec.decodeStructureWithBitsetBody bytes desc bitset dec.fresh with ⟨r, c⟩
  rw [result] at value
  obtain rfl : r = .ok (.structure vs, bytes.length) := value
  rw [decodeStructureWithBitset_bits small filled, bind_ok result]
  simp [Nat.add_assoc]

end PvdDecoder

end Spvirit
