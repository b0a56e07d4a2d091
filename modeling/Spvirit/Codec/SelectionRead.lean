import Spvirit.Codec.Extent
import Spvirit.Codec.Selection

/-! A block of selected leaves is read back where every selected leaf is readable,
at the end of the data too. -/

namespace Spvirit.PvdDecoder

open Fallible

variable {dec : PvdDecoder} {above : Bool} {fs : List FieldDesc} {flags : List Bool} {vs : List DecodedValue}
  {bytes data rest bitset : List UInt8} {counts : List Nat} {levels n offset k : Nat}

/-- Every leaf takes a byte at least. -/
theorem nothing_decodes {ft : FieldType} (leaf : ft.isStructure = false) (fuel : Nat) :
    Returns (dec.decodeValueFuel fuel [] ft) fun _ => False := by
  cases fuel with
  | zero => exact returns_scope (returns_enter .throw)
  | succ fuel =>
    refine returns_scope (returns_enter ?_)
    cases ft with
    | scalar tc =>
      refine .ofExcept fun r decoded => ?_
      have extent := decodeScalar_within decoded
      rw [List.length_nil] at extent
      omega
    | «structure» desc => cases leaf
    | variant | _ => exact .throw

theorem ReadsLeaf.ne_nil {ft : FieldType} {v : DecodedValue} (leaf : ft.isStructure = false)
    (reads : dec.ReadsLeaf levels n ft bytes v) (deep : levels ≤ dec.limits.maxDepth) : bytes ≠ [] := by
  rintro rfl
  have ready : dec.Ready ⟨fun _ => none, 0, 0, n, 1, .nothing⟩ levels n := ⟨Nat.one_pos, by simpa using deep, by simp⟩
  obtain ⟨r, ran⟩ := reads levels le_rfl [] _ ready
  exact nothing_decodes leaf levels _ _ _ ran

section

variable (block : Block dec levels above fs flags vs bytes n)

include block

theorem Block.flags_length : flags.length = countFields fs := by
  induction block with
  | nil => rfl
  | leaf _ leaf _ _ _ ih | unset _ leaf _ _ ih =>
    rw [List.length_cons, ih, countFields, countNested_of_leaf leaf]
    omega
  | nested _ _ _ ih ih' =>
    rw [List.length_cons, List.length_append, ih, ih', countFields, countNested]
    omega

theorem Block.silent (deep : levels ≤ dec.limits.maxDepth)
    (empty : bytes = []) : vs = [] ∧ n = 0 ∧ Shows above fs flags [] [] := by
  induction block with
  | nil => exact ⟨rfl, rfl, .nil _⟩
  | leaf _ leaf _ reads _ _ => exact absurd (List.append_eq_nil_iff.mp empty).1 (reads.ne_nil leaf deep)
  | unset name leaf clear _ ih =>
    obtain ⟨none, cost, shows⟩ := ih empty
    exact ⟨none, cost, .unset name leaf clear shows⟩
  | nested name _ _ ih ih' =>
    obtain ⟨inside, behind⟩ := List.append_eq_nil_iff.mp empty
    obtain ⟨none, cost, shows⟩ := ih inside
    obtain ⟨none', cost', shows'⟩ := ih' behind
    exact ⟨by rw [none, none', List.append_nil], by omega, .hidden name shows shows'⟩

/-- All the leaves of a structure are selected: it is read as a whole. What is
left at the end of the data is at most structures without a leaf. -/
theorem Block.decodeFields (all : above = true)
    (limit : levels ≤ dec.limits.maxDepth) : ∀ (fuel offset : Nat) (data rest : List UInt8),
      levels + fieldsHeight fs ≤ fuel → data.drop offset = bytes ++ rest →
      ∃ out, Shows above fs flags vs out ∧
        dec.Yields fuel n (decodeFields (dec.decodeValueFuel fuel) data fs offset) (out, offset + bytes.length) := by
  induction block with
  | nil => exact fun _ _ _ _ _ _ => ⟨[], .nil _, .pure⟩
  | @leaf above own name ft fs flags v vs bytes bs n m leaf selected reads block ih =>
    intro fuel offset data rest deep here
    obtain ⟨split, next⟩ := drop_append_bytes here
    rw [fieldsHeight] at deep
    obtain ⟨out, shows, tail⟩ := ih all fuel _ data rest (by omega) next
    have inside : ¬ data.length ≤ offset := fun past => by
      rw [List.drop_eq_nil_of_le past] at split
      exact reads.ne_nil leaf limit (List.append_eq_nil_iff.mp split.symm).1
    have value := (reads fuel (by omega) (bs ++ rest)).mono (by omega : levels ≤ fuel)
    rw [← split] at value
    refine ⟨(name, v) :: out, .leaf name leaf selected shows, ?_⟩
    rw [PvdDecoder.decodeFields, if_neg inside]
    refine value.attempt.bind (tail.bindThen ?_)
    rw [List.length_append, ← Nat.add_assoc]
    exact .pure
  | unset _ _ clear _ _ => simp [all] at clear
  | @nested above own name desc inner fs flags ws vs bytes bs n m block others ih ih' =>
    intro fuel offset data rest deep here
    obtain ⟨split, next⟩ := drop_append_bytes here
    rw [fieldsHeight, typeHeight] at deep
    by_cases past : data.length ≤ offset
    · have empty : bytes ++ bs = [] := by
        rw [List.drop_eq_nil_of_le past] at here
        exact (List.append_eq_nil_iff.mp here.symm).1
      obtain ⟨none, cost, shows⟩ := (Block.nested name block others).silent limit empty
      refine ⟨[], none ▸ shows, ?_⟩
      rw [PvdDecoder.decodeFields, if_pos past, empty, cost]
      exact .pure
    · obtain ⟨fuel, rfl⟩ : ∃ k, fuel = k + 1 := ⟨fuel - 1, by omega⟩
      obtain ⟨inside, shows, body⟩ := ih (by simp [all]) fuel 0 (data.drop offset) (bs ++ rest) (by omega)
        (by rwa [List.drop_zero])
      obtain ⟨out, shows', tail⟩ := ih' all (fuel + 1) _ data rest (by omega) next
      have value : dec.Yields (fuel + 1) n (dec.decodeValueFuel (fuel + 1) (data.drop offset) (.structure desc))
          (.structure inside, bytes.length) := by
        rw [Nat.zero_add] at body
        have whole : dec.Yields fuel n (structureBody (dec.decodeValueFuel fuel) (data.drop offset) desc)
            (.structure inside, bytes.length) := body.bindThen .pure
        exact (Yields.scope whole).enter.scope
      refine ⟨(name, .structure inside) :: out, .nested name shows shows', ?_⟩
      rw [PvdDecoder.decodeFields, if_neg past]
      refine value.attempt.bind (tail.bindThen ?_)
      rw [List.length_append, ← Nat.add_assoc]
      exact .pure

end

theorem Block.decodeStructure {desc : StructureDesc} (block : Block dec levels true desc.fields flags vs bytes n)
    (deep : levels + fieldsHeight desc.fields ≤ dec.limits.maxDepth) (rest : List UInt8) :
    ∃ out, Shows true desc.fields flags vs out ∧
      dec.Yields dec.limits.maxDepth n (dec.decodeStructure (bytes ++ rest) desc) (.structure out, bytes.length) := by
  obtain ⟨out, shows, fields⟩ := block.decodeFields rfl (by omega) _ 0 (bytes ++ rest) rest deep List.drop_zero
  rw [Nat.zero_add] at fields
  have whole : dec.Yields dec.limits.maxDepth n (structureBody dec.decodeValue (bytes ++ rest) desc)
      (.structure out, bytes.length) := fields.bindThen .pure
  exact ⟨out, shows, whole.scope⟩

/-- With no structure around it selected and no bit set, a block is empty. -/
theorem Block.none_set (block : Block dec levels above fs flags vs bytes n) (outside : above = false)
    (clear : flags.any id = false) : bytes = [] := by
  induction block with
  | nil => rfl
  | leaf _ _ selected _ _ _ =>
    subst outside
    simp only [List.any_cons, id, Bool.or_eq_false_iff] at clear
    simp [clear.1] at selected
  | unset _ _ _ _ ih =>
    simp only [List.any_cons, Bool.or_eq_false_iff] at clear
    exact ih outside clear.2
  | nested _ _ _ ih ih' =>
    subst outside
    simp only [List.any_cons, List.any_append, id, Bool.or_eq_false_iff] at clear
    rw [ih (by simp [clear.1]) clear.2.1, ih' rfl clear.2.2, List.append_nil]

theorem Block.no_leaf (block : Block dec levels above fs flags vs bytes n) (none : leafless fs = true) : bytes = [] := by
  induction block with
  | nil => rfl
  | @leaf _ _ _ ft _ _ _ _ _ _ _ _ leaf _ _ _ _ | @unset _ _ _ ft _ _ _ _ _ leaf _ _ _ =>
    rw [leafless, Bool.and_eq_true] at none
    cases ft <;> simp [leaflessField, FieldType.isStructure] at none leaf
  | nested _ _ _ ih ih' =>
    rw [leafless, Bool.and_eq_true, leaflessField] at none
    rw [ih none.1, ih' none.2, List.append_nil]

theorem shows_nothing {out : List (String × DecodedValue)} (shows : Shows above fs flags vs out) (none : out = []) :
    vs = [] := by
  induction shows with
  | nil => rfl
  | leaf | nested => cases none
  | unset _ _ _ _ ih => exact ih none
  | hidden _ _ _ _ ih' => exact ih' none

theorem shows_walked {own : Bool} {name : String} {desc : StructureDesc} {inner : List Bool} {ws : List DecodedValue}
    {inside out : List (String × DecodedValue)} (shows : Shows (above || own) desc.fields inner ws inside)
    (others : Shows above fs flags vs out) :
    Shows above (⟨name, .structure desc⟩ :: fs) (own :: (inner ++ flags)) (ws ++ vs) (nestedField name inside ++ out) := by
  unfold nestedField
  split
  case isTrue empty =>
    have none := List.isEmpty_iff.mp empty
    subst none
    have nothing := shows_nothing shows rfl
    subst nothing
    exact .hidden name shows others
  · exact .nested name shows others

/-- A structure read as a whole, or left out at the end of the data. -/
theorem Block.walkWhole {desc : StructureDesc} {inner : List Bool} {ws : List DecodedValue} (name : String)
    (block : Block dec levels true desc.fields inner ws bytes n)
    (deep : levels + fieldsHeight desc.fields ≤ dec.limits.maxDepth) (next : Nat)
    (here : data.drop offset = bytes ++ rest) :
    ∃ shown, dec.Yields dec.limits.maxDepth n (dec.walkWhole data desc name offset next)
        ⟨shown, offset + bytes.length, next, true⟩ ∧
      ∀ {own : Bool} {fs : List FieldDesc} {flags : List Bool} {vs : List DecodedValue} {out : List (String × DecodedValue)},
        (above || own) = true → Shows above fs flags vs out →
        Shows above (⟨name, .structure desc⟩ :: fs) (own :: (inner ++ flags)) (ws ++ vs) (shown ++ out) := by
  unfold PvdDecoder.walkWhole
  by_cases inside : offset < data.length
  · obtain ⟨out, shows, value⟩ := block.decodeStructure deep rest
    rw [← here] at value
    refine ⟨[(name, .structure out)], ?_, fun selected others => .nested name (selected ▸ shows) others⟩
    rw [if_pos inside]
    exact value.attempt.bindThen .pure
  · have empty : bytes = [] := by
      rw [List.drop_eq_nil_of_le (by omega)] at here
      exact (List.append_eq_nil_iff.mp here.symm).1
    obtain ⟨none, cost, shows⟩ := block.silent (by omega) empty
    refine ⟨[], ?_, fun selected others => ?_⟩
    · rw [if_neg inside, empty, cost]
      exact .pure
    · rw [none]
      exact .hidden name (selected ▸ shows) others

/-- The walk reads the block: each selected leaf by its own bit, or with the structure it lies in. -/
theorem Block.walks (block : Block dec levels above fs flags vs bytes n)
    (deep : levels + fieldsHeight fs ≤ dec.limits.maxDepth) :
    ∀ (offset k : Nat) (rest : List UInt8) (more : List Nat), readable above fs flags = true →
      BitsAre bitset (k + 1) flags → counts.drop k = subtreeFieldCounts fs ++ more → data.drop offset = bytes ++ rest →
      ∃ out, Shows above fs flags vs out ∧ dec.Walks data bitset counts fs offset k out bytes flags n := by
  induction block with
  | nil => exact fun _ _ _ _ _ _ _ _ => ⟨[], .nil _, Yields.pure⟩
  | @leaf above own name ft fs flags v vs bytes bs n m leaf selected reads block ih =>
    intro offset k rest more ok bits aligned here
    rw [fieldsHeight] at deep
    obtain ⟨split, next⟩ := drop_append_bytes here
    rw [readable_leaf leaf, Bool.and_eq_true] at ok
    have set : own = true := by
      cases own
      · simp only [Bool.or_false] at selected
        simp [selected] at ok
      · rfl
    subst set
    obtain ⟨out, shows, tail⟩ := ih (by omega) _ (k + 1) rest more ok.2 bits.2 (aligned_leaf leaf aligned) next
    have inside : offset < data.length := by
      by_contra past
      rw [List.drop_eq_nil_of_le (by omega)] at split
      exact reads.ne_nil leaf (by omega) (List.append_eq_nil_iff.mp split.symm).1
    have value := (reads dec.limits.maxDepth (by omega) (bs ++ rest)).mono (by omega : levels ≤ dec.limits.maxDepth)
    rw [← split] at value
    exact ⟨_, .leaf name leaf selected shows, .leaf leaf bits.1 inside value tail⟩
  | @unset above own name ft fs flags vs bs m leaf clear block ih =>
    intro offset k rest more ok bits aligned here
    rw [fieldsHeight] at deep
    rw [readable_leaf leaf, Bool.and_eq_true] at ok
    obtain ⟨-, off⟩ := Bool.or_eq_false_iff.mp clear
    subst off
    obtain ⟨out, shows, tail⟩ := ih (by omega) offset (k + 1) rest more ok.2 bits.2 (aligned_leaf leaf aligned) here
    exact ⟨_, .unset name leaf clear shows, .unset leaf bits.1 tail⟩
  | @nested above own name desc inner fs flags ws vs bytes bs n m block others ih ih' =>
    intro offset k rest more ok bits aligned here
    rw [fieldsHeight, typeHeight] at deep
    obtain ⟨split, next⟩ := drop_append_bytes here
    have length := block.flags_length
    rw [readable_structure length, Bool.and_eq_true] at ok
    obtain ⟨count, below, behind⟩ := aligned_structure length aligned
    obtain ⟨innerBits, otherBits⟩ := structure_bits bits
    obtain ⟨out, shows, tail⟩ := ih' (by omega) _ (k + 1 + inner.length) rest more ok.2 otherBits behind next
    -- what is shown of the structure, whichever way it is read
    cases any : inner.any id with
    | true =>
      rw [readableField, if_pos any] at ok
      obtain ⟨inside, shows', body⟩ := ih (by omega) offset (k + 1) (bs ++ rest) _ ok.1 innerBits below split
      exact ⟨_, shows_walked shows' shows, .walked count bits any body tail⟩
    | false =>
      rw [readableField, if_neg (by simp [any])] at ok
      cases own with
      | true =>
        have selected : (above || true) = true := Bool.or_true above
        rw [selected] at block
        obtain ⟨shown, walked, together⟩ := Block.walkWhole name block (by omega) (k + 1 + inner.length + 1) split
        exact ⟨_, together selected shows, .whole count bits rfl any walked tail⟩
      | false =>
        have empty : bytes = [] := by
          cases outside : above with
          | false => exact block.none_set (by simp [outside]) any
          | true => exact block.no_leaf (by simpa [outside] using ok.1)
        obtain ⟨none, cost, silent⟩ := block.silent (by omega) empty
        subst empty none cost
        refine ⟨_, .hidden name silent shows, ?_⟩
        rw [Nat.zero_add]
        exact .absent count bits rfl any tail

end Spvirit.PvdDecoder
